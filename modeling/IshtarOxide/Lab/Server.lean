import IshtarOxide.Lib.Machine
import IshtarOxide.Lib.Semaphore
import IshtarOxide.Lab.Process

/-!
# The lab server

The handlers of crates/sequential-lab/src/main.rs as a machine over `AppState`.
Everything between two awaits of one task is one action, and so is every section
under a mutex, since none of them contains an await. `run_slot` and
`run_stream_slot` are spawned, so a caller that disconnects only detaches them;
`stream_reset` and `stream_state` run in the handler itself and are dropped with
it, wherever they wait.

`order` records the requests in the order in which the lane was assigned to them.
No action reads it.
-/

open Linux

namespace Lab

/-! ## Requests and answers -/

/-- A request as it reaches its handler. -/
inductive Call
  | health
  | turn (request : TurnRequest)
  | streamChunk (request : StreamChunkRequest)
  | streamReset (sessionCount : Nat)
  | streamState (sessionSlot : UInt16)
deriving DecidableEq, Repr

/-- `LabError`. -/
inductive LabError
  | badRequest
  | unauthorized
  | tooMany
  | conflict
  | stateFull
  | internal
deriving DecidableEq, Repr

/-- The status code and the text of an error. -/
def LabError.response : LabError → Nat × String
  | .badRequest => (400, "bad request")
  | .unauthorized => (401, "unauthorized")
  | .tooMany => (429, "queue full")
  | .conflict => (409, "stream sequence conflict")
  | .stateFull => (413, "stream state full")
  | .internal => (500, "internal error")

/-- `StreamChunkResponse`. -/
structure StreamChunkResponse where
  outcome : Outcome
  sessionSlot : UInt16
  sequence : UInt64
  accumulatedChunks : UInt64
  accumulatedBytes : Nat
  queueWaitUs : UInt64
  executionUs : UInt64
deriving DecidableEq, Repr

/-- `StreamStateResponse`. -/
structure StreamStateResponse where
  sessionSlot : UInt16
  accumulatedChunks : UInt64
  accumulatedBytes : Nat
  sha256 : String
deriving DecidableEq, Repr

/-- `HealthResponse`. -/
structure HealthResponse where
  status : String
  mode : String
  wasmSha256 : String
  stateBytes : Nat
  sessionSlots : Nat
  senderHotIterations : UInt32
  senderColdIterations : UInt32
  senderControlIterations : UInt32
  probeIterations : UInt32
  executionCutoffUs : Nat
  releaseSlotUs : Nat
  streamWasmSha256 : String
  streamStateBytes : Nat
  maxChunkBytes : Nat
  maxPending : Nat
  successfulTurns : Nat
  timedOutTurns : Nat
  failedTurns : Nat
  throttledTurns : Nat
deriving DecidableEq, Repr

/-- What a handler returns. `normalized` is the answer of `normalized_response`. -/
inductive Reply
  | normalized
  | chunk (response : StreamChunkResponse)
  | state (response : StreamStateResponse)
  | health (response : HealthResponse)
  | error (e : LabError)
deriving DecidableEq, Repr

/-- `HeaderValue::to_str` accepts visible ASCII and tabs. -/
def visible (b : UInt8) : Bool := (32 ≤ b && b < 127) || b = 9

/-- `authorize`, on the value of the token header. -/
def authorize (host : Host) (token : List UInt8) (header : Option (List UInt8)) : Bool :=
  let supplied :=
    match header with
    | some value => if value.all visible then host.sha256 value else host.sha256 []
    | none => host.sha256 []
  supplied = host.sha256 token

/-- `hex::encode`. -/
def hexEncode (bytes : List UInt8) : String :=
  String.ofList (bytes.flatMap fun b =>
    [Nat.digitChar (b.toNat / 16), Nat.digitChar (b.toNat % 16)])

/-! ## State -/

/-- `StreamSession`. -/
structure StreamSession where
  accumulated : List UInt8
  nextSequence : UInt64
  chunks : UInt64
deriving DecidableEq, Repr

def StreamSession.empty : StreamSession := ⟨[], 0, 0⟩

/-- The counters of `AppState`. They are unbounded here; an `AtomicU64` wraps only after
2 ^ 64 increments. -/
structure Counters where
  successful : Nat
  timedOut : Nat
  failed : Nat
  throttled : Nat
deriving DecidableEq, Repr

/-- A turn that passed the checks of its handler. -/
abbrev ValidTurn (policy : Policy) : Type := { r : TurnRequest // r.valid policy = true }

/-- A chunk that passed the checks of its handler. -/
abbrev ValidChunk (policy : Policy) : Type := { r : StreamChunkRequest // r.valid policy = true }

theorem ValidTurn.slot_lt {policy : Policy} (w : ValidTurn policy) :
    w.1.sessionSlot.toNat < policy.sessionSlots := by
  have h := w.2
  simp only [TurnRequest.valid, decide_eq_true_eq, not_or] at h
  exact Nat.not_le.mp h.1

theorem ValidChunk.spec {policy : Policy} (w : ValidChunk policy) :
    w.1.sessionSlot.toNat < policy.sessionSlots ∧ 1 ≤ w.1.chunk.length ∧
      w.1.chunk.length ≤ maxChunkBytes := by
  have h := w.2
  simp only [StreamChunkRequest.valid, decide_eq_true_eq, not_or] at h
  exact ⟨Nat.not_le.mp h.1, List.length_pos_iff.mpr h.2.1, Nat.not_lt.mp h.2.2.1⟩

def ValidTurn.slot {policy : Policy} (w : ValidTurn policy) : Fin policy.sessionSlots :=
  ⟨w.1.sessionSlot.toNat, w.slot_lt⟩

def ValidChunk.slot {policy : Policy} (w : ValidChunk policy) : Fin policy.sessionSlots :=
  ⟨w.1.sessionSlot.toNat, w.spec.1⟩

/-- What a request has to do after the checks of its handler. `answered` is one
that was refused or answered there. -/
inductive Work (policy : Policy)
  | answered
  | turn (w : ValidTurn policy)
  | chunk (w : ValidChunk policy)
  | reset (sessionCount : Nat)
  | state (slot : Fin policy.sessionSlots)

/-- The instants that a slot task takes. -/
structure Times where
  receivedAt : Nat
  admittedAt : Nat
  startedAt : Nat
deriving DecidableEq, Repr

/-- Where a request stands. `spawned` is a task that tokio has not polled yet;
`acquiring` is inside `acquire_owned`, whether or not the lane has been assigned;
`admitted` holds the lane and waits for its first mutex; `reporting` is a chunk
that did not succeed and waits for the mutex to read the session; `padding` waits
for its release deadline; `locking` is a `stream_state` that waits for the mutex;
`dropped` is a handler that was dropped with its caller. -/
inductive Phase
  | spawned (receivedAt : Nat)
  | acquiring (receivedAt : Nat)
  | admitted (receivedAt admittedAt : Nat)
  | executing (times : Times) (job : Job) (stage : Stage)
  | reporting (times : Times) (outcome : Outcome) (execution : Nat)
  | padding (release : Option Nat) (reply : Reply)
  | released (reply : Reply)
  | finished (reply : Reply)
  | locking
  | dropped
deriving DecidableEq, Repr

/-- The caller of a request. -/
inductive Caller
  | connected
  | gone
  | answered (time : Nat) (reply : Reply)
deriving DecidableEq, Repr

structure Request (policy : Policy) where
  work : Work policy
  phase : Phase
  child : Option Child
  caller : Caller

/-- `AppState` with the tasks, processes and callers of the requests so far; the
index of a request in `requests` is its name. -/
structure State (policy : Policy) where
  now : Nat
  pending : Nat
  lane : Semaphore 1
  sessions : Fin policy.sessionSlots → StreamSession
  states : Fin policy.sessionSlots → List UInt8
  counters : Counters
  requests : List (Request policy)
  order : List Nat

/-- The state that `serve` builds. -/
def State.initial (policy : Policy) : State policy where
  now := 0
  pending := 0
  lane := .new 1
  sessions := fun _ => .empty
  states := fun _ => List.replicate policy.stateBytes 0
  counters := ⟨0, 0, 0, 0⟩
  requests := []
  order := []

/-- `fetch_sub(1)` on an `AtomicUsize`: it wraps below zero. -/
def fetchSub : Nat → Nat
  | 0 => 2 ^ 64 - 1
  | count + 1 => count

namespace State

variable {policy : Policy}

def put (s : State policy) (id : Nat) (r : Request policy) : State policy :=
  { s with requests := s.requests.set id r }

def push (s : State policy) (r : Request policy) : State policy :=
  { s with requests := s.requests ++ [r] }

/-- The lane is asked for. -/
def acquire (s : State policy) (id : Nat) : State policy :=
  { s with
    lane := s.lane.acquire id
    order := s.order ++ if 0 < s.lane.free then [id] else [] }

/-- The lane is given back; the next waiter has it now. -/
def release (s : State policy) (id : Nat) : State policy :=
  { s with
    lane := s.lane.release id
    order := s.order ++ s.lane.next.toList }

/-- `health_response`. -/
def healthResponse (host : Host) (s : State policy) : HealthResponse where
  status := "ok"
  mode := "fresh_process_per_chunk_global_serialization"
  wasmSha256 := hexEncode (host.sha256 host.module)
  stateBytes := policy.stateBytes
  sessionSlots := policy.sessionSlots
  senderHotIterations := policy.senderHotIterations
  senderColdIterations := policy.senderColdIterations
  senderControlIterations := policy.senderControlIterations
  probeIterations := policy.probeIterations
  executionCutoffUs := policy.executionCutoff
  releaseSlotUs := policy.releaseSlot.getD 0
  streamWasmSha256 := hexEncode (host.sha256 host.streamModule)
  streamStateBytes := streamStateBytes
  maxChunkBytes := maxChunkBytes
  maxPending := maxPending
  successfulTurns := s.counters.successful
  timedOutTurns := s.counters.timedOut
  failedTurns := s.counters.failed
  throttledTurns := s.counters.throttled

/-- The handler answers without having touched anything. -/
def answer (s : State policy) (reply : Reply) : State policy :=
  s.push ⟨.answered, .finished reply, none, .answered s.now reply⟩

/-- The end of `turn` and `stream_chunk`: `fetch_update` on `pending`, and the
spawn. -/
def accept (s : State policy) (work : Work policy) : State policy :=
  if s.pending < maxPending then
    { s.push ⟨work, .spawned s.now, none, .connected⟩ with pending := s.pending + 1 }
  else
    { s.answer (.error .tooMany) with
      counters := { s.counters with throttled := s.counters.throttled + 1 } }

/-- A handler, up to its first await. -/
def arrive (host : Host) (token : List UInt8) (s : State policy) (header : Option (List UInt8))
    (call : Call) : State policy :=
  if authorize host token header = false then s.answer (.error .unauthorized)
  else
    match call with
    | .health => s.answer (.health (healthResponse host s))
    | .turn r => if h : r.valid policy then s.accept (.turn ⟨r, h⟩) else s.answer (.error .badRequest)
    | .streamChunk r =>
      if h : r.valid policy then s.accept (.chunk ⟨r, h⟩) else s.answer (.error .badRequest)
    | .streamReset count =>
      if count = 0 ∨ policy.sessionSlots < count then s.answer (.error .badRequest)
      else (s.push ⟨.reset count, .acquiring s.now, none, .connected⟩).acquire s.requests.length
    | .streamState slot =>
      if h : slot.toNat < policy.sessionSlots then
        s.push ⟨.state ⟨slot.toNat, h⟩, .locking, none, .connected⟩
      else s.answer (.error .badRequest)

/-- The caller goes away. A handler that still waits is dropped, and with it the
lane or the place in its queue. -/
def disconnect (s : State policy) (id : Nat) (r : Request policy) : State policy :=
  match r.work, r.phase with
  | .reset _, .acquiring _ =>
    let s' := s.put id { r with phase := .dropped, caller := .gone }
    if id ∈ s.lane.holders then s'.release id else { s' with lane := s.lane.cancel id }
  | .reset _, .admitted .. => (s.put id { r with phase := .dropped, caller := .gone }).release id
  | .state _, .locking => s.put id { r with phase := .dropped, caller := .gone }
  | _, _ => s.put id { r with caller := .gone }

/-- The slot task's return with an error before it ran anything. -/
def refuse (s : State policy) (id : Nat) (r : Request policy) (e : LabError) : State policy :=
  (s.put id { r with phase := .released (.error e) }).release id

/-- The runner is about to be launched. -/
def start (s : State policy) (id : Nat) (r : Request policy) (receivedAt admittedAt : Nat)
    (job : Job) : State policy :=
  s.put id { r with phase := .executing ⟨receivedAt, admittedAt, s.now⟩ job .launching }

/-- The first mutex section of a request that holds the lane. -/
def enter (host : Host) (s : State policy) (id : Nat) (r : Request policy)
    (receivedAt admittedAt : Nat) : State policy :=
  match r.work with
  | .turn w =>
    s.start id r receivedAt admittedAt (executeProcess host policy (s.states w.slot) w.1.role
      w.1.bit (iterationsFor w.1.role w.1.bit policy))
  | .chunk w =>
    let session := s.sessions w.slot
    if w.1.sequence ≠ session.nextSequence then s.refuse id r .conflict
    else if streamStateBytes < saturatingAdd session.accumulated.length w.1.chunk.length then
      s.refuse id r .stateFull
    else
      s.start id r receivedAt admittedAt
        (executeStreamProcess host policy session.accumulated w.1.chunk)
  | .reset count =>
    { (s.put id { r with phase := .finished .normalized }).release id with
      sessions := fun slot => if slot.val < count then .empty else s.sessions slot }
  | .answered | .state _ => s

/-- When the lane may be released. -/
def releaseDeadline (policy : Policy) (times : Times) : Option Nat :=
  policy.releaseSlot.map (times.admittedAt + ·)

/-- The answer to a chunk, from the session as it is. -/
def chunkReply (s : State policy) (w : ValidChunk policy) (times : Times) (outcome : Outcome)
    (execution : Nat) : Reply :=
  .chunk {
    outcome := outcome
    sessionSlot := w.1.sessionSlot
    sequence := w.1.sequence
    accumulatedChunks := (s.sessions w.slot).chunks
    accumulatedBytes := (s.sessions w.slot).accumulated.length
    queueWaitUs := .ofNat (times.admittedAt - times.receivedAt)
    executionUs := .ofNat execution }

/-- The counter of an outcome goes up. -/
def count (s : State policy) : Outcome → State policy
  | .complete => { s with counters := { s.counters with successful := s.counters.successful + 1 } }
  | .timedOut => { s with counters := { s.counters with timedOut := s.counters.timedOut + 1 } }
  | .failed => { s with counters := { s.counters with failed := s.counters.failed + 1 } }

/-- A chunk succeeded: the second mutex section. -/
def commit (s : State policy) (w : ValidChunk policy) (next : List UInt8) : State policy :=
  let session := s.sessions w.slot
  { s.count .complete with
    sessions := Function.update s.sessions w.slot
      ⟨next, session.nextSequence + 1, session.chunks + 1⟩ }

/-- The reply is known, and the lane is kept until the release deadline. -/
def pad (s : State policy) (id : Nat) (r : Request policy) (times : Times) (reply : Reply) :
    State policy :=
  s.put id { r with phase := .padding (releaseDeadline policy times) reply }

/-- A chunk did not succeed, and its session is about to be looked at. -/
def miss (s : State policy) (id : Nat) (r : Request policy) (times : Times) (outcome : Outcome) :
    State policy :=
  (s.count outcome).put id { r with phase := .reporting times outcome (s.now - times.startedAt) }

/-- The runner has returned `result`. -/
def settle (s : State policy) (id : Nat) (r : Request policy) (times : Times)
    (result : ProcessResult) : State policy :=
  match r.work, result with
  | .turn w, .success next =>
    { s.count .complete with states := Function.update s.states w.slot next }.pad id r times
      .normalized
  | .turn _, .timedOut => (s.count .timedOut).pad id r times .normalized
  | .turn _, .failed => (s.count .failed).pad id r times .normalized
  | .chunk w, .success next =>
    let s := s.commit w next
    s.pad id r times (s.chunkReply w times .complete (s.now - times.startedAt))
  | .chunk _, .timedOut => s.miss id r times .timedOut
  | .chunk _, .failed => s.miss id r times .failed
  | _, _ => s

/-- `stream_state` under the mutex. -/
def stateReply (host : Host) (s : State policy) (slot : Fin policy.sessionSlots) : Reply :=
  .state {
    sessionSlot := .ofNat slot.val
    accumulatedChunks := (s.sessions slot).chunks
    accumulatedBytes := (s.sessions slot).accumulated.length
    sha256 := hexEncode (host.sha256 (s.sessions slot).accumulated) }

end State

/-! ## Actions -/

inductive Action
  | arrive (header : Option (List UInt8)) (call : Call)
  | disconnect (id : Nat)
  | poll (id : Nat)
  | grant (id : Nat)
  | enter (id : Nat)
  | process (id : Nat) (event : ProcessEvent)
  | settle (id : Nat)
  | report (id : Nat)
  | leave (id : Nat)
  | finish (id : Nat)
  | read (id : Nat)
  | respond (id : Nat)
  | advance (d : Nat)
deriving DecidableEq, Repr

/-- An event of the process of request `r`. The child may write and exit whatever
the slot task is doing. -/
def Request.process {policy : Policy} (host : Host) (now : Nat) (r : Request policy)
    (event : ProcessEvent) : Option (Request policy) :=
  match r.phase with
  | .executing times job stage =>
    (stage.step host job (times.admittedAt + policy.executionCutoff ≤ now) r.child event).map
      fun (stage, child) => { r with phase := .executing times job stage, child := child }
  | _ => (r.child.bind (·.step host event)).map fun c => { r with child := some c }

/-- One action on the request `id`, which is `r`. -/
def stepAt (host : Host) {policy : Policy} (s : State policy) (id : Nat) (r : Request policy) :
    Action → Option (State policy)
  | .disconnect _ => if r.caller = .connected then some (s.disconnect id r) else none
  | .poll _ =>
    match r.phase with
    | .spawned t => some ((s.put id { r with phase := .acquiring t }).acquire id)
    | _ => none
  | .grant _ =>
    match r.phase with
    | .acquiring t =>
      if id ∈ s.lane.holders then some (s.put id { r with phase := .admitted t s.now }) else none
    | _ => none
  | .enter _ =>
    match r.phase with
    | .admitted received admitted => some (s.enter host id r received admitted)
    | _ => none
  | .process _ event => (r.process host s.now event).map (s.put id)
  | .settle _ =>
    match r.phase with
    | .executing times _ (.returned result) => some (s.settle id r times result)
    | _ => none
  | .report _ =>
    match r.phase, r.work with
    | .reporting times outcome execution, .chunk w =>
      some (s.pad id r times (s.chunkReply w times outcome execution))
    | _, _ => none
  | .leave _ =>
    match r.phase with
    | .padding release reply =>
      if release.all (· ≤ s.now) then some ((s.put id { r with phase := .released reply }).release id)
      else none
    | _ => none
  | .finish _ =>
    match r.phase with
    | .released reply =>
      some { s.put id { r with phase := .finished reply } with pending := fetchSub s.pending }
    | _ => none
  | .read _ =>
    match r.phase, r.work with
    | .locking, .state slot =>
      some (s.put id { r with phase := .finished (s.stateReply host slot) })
    | _, _ => none
  | .respond _ =>
    match r.phase with
    | .finished reply =>
      if r.caller = .connected then some (s.put id { r with caller := .answered s.now reply })
      else none
    | _ => none
  | .arrive .. | .advance _ => none

/-- The request that an action is about. -/
def Action.id : Action → Nat
  | .disconnect id | .poll id | .grant id | .enter id | .process id _ | .settle id | .report id
  | .leave id | .finish id | .read id | .respond id => id
  | .arrive .. | .advance _ => 0

/-- One action. -/
def step (host : Host) (token : List UInt8) {policy : Policy} (s : State policy) (a : Action) :
    Option (State policy) :=
  match a with
  | .arrive header call => some (s.arrive host token header call)
  | .advance d => some { s with now := s.now + d }
  | a => s.requests[a.id]?.bind fun r => stepAt host s a.id r a

/-- The lab, for the token and policy that `serve` was started with. -/
def machine (host : Host) (token : List UInt8) (policy : Policy) : Machine (State policy) Action :=
  ⟨.initial policy, step host token⟩

section Machine

variable {host : Host} {token : List UInt8} {policy : Policy} {s : State policy} {a : Action}

@[simp] theorem machine_init : (machine host token policy).init = .initial policy := rfl

@[simp] theorem machine_step : (machine host token policy).step s a = step host token s a := rfl

/-- A runner whose `main` has written what it returns may exit with success. -/
theorem step_exit {id n : Nat} {r : Request policy} {times : Times} {job : Job} {stage : Stage}
    {c : Child} (hr : s.requests[id]? = some r) (hp : r.phase = .executing times job stage)
    (hc : r.child = some c) (hlive : c.live)
    (hmain : main host c.argv (c.stdin.take n) = .ok c.stdout) :
    step host token s (.process id (.exit (.code 0) n)) =
      some (s.put id { r with child := some { c with status := some (.code 0) } }) := by
  obtain ⟨work, phase, child, caller⟩ := r
  cases hp
  cases hc
  have hexit : c.step host (.exit (.code 0) n) = some { c with status := some (.code 0) } :=
    if_pos ⟨hlive, fun _ => hmain⟩
  unfold step
  simp only [Action.id, hr, Option.bind_some, stepAt, Request.process, Stage.step, hexit,
    Option.map_some]

end Machine

end Lab
