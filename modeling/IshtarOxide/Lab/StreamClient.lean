import IshtarOxide.Lab.Server

/-!
# The client of the stream benchmark

`run_session` and `run_scenario` of `stream_benchmark` in
crates/sequential-lab/src/main.rs, as tasks and a driver that collects them. How they
hear of their answers is left to whatever they run against.

Rates are floating point. All that the tasks take from them is the offset of an
index, which is a parameter here; the metrics of the report that are computed from
times are left out. The client has a clock of its own, in nanoseconds. No counter
gets past the number of chunks that are offered, so all are natural numbers.
-/

namespace Lab

/-! ## Chunks -/

/-- `LOREM`. -/
def lorem : List UInt8 :=
  ("Lorem ipsum dolor sit amet, consectetur adipiscing elit, sed do eiusmod tempor ".toList ++
    "incididunt ut labore et dolore magna aliqua. ".toList).map fun c => .ofNat c.toNat

/-- `lorem_chunk`. The product is one of 64-bit integers. -/
def loremChunk (sequence : UInt64) (bytes : Nat) : List UInt8 :=
  let start := sequence.toNat * bytes % 2 ^ 64 % lorem.length
  (List.range bytes).map fun offset => lorem.getD ((start + offset) % lorem.length) 0

/-! ## One session -/

/-- `StreamChunkRecord`. -/
structure StreamChunkRecord where
  sessionSlot : UInt16
  sequence : UInt64
  scheduledOffsetUs : UInt64
  requestOffsetUs : UInt64
  latencyUs : UInt64
  outcome : String
  queueWaitUs : Option UInt64
  executionUs : Option UInt64
deriving DecidableEq, Repr

/-- `SessionRun`. -/
structure SessionRun where
  records : List StreamChunkRecord
  expected : List UInt8
  completed : Nat
  serverThrottled : Nat
  clientBackpressured : Nat
  failed : Nat
deriving DecidableEq, Repr

/-- What the tasks of a scenario share. `token` is what the client sends in its
header, `offset` the `scheduled_offset` of an index. -/
structure Scenario where
  token : List UInt8
  sessionCount : Nat
  offeredChunks : Nat
  chunkBytes : Nat
  started : Nat
  offset : Nat → Nat

/-- `Duration::as_micros`, of nanoseconds. -/
def asMicros (duration : Nat) : UInt64 := .ofNat (duration / 1000)

/-- Where a `run_session` stands: at the head of its loop; inside `send` or `json`,
with the request's name once it has reached the server; returned, and whether
`join_next` has taken the result; or returned with an error. -/
inductive TaskPhase
  | looping
  | awaiting (index : Nat) (requestStarted : Nat) (request : Option Nat)
  | returned (joined : Bool)
  | failed
deriving DecidableEq, Repr

/-- The chunks that a task has sent and not heard of. -/
def TaskPhase.inFlight : TaskPhase → Nat
  | .awaiting .. => 1
  | _ => 0

/-- A `run_session` with its variables; `indices` are those still to come. -/
structure Task where
  slot : UInt16
  indices : List Nat
  run : SessionRun
  nextSequence : UInt64
  availableAt : Nat
  phase : TaskPhase
deriving DecidableEq, Repr

/-- `run_session`, at its start. -/
def runSession (scenario : Scenario) (slot : UInt16) (indices : List Nat) (omitted : Nat) :
    Task where
  slot := slot
  indices := indices
  run := ⟨[], [], 0, 0, omitted, 0⟩
  nextSequence := 0
  availableAt := scenario.started
  phase := .looping

/-- What `run_session` reads of a `StreamChunkResponse`. -/
structure ChunkBody where
  outcome : String
  sequence : UInt64
  queueWaitUs : UInt64
  executionUs : UInt64
deriving DecidableEq, Repr

/-- The response to a chunk: 429, another error or a body that cannot be read, or a body. -/
inductive ServerAnswer
  | tooMany
  | rejected
  | accepted (body : ChunkBody)
deriving DecidableEq, Repr

namespace Task

variable (scenario : Scenario) (t : Task)

def push (record : StreamChunkRecord) : Task :=
  { t with run := { t.run with records := t.run.records ++ [record] } }

/-- `scheduled_at < available_at`. -/
def late (index : Nat) : Bool := scenario.started + scenario.offset index < t.availableAt

/-- The chunk that the task sends next. -/
def request : StreamChunkRequest where
  sessionSlot := t.slot
  sequence := t.nextSequence
  chunk := loremChunk t.nextSequence scenario.chunkBytes

/-- The chunk of an index is not sent. -/
def skip (index : Nat) : Task :=
  { t with run := { t.run with clientBackpressured := t.run.clientBackpressured + 1 } }.push {
    sessionSlot := t.slot
    sequence := t.nextSequence
    scheduledOffsetUs := asMicros (scenario.offset index)
    requestOffsetUs := 0
    latencyUs := 0
    outcome := "client_backpressure"
    queueWaitUs := none
    executionUs := none }

/-- The server says that it accepted the chunk. -/
def complete : Task :=
  { t with
    nextSequence := t.nextSequence + 1
    run := { t.run with
      expected := t.run.expected ++ upperAll (t.request scenario).chunk
      completed := t.run.completed + 1 } }

/-- The server says anything else. -/
def miss : Task := { t with run := { t.run with failed := t.run.failed + 1 } }

def ran (outcome : String) : Task := if outcome = "complete" then t.complete scenario else t.miss

/-- The server had no room in its queue. -/
def throttle : Task := { t with run := { t.run with serverThrottled := t.run.serverThrottled + 1 } }

/-- The rest of the loop's body, at time `now`, after the response to the chunk of
`index`. -/
def receive (index : Nat) (requestStarted now : Nat) : ServerAnswer → Task
  | .tooMany =>
    { t.throttle with availableAt := now, phase := .looping }.push {
      sessionSlot := t.slot
      sequence := t.nextSequence
      scheduledOffsetUs := asMicros (scenario.offset index)
      requestOffsetUs := asMicros (requestStarted - scenario.started)
      latencyUs := asMicros (now - requestStarted)
      outcome := "server_throttled"
      queueWaitUs := none
      executionUs := none }
  | .rejected => { t with phase := .failed }
  | .accepted body =>
    { t.ran scenario body.outcome with availableAt := now, phase := .looping }.push {
      sessionSlot := t.slot
      sequence := body.sequence
      scheduledOffsetUs := asMicros (scenario.offset index)
      requestOffsetUs := asMicros (requestStarted - scenario.started)
      latencyUs := asMicros (now - requestStarted)
      outcome := body.outcome
      queueWaitUs := some body.queueWaitUs
      executionUs := some body.executionUs }

end Task

/-! ## A scenario -/

namespace Scenario

variable (scenario : Scenario) (maxChunksPerSession : Nat)

/-- `(slot..offered_chunks).step_by(session_count)`. -/
def offered (slot : Nat) : List Nat :=
  List.range' slot
    ((scenario.offeredChunks - slot + (scenario.sessionCount - 1)) / scenario.sessionCount)
    scenario.sessionCount

/-- The `indices` of a session. -/
def indices (slot : Nat) : List Nat := (scenario.offered slot).take maxChunksPerSession

/-- `omitted_for_capacity`. -/
def omittedForCapacity (slot : Nat) : Nat :=
  (scenario.offered slot).length - (scenario.indices maxChunksPerSession slot).length

/-- The tasks that `run_scenario` spawns. -/
def tasks : List Task :=
  (List.range scenario.sessionCount).map fun slot =>
    runSession scenario (.ofNat slot) (scenario.indices maxChunksPerSession slot)
      (scenario.omittedForCapacity maxChunksPerSession slot)

end Scenario

/-- What `run_scenario` has collected from its tasks. -/
structure Tally where
  records : List StreamChunkRecord
  expected : List (List UInt8)
  attempted : Nat
  completed : Nat
  serverThrottled : Nat
  clientBackpressured : Nat
  failed : Nat
deriving DecidableEq, Repr

def Tally.empty (sessionCount : Nat) : Tally :=
  ⟨[], List.replicate sessionCount [], 0, 0, 0, 0, 0⟩

/-- The records that count as attempts. -/
def StreamChunkRecord.attempt (record : StreamChunkRecord) : Bool :=
  record.outcome ≠ "client_backpressure"

/-- The body of the `join_next` loop. The index into `expected` is in bounds for
the tasks that `run_scenario` spawns. -/
def Tally.join (tally : Tally) (slot : UInt16) (run : SessionRun) : Tally where
  records := tally.records ++ run.records
  expected := tally.expected.set slot.toNat run.expected
  attempted := tally.attempted + run.records.countP (·.attempt)
  completed := tally.completed + run.completed
  serverThrottled := tally.serverThrottled + run.serverThrottled
  clientBackpressured := tally.clientBackpressured + run.clientBackpressured
  failed := tally.failed + run.failed

/-- The order of `sort_by_key`. -/
def StreamChunkRecord.le (a b : StreamChunkRecord) : Bool :=
  a.scheduledOffsetUs < b.scheduledOffsetUs ||
    (a.scheduledOffsetUs = b.scheduledOffsetUs && a.sessionSlot ≤ b.sessionSlot)

def Tally.sort (tally : Tally) : Tally :=
  { tally with records := tally.records.mergeSort StreamChunkRecord.le }

def StreamChunkRecord.completes (slot : Nat) (record : StreamChunkRecord) : Bool :=
  record.sessionSlot.toNat = slot && record.outcome = "complete"

/-- The completed chunks of a session. -/
def Tally.completedIn (tally : Tally) (slot : Nat) : Nat :=
  tally.records.countP (·.completes slot)

/-- The session's state matches what its task expects. -/
def Tally.matches (sha256 : List UInt8 → List UInt8) (tally : Tally) (slot : Nat)
    (expected : List UInt8) (actual : StreamStateResponse) : Bool :=
  actual.sha256 = hexEncode (sha256 expected) && actual.accumulatedBytes = expected.length &&
    actual.accumulatedChunks = .ofNat (tally.completedIn slot)

/-- `StreamScenarioReport`. -/
structure StreamScenarioReport where
  sessionCount : Nat
  offeredChunks : Nat
  attemptedChunks : Nat
  completedChunks : Nat
  throttledChunks : Nat
  serverThrottledChunks : Nat
  clientBackpressuredChunks : Nat
  failedChunks : Nat
  minCompletedPerSession : Nat
  maxCompletedPerSession : Nat
  verifiedSessions : Nat
  stateMismatches : Nat
  records : List StreamChunkRecord
deriving DecidableEq, Repr

def Tally.report (scenario : Scenario) (tally : Tally) (verified mismatches : Nat) :
    StreamScenarioReport :=
  let completedPerSession := (List.range scenario.sessionCount).map tally.completedIn
  { sessionCount := scenario.sessionCount
    offeredChunks := scenario.offeredChunks
    attemptedChunks := tally.attempted
    completedChunks := tally.completed
    throttledChunks := tally.serverThrottled + tally.clientBackpressured
    serverThrottledChunks := tally.serverThrottled
    clientBackpressuredChunks := tally.clientBackpressured
    failedChunks := tally.failed
    minCompletedPerSession := completedPerSession.min?.getD 0
    maxCompletedPerSession := completedPerSession.max?.getD 0
    verifiedSessions := verified
    stateMismatches := mismatches
    records := tally.records }

/-- Where `run_scenario` stands: collecting its tasks; verifying the session
`slot`, with the name of its request for the server's state once that was sent;
or returned. -/
inductive Driver
  | joining (tally : Tally)
  | verifying (tally : Tally) (slot : Nat) (request : Option Nat) (verified mismatches : Nat)
  | returned (report : StreamScenarioReport)
  | failed
deriving DecidableEq, Repr

/-- `run_scenario` and the tasks that it has spawned. -/
structure Client where
  tasks : List Task
  driver : Driver
deriving DecidableEq, Repr

/-- What is done with the answer to the request for the state of `slot`, `none` if it
is an error or cannot be read. -/
def Driver.verify (sha256 : List UInt8 → List UInt8) (tally : Tally)
    (slot verified mismatches : Nat) (answer : Option StreamStateResponse) : Driver :=
  match answer, tally.expected[slot]? with
  | some actual, some expected =>
    if tally.matches sha256 slot expected actual then
      .verifying tally (slot + 1) none (verified + 1) mismatches
    else .verifying tally (slot + 1) none verified (mismatches + 1)
  | _, _ => .failed

namespace Client

variable (c : Client)

/-- `join_next` returns the result of a task. -/
def join (k : Nat) : Option Client :=
  match c.driver with
  | .joining tally =>
    c.tasks[k]?.bind fun t =>
      match t.phase with
      | .returned false => some
        { tasks := c.tasks.set k { t with phase := .returned true }
          driver := .joining (tally.join t.slot t.run) }
      | .failed => some { c with driver := .failed }
      | _ => none
  | _ => none

/-- `join_next` returns `None`. -/
def joined : Option Client :=
  match c.driver with
  | .joining tally =>
    if c.tasks.all (·.phase = .returned true) then
      some { c with driver := .verifying tally.sort 0 none 0 0 }
    else none
  | _ => none

/-- `run_scenario` returns. -/
def conclude (scenario : Scenario) : Option Client :=
  match c.driver with
  | .verifying tally slot none verified mismatches =>
    if slot = tally.expected.length then
      some { c with driver := .returned (tally.report scenario verified mismatches) }
    else none
  | _ => none

variable {c} {c' : Client} {k : Nat} {scenario : Scenario}

theorem join_eq_some (h : c.join k = some c') :
    ∃ tally t, c.driver = .joining tally ∧ c.tasks[k]? = some t ∧
      (t.phase = .returned false ∧ c' = ⟨c.tasks.set k { t with phase := .returned true },
        .joining (tally.join t.slot t.run)⟩ ∨
      t.phase = .failed ∧ c' = { c with driver := .failed }) := by
  unfold join at h
  split at h
  · next tally hd =>
    obtain ⟨t, ht, h⟩ := Option.bind_eq_some_iff.mp h
    split at h
    · next hp =>
      cases h
      exact ⟨tally, t, hd, ht, .inl ⟨hp, rfl⟩⟩
    · next hp =>
      cases h
      exact ⟨tally, t, hd, ht, .inr ⟨hp, rfl⟩⟩
    · cases h
  · cases h

theorem joined_eq_some (h : c.joined = some c') :
    ∃ tally, c.driver = .joining tally ∧ (∀ t ∈ c.tasks, t.phase = .returned true) ∧
      c' = { c with driver := .verifying tally.sort 0 none 0 0 } := by
  unfold joined at h
  split at h
  · next tally hd =>
    obtain ⟨hall, h⟩ := Option.ite_none_right_eq_some.mp h
    cases h
    exact ⟨tally, hd, fun t ht => of_decide_eq_true (List.all_eq_true.mp hall t ht), rfl⟩
  · cases h

theorem conclude_eq_some (h : c.conclude scenario = some c') :
    ∃ tally slot verified mismatches, c.driver = .verifying tally slot none verified mismatches ∧
      slot = tally.expected.length ∧
      c' = { c with driver := .returned (tally.report scenario verified mismatches) } := by
  unfold conclude at h
  split at h
  · next tally slot verified mismatches hd =>
    obtain ⟨hslot, h⟩ := Option.ite_none_right_eq_some.mp h
    cases h
    exact ⟨tally, slot, verified, mismatches, hd, hslot, rfl⟩
  · cases h

end Client

end Lab
