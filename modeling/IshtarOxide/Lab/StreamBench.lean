import IshtarOxide.Lab.StreamClient

/-!
# The stream benchmark

The client of `stream_benchmark` next to the lab and to whatever other clients it has.
Its requests are those of the lab's own machine, and it hears what the lab has answered.
-/

namespace Lab

/-! ## Answers -/

/-- The `outcome` that `run_stream_slot` sends. -/
def Outcome.text : Outcome → String
  | .complete => "complete"
  | .timedOut => "timed_out"
  | .failed => "failed"

theorem Outcome.text_eq_complete {outcome : Outcome} :
    outcome.text = "complete" ↔ outcome = .complete := by
  cases outcome <;> decide

/-- What the client reads of an answer to a chunk. -/
def Reply.answer : Reply → ServerAnswer
  | .error .tooMany => .tooMany
  | .chunk body => .accepted ⟨body.outcome.text, body.sequence, body.queueWaitUs, body.executionUs⟩
  | _ => .rejected

/-- What it reads of an answer to the request for a state. -/
def Reply.state? : Reply → Option StreamStateResponse
  | .state actual => some actual
  | _ => none

/-! ## Tasks -/

/-- What a `run_session` does. A request takes its time to reach the server, and
`abort` is a connection that fails. -/
inductive TaskAction
  | skip
  | send
  | deliver
  | receive
  | abort
  | finish
deriving DecidableEq, Repr

/-- What the caller of request `id` has received. -/
def State.received {policy : Policy} (s : State policy) (id : Nat) : Option Reply :=
  s.requests[id]?.bind fun r =>
    match r.caller with
    | .answered _ reply => some reply
    | _ => none

theorem received_eq {policy : Policy} {s : State policy} {id : Nat} {reply : Reply}
    (h : s.received id = some reply) :
    ∃ r time, s.requests[id]? = some r ∧ r.caller = .answered time reply := by
  obtain ⟨r, hr, h⟩ := Option.bind_eq_some_iff.mp h
  split at h
  · next time reply' hc =>
    cases h
    exact ⟨r, time, hr, hc⟩
  · cases h

def Task.step (host : Host) (token : List UInt8) (scenario : Scenario) {policy : Policy}
    (s : State policy) (now : Nat) (t : Task) (a : TaskAction) : Option (State policy × Task) :=
  match a, t.phase, t.indices with
  | .skip, .looping, index :: rest =>
    if t.late scenario index then some (s, { t.skip scenario index with indices := rest }) else none
  | .send, .looping, index :: rest =>
    if t.late scenario index = false ∧ scenario.started + scenario.offset index ≤ now then
      some (s, { t with indices := rest, phase := .awaiting index now none })
    else none
  | .deliver, .awaiting index requestStarted none, _ =>
    some (s.arrive host token (some scenario.token) (.streamChunk (t.request scenario)),
      { t with phase := .awaiting index requestStarted (some s.requests.length) })
  | .receive, .awaiting index requestStarted (some id), _ =>
    (s.received id).map fun reply => (s, t.receive scenario index requestStarted now reply.answer)
  | .abort, .looping, _ | .abort, .awaiting .., _ => some (s, { t with phase := .failed })
  | .finish, .looping, [] => some (s, { t with phase := .returned false })
  | _, _, _ => none

/-- The limit of `bench` on the chunks of a session, from the server's answer to
`health`. -/
def maxChunksPerSession (server : HealthResponse) (chunkBytes : Nat) : Option Nat :=
  if server.streamStateBytes / chunkBytes = 0 then none
  else some (server.streamStateBytes / chunkBytes)

/-! ## The benchmark -/

/-- A scenario next to the lab it is run on. -/
structure Bench (policy : Policy) extends Client where
  server : State policy
  now : Nat

inductive DriverAction
  | join (k : Nat)
  | verify
  | ask
  | receive
  | abort
  | conclude
deriving DecidableEq, Repr

def Bench.drive (host : Host) (token : List UInt8) (scenario : Scenario) {policy : Policy}
    (b : Bench policy) : DriverAction → Option (Bench policy)
  | .join k => (b.join k).map fun c => { b with toClient := c }
  | .verify => b.joined.map fun c => { b with toClient := c }
  | .conclude => (b.conclude scenario).map fun c => { b with toClient := c }
  | .ask =>
    match b.driver with
    | .verifying tally slot none verified mismatches =>
      if slot < tally.expected.length then
        -- the path of the endpoint holds a `u16`
        if slot < 65536 then
          some { b with
            server := b.server.arrive host token (some scenario.token) (.streamState (.ofNat slot))
            driver := .verifying tally slot (some b.server.requests.length) verified mismatches }
        else some { b with driver := .failed }
      else none
    | _ => none
  | .receive =>
    match b.driver with
    | .verifying tally slot (some id) verified mismatches =>
      (b.server.received id).map fun reply =>
        { b with driver := .verify host.sha256 tally slot verified mismatches reply.state? }
    | _ => none
  | .abort =>
    match b.driver with
    | .verifying .. => some { b with driver := .failed }
    | _ => none

/-- `server` is anything that the lab, its runners and other clients do. -/
inductive BenchAction
  | server (a : Action)
  | tick (d : Nat)
  | task (k : Nat) (a : TaskAction)
  | drive (a : DriverAction)
deriving DecidableEq, Repr

def Bench.step (host : Host) (token : List UInt8) (scenario : Scenario) {policy : Policy}
    (b : Bench policy) : BenchAction → Option (Bench policy)
  | .server a => (Lab.step host token b.server a).map fun s => { b with server := s }
  | .tick d => some { b with now := b.now + d }
  | .task k a =>
    b.tasks[k]?.bind fun t =>
      (t.step host token scenario b.server b.now a).map fun (s, t) =>
        { b with server := s, tasks := b.tasks.set k t }
  | .drive a => b.drive host token scenario a

/-- A scenario that is started on the lab in state `s`, with the given tasks. -/
def benchMachine (host : Host) (token : List UInt8) (scenario : Scenario) {policy : Policy}
    (s : State policy) (tasks : List Task) : Machine (Bench policy) BenchAction :=
  ⟨⟨⟨tasks, .joining (.empty scenario.sessionCount)⟩, s, 0⟩, Bench.step host token scenario⟩

end Lab
