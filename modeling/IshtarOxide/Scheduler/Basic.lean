import IshtarOxide.Lib.Linux
import IshtarOxide.Lib.Machine
import IshtarOxide.Lib.Semaphore

/-!
# The scheduler's run path

The model of `run_worker` and `execute_process` (crates/scheduler/src/main.rs)
as a machine whose actions are the places where tokio, the kernel or a caller
may intervene. Everything between two awaits of one task is one action.

* `Policy`, `Response`: the compiled policy and the two answers of `/v1/run`.
* `Stage.step`: `execute_process`, from the launch of the child to its result.
* `Request`, `State`, `step`: the handler and the detached slot task.

The log records who took, started, released and answered what, and when. No
action reads it.
-/

open Linux (ExitStatus)

namespace Scheduler

/-! ## Policy and answers -/

/-- `Policy`. Durations are in nanoseconds. -/
structure Policy where
  executionSlot : Nat
  maxParallelWorkers : Nat
  maxPendingRuns : Nat
  maxModuleBytes : Nat
  maxMemoryPages : Nat
  turnFuel : Nat
  addressSpaceBytes : Nat
deriving DecidableEq, Repr

/-- `Policy::production`, the sole policy of the image. -/
def Policy.production : Policy where
  executionSlot := 1 * 1000000000
  maxParallelWorkers := 8
  maxPendingRuns := 128
  maxModuleBytes := 1024 * 1024
  maxMemoryPages := 64
  turnFuel := 50000000
  addressSpaceBytes := 256 * 1024 * 1024

/-- `NORMALIZED_BODY`. -/
def normalizedBody : String := "\x7b\"outcome\":\"complete\"\x7d"

/-- What a caller receives. -/
structure Response where
  status : Nat
  contentType : String
  body : String
deriving DecidableEq, Repr

/-- `normalized_response`. -/
def normalizedResponse : Response := ⟨200, "application/json", normalizedBody⟩

/-- The error of a full queue, as `AppError` renders it. -/
def queueFull : Response := ⟨429, "text/plain; charset=utf-8", "run queue capacity reached"⟩

/-- `fetch_sub(1)` on an `AtomicUsize`: it wraps below zero. -/
def fetchSub : Nat → Nat
  | 0 => 2 ^ 64 - 1
  | count + 1 => count

/-! ## `execute_process` -/

/-- The runner process of a request. A `kill_on_drop` child whose handle was
dropped has been sent SIGKILL and still runs until it is seen to exit. -/
inductive Child
  | absent
  | running (killed : Bool)
  | exited (status : ExitStatus)
deriving DecidableEq, Repr

/-- The process has been spawned and has not exited. -/
def Child.live : Child → Bool
  | .running _ => true
  | _ => false

/-- The `Child` handle goes out of scope. -/
def Child.drop : Child → Child
  | .running _ => .running true
  | child => child

/-- The contexts of `execute_process`'s errors. -/
inductive ProcessError
  | locateExecutable
  | spawnRunner
  | sendModule
  | closeInput
  | waitForRunner
deriving DecidableEq, Repr

/-- What `current_exe` and `spawn` give. -/
inductive Launch
  | currentExeFailed
  | spawnFailed
  | spawned
deriving DecidableEq, Repr

/-- Where `execute_process` stands. `elapsed` is the timeout's verdict on it. -/
inductive Stage
  | launching
  | writing
  | closing
  | waiting
  | returned (result : Except ProcessError Unit)
  | elapsed
deriving DecidableEq

/-- `timeout_at` has resolved. -/
def Stage.settled : Stage → Bool
  | .returned _ | .elapsed => true
  | _ => false

/-- `execute_process` is suspended at one of its awaits. -/
def Stage.awaiting : Stage → Bool
  | .writing | .closing | .waiting => true
  | _ => false

/-- What the kernel and the runner do to `execute_process`. `ok` is whether the
awaited call succeeded. -/
inductive ProcessEvent
  | launch (outcome : Launch)
  | write (ok : Bool)
  | shutdown (ok : Bool)
  | exit (status : ExitStatus)
  | wait (ok : Bool)
deriving DecidableEq, Repr

/-- One event of `execute_process`. Every `?` after the spawn drops the child.
The status that `wait` returns is not looked at. -/
def Stage.step : Stage × Child → ProcessEvent → Option (Stage × Child)
  | (.launching, c), .launch .currentExeFailed => some (.returned (.error .locateExecutable), c)
  | (.launching, c), .launch .spawnFailed => some (.returned (.error .spawnRunner), c)
  | (.launching, _), .launch .spawned => some (.writing, .running false)
  | (.writing, c), .write true => some (.closing, c)
  | (.writing, c), .write false => some (.returned (.error .sendModule), c.drop)
  | (.closing, c), .shutdown true => some (.waiting, c)
  | (.closing, c), .shutdown false => some (.returned (.error .closeInput), c.drop)
  | (.waiting, .exited st), .wait true => some (.returned (.ok ()), .exited st)
  | (.waiting, c), .wait false => some (.returned (.error .waitForRunner), c.drop)
  | (stage, .running _), .exit st => some (stage, .exited st)
  | _, _ => none

/-! ## Requests -/

/-- The slot task of a request, or the refusal of one. `spawned` is a task that
tokio has not polled yet; `acquiring` one inside `acquire_owned`, whether or
not its permit has been assigned; `executing` one that computed its deadline
and has not dropped its permit. -/
inductive Phase
  | rejected
  | spawned
  | acquiring
  | executing (deadline : Nat) (stage : Stage)
  | released
  | finished
deriving DecidableEq

/-- The caller of a request. -/
inductive Caller
  | connected
  | gone
  | answered
deriving DecidableEq, Repr

structure Request where
  phase : Phase
  child : Child
  caller : Caller
deriving DecidableEq

/-- The request was admitted and its slot task still owns the pending guard. -/
def Request.unfinished (r : Request) : Bool :=
  match r.phase with
  | .rejected | .finished => false
  | _ => true

/-! ## State -/

/-- What the log records of a request. -/
inductive Mark
  | acquired
  | started
  | released
  | answered (response : Response)
deriving DecidableEq, Repr

structure Entry where
  time : Nat
  id : Nat
  mark : Mark
deriving DecidableEq, Repr

/-- `AppState` with the tasks and callers of the requests so far; the index of a
request in `requests` is its name. -/
structure State (p : Policy) where
  now : Nat
  pending : Nat
  slots : Semaphore p.maxParallelWorkers
  requests : List Request
  log : List Entry
deriving DecidableEq

/-- The state that `server_main` builds. -/
def State.initial (p : Policy) : State p where
  now := 0
  pending := 0
  slots := .new p.maxParallelWorkers
  requests := []
  log := []

namespace State

variable {p : Policy}

def put (s : State p) (id : Nat) (r : Request) : State p :=
  { s with requests := s.requests.set id r }

def record (s : State p) (id : Nat) (mark : Mark) : State p :=
  { s with log := s.log ++ [⟨s.now, id, mark⟩] }

/-- The first lines of `run_worker`, where `fetch_update` fails. -/
def reject (s : State p) : State p :=
  { s.record s.requests.length (.answered queueFull) with
    requests := s.requests ++ [⟨.rejected, .absent, .answered⟩] }

/-- `run_worker` up to its await: the count goes up, and the guard moves into a
spawned task. -/
def accept (s : State p) : State p :=
  { s with
    pending := s.pending + 1
    requests := s.requests ++ [⟨.spawned, .absent, .connected⟩] }

/-- The log entry of the waiter that is handed a permit. -/
def handover (s : State p) : List Entry :=
  s.slots.next.toList.map fun w => ⟨s.now, w, .acquired⟩

/-- The slot task's first poll: it asks for a permit. -/
def poll (s : State p) (id : Nat) (r : Request) : State p :=
  { s.put id { r with phase := .acquiring } with
    slots := s.slots.acquire id
    log := s.log ++ if 0 < s.slots.free then [⟨s.now, id, .acquired⟩] else [] }

/-- A poll that finds the permit assigned: the deadline is fixed. -/
def start (s : State p) (id : Nat) (r : Request) : State p :=
  (s.put id { r with phase := .executing (s.now + p.executionSlot) .launching }).record id .started

/-- The end of `sleep_until(deadline)`: the permit is dropped. -/
def wake (s : State p) (id : Nat) (r : Request) : State p :=
  { s.put id { r with phase := .released } with
    slots := s.slots.release id
    log := s.log ++ ⟨s.now, id, .released⟩ :: s.handover }

/-- The slot task ends: its pending guard is dropped. -/
def finish (s : State p) (id : Nat) (r : Request) : State p :=
  { s.put id { r with phase := .finished } with pending := fetchSub s.pending }

end State

/-! ## Actions -/

inductive Action
  | arrive
  | disconnect (id : Nat)
  | poll (id : Nat)
  | start (id : Nat)
  | process (id : Nat) (event : ProcessEvent)
  | timeout (id : Nat)
  | wake (id : Nat)
  | finish (id : Nat)
  | respond (id : Nat)
  | advance (d : Nat)
deriving DecidableEq, Repr

/-- An event of the process of request `r`. The child may exit whatever the slot
task is doing; everything else reaches `execute_process` only while it runs. -/
def Request.process (r : Request) (event : ProcessEvent) : Option Request :=
  match r.phase, event with
  | .executing deadline stage, event =>
    (Stage.step (stage, r.child) event).map fun (stage, child) =>
      { r with phase := .executing deadline stage, child := child }
  | _, .exit st => if r.child.live then some { r with child := .exited st } else none
  | _, _ => none

/-- One action. `disconnect` drops the handler's future, which only detaches the
slot task; `timeout` drops `execute_process` at an await; `respond` resumes the
handler once the slot task has ended. -/
def step (p : Policy) (s : State p) : Action → Option (State p)
  | .arrive => some (if s.pending < p.maxPendingRuns then s.accept else s.reject)
  | .disconnect id => s.requests[id]?.bind fun r =>
      if r.caller = .connected then some (s.put id { r with caller := .gone }) else none
  | .poll id => s.requests[id]?.bind fun r =>
      if r.phase = .spawned then some (s.poll id r) else none
  | .start id => s.requests[id]?.bind fun r =>
      if r.phase = .acquiring ∧ id ∈ s.slots.holders then some (s.start id r) else none
  | .process id event => s.requests[id]?.bind fun r => (r.process event).map (s.put id)
  | .timeout id => s.requests[id]?.bind fun r =>
      match r.phase with
      | .executing deadline stage =>
        if stage.awaiting ∧ deadline ≤ s.now then
          some (s.put id { r with phase := .executing deadline .elapsed, child := r.child.drop })
        else none
      | _ => none
  | .wake id => s.requests[id]?.bind fun r =>
      match r.phase with
      | .executing deadline stage =>
        if stage.settled ∧ deadline ≤ s.now then some (s.wake id r) else none
      | _ => none
  | .finish id => s.requests[id]?.bind fun r =>
      if r.phase = .released then some (s.finish id r) else none
  | .respond id => s.requests[id]?.bind fun r =>
      if r.phase = .finished ∧ r.caller = .connected then
        some ((s.put id { r with caller := .answered }).record id (.answered normalizedResponse))
      else none
  | .advance d => some { s with now := s.now + d }

/-- The scheduler under the policy `p`. -/
def machine (p : Policy) : Machine (State p) Action := ⟨.initial p, step p⟩

end Scheduler
