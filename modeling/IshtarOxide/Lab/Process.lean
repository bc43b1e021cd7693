import IshtarOxide.Lab.Wasm

/-!
# How the lab runs a runner

`execute_process_inner` and `execute_stream_process_inner` are one driver: they
spawn a child, write its input, read its output up to a limit and wait for it,
under one deadline. They differ in what they send and in which output they
accept.

* `Stage.step`: the driver and its child, event by event.
* `Sound`, `Sound.step`: what is true after every event. A child that exits with
  code 0 has returned from `main`, and what the driver returns as a success is
  what that `main` wrote.
-/

open Linux Guest

namespace Lab

/-! ## Children -/

/-- A runner process: what it was given, what it wrote, whether it was sent
SIGKILL, and how it ended. -/
structure Child where
  argv : List String
  stdin : List UInt8
  stdout : List UInt8
  killed : Bool
  status : Option ExitStatus
deriving DecidableEq, Repr

/-- Spawned and not yet exited. -/
def Child.live (c : Child) : Bool := c.status.isNone

/-- The process may end in this way, when it has read `delivered` bytes of its
input. Only a `main` that returns `Ok` ends with code 0, and it has written its
output by then. -/
def Child.mayExit (host : Host) (c : Child) (status : ExitStatus) (delivered : Nat) : Prop :=
  status = .code 0 → main host c.argv (c.stdin.take delivered) = .ok c.stdout

instance (host : Host) (c : Child) (status : ExitStatus) (delivered : Nat) :
    Decidable (c.mayExit host status delivered) :=
  inferInstanceAs (Decidable (status = .code 0 →
    main host c.argv (c.stdin.take delivered) = .ok c.stdout))

/-! ## The driver -/

/-- `ProcessResult`. -/
inductive ProcessResult
  | success (output : List UInt8)
  | timedOut
  | failed
deriving DecidableEq, Repr

def ProcessResult.outcome : ProcessResult → Outcome
  | .success _ => .complete
  | .timedOut => .timedOut
  | .failed => .failed

/-- What a driver sends to its child, and which output it accepts. -/
structure Job where
  argv : List String
  stdin : List UInt8
  expected : Nat
  capacity : Nat
deriving DecidableEq, Repr

/-- `execute_process_inner`. -/
def executeProcess (host : Host) (policy : Policy) (state : List UInt8) (role : Role) (bit : UInt8)
    (iterations : UInt32) : Job where
  argv := runnerArgs host.executable host.module state role bit iterations policy
  stdin := runnerStdin host.module state
  expected := policy.stateBytes
  capacity := policy.stateBytes

/-- `execute_stream_process_inner`. -/
def executeStreamProcess (host : Host) (policy : Policy) (previous chunk : List UInt8) : Job where
  argv := streamRunnerArgs host.executable host.streamModule previous chunk policy
  stdin := streamRunnerStdin host.streamModule previous chunk
  expected := previous.length + chunk.length
  capacity := streamStateBytes

/-- How much is read: a byte more than is accepted. -/
def Job.limit (job : Job) : Nat := job.capacity + 1

/-- The last test of a driver. -/
def Job.verdict (job : Job) (status : ExitStatus) (output : List UInt8) : ProcessResult :=
  if status = .code 0 ∧ output.length = job.expected ∧ output.length ≤ job.capacity then
    .success output
  else .failed

/-- What `current_exe` and `spawn` give. -/
inductive Launch
  | currentExeFailed
  | spawnFailed
  | spawned
deriving DecidableEq, Repr

/-- Where a driver stands. `terminating` is inside `terminate`. -/
inductive Stage
  | launching
  | writing
  | reading
  | waiting (output : List UInt8)
  | terminating
  | returned (result : ProcessResult)
deriving DecidableEq, Repr

/-- Inside one of the two `timeout_at`. -/
def Stage.timed : Stage → Bool
  | .writing | .reading | .waiting _ => true
  | _ => false

/-- What the kernel and the child do to a driver. `ok` is whether the awaited call
succeeded; that of the write is not looked at. -/
inductive ProcessEvent
  | launch (outcome : Launch)
  | write
  | emit (bytes : List UInt8)
  | exit (status : ExitStatus) (delivered : Nat)
  | read (ok : Bool)
  | wait (ok : Bool)
  | timeout
  | terminate (ok : Bool)
deriving DecidableEq, Repr

/-- What the child does by itself. -/
def Child.step (host : Host) (c : Child) : ProcessEvent → Option Child
  | .emit bytes => if c.live then some { c with stdout := c.stdout ++ bytes } else none
  | .exit status delivered =>
    if c.live ∧ c.mayExit host status delivered then some { c with status := some status } else none
  | _ => none

/-- One event. `expired` is whether the deadline has passed. Leaving with an error
drops the child, which kills it without waiting for it. -/
def Stage.step (host : Host) (job : Job) (expired : Bool) (stage : Stage) (child : Option Child)
    (event : ProcessEvent) : Option (Stage × Option Child) :=
  match event, stage, child with
  | .launch .currentExeFailed, .launching, none | .launch .spawnFailed, .launching, none =>
    some (.returned .failed, none)
  | .launch .spawned, .launching, none =>
    some (.writing, some ⟨job.argv, job.stdin, [], false, none⟩)
  | .write, .writing, child => some (.reading, child)
  | .emit _, stage, some c | .exit .., stage, some c =>
    (c.step host event).map fun c => (stage, some c)
  | .read true, .reading, some c =>
    -- the end of the pipe, or the limit
    if c.live = false ∨ job.limit ≤ c.stdout.length then
      some (.waiting (c.stdout.take job.limit), some c)
    else none
  | .wait true, .waiting output, some c =>
    c.status.map fun status => (.returned (job.verdict status output), some c)
  | .read false, .reading, some c | .wait false, .waiting _, some c =>
    some (.returned .failed, some { c with killed := true })
  | .timeout, stage, some c =>
    if stage.timed ∧ expired then some (.terminating, some { c with killed := true }) else none
  | .terminate ok, .terminating, some c =>
    if c.live = false ∨ ok = false then some (.returned .timedOut, some c) else none
  | _, _, _ => none

/-! ## What a driver returns -/

/-- What a process has done so far. -/
structure Child.Sound (host : Host) (job : Job) (c : Child) : Prop where
  argv : c.argv = job.argv
  stdin : c.stdin = job.stdin
  exited : c.status = some (.code 0) → ∃ n, main host job.argv (job.stdin.take n) = .ok c.stdout

/-- `output` is what a `main` wrote that returned, and the driver accepts it. -/
def Job.Succeeds (host : Host) (job : Job) (output : List UInt8) : Prop :=
  (∃ n stdout, main host job.argv (job.stdin.take n) = .ok stdout ∧ output = stdout.take job.limit) ∧
    job.verdict (.code 0) output = .success output

/-- What is known of a driver and its child. -/
structure Sound (host : Host) (job : Job) (stage : Stage) (child : Option Child) : Prop where
  spawned : ∀ c, child = some c → c.Sound host job
  waiting : ∀ output c, stage = .waiting output → child = some c →
    output = c.stdout.take job.limit ∧ (c.live → job.limit ≤ c.stdout.length)
  success : ∀ output, stage = .returned (.success output) → job.Succeeds host output

variable {host : Host} {job : Job} {expired : Bool} {stage stage' : Stage}
  {child child' : Option Child} {event : ProcessEvent}

theorem Sound.launching : Sound host job .launching none :=
  ⟨nofun, nofun, nofun⟩

/-- The driver moves on to a stage in which it knows nothing of the output yet. -/
theorem Sound.move (h : Sound host job stage child) (hw : ∀ output, stage' ≠ .waiting output)
    (hr : ∀ output, stage' ≠ .returned (.success output))
    (hc : ∀ c', child' = some c' → ∃ c, child = some c ∧ c' = { c with killed := c'.killed }) :
    Sound host job stage' child' where
  spawned := by
    intro c' hc'
    obtain ⟨c, hcc, heq⟩ := hc c' hc'
    have := h.spawned c hcc
    rw [heq]
    exact ⟨this.argv, this.stdin, this.exited⟩
  waiting := fun output _ hs => absurd hs (hw output)
  success := fun output hs => absurd hs (hr output)

theorem verdict_eq_success {status : ExitStatus} {output out : List UInt8}
    (h : job.verdict status output = .success out) :
    out = output ∧ status = .code 0 ∧ output.length = job.expected ∧
      output.length ≤ job.capacity := by
  unfold Job.verdict at h
  split at h
  · next hv =>
    cases h
    exact ⟨rfl, hv⟩
  · cases h

/-- What the child does by itself changes nothing of what was read up to the
limit. -/
theorem Sound.child_step {c c' : Child} (h : Sound host job stage (some c))
    (hs : c.step host event = some c') : Sound host job stage (some c') := by
  have hc := h.spawned c rfl
  unfold Child.step at hs
  split at hs
  · obtain ⟨hlive, hs⟩ := Option.ite_none_right_eq_some.mp hs
    cases hs
    have hnone : c.status = none := Option.isNone_iff_eq_none.mp hlive
    refine ⟨fun c' hc' => ?_, fun output c' hst hc' => ?_, h.success⟩
    · cases hc'
      exact ⟨hc.argv, hc.stdin, fun hx => by rw [hnone] at hx; cases hx⟩
    · cases hc'
      obtain ⟨hout, hlim⟩ := h.waiting output c hst rfl
      have hle := hlim hlive
      exact ⟨by rw [List.take_append_of_le_length hle]; exact hout,
        fun _ => by rw [List.length_append]; omega⟩
  · next status delivered =>
    obtain ⟨⟨_, hmay⟩, hs⟩ := Option.ite_none_right_eq_some.mp hs
    cases hs
    refine ⟨fun c' hc' => ?_, fun output c' hst hc' => ?_, h.success⟩
    · cases hc'
      refine ⟨hc.argv, hc.stdin, fun hx => ⟨delivered, ?_⟩⟩
      cases hx
      have hmain := hmay rfl
      rwa [hc.argv, hc.stdin] at hmain
    · cases hc'
      exact ⟨(h.waiting output c hst rfl).1, nofun⟩
  · cases hs

theorem Sound.step (h : Sound host job stage child)
    (hs : Stage.step host job expired stage child event = some (stage', child')) :
    Sound host job stage' child' := by
  unfold Stage.step at hs
  split at hs
  · cases hs
    exact ⟨nofun, nofun, nofun⟩
  · cases hs
    exact ⟨nofun, nofun, nofun⟩
  · cases hs
    refine ⟨fun c hc => ?_, nofun, nofun⟩
    cases hc
    exact ⟨rfl, rfl, nofun⟩
  · cases hs
    exact h.move nofun nofun fun c hc => ⟨c, hc, rfl⟩
  · obtain ⟨c', hc', hs⟩ := Option.map_eq_some_iff.mp hs
    cases hs
    exact h.child_step hc'
  · obtain ⟨c', hc', hs⟩ := Option.map_eq_some_iff.mp hs
    cases hs
    exact h.child_step hc'
  · next c =>
    obtain ⟨heof, hs⟩ := Option.ite_none_right_eq_some.mp hs
    cases hs
    refine ⟨h.spawned, fun output c' hst hc' => ?_, nofun⟩
    cases hst
    cases hc'
    exact ⟨rfl, fun hlive => heof.resolve_left (by rw [hlive]; exact Bool.noConfusion)⟩
  · next output c =>
    obtain ⟨status, hstatus, hs⟩ := Option.map_eq_some_iff.mp hs
    cases hs
    refine ⟨h.spawned, nofun, fun out hout => ?_⟩
    -- an exit with success comes from `main`, which has written all of stdout
    obtain ⟨rfl, rfl, hlen⟩ := verdict_eq_success (Stage.returned.inj hout)
    obtain ⟨n, hmain⟩ := (h.spawned c rfl).exited hstatus
    exact ⟨⟨n, c.stdout, hmain, (h.waiting out c rfl rfl).1⟩, Stage.returned.inj hout⟩
  · cases hs
    exact h.move nofun nofun fun c' hc' => by cases hc'; exact ⟨_, rfl, rfl⟩
  · cases hs
    exact h.move nofun nofun fun c' hc' => by cases hc'; exact ⟨_, rfl, rfl⟩
  · obtain ⟨_, hs⟩ := Option.ite_none_right_eq_some.mp hs
    cases hs
    exact h.move nofun nofun fun c' hc' => by cases hc'; exact ⟨_, rfl, rfl⟩
  · obtain ⟨_, hs⟩ := Option.ite_none_right_eq_some.mp hs
    cases hs
    exact h.move nofun nofun fun c' hc' => ⟨c', hc', rfl⟩
  · cases hs

end Lab
