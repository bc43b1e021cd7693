import IshtarOxide.Lib.Decimal
import IshtarOxide.Guest.Validate
import IshtarOxide.Sandbox.Setup
import IshtarOxide.Scheduler.Basic

/-!
# The runner and the smoke gate of the image

`runner_main`, which the scheduler runs in a child of its own image, and
`validate_artifacts_main`, with which the Dockerfile checks at build time that
the sandboxed runner works.

* `runnerMain_blocked`: with the standard descriptors open, `runner_main` never
  gets to the module.
* `gate_sound_iff`: the gate goes by the parent's own calls alone and does not look
  at the exit status, so it is sound only when the runner succeeds or one of those
  calls fails.
-/

open Linux Sandbox Guest

namespace Scheduler

/-! ## `wasm::execute` -/

/-- What is used of wasmi. -/
structure Engine where
  Module : Type
  Instance : Type
  compile : List UInt8 → Option Module
  instantiate : Module → (memorySize fuel : Nat) → Option Instance
  hasRun : Instance → Bool
  callRun : Instance → Bool

inductive ExecuteError
  | validate (e : ValidateError)
  | compile
  | instantiate
  | missingRun
  | run
deriving DecidableEq, Repr

/-- `wasm::execute`. -/
def execute (w : Wasmparser) (engine : Engine) (bytes : List UInt8) (fuel maxMemoryPages : Nat) :
    Except ExecuteError Unit := do
  (validate w bytes maxMemoryPages).mapError .validate
  let some module := engine.compile bytes | throw .compile
  let some inst := engine.instantiate module (maxMemoryPages * 65536) fuel | throw .instantiate
  if engine.hasRun inst = false then throw .missingRun
  if engine.callRun inst = false then throw .run

/-! ## `runner_main` -/

inductive RunnerError
  | missingArg (name : String)
  | invalidArg (name : String) (e : Decimal.ParseIntError)
  | readModule
  | moduleSize
  | sandbox (e : SandboxError)
  | execute (e : ExecuteError)
deriving DecidableEq, Repr

/-- `parse_runner_arg`, at a type whose largest value is `max`. -/
def parseRunnerArg (args : List String) (index : Nat) (name : String) (max : Nat) :
    Except RunnerError Nat :=
  match args[index]? with
  | none => .error (.missingArg name)
  | some s => (Decimal.parseUnsigned max s).mapError (.invalidArg name)

/-- A child process and what it finds around it. `stdin` is what can be read until
the end of the pipe, or `none` if reading fails; `killed` is a signal that ends
the process before `runner_main` returns. -/
structure Runner where
  kernel : Kernel
  wasmparser : Wasmparser
  engine : Engine
  args : List String
  env : List (String × String)
  stdin : Option (List UInt8)
  process : Process
  killed : Option Nat

/-- `clear_environment`. -/
def clearEnvironment (_env : List (String × String)) :
    Except RunnerError (List (String × String)) :=
  .ok []

/-- The bounded read of the module. -/
def readModule (maxModuleBytes : Nat) (stdin : Option (List UInt8)) :
    Except RunnerError (List UInt8) :=
  match stdin with
  | none => .error .readModule
  | some bytes =>
    let module := bytes.take (maxModuleBytes + 1)
    if module.isEmpty ∨ maxModuleBytes < module.length then .error .moduleSize else .ok module

/-- `runner_main`. -/
def runnerMain (r : Runner) : Except RunnerError Unit := do
  let policy := Policy.production
  let turnFuel ← parseRunnerArg r.args 2 "fuel" (2 ^ 64 - 1)
  let maxMemoryPages ← parseRunnerArg r.args 3 "memory pages" (2 ^ 32 - 1)
  let addressSpaceBytes ← parseRunnerArg r.args 4 "address space" (2 ^ 64 - 1)
  let cpuSeconds ← parseRunnerArg r.args 5 "cpu seconds" (2 ^ 64 - 1)
  let module ← readModule policy.maxModuleBytes r.stdin
  let _ ← clearEnvironment r.env
  let _ ← (setup r.kernel ⟨addressSpaceBytes, cpuSeconds, 3⟩ r.process).mapError .sandbox
  (execute r.wasmparser r.engine module turnFuel maxMemoryPages).mapError .execute

/-- `runner_main` returned, and returned `Ok`. -/
def Runner.Succeeds (r : Runner) : Prop := r.killed = none ∧ runnerMain r = .ok ()

/-- How the process ends: `main` turns an error into exit code 1. -/
def Runner.status (r : Runner) : ExitStatus :=
  match r.killed with
  | some signal => .signal signal
  | none =>
    match runnerMain r with
    | .ok () => .code 0
    | .error _ => .code 1

/-- The argument vector that `execute_process` gives its child. -/
def runnerArgs (executable : String) (p : Policy) : List String :=
  [executable, "__runner", p.turnFuel.repr, p.maxMemoryPages.repr, p.addressSpaceBytes.repr,
    (min (p.executionSlot / 1000000000 + 1) (2 ^ 64 - 1)).repr]

theorem parseRunnerArg_repr {args : List String} {index n max : Nat} {name : String}
    (ha : args[index]? = some n.repr) (hn : n ≤ max) :
    parseRunnerArg args index name max = .ok n := by
  simp [parseRunnerArg, ha, Decimal.parseUnsigned_repr, hn]

/-- The bounded read keeps a module that is not too large. -/
theorem readModule_ok {max : Nat} {bytes : List UInt8} (h0 : bytes ≠ []) (h : bytes.length ≤ max) :
    readModule max (some bytes) = .ok bytes := by
  have htake : bytes.take (max + 1) = bytes := List.take_of_length_le (by omega)
  simp only [readModule, htake]
  rw [if_neg]
  simp only [List.isEmpty_iff, not_or]
  exact ⟨h0, by omega⟩

/-- A runner that was started by the scheduler with the standard descriptors
open fails when it creates the ruleset, whatever the module is. -/
theorem runnerMain_blocked {r : Runner} {executable : String} {module : List UInt8}
    (hargs : r.args = runnerArgs executable .production) (hstdin : r.stdin = some module)
    (h0 : module ≠ []) (hlen : module.length ≤ Policy.production.maxModuleBytes)
    (hstd : StandardOpen r.process) (hk : 3 ≤ r.kernel.landlockAbi)
    (hlow : Lowerable ⟨256 * 1024 * 1024, 2, 3⟩ r.process) :
    runnerMain r = .error (.sandbox (.createRuleset .emfile)) := by
  have hfuel : parseRunnerArg r.args 2 "fuel" (2 ^ 64 - 1) = .ok 50000000 :=
    parseRunnerArg_repr (by rw [hargs]; rfl) (by decide)
  have hpages : parseRunnerArg r.args 3 "memory pages" (2 ^ 32 - 1) = .ok 64 :=
    parseRunnerArg_repr (by rw [hargs]; rfl) (by decide)
  have hspace : parseRunnerArg r.args 4 "address space" (2 ^ 64 - 1) = .ok (256 * 1024 * 1024) :=
    parseRunnerArg_repr (by rw [hargs]; rfl) (by decide)
  have hcpu : parseRunnerArg r.args 5 "cpu seconds" (2 ^ 64 - 1) = .ok 2 :=
    parseRunnerArg_repr (by rw [hargs]; rfl) (by decide)
  have hsetup := setup_emfile hstd hk hlow (Nat.le_refl 3)
  unfold runnerMain
  rw [hfuel, Except.ok_bind, hpages, Except.ok_bind, hspace, Except.ok_bind, hcpu, Except.ok_bind,
    hstdin, readModule_ok h0 hlen, Except.ok_bind]
  simp [clearEnvironment, hsetup]

/-! ## `validate_artifacts_main` -/

/-- `SMOKE_MODULE`: a module that exports an empty `run`. -/
def smokeModule : List UInt8 :=
  [0x00, 0x61, 0x73, 0x6d, 0x01, 0x00, 0x00, 0x00, 0x01, 0x04, 0x01, 0x60, 0x00, 0x00, 0x03,
    0x02, 0x01, 0x00, 0x07, 0x07, 0x01, 0x03, 0x72, 0x75, 0x6e, 0x00, 0x00, 0x0a, 0x04, 0x01,
    0x02, 0x00, 0x0b]

/-- `execute_process` with its child, outside of any slot. -/
def executeProcess : Machine (Stage × Child) ProcessEvent := ⟨(.launching, .absent), Stage.step⟩

/-- One of the parent's own calls failed. -/
def ProcessEvent.failed : ProcessEvent → Bool
  | .launch .currentExeFailed | .launch .spawnFailed => true
  | .write ok | .shutdown ok | .wait ok => !ok
  | _ => false

/-- One execution of the gate: the events of `execute_process` until it returned,
and the runner that was spawned, which ends as it does and is given what the
parent sends. -/
structure GateRun where
  runtimeBuilt : Bool
  executable : String
  runner : Runner
  events : List ProcessEvent
  result : Except ProcessError Unit
  child : Child
  ran : executeProcess.run executeProcess.init events = some (.returned result, child)
  exits : ∀ status, ProcessEvent.exit status ∈ events → status = runner.status
  args : runner.args = runnerArgs executable .production
  stdin : (∀ e ∈ events, e.failed = false) → runner.stdin = some smokeModule

inductive GateError
  | buildRuntime
  | process (e : ProcessError)
deriving DecidableEq

/-- `validate_artifacts_main`. -/
def validateArtifactsMain (g : GateRun) : Except GateError Unit := do
  if g.runtimeBuilt = false then throw .buildRuntime
  g.result.mapError .process

/-- Once `execute_process` has returned, only the child goes on. -/
theorem Stage.step_returned {x y : Stage × Child} {e : ProcessEvent}
    {result : Except ProcessError Unit} (h : Stage.step x e = some y)
    (hx : x.1 = .returned result) : y.1 = .returned result ∧ e.failed = false := by
  unfold Stage.step at h
  split at h <;> cases h <;> first | exact ⟨hx, rfl⟩ | cases hx

/-- A failed call makes `execute_process` return an error, and nothing else does. -/
theorem Stage.step_failed {x y : Stage × Child} {e : ProcessEvent} (h : Stage.step x e = some y)
    (hx : ∀ result, x.1 ≠ .returned result) :
    (e.failed ∧ ∃ err, y.1 = .returned (.error err)) ∨
      (e.failed = false ∧ ∀ err, y.1 ≠ .returned (.error err)) := by
  unfold Stage.step at h
  split at h <;> cases h <;>
    first
    | exact .inl ⟨rfl, _, rfl⟩
    | exact .inr ⟨rfl, fun err => hx (.error err)⟩
    | exact .inr ⟨rfl, nofun⟩

theorem executeProcess_over {events : List ProcessEvent} {x y : Stage × Child}
    {result : Except ProcessError Unit} (h : executeProcess.run x events = some y)
    (hx : x.1 = .returned result) :
    y.1 = .returned result ∧ ∀ e ∈ events, e.failed = false := by
  induction events generalizing x with
  | nil =>
    simp only [Machine.run, List.foldlM_nil] at h
    cases h
    exact ⟨hx, fun e he => by cases he⟩
  | cons e events ih =>
    simp only [Machine.run, List.foldlM_cons, Option.bind_eq_bind, Option.bind_eq_some_iff] at h
    obtain ⟨z, hz, h⟩ := h
    obtain ⟨hz1, hf⟩ := Stage.step_returned hz hx
    obtain ⟨hy, hrest⟩ := ih h hz1
    exact ⟨hy, List.forall_mem_cons.mpr ⟨hf, hrest⟩⟩

/-- A completed run of `execute_process` returns an error exactly if one of the
parent's calls failed. -/
theorem executeProcess_failed {events : List ProcessEvent} {x : Stage × Child}
    {result : Except ProcessError Unit} {child : Child}
    (h : executeProcess.run x events = some (.returned result, child))
    (hx : ∀ r, x.1 ≠ .returned r) : (∃ err, result = .error err) ↔ ∃ e ∈ events, e.failed := by
  induction events generalizing x with
  | nil =>
    simp only [Machine.run, List.foldlM_nil] at h
    cases h
    exact absurd rfl (hx result)
  | cons e events ih =>
    simp only [Machine.run, List.foldlM_cons, Option.bind_eq_bind, Option.bind_eq_some_iff] at h
    obtain ⟨y, hy, h⟩ := h
    rw [List.exists_mem_cons_iff]
    by_cases hret : ∃ r, y.1 = .returned r
    · -- this event made it return: the rest of the run changes nothing
      obtain ⟨r, hr⟩ := hret
      obtain ⟨hresult, hover⟩ := executeProcess_over h hr
      have hrest : ¬ ∃ e ∈ events, e.failed := by
        rintro ⟨e', he', hf⟩
        rw [hover e' he'] at hf
        cases hf
      cases hresult
      rcases Stage.step_failed hy hx with ⟨hf, err, herr⟩ | ⟨hf, hne⟩
      · rw [hr] at herr
        cases herr
        exact ⟨fun _ => .inl hf, fun _ => ⟨err, rfl⟩⟩
      · refine ⟨fun herr => ?_, fun hor => ?_⟩
        · obtain ⟨err, he⟩ := herr
          exact absurd (he ▸ hr) (hne err)
        · rcases hor with hfail | hfail
          · rw [hf] at hfail
            cases hfail
          · exact absurd hfail hrest
    · -- it goes on, so this event was no failure
      have hy' : ∀ r, y.1 ≠ .returned r := fun r hr => hret ⟨r, hr⟩
      rw [ih h hy']
      refine ⟨.inr, fun hor => hor.resolve_left fun hf => ?_⟩
      rcases Stage.step_failed hy hx with ⟨_, err, herr⟩ | ⟨hf', _⟩
      · exact hy' _ herr
      · rw [hf] at hf'
        cases hf'

/-- The gate succeeds exactly if none of the parent's own calls failed. -/
theorem validateArtifactsMain_ok (g : GateRun) :
    validateArtifactsMain g = .ok () ↔ g.runtimeBuilt ∧ ∀ e ∈ g.events, e.failed = false := by
  have hfail := executeProcess_failed g.ran (by intro r; exact nofun)
  unfold validateArtifactsMain
  cases g.runtimeBuilt with
  | false => simp
  | true =>
    cases hres : g.result with
    | ok =>
      have : ¬ ∃ e ∈ g.events, e.failed := by
        rw [← hfail, hres]
        simp
      simpa using this
    | error err =>
      obtain ⟨e, he, hf⟩ := hfail.mp ⟨err, hres⟩
      refine ⟨by simp, fun ⟨_, hall⟩ => ?_⟩
      rw [hall e he] at hf
      cases hf

/-- The gate succeeds exactly if none of the parent's own calls failed (building the
runtime, locating and spawning the runner, writing the module, closing the pipe,
waiting), however the runner ends. So it is sound, that is, it succeeds only if
`runner_main` returned `Ok` in the child, exactly in the executions in which
`runner_main` did so or one of those calls failed. -/
theorem gate_sound_iff (g : GateRun) :
    (validateArtifactsMain g = .ok () ↔
      g.runtimeBuilt = true ∧ ∀ e ∈ g.events, e.failed = false) ∧
    ((validateArtifactsMain g = .ok () → g.runner.Succeeds) ↔
      g.runner.Succeeds ∨ g.runtimeBuilt = false ∨ ∃ e ∈ g.events, e.failed) := by
  have hok := validateArtifactsMain_ok g
  refine ⟨hok, fun h => ?_, fun hor hgate => ?_⟩
  · by_cases hb : g.runtimeBuilt = true
    · by_cases hf : ∃ e ∈ g.events, e.failed
      · exact .inr (.inr hf)
      · refine .inl (h (hok.mpr ⟨hb, fun e he => ?_⟩))
        simpa using fun hfe => hf ⟨e, he, hfe⟩
    · exact .inr (.inl (by simpa using hb))
  · obtain ⟨hb', hall⟩ := hok.mp hgate
    rcases hor with hs | hb | ⟨e, he, hf⟩
    · exact hs
    · rw [hb] at hb'
      cases hb'
    · rw [hall e he] at hf
      cases hf

/-- The runner of the image's build: the production arguments, the smoke module
and the standard descriptors. -/
def imageRunner : Runner where
  kernel := landlockKernel
  wasmparser := ⟨fun _ => true, fun _ => []⟩
  engine := ⟨Unit, Unit, fun _ => some (), fun _ _ _ => some (), fun _ => true, fun _ => true⟩
  args := runnerArgs "/app/ishtar-scheduler" .production
  env := []
  stdin := some smokeModule
  process := spawnedChild
  killed := none

theorem runnerMain_imageRunner :
    runnerMain imageRunner = .error (.sandbox (.createRuleset .emfile)) :=
  runnerMain_blocked (r := imageRunner) rfl rfl (by decide) (by decide) (by decide) (by decide)
    (spawnedChild_lowerable (by decide) (by decide))

/-- The module is written, the runner fails in its sandbox and exits with 1, and
`wait` succeeds. -/
def imageGate : GateRun where
  runtimeBuilt := true
  executable := "/app/ishtar-scheduler"
  runner := imageRunner
  events := [.launch .spawned, .write true, .shutdown true, .exit (.code 1), .wait true]
  result := .ok ()
  child := .exited (.code 1)
  ran := by decide
  exits status hst := by
    have : imageRunner.status = .code 1 := by
      unfold Runner.status
      rw [runnerMain_imageRunner]
      rfl
    rw [this]
    simpa using hst
  args := rfl
  stdin _ := rfl

/-- The gate of the image accepts a runner that cannot run. -/
theorem gate_unsound : validateArtifactsMain imageGate = .ok () ∧ ¬ imageGate.runner.Succeeds := by
  refine ⟨by decide, fun hs => ?_⟩
  have hok : runnerMain imageRunner = .ok () := hs.2
  rw [runnerMain_imageRunner] at hok
  cases hok

end Scheduler
