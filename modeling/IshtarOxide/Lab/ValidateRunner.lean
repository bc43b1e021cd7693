import IshtarOxide.Lab.TurnRunner

/-!
# The validation of the runners

`validate_runner`, which the image runs as `__validate`: it drives a probe runner
and then a stream runner, each in a child of the same executable, and looks at
what they return. Unlike the scheduler's gate it goes by the children.

* `probeJob_main`, `streamJob_main`: when the two mains return, and what.
* `gate_exact`: over every run, the gate passes only if both runners get through
  their sandboxes and their modules, and fails only if they do not or something
  outside of them fails.
* `shipped_passes`: the shipped modules get through.
-/

open Linux Sandbox Guest Decimal

namespace Lab

/-! ## The gate -/

/-- The policy of `validate_runner`. -/
def validationPolicy : Policy where
  stateBytes := 64
  sessionSlots := 2
  senderHotIterations := 100
  senderColdIterations := 10
  senderControlIterations := 50
  probeIterations := 100
  executionCutoff := 5000000
  releaseSlot := none
  fuel := 1000000
  maxMemoryPages := 129
  addressSpaceBytes := 256 * 1024 * 1024
  cpuSeconds := 2

/-- "lorem ipsum". -/
def validationChunk : List UInt8 := [108, 111, 114, 101, 109, 32, 105, 112, 115, 117, 109]

/-- "LOREM IPSUM". -/
def validationText : List UInt8 := [76, 79, 82, 69, 77, 32, 73, 80, 83, 85, 77]

def probeJob (host : Host) : Job :=
  executeProcess host validationPolicy (List.replicate validationPolicy.stateBytes 0) .probe 0
    validationPolicy.probeIterations

def streamJob (host : Host) : Job :=
  executeStreamProcess host validationPolicy [] validationChunk

/-- How the gate fails. An error of a driver is not told apart from a result that
is no success. -/
inductive GateError
  | noState
  | stateSize
  | noStream
  | notCapitalized
deriving DecidableEq, Repr

/-- Where `validate_runner` stands. -/
inductive GatePhase
  | probe (deadline : Nat) (stage : Stage) (child : Option Child)
  | stream (deadline : Nat) (stage : Stage) (child : Option Child)
  | returned (result : Except GateError Unit)

structure Gate where
  now : Nat
  phase : GatePhase

inductive GateAction
  | process (event : ProcessEvent)
  | next
  | advance (d : Nat)

def Gate.start : Gate := ⟨0, .probe validationPolicy.executionCutoff .launching none⟩

/-- What comes after the driver of the probe runner. -/
def Gate.afterProbe (g : Gate) : ProcessResult → GatePhase
  | .success output =>
    if output.length ≠ validationPolicy.stateBytes then .returned (.error .stateSize)
    else .stream (g.now + validationPolicy.executionCutoff) .launching none
  | _ => .returned (.error .noState)

/-- What comes after the driver of the stream runner. -/
def afterStream : ProcessResult → GatePhase
  | .success output =>
    if output ≠ validationText then .returned (.error .notCapitalized) else .returned (.ok ())
  | _ => .returned (.error .noStream)

/-- One step of `validate_runner` and its children. -/
def Gate.step (host : Host) (g : Gate) : GateAction → Option Gate
  | .advance d => some { g with now := g.now + d }
  | .process event =>
    match g.phase with
    | .probe deadline stage child =>
      (stage.step host (probeJob host) (deadline ≤ g.now) child event).map fun (stage, child) =>
        { g with phase := .probe deadline stage child }
    | .stream deadline stage child =>
      (stage.step host (streamJob host) (deadline ≤ g.now) child event).map fun (stage, child) =>
        { g with phase := .stream deadline stage child }
    | .returned _ => none
  | .next =>
    match g.phase with
    | .probe _ (.returned result) _ => some { g with phase := g.afterProbe result }
    | .stream _ (.returned result) _ => some { g with phase := afterStream result }
    | _ => none

def gateMachine (host : Host) : Machine Gate GateAction := ⟨.start, Gate.step host⟩

/-! ## What the mains return -/

/-- The modules have a size that the runners accept. -/
structure Host.Modules (host : Host) : Prop where
  nonempty : 1 ≤ host.module.length
  size : host.module.length ≤ 1024 * 1024
  streamNonempty : 1 ≤ host.streamModule.length
  streamSize : host.streamModule.length ≤ 1024 * 1024

/-- What a part of the input is to a runner that wants all of it. -/
theorem readExact_take {input : List UInt8} {n len : Nat} (hlen : input.length = len) :
    readExact (input.take n) len = if len ≤ n then .ok input else .error .unexpectedEof := by
  subst hlen
  by_cases hn : input.length ≤ n
  · rw [List.take_of_length_le hn, readExact_length, if_pos hn]
  · rw [readExact, if_pos (by rw [List.length_take]; omega), if_neg hn]

variable {host : Host} (hm : host.Modules)

/-- The sandbox that the gate sets up in its children. -/
def validationSandbox : SandboxPolicy := ⟨256 * 1024 * 1024, 2⟩

/-- What the probe runner makes of the gate's module and state. -/
def validationTurn (host : Host) : Except ExecuteError (List UInt8) :=
  execute host.toolchain host.module (List.replicate 64 0) 1 0 100 1000000 129

/-- What the stream runner makes of the gate's module and chunk. -/
def validationStream (host : Host) : Except ExecuteError (List UInt8) :=
  executeStream host.toolchain host.streamModule [] validationChunk streamStateBytes 1000000 129

include hm

theorem probeJob_invocation (stdin : List UInt8) :
    runnerInvocation (probeJob host).argv stdin =
      (readExact stdin (host.module.length + 64)).map fun input =>
        ⟨input.take host.module.length, input.drop host.module.length, 1, 0, 100, 1000000, 129,
          256 * 1024 * 1024, 2⟩ := by
  have hlo := hm.nonempty
  have hhi := hm.size
  unfold runnerInvocation usizeArg u64Arg u32Arg i32Arg
  rw [unsignedArg_repr (n := host.module.length) rfl (by omega), Except.ok_bind,
    unsignedArg_repr (n := 64) rfl (by decide), Except.ok_bind,
    unsignedArg_repr (n := 1000000) rfl (by decide), Except.ok_bind,
    unsignedArg_repr (n := 129) rfl (by decide), Except.ok_bind,
    unsignedArg_repr (n := 256 * 1024 * 1024) rfl (by decide), Except.ok_bind,
    unsignedArg_repr (n := 2) rfl (by decide), Except.ok_bind,
    signedArg_repr (n := 1) rfl, if_pos (by decide), Except.ok_bind,
    signedArg_repr (n := 0) rfl, if_pos (by decide), Except.ok_bind,
    signedArg_repr (n := 100) rfl, if_pos (by decide), Except.ok_bind, if_neg (by omega)]
  cases readExact stdin (host.module.length + 64) <;> rfl

/-- The probe runner returns exactly if it gets all of its input, its sandbox is set
up and the module returns. -/
theorem probeJob_main {n : Nat} {stdout : List UInt8} :
    main host (probeJob host).argv ((probeJob host).stdin.take n) = .ok stdout ↔
      host.module.length + 64 ≤ n ∧ (∃ q, setup host.kernel validationSandbox host.process = .ok q) ∧
        validationTurn host = .ok stdout := by
  have hlen : (probeJob host).stdin.length = host.module.length + 64 :=
    List.length_append.trans (congrArg _ List.length_replicate)
  show runnerMain host (probeJob host).argv _ = _ ↔ _
  unfold runnerMain
  rw [probeJob_invocation hm, readExact_take hlen]
  by_cases hn : host.module.length + 64 ≤ n
  · have htake : (probeJob host).stdin.take host.module.length = host.module := List.take_left
    have hdrop : (probeJob host).stdin.drop host.module.length = List.replicate 64 0 :=
      List.drop_left
    rw [if_pos hn, Except.map, htake, hdrop, Except.mapError_ok, Except.ok_bind, Except.bind_eq_ok]
    simp only [Except.mapError_eq_ok, hn, true_and, exists_and_right]
    exact Iff.rfl
  · rw [if_neg hn]
    exact ⟨nofun, fun h => absurd h.1 hn⟩

theorem streamJob_invocation (stdin : List UInt8) :
    streamInvocation (streamJob host).argv stdin =
      (readExact stdin (host.streamModule.length + 0 + 11)).map fun input =>
        ⟨input.take host.streamModule.length,
          (input.take (host.streamModule.length + 0)).drop host.streamModule.length,
          input.drop (host.streamModule.length + 0), streamStateBytes, 1000000, 129,
          256 * 1024 * 1024, 2⟩ := by
  have hlo := hm.streamNonempty
  have hhi := hm.streamSize
  have hbounds : ¬ (host.streamModule.length = 0 ∨ 1024 * 1024 < host.streamModule.length ∨
      11 = 0 ∨ maxChunkBytes < 11 ∨ streamStateBytes ≠ streamStateBytes ∨
      streamStateBytes < saturatingAdd 0 11) := by
    have hchunk : ¬ maxChunkBytes < 11 := by decide
    have hsat : ¬ streamStateBytes < saturatingAdd 0 11 := by decide
    omega
  unfold streamInvocation usizeArg u64Arg u32Arg
  rw [unsignedArg_repr (n := host.streamModule.length) rfl (by omega), Except.ok_bind,
    unsignedArg_repr (n := 0) rfl (by decide), Except.ok_bind,
    unsignedArg_repr (n := 11) rfl (by decide), Except.ok_bind,
    unsignedArg_repr (n := 1000000) rfl (by decide), Except.ok_bind,
    unsignedArg_repr (n := 129) rfl (by decide), Except.ok_bind,
    unsignedArg_repr (n := 256 * 1024 * 1024) rfl (by decide), Except.ok_bind,
    unsignedArg_repr (n := 2) rfl (by decide), Except.ok_bind,
    unsignedArg_repr (n := streamStateBytes) rfl (by decide), Except.ok_bind, if_neg hbounds]
  cases readExact stdin (host.streamModule.length + 0 + 11) <;> rfl

/-- The stream runner likewise. -/
theorem streamJob_main {n : Nat} {stdout : List UInt8} :
    main host (streamJob host).argv ((streamJob host).stdin.take n) = .ok stdout ↔
      host.streamModule.length + 11 ≤ n ∧
        (∃ q, setup host.kernel validationSandbox host.process = .ok q) ∧
        validationStream host = .ok stdout := by
  have hstdin : (streamJob host).stdin = host.streamModule ++ validationChunk := by
    show host.streamModule ++ [] ++ validationChunk = _
    rw [List.append_nil]
  have hlen : (streamJob host).stdin.length = host.streamModule.length + 0 + 11 := by
    rw [hstdin]
    exact List.length_append
  show streamRunnerMain host (streamJob host).argv _ = _ ↔ _
  unfold streamRunnerMain
  rw [streamJob_invocation hm, readExact_take hlen]
  by_cases hn : host.streamModule.length + 11 ≤ n
  · have htake : (streamJob host).stdin.take host.streamModule.length = host.streamModule := by
      rw [hstdin]
      exact List.take_left
    have hdrop : (streamJob host).stdin.drop host.streamModule.length = validationChunk := by
      rw [hstdin]
      exact List.drop_left
    have hprevious : host.streamModule.drop host.streamModule.length = [] := List.drop_length
    rw [if_pos hn, Except.map, Nat.add_zero, htake, hdrop, hprevious, Except.mapError_ok,
      Except.ok_bind, Except.bind_eq_ok]
    simp only [Except.mapError_eq_ok, hn, true_and, exists_and_right]
    exact Iff.rfl
  · rw [if_neg hn]
    exact ⟨nofun, fun h => absurd h.1 hn⟩

omit hm

/-! ## Drivers without mishaps -/

/-- Something fails that is neither the runner nor the gate: a call of the parent,
the deadline, or the child, which ends otherwise than by returning `Ok` from `main`. -/
def ProcessEvent.mishap : ProcessEvent → Bool
  | .launch outcome => outcome ≠ .spawned
  | .exit status _ => status ≠ .code 0
  | .read ok | .wait ok => !ok
  | .timeout => true
  | .write | .emit _ | .terminate _ => false

/-- What a driver returns as a success is what a `main` wrote that returned. -/
theorem Job.Succeeds.main {job : Job} {output : List UInt8} (h : job.Succeeds host output) :
    (∃ n, Lab.main host job.argv (job.stdin.take n) = .ok output) ∧ output.length = job.expected := by
  obtain ⟨⟨n, stdout, hmain, houtput⟩, hverdict⟩ := h
  obtain ⟨-, -, hexpected, hcapacity⟩ := verdict_eq_success hverdict
  have hshort : stdout.length ≤ job.limit := by
    rw [houtput, List.length_take] at hcapacity
    unfold Job.limit at hcapacity ⊢
    omega
  rw [List.take_of_length_le hshort] at houtput
  exact ⟨⟨n, houtput ▸ hmain⟩, hexpected⟩

/-- A driver and its child, as they are as long as there is no mishap. -/
structure Smooth (stage : Stage) (child : Option Child) : Prop where
  exited : ∀ c status, child = some c → c.status = some status → status = .code 0
  running : stage ≠ .terminating
  returned : ∀ result, stage = .returned result → ∃ output, result = .success output

theorem Smooth.launching : Smooth .launching none := ⟨nofun, nofun, nofun⟩

/-- A driver without mishaps returns a success, if its runner writes what it wants. -/
theorem Smooth.step {job : Job} {expired : Bool} {stage stage' : Stage}
    {child child' : Option Child} {event : ProcessEvent}
    (hmain : ∀ n stdout, Lab.main host job.argv (job.stdin.take n) = .ok stdout →
      stdout.length = job.expected ∧ stdout.length ≤ job.capacity)
    (hs : Sound host job stage child) (h : Smooth stage child) (hno : event.mishap = false)
    (hstep : Stage.step host job expired stage child event = some (stage', child')) :
    Smooth stage' child' := by
  unfold Stage.step at hstep
  split at hstep
  · cases hno
  · cases hno
  · cases hstep
    refine ⟨fun c status hc hst => ?_, nofun, nofun⟩
    cases hc
    cases hst
  · cases hstep
    exact ⟨h.exited, nofun, nofun⟩
  · obtain ⟨c', hc', hstep⟩ := Option.map_eq_some_iff.mp hstep
    cases hstep
    obtain ⟨hlive, hc'⟩ := Option.ite_none_right_eq_some.mp hc'
    cases hc'
    exact ⟨fun c status hc hst => h.exited _ status rfl (by cases hc; exact hst), h.running,
      h.returned⟩
  · next status delivered _ _ _ =>
    obtain ⟨c', hc', hstep⟩ := Option.map_eq_some_iff.mp hstep
    cases hstep
    obtain ⟨hlive, hc'⟩ := Option.ite_none_right_eq_some.mp hc'
    cases hc'
    refine ⟨fun c status hc hst => ?_, h.running, h.returned⟩
    cases hc
    cases hst
    simpa [ProcessEvent.mishap] using hno
  · obtain ⟨-, hstep⟩ := Option.ite_none_right_eq_some.mp hstep
    cases hstep
    exact ⟨h.exited, nofun, nofun⟩
  · next output c =>
    obtain ⟨status, hstatus, hstep⟩ := Option.map_eq_some_iff.mp hstep
    cases hstep
    obtain rfl := h.exited c status rfl hstatus
    obtain ⟨n, hok⟩ := (hs.spawned c rfl).exited hstatus
    obtain ⟨hexpected, hcapacity⟩ := hmain n c.stdout hok
    have houtput : output = c.stdout := by
      rw [(hs.waiting output c rfl rfl).1]
      exact List.take_of_length_le (Nat.le_succ_of_le hcapacity)
    refine ⟨h.exited, nofun, fun result hresult => ⟨output, ?_⟩⟩
    rw [← Stage.returned.inj hresult, houtput]
    exact if_pos ⟨rfl, hexpected, hcapacity⟩
  · cases hno
  · cases hno
  · cases hno
  · exact absurd rfl h.running
  · cases hstep

/-! ## The gate is exact -/

/-- The probe runner gets through its sandbox, and its module returns a state. -/
def ProbePasses (host : Host) : Prop :=
  (∃ q, setup host.kernel validationSandbox host.process = .ok q) ∧
    ∃ state, validationTurn host = .ok state ∧ state.length = 64

/-- So does the stream runner, with the chunk in upper case. -/
def Passes (host : Host) : Prop :=
  ProbePasses host ∧ validationStream host = .ok validationText

def GateAction.mishap : GateAction → Bool
  | .process event => event.mishap
  | .next | .advance _ => false

/-- What is known of the gate. -/
def GatePhase.Sound (host : Host) : GatePhase → Prop
  | .probe _ stage child => Lab.Sound host (probeJob host) stage child
  | .stream _ stage child => ProbePasses host ∧ Lab.Sound host (streamJob host) stage child
  | .returned result => result = .ok () → Passes host

/-- What is known of it as long as there is no mishap. -/
def GatePhase.Smooth : GatePhase → Prop
  | .probe _ stage child | .stream _ stage child => Lab.Smooth stage child
  | .returned result => result = .ok ()

include hm

theorem probe_passes {output : List UInt8} (h : (probeJob host).Succeeds host output) :
    ProbePasses host ∧ output.length = validationPolicy.stateBytes := by
  obtain ⟨⟨n, hmain⟩, hlen⟩ := h.main
  obtain ⟨-, hsetup, hturn⟩ := (probeJob_main hm).mp hmain
  exact ⟨⟨hsetup, output, hturn, hlen⟩, hlen⟩

theorem stream_passes {output : List UInt8} (h : (streamJob host).Succeeds host output) :
    validationStream host = .ok output := by
  obtain ⟨⟨n, hmain⟩, -⟩ := h.main
  exact ((streamJob_main hm).mp hmain).2.2

theorem sound_afterProbe {g : Gate} {result : ProcessResult} {child : Option Child}
    (h : Lab.Sound host (probeJob host) (.returned result) child) :
    (g.afterProbe result).Sound host := by
  cases result with
  | success output =>
    obtain ⟨hpass, hlen⟩ := probe_passes hm (h.success output rfl)
    rw [Gate.afterProbe, if_neg (not_not.mpr hlen)]
    exact ⟨hpass, .launching⟩
  | _ => exact nofun

theorem sound_afterStream {result : ProcessResult} {child : Option Child} (hp : ProbePasses host)
    (h : Lab.Sound host (streamJob host) (.returned result) child) :
    (afterStream result).Sound host := by
  cases result with
  | success output =>
    have hstream := stream_passes hm (h.success output rfl)
    by_cases htext : output = validationText
    · rw [afterStream, if_neg (not_not.mpr htext)]
      exact fun _ => ⟨hp, htext ▸ hstream⟩
    · rw [afterStream, if_pos htext]
      exact nofun
  | _ => exact nofun

theorem Gate.step_sound {g g' : Gate} {a : GateAction} (hg : g.phase.Sound host)
    (h : g.step host a = some g') : g'.phase.Sound host := by
  obtain ⟨now, phase⟩ := g
  cases a with
  | advance d =>
    cases h
    exact hg
  | process event =>
    cases phase with
    | probe deadline stage child =>
      obtain ⟨⟨stage', child'⟩, hstep, rfl⟩ := Option.map_eq_some_iff.mp h
      exact Lab.Sound.step hg hstep
    | stream deadline stage child =>
      obtain ⟨⟨stage', child'⟩, hstep, rfl⟩ := Option.map_eq_some_iff.mp h
      exact ⟨hg.1, Lab.Sound.step hg.2 hstep⟩
    | returned result => cases h
  | next =>
    cases phase with
    | probe deadline stage child =>
      cases stage with
      | returned result =>
        cases h
        exact sound_afterProbe hm hg
      | _ => cases h
    | stream deadline stage child =>
      cases stage with
      | returned result =>
        cases h
        exact sound_afterStream hm hg.1 hg.2
      | _ => cases h
    | returned result => cases h

/-- Without mishaps both drivers return what the runners make of the fixtures. -/
theorem Gate.step_smooth {g g' : Gate} {a : GateAction} (hpass : Passes host)
    (hg : g.phase.Sound host) (hsmooth : g.phase.Smooth) (hno : a.mishap = false)
    (h : g.step host a = some g') : g'.phase.Smooth := by
  have hturn : ∀ n stdout, main host (probeJob host).argv ((probeJob host).stdin.take n) =
      .ok stdout → stdout.length = (probeJob host).expected ∧
        stdout.length ≤ (probeJob host).capacity := by
    intro n stdout hok
    obtain ⟨-, state, hstate, hlen⟩ := hpass.1
    rw [((probeJob_main hm).mp hok).2.2] at hstate
    cases hstate
    exact ⟨hlen, hlen.le⟩
  have hstream : ∀ n stdout, main host (streamJob host).argv ((streamJob host).stdin.take n) =
      .ok stdout → stdout = validationText := by
    intro n stdout hok
    have htext := hpass.2
    rw [((streamJob_main hm).mp hok).2.2] at htext
    exact Except.ok.inj htext
  obtain ⟨now, phase⟩ := g
  cases a with
  | advance d =>
    cases h
    exact hsmooth
  | process event =>
    cases phase with
    | probe deadline stage child =>
      obtain ⟨⟨stage', child'⟩, hstep, rfl⟩ := Option.map_eq_some_iff.mp h
      exact Lab.Smooth.step hturn hg hsmooth hno hstep
    | stream deadline stage child =>
      obtain ⟨⟨stage', child'⟩, hstep, rfl⟩ := Option.map_eq_some_iff.mp h
      refine Lab.Smooth.step (fun n stdout hok => ?_) hg.2 hsmooth hno hstep
      rw [hstream n stdout hok]
      exact ⟨rfl, show 11 ≤ streamStateBytes by decide⟩
    | returned result => cases h
  | next =>
    cases phase with
    | probe deadline stage child =>
      cases stage with
      | returned result =>
        cases h
        obtain ⟨output, rfl⟩ := hsmooth.returned result rfl
        obtain ⟨-, hlen⟩ := probe_passes hm (Lab.Sound.success hg output rfl)
        show (Gate.afterProbe _ (.success output)).Smooth
        rw [Gate.afterProbe, if_neg (not_not.mpr hlen)]
        exact .launching
      | _ => cases h
    | stream deadline stage child =>
      cases stage with
      | returned result =>
        cases h
        obtain ⟨output, rfl⟩ := hsmooth.returned result rfl
        obtain ⟨⟨n, hok⟩, -⟩ := (Lab.Sound.success hg.2 output rfl).main
        show (afterStream (.success output)).Smooth
        rw [afterStream, if_neg (not_not.mpr (hstream n output hok))]
        exact rfl
      | _ => cases h
    | returned result => cases h

/-- Over every run of the gate: it passes only if both runners get through their
sandboxes and their modules with the right results; and a run without mishaps
passes exactly if they do. -/
theorem gate_exact :
    (∀ g, (gateMachine host).Reachable g → g.phase = .returned (.ok ()) → Passes host) ∧
    ∀ g result, (gateMachine host).ReachableWhen (fun _ a => a.mishap = false) g →
      g.phase = .returned result → (result = .ok () ↔ Passes host) := by
  have hsound : ∀ g, (gateMachine host).Reachable g → g.phase.Sound host := fun g hg =>
    hg.invariant (P := fun g => g.phase.Sound host) Lab.Sound.launching
      fun _ _ _ hg hs => Gate.step_sound hm hg hs
  refine ⟨fun g hg hphase => ?_, fun g result hg hphase => ⟨fun hok => ?_, fun hpass => ?_⟩⟩
  · have h := hsound g hg
    rw [hphase] at h
    exact h rfl
  · have h := hsound g hg.reachable
    rw [hphase] at h
    exact h hok
  · have h := hg.invariant (P := fun g => g.phase.Sound host ∧ g.phase.Smooth)
      ⟨Lab.Sound.launching, .launching⟩ fun _ _ _ hg hno hs =>
        ⟨Gate.step_sound hm hg.1 hs, Gate.step_smooth hm hpass hg.1 hg.2 hno hs⟩
    rw [hphase] at h
    exact h.2

omit hm

/-! ## The shipped modules -/

/-- With the shipped modules it is up to the sandbox. -/
theorem shipped_passes (hship : Ships host.toolchain host.module probeMemory
      SequentialProbe.sequentialProbe)
    (hstream : Ships host.toolchain host.streamModule streamMemory
      StreamCapitalize.streamCapitalize)
    (hsetup : ∃ q, setup host.kernel validationSandbox host.process = .ok q) : Passes host := by
  have hturn : execute host.toolchain host.module (List.replicate 64 0) 1 0 ((100 : Nat) : Int)
      1000000 129 = .ok (flipAll (List.replicate 64 0)) :=
    execute_eq hship (Nat.le_refl 129) (by decide) (by decide) (by decide)
  have htext : validationStream host = .ok ([] ++ upperAll validationChunk) :=
    executeStream_eq hstream (by decide) (by decide) (by decide)
  exact ⟨⟨hsetup, _, hturn, by rw [length_flipAll, List.length_replicate]⟩, htext⟩

/-- The wasm crates, as they are on both modules. -/
def shippedToolchain : Toolchain where
  wasmparser := {
    validateAll := fun bytes =>
      probeToolchain.wasmparser.validateAll bytes || streamToolchain.wasmparser.validateAll bytes
    parseAll := fun bytes =>
      if bytes = probeBytes then probeToolchain.wasmparser.parseAll bytes
      else streamToolchain.wasmparser.parseAll bytes }
  compile := fun bytes =>
    if bytes = probeBytes then probeToolchain.compile bytes else streamToolchain.compile bytes

/-- A container with Landlock and both modules. -/
def shippedHost : Host := { streamHost with module := probeBytes, toolchain := shippedToolchain }

theorem streamBytes_ne_probeBytes : streamBytes ≠ probeBytes := by
  intro h
  have hlen := congrArg List.length h
  rw [length_probeBytes] at hlen
  simp [streamBytes] at hlen

theorem shippedHost_ships_probe :
    Ships shippedHost.toolchain shippedHost.module probeMemory SequentialProbe.sequentialProbe where
  nonempty := probeHost_ships.nonempty
  size := probeHost_ships.size
  valid := by simp [shippedHost, shippedToolchain, probeToolchain]
  payloads := ⟨3, 4, by simp [shippedHost, shippedToolchain, probeToolchain]⟩
  compiles := by simp [shippedHost, shippedToolchain, probeToolchain]

theorem shippedHost_ships_stream :
    Ships shippedHost.toolchain shippedHost.streamModule streamMemory
      StreamCapitalize.streamCapitalize where
  nonempty := streamHost_ships.nonempty
  size := streamHost_ships.size
  valid := by simp [shippedHost, shippedToolchain, streamHost, streamToolchain]
  payloads := ⟨3, 4, by
    simp [shippedHost, shippedToolchain, streamHost, streamToolchain, streamBytes_ne_probeBytes]⟩
  compiles := by
    simp [shippedHost, shippedToolchain, streamHost, streamToolchain, streamBytes_ne_probeBytes]

theorem shippedHost_modules : shippedHost.Modules where
  nonempty := probeHost_ships.nonempty
  size := probeHost_ships.size
  streamNonempty := streamHost_ships.nonempty
  streamSize := streamHost_ships.size

theorem shippedHost_passes : Passes shippedHost :=
  shipped_passes shippedHost_ships_probe shippedHost_ships_stream probeHost_confines.setup_ok

theorem shipped_probe_main :
    main shippedHost (probeJob shippedHost).argv
      ((probeJob shippedHost).stdin.take (shippedHost.module.length + 64)) =
        .ok (flipAll (List.replicate 64 0)) := by
  have hpass := shippedHost_passes
  have hturn : execute shippedHost.toolchain shippedHost.module (List.replicate 64 0) 1 0
      ((100 : Nat) : Int) 1000000 129 = .ok (flipAll (List.replicate 64 0)) :=
    execute_eq shippedHost_ships_probe (Nat.le_refl 129) (by decide) (by decide) (by decide)
  exact (probeJob_main shippedHost_modules).mpr ⟨Nat.le_refl _, hpass.1.1, hturn⟩

theorem shipped_stream_main :
    main shippedHost (streamJob shippedHost).argv
      ((streamJob shippedHost).stdin.take (shippedHost.streamModule.length + 11)) =
        .ok validationText :=
  (streamJob_main shippedHost_modules).mpr
    ⟨Nat.le_refl _, shippedHost_passes.1.1, shippedHost_passes.2⟩

/-- A run of the driver without mishaps, in a machine that the driver is a part of. -/
theorem Job.success_run {σ α : Type} {M : Machine σ α} {job : Job} {output : List UInt8} {n : Nat}
    {p : Stage → Option Child → σ} {e : ProcessEvent → α}
    (hplace : ∀ stage child event stage' child',
      Stage.step host job false stage child event = some (stage', child') →
        M.step (p stage child) (e event) = some (p stage' child'))
    (hmain : Lab.main host job.argv (job.stdin.take n) = .ok output)
    (hverdict : job.verdict (.code 0) output = .success output)
    (h : M.Reachable (p .launching none)) :
    ∃ child, M.Reachable (p (.returned (.success output)) child) := by
  obtain ⟨-, -, -, hcapacity⟩ := verdict_eq_success hverdict
  have hread : output.take job.limit = output := List.take_of_length_le (Nat.le_succ_of_le hcapacity)
  have hlaunched := h.step (hplace _ _ (.launch .spawned) _ _ rfl)
  have hwritten := hlaunched.step (hplace _ _ .write _ _ rfl)
  have hemitted := hwritten.step (hplace _ _ (.emit output) _ _ rfl)
  have hexited := hemitted.step (hplace _ _ (.exit (.code 0) n) .reading
    (some ⟨job.argv, job.stdin, output, false, some (.code 0)⟩)
    (congrArg (Option.map _) (if_pos ⟨rfl, fun _ => hmain⟩)))
  have hwaiting := hexited.step (hplace _ _ (.read true) (.waiting output)
    (some ⟨job.argv, job.stdin, output, false, some (.code 0)⟩)
    (by simp only [Stage.step, Child.live, Option.isNone_some, true_or, if_true, hread]))
  have hreturned := hwaiting.step (hplace _ _ (.wait true) _ _ rfl)
  rw [hverdict] at hreturned
  exact ⟨_, hreturned⟩

/-- The gate in the image: both children write and return in time. -/
theorem gate_exact_shipped : ∃ g, (gateMachine shippedHost).Reachable g ∧
    g.phase = .returned (.ok ()) ∧ Passes shippedHost := by
  have hlen : (flipAll (List.replicate 64 0)).length = validationPolicy.stateBytes :=
    (length_flipAll _).trans List.length_replicate
  obtain ⟨_, hprobe⟩ := Job.success_run (M := gateMachine shippedHost) (e := .process)
    (p := fun stage child => ⟨0, .probe validationPolicy.executionCutoff stage child⟩)
    (fun _ _ _ _ _ hstep => congrArg (Option.map _) hstep) shipped_probe_main
    (if_pos ⟨rfl, hlen, hlen.le⟩) .init
  have hlaunching := hprobe.step (a := .next) rfl
  rw [Gate.afterProbe, if_neg (not_not.mpr hlen)] at hlaunching
  obtain ⟨_, hstream⟩ := Job.success_run (M := gateMachine shippedHost) (e := .process)
    (p := fun stage child => ⟨0, .stream (0 + validationPolicy.executionCutoff) stage child⟩)
    (fun _ _ _ _ _ hstep => congrArg (Option.map _) hstep) shipped_stream_main
    (if_pos ⟨rfl, rfl, show 11 ≤ streamStateBytes by decide⟩) hlaunching
  have hpassed : (gateMachine shippedHost).Reachable ⟨0, .returned (.ok ())⟩ :=
    hstream.step (a := .next) rfl
  exact ⟨_, hpassed, rfl, (gate_exact shippedHost_modules).1 _ hpassed rfl⟩

end Lab
