import IshtarOxide.Lib.Linux
import IshtarOxide.Lib.Result

/-!
# How the runners confine themselves

The two `sandbox.rs` of the repository: `apply_runner_sandbox` of the scheduler
and `apply` of the sequential lab. They make the same kernel calls in two
orders. A Landlock ruleset is a descriptor, so it has to be created while one
can be opened: the lab lowers `RLIMIT_NOFILE` after it and says why, the
scheduler before it.

* `setup_blocked`: with the standard descriptors open, the scheduler's sequence
  always fails there, where the lab's completes.
-/

open Linux Seccomp

namespace Sandbox

/-! ## Kernel calls -/

/-- The errors of a setup, by the call that fails. -/
inductive SandboxError
  | closeRange (e : Errno)
  | noNewPrivs (e : Errno)
  | setrlimit (e : Errno)
  | createRuleset (e : Errno)
  | restrictSelf (e : Errno)
  | notFullyEnforced
  | unsupportedArchitecture
  | installFilter (e : Errno)
  | notFullyApplied (notes : List String)
deriving DecidableEq, Repr

/-- `close_inherited_descriptors`. -/
def closeInheritedDescriptors (k : Kernel) (p : Process) : Except SandboxError Process :=
  (p.closeRange k 3 (2 ^ 32 - 1)).mapError .closeRange

/-- `set_no_new_privs`. -/
def setNoNewPrivs (p : Process) : Except SandboxError Process :=
  p.setNoNewPrivs.mapError .noNewPrivs

/-- `set_limit`. -/
def setLimit (resource : Resource) (value : Nat) (p : Process) : Except SandboxError Process :=
  (p.setLimit resource ⟨value, value⟩).mapError .setrlimit

/-- `apply_landlock`, for `ABI::V3`. Accesses that the kernel does not know are
not handled, which shows in the status. The ruleset is closed when it is in
force. -/
def applyLandlock (k : Kernel) (p : Process) : Except SandboxError Process := do
  let abi := 3
  let handled := min abi k.landlockAbi
  let (fd, p) ← (p.createRuleset k).mapError .createRuleset
  let p ← p.setNoNewPrivs.mapError .restrictSelf
  let p ← (p.restrictSelf ⟨handled⟩).mapError .restrictSelf
  let p := p.close fd
  if handled ≠ abi then throw .notFullyEnforced
  pure p

/-- The installation of a compiled filter. -/
def installFilter (k : Kernel) (filter : Seccomp.Filter Sysno) (p : Process) :
    Except SandboxError Process := do
  if k.knownArch = false then throw .unsupportedArchitecture
  let p ← p.setNoNewPrivs.mapError .installFilter
  (p.installFilter k filter).mapError .installFilter

/-! ## Filters -/

/-- `fd_rule`. -/
def fdRule (fd : BitVec 64) : Rule := [⟨0, .dword, .eq, fd⟩]

/-- `masked_zero`. -/
def maskedZero (argument : Fin 6) (mask : BitVec 64) : Condition :=
  ⟨argument, .dword, .maskedEq mask, 0⟩

/-- The system calls that both filters allow whatever their arguments are. -/
def freeCalls : List (Sysno × List Rule) :=
  [(.brk, []), (.madvise, []), (.mremap, []), (.munmap, []), (.futex, []), (.schedYield, []),
    (.rtSigaction, []), (.rtSigprocmask, []), (.rtSigreturn, []), (.sigaltstack, []), (.close, []),
    (.exit, []), (.exitGroup, [])]

/-- The rules on mappings. `fd` is compared as the 32-bit value of `-1`. -/
def mappingRules : List (Sysno × List Rule) :=
  [(.mmap, [[maskedZero 2 protExec, ⟨3, .dword, .maskedEq mapAnonymous, mapAnonymous⟩,
      ⟨4, .dword, .eq, 0xffffffff⟩]]),
    (.mprotect, [[maskedZero 2 protExec]])]

def outputRules : List (Sysno × List Rule) :=
  [(.write, [fdRule 1, fdRule 2]), (.writev, [fdRule 1, fdRule 2])]

end Sandbox

/-! ## The scheduler -/

namespace Scheduler

open Sandbox

/-- `SandboxPolicy`. -/
structure SandboxPolicy where
  addressSpaceBytes : Nat
  cpuSeconds : Nat
  openFiles : Nat
deriving DecidableEq, Repr

/-- `SandboxStatus`. -/
structure SandboxStatus where
  noNewPrivsApplied : Bool
  rlimitsApplied : Bool
  seccompApplied : Bool
  landlockApplied : Bool
  notes : List String
deriving DecidableEq, Repr

/-- `SandboxStatus::verify_required` on Linux. -/
def SandboxStatus.verifyRequired (s : SandboxStatus) : Except SandboxError Unit :=
  if s.noNewPrivsApplied && s.rlimitsApplied && s.seccompApplied && s.landlockApplied then .ok ()
  else .error (.notFullyApplied s.notes)

/-- `apply_rlimits`. -/
def applyRlimits (policy : SandboxPolicy) (p : Process) : Except SandboxError Process := do
  let p ← setLimit .addressSpace policy.addressSpaceBytes p
  let p ← setLimit .cpu policy.cpuSeconds p
  let p ← setLimit .openFiles policy.openFiles p
  let p ← setLimit .processes 1 p
  setLimit .fileSize 0 p

/-- The filter of `apply_seccomp`. -/
def runnerFilter : Seccomp.Filter Sysno := ⟨freeCalls ++ mappingRules ++ outputRules⟩

/-- `apply_seccomp`. -/
def applySeccomp (k : Kernel) (p : Process) : Except SandboxError Process :=
  installFilter k runnerFilter p

/-- `apply_runner_sandbox`. -/
def applyRunnerSandbox (k : Kernel) (policy : SandboxPolicy) (p : Process) :
    Except SandboxError (SandboxStatus × Process) := do
  let p ← setNoNewPrivs p
  let p ← applyRlimits policy p
  let p ← applyLandlock k p
  let p ← applySeccomp k p
  pure (⟨true, true, true, true,
    ["filesystem-denying Landlock and seccomp installed before parsing"]⟩, p)

/-- What `runner_main` does before it looks at the module. -/
def setup (k : Kernel) (policy : SandboxPolicy) (p : Process) : Except SandboxError Process := do
  let p ← closeInheritedDescriptors k p
  let (status, p) ← applyRunnerSandbox k policy p
  status.verifyRequired
  pure p

end Scheduler

/-! ## The lab -/

namespace Lab

open Sandbox

/-- `sandbox::Policy`. -/
structure SandboxPolicy where
  addressSpaceBytes : Nat
  cpuSeconds : Nat
deriving DecidableEq, Repr

/-- The filter of `apply_seccomp`. `getrandom` is for the hash state of wasmi. -/
def runnerFilter : Seccomp.Filter Sysno :=
  ⟨freeCalls ++ mappingRules ++ [(.getrandom, [[⟨1, .qword, .le, 32⟩]])] ++ outputRules⟩

/-- `apply_seccomp`. -/
def applySeccomp (k : Kernel) (p : Process) : Except SandboxError Process :=
  installFilter k runnerFilter p

/-- `apply`. -/
def apply (k : Kernel) (policy : SandboxPolicy) (p : Process) : Except SandboxError Process := do
  let p ← setNoNewPrivs p
  let p ← setLimit .addressSpace policy.addressSpaceBytes p
  let p ← setLimit .cpu policy.cpuSeconds p
  let p ← setLimit .processes 1 p
  let p ← setLimit .fileSize 0 p
  let p ← applyLandlock k p
  let p ← setLimit .openFiles 3 p
  applySeccomp k p

/-- What the lab's runners do before they look at the module. -/
def setup (k : Kernel) (policy : SandboxPolicy) (p : Process) : Except SandboxError Process := do
  let p ← closeInheritedDescriptors k p
  apply k policy p

end Lab

/-! ## The order of the calls -/

namespace Sandbox

variable {k : Kernel} {p q : Process}

/-- The parent supplies stdin, stdout and stderr. -/
def StandardOpen (p : Process) : Prop :=
  0 ∈ p.descriptors.fds ∧ 1 ∈ p.descriptors.fds ∧ 2 ∈ p.descriptors.fds

instance (p : Process) : Decidable (StandardOpen p) :=
  inferInstanceAs (Decidable (0 ∈ p.descriptors.fds ∧ 1 ∈ p.descriptors.fds ∧ 2 ∈ p.descriptors.fds))

/-- The kernel lets the process lower its limits to those of the policy. -/
structure Lowerable (policy : Scheduler.SandboxPolicy) (p : Process) : Prop where
  addressSpace : policy.addressSpaceBytes ≤ (p.limits .addressSpace).max
  cpu : policy.cpuSeconds ≤ (p.limits .cpu).max
  openFiles : policy.openFiles ≤ (p.limits .openFiles).max
  processes : 1 ≤ (p.limits .processes).max
  fileSize : 0 ≤ (p.limits .fileSize).max

/-- The process after the inherited descriptors are closed. -/
def closed (p : Process) : Process :=
  { p with descriptors := p.descriptors.closeRange 3 (2 ^ 32 - 1) }

theorem closeInheritedDescriptors_ok (hk : 0 < k.landlockAbi) :
    closeInheritedDescriptors k p = .ok (closed p) := by
  simp [closeInheritedDescriptors, Process.closeRange, k.closeRange_of_landlock hk, closed]

/-- Nothing but the standard descriptors stays open. -/
theorem mem_closed {fd : Nat} :
    fd ∈ (closed p).descriptors.fds ↔ fd ∈ p.descriptors.fds ∧ fd < 3 := by
  show fd ∈ (p.descriptors.closeRange 3 (2 ^ 32 - 1)).fds ↔ _
  rw [Descriptors.mem_closeRange]
  refine and_congr_right fun hfd => ?_
  have := p.descriptors.bounded fd hfd
  omega

theorem lowestFree_closed (h : StandardOpen p) : (closed p).descriptors.lowestFree = 3 := by
  refine Descriptors.lowestFree_eq (fun h3 => absurd (mem_closed.mp h3).2 (by decide)) fun m hm => ?_
  refine mem_closed.mpr ⟨?_, hm⟩
  match m, hm with
  | 0, _ => exact h.1
  | 1, _ => exact h.2.1
  | 2, _ => exact h.2.2

theorem setLimit_ok {resource : Resource} {value : Nat} (h : value ≤ (p.limits resource).max) :
    setLimit resource value p = .ok (p.withLimit resource ⟨value, value⟩) := by
  rw [setLimit, Process.setLimit_lower h]
  rfl

/-- A ruleset needs a number below `RLIMIT_NOFILE`. -/
theorem applyLandlock_emfile (hk : 3 ≤ k.landlockAbi)
    (h : (p.limits .openFiles).cur ≤ p.descriptors.lowestFree) :
    applyLandlock k p = .error (.createRuleset .emfile) := by
  have hnone : p.descriptors.allocate (p.limits .openFiles).cur = none := by
    rw [Descriptors.allocate, dif_neg fun hlt => absurd hlt.1 (Nat.not_lt.mpr h)]
  have hcreate : p.createRuleset k = .error .emfile := by
    rw [Process.createRuleset, if_neg (by omega), hnone]
  simp [applyLandlock, hcreate]

/-- With a free number the ruleset is created, put in force and closed. -/
theorem applyLandlock_ok (hk : 3 ≤ k.landlockAbi)
    (h : p.descriptors.lowestFree < (p.limits .openFiles).cur)
    (hb : p.descriptors.lowestFree < 2 ^ 31) :
    applyLandlock k p = .ok { p with noNewPrivs := true, domain := p.domain ++ [⟨3⟩] } := by
  obtain ⟨fd, d, hd⟩ : ∃ fd d, p.descriptors.allocate (p.limits .openFiles).cur = some (fd, d) := by
    rw [Descriptors.allocate, dif_pos ⟨h, hb⟩]
    exact ⟨_, _, rfl⟩
  have hcreate : p.createRuleset k = .ok (fd, { p with descriptors := d }) := by
    rw [Process.createRuleset, if_neg (by omega), hd]
  have hmin : min 3 k.landlockAbi = 3 := Nat.min_eq_left hk
  simp [applyLandlock, hcreate, Process.setNoNewPrivs, Process.restrictSelf, hmin, Process.close,
    Descriptors.close_allocate hd]

end Sandbox

namespace Scheduler

open Sandbox

variable {k : Kernel} {p : Process} {policy : SandboxPolicy}

/-- The process with the limits of the policy. -/
def limited (policy : SandboxPolicy) (p : Process) : Process :=
  ((((p.withLimit .addressSpace ⟨policy.addressSpaceBytes, policy.addressSpaceBytes⟩).withLimit
    .cpu ⟨policy.cpuSeconds, policy.cpuSeconds⟩).withLimit
    .openFiles ⟨policy.openFiles, policy.openFiles⟩).withLimit .processes ⟨1, 1⟩).withLimit
    .fileSize ⟨0, 0⟩

theorem applyRlimits_ok (h : Lowerable policy p) :
    applyRlimits policy p = .ok (limited policy p) := by
  unfold applyRlimits
  rw [setLimit_ok h.addressSpace, Except.ok_bind, setLimit_ok (by exact h.cpu), Except.ok_bind,
    setLimit_ok (by exact h.openFiles), Except.ok_bind, setLimit_ok (by exact h.processes),
    Except.ok_bind, setLimit_ok (by exact h.fileSize)]
  rfl

/-- The scheduler's limit on descriptors leaves none for the ruleset. -/
theorem setup_emfile (hstd : StandardOpen p) (hk : 3 ≤ k.landlockAbi)
    (hlow : Lowerable policy p) (hopen : policy.openFiles ≤ 3) :
    setup k policy p = .error (.createRuleset .emfile) := by
  have hlimits := applyRlimits_ok (p := { closed p with noNewPrivs := true })
    ⟨hlow.addressSpace, hlow.cpu, hlow.openFiles, hlow.processes, hlow.fileSize⟩
  have hland : applyLandlock k (limited policy { closed p with noNewPrivs := true }) =
      .error (.createRuleset .emfile) := by
    refine applyLandlock_emfile hk ?_
    show policy.openFiles ≤ (closed p).descriptors.lowestFree
    rw [lowestFree_closed hstd]
    exact hopen
  simp [setup, closeInheritedDescriptors_ok (show 0 < k.landlockAbi by omega), applyRunnerSandbox,
    setNoNewPrivs, Process.setNoNewPrivs, hlimits, hland]

end Scheduler

namespace Lab

open Sandbox

variable {k : Kernel} {p : Process}

/-- The lab's order of the same calls goes through. -/
theorem setup_ok {policy : Scheduler.SandboxPolicy} (hstd : StandardOpen p)
    (hk : 3 ≤ k.landlockAbi) (hlow : Lowerable policy p) (hopen : policy.openFiles = 3)
    (hfree : 3 < (p.limits .openFiles).cur) (hs : k.hasSeccomp) (ha : k.knownArch) :
    ∃ q, setup k ⟨policy.addressSpaceBytes, policy.cpuSeconds⟩ p = .ok q := by
  have hland : ∀ q : Process, q.descriptors = (closed p).descriptors →
      q.limits .openFiles = p.limits .openFiles →
      applyLandlock k q = .ok { q with noNewPrivs := true, domain := q.domain ++ [⟨3⟩] } := by
    intro q hd hl
    refine applyLandlock_ok hk ?_ ?_
    · rw [hd, hl, lowestFree_closed hstd]
      exact hfree
    · rw [hd, lowestFree_closed hstd]
      decide
  unfold setup apply setNoNewPrivs Process.setNoNewPrivs applySeccomp installFilter
  rw [closeInheritedDescriptors_ok (by omega), Except.ok_bind, Except.mapError_ok, Except.ok_bind,
    setLimit_ok (by exact hlow.addressSpace), Except.ok_bind, setLimit_ok (by exact hlow.cpu),
    Except.ok_bind, setLimit_ok (by exact hlow.processes), Except.ok_bind,
    setLimit_ok (by exact hlow.fileSize), Except.ok_bind, hland _ (by rfl) (by rfl), Except.ok_bind,
    setLimit_ok (by have := hlow.openFiles; rw [hopen] at this; exact this), Except.ok_bind]
  simp [ha, hs, Process.setNoNewPrivs, Process.installFilter]

end Lab

/-! ## The scheduler blocks itself -/

namespace Sandbox

/-- The scheduler's setup, with the limit on descriptors that `runner_main`
passes, completes and ends with the limits and the Landlock domain of the lab's. -/
def Unblocked (k : Kernel) (addressSpaceBytes cpuSeconds : Nat) (p : Process) : Prop :=
  ∃ q q', Scheduler.setup k ⟨addressSpaceBytes, cpuSeconds, 3⟩ p = .ok q ∧
    Lab.setup k ⟨addressSpaceBytes, cpuSeconds⟩ p = .ok q' ∧
    q.limits = q'.limits ∧ q.domain = q'.domain

/-- In no process with the standard descriptors open does the scheduler's setup
complete: whatever else is inherited, creating the ruleset fails with EMFILE
under the limit that was set before. From the same process, if it can open a
fourth descriptor at all, the lab's order completes. -/
theorem setup_blocked (k : Kernel) (addressSpaceBytes cpuSeconds : Nat) (p : Process)
    (hstd : StandardOpen p) (hk : 3 ≤ k.landlockAbi)
    (hlow : Lowerable ⟨addressSpaceBytes, cpuSeconds, 3⟩ p) :
    ¬ Unblocked k addressSpaceBytes cpuSeconds p ∧
    Scheduler.setup k ⟨addressSpaceBytes, cpuSeconds, 3⟩ p = .error (.createRuleset .emfile) ∧
    (3 < (p.limits .openFiles).cur → k.hasSeccomp → k.knownArch →
      ∃ q, Lab.setup k ⟨addressSpaceBytes, cpuSeconds⟩ p = .ok q) := by
  have hfail := Scheduler.setup_emfile hstd hk hlow (Nat.le_refl 3)
  refine ⟨?_, hfail, fun hfree hs ha => Lab.setup_ok hstd hk hlow rfl hfree hs ha⟩
  rintro ⟨q, q', hq, _⟩
  rw [hfail] at hq
  cases hq

/-- A kernel with Landlock ABI 3. -/
def landlockKernel : Kernel where
  landlockAbi := 3
  hasCloseRange := true
  hasSeccomp := true
  knownArch := true
  closeRange_of_landlock _ := rfl
  other _ p := p

/-- A child as `execute_process` spawns it, with one more inherited descriptor. -/
def spawnedChild : Process where
  descriptors := ⟨{0, 1, 2, 7}, by decide⟩
  limits _ := ⟨1024, 2 ^ 64 - 1⟩
  privileged := false
  noNewPrivs := false
  domain := []
  filters := []
  space := ⟨fun _ => none, 0, 0⟩
  output := []
  status := .running

theorem spawnedChild_lowerable {as cpu : Nat} (has : as < 2 ^ 64) (hcpu : cpu < 2 ^ 64) :
    Lowerable ⟨as, cpu, 3⟩ spawnedChild where
  addressSpace := Nat.le_pred_of_lt has
  cpu := Nat.le_pred_of_lt hcpu
  openFiles := show 3 ≤ 2 ^ 64 - 1 by decide
  processes := show 1 ≤ 2 ^ 64 - 1 by decide
  fileSize := Nat.zero_le _

theorem setup_blocked_spawned_child :
    StandardOpen spawnedChild ∧ ¬ Unblocked landlockKernel (256 * 1024 * 1024) 2 spawnedChild := by
  have hstd : StandardOpen spawnedChild := by decide
  exact ⟨hstd, (setup_blocked landlockKernel _ 2 spawnedChild hstd (by decide)
    (spawnedChild_lowerable (by decide) (by decide))).1⟩

/-- Under the production policy the sequence does not complete, although the
lab's does. -/
theorem production_setup_incomplete :
    ¬ Unblocked landlockKernel (256 * 1024 * 1024) 2 spawnedChild ∧
    ∃ q, Lab.setup landlockKernel ⟨256 * 1024 * 1024, 2⟩ spawnedChild = .ok q := by
  have hstd : StandardOpen spawnedChild := by decide
  have hlow : Lowerable ⟨256 * 1024 * 1024, 2, 3⟩ spawnedChild :=
    spawnedChild_lowerable (by decide) (by decide)
  refine ⟨?_, Lab.setup_ok hstd (by decide) hlow rfl (by decide) rfl rfl⟩
  rintro ⟨q, q', hq, _⟩
  rw [Scheduler.setup_emfile hstd (by decide) hlow (Nat.le_refl 3)] at hq
  cases hq

end Sandbox
