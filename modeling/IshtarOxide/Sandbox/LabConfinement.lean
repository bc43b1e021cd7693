import IshtarOxide.Sandbox.Confinement

/-!
# Confinement of the lab's runners

The lab's filter is the scheduler's and one call more, and unlike the scheduler's
its setup completes in a child with all standard descriptors. What a runner may
do after it, over every sequence of system calls until the filter kills it.

* `allows_iff`: what the lab's filter lets through, by the scheduler's.
* `setup_bounds`: what a completed setup leaves behind.
* `sealed_syscall`, `runner_sealed`: one call and whole runs keep the invariant.
-/

open Linux Seccomp

namespace Lab

open Sandbox
open Scheduler (SameFrame Steady PageConfined Output.standard)

variable {k : Kernel} {p q r : Process} {policy : SandboxPolicy}

/-! ## The filter -/

/-- A request for at most 32 random bytes. -/
def ShortRandom (call : Seccomp.Call Sysno) : Prop :=
  call.nr = .getrandom ∧ (call.args 1).toNat ≤ 32

/-- The lab's filter allows what the scheduler's does, and `getrandom`. -/
theorem allows_iff {call : Seccomp.Call Sysno} :
    runnerFilter.allows call = true ↔
      Scheduler.runnerFilter.allows call = true ∨ ShortRandom call := by
  obtain ⟨nr, args⟩ := call
  cases nr with
  | getrandom =>
    have hlab : runnerFilter.allows ⟨.getrandom, args⟩ = decide (args 1 ≤ 32) := by
      show List.any [_] _ = _
      simp [Rule.holds, Condition.holds, CmpOp.test]
    have hscheduler : Scheduler.runnerFilter.allows ⟨.getrandom, args⟩ = false := rfl
    simp [hlab, hscheduler, ShortRandom, BitVec.le_def]
  | _ =>
    refine ⟨.inl, fun h => h.elim id fun hshort => ?_⟩
    obtain ⟨hnr, -⟩ := hshort
    cases hnr

theorem perform_getrandom {call : Seccomp.Call Sysno} {choice : Choice} (h : ShortRandom call) :
    p.perform k call choice = p := by
  obtain ⟨nr, args⟩ := call
  obtain ⟨rfl, -⟩ := h
  rfl

/-! ## After the setup -/

/-- The limits that `apply` sets. -/
def SandboxPolicy.limits (policy : SandboxPolicy) : Resource → Limit
  | .addressSpace => ⟨policy.addressSpaceBytes, policy.addressSpaceBytes⟩
  | .cpu => ⟨policy.cpuSeconds, policy.cpuSeconds⟩
  | .openFiles => ⟨3, 3⟩
  | .processes => ⟨1, 1⟩
  | .fileSize => ⟨0, 0⟩

/-- What holds a process back besides its filters. -/
structure Bounds (policy : SandboxPolicy) (p q : Process) : Prop where
  limits : q.limits = policy.limits
  domain : q.domain = p.domain ++ [⟨3⟩]
  noNewPrivs : q.noNewPrivs = true

theorem setLimit_eq {resource : Resource} {value : Nat} (h : setLimit resource value p = .ok q) :
    q = p.withLimit resource ⟨value, value⟩ := by
  have h := Except.mapError_eq_ok.mp h
  unfold Process.setLimit at h
  split at h
  · cases h
  · split at h
    · cases h
    · exact (Except.ok.inj h).symm

theorem applyLandlock_eq (h : applyLandlock k p = .ok q) :
    q.limits = p.limits ∧ q.domain = p.domain ++ [⟨3⟩] := by
  simp only [applyLandlock, Except.bind_eq_ok, Except.mapError_eq_ok] at h
  obtain ⟨⟨fd, p1⟩, h1, p2, h2, p3, h3, h4⟩ := h
  unfold Process.createRuleset at h1
  split at h1
  · cases h1
  · split at h1
    · cases h1
    · cases h1
      cases h2
      unfold Process.restrictSelf at h3
      split at h3
      · cases h3
      · cases h3
        split at h4
        · cases h4
        · next habi =>
          cases h4
          rw [not_not.mp habi]
          exact ⟨rfl, rfl⟩

theorem closeInheritedDescriptors_eq (h : closeInheritedDescriptors k p = .ok q) :
    q = closed p := by
  have h := Except.mapError_eq_ok.mp h
  unfold Process.closeRange at h
  split at h
  · exact (Except.ok.inj h).symm
  · cases h

/-- What a completed setup leaves behind. -/
theorem setup_bounds (h : setup k policy p = .ok q) :
    q.descriptors = (closed p).descriptors ∧ q.filters = runnerFilter :: p.filters ∧
      q.space = p.space.stamp ∧ q.output = p.output ∧ Bounds policy p q := by
  simp only [setup, apply, Except.bind_eq_ok] at h
  obtain ⟨p0, h0, p1, h1, p2, h2, p3, h3, p4, h4, p5, h5, p6, h6, p7, h7, h8⟩ := h
  obtain rfl := closeInheritedDescriptors_eq h0
  have hframe : SameFrame (closed p) p7 :=
    (((((Scheduler.sameFrame_setNoNewPrivs h1).trans (Scheduler.sameFrame_setLimit h2)).trans
      (Scheduler.sameFrame_setLimit h3)).trans (Scheduler.sameFrame_setLimit h4)).trans
      (Scheduler.sameFrame_setLimit h5)).trans
      ((Scheduler.sameFrame_applyLandlock h6).trans (Scheduler.sameFrame_setLimit h7))
  obtain ⟨hlimits, hdomain⟩ := applyLandlock_eq h6
  cases h1
  obtain rfl := setLimit_eq h2
  obtain rfl := setLimit_eq h3
  obtain rfl := setLimit_eq h4
  obtain rfl := setLimit_eq h5
  obtain rfl := setLimit_eq h7
  obtain rfl := Scheduler.installFilter_ok h8
  refine ⟨hframe.descriptors, congrArg (runnerFilter :: ·) hframe.filters,
    congrArg AddressSpace.stamp hframe.space, hframe.output, ?_, hdomain, rfl⟩
  funext resource
  cases resource <;> simp [Process.withLimit, SandboxPolicy.limits, hlimits]

/-! ## The invariant -/

/-- A process that was confined as `p`. -/
structure Confined (p q : Process) : Prop where
  descriptors : q.descriptors.fds ⊆ {0, 1, 2}
  filter : runnerFilter ∈ q.filters
  output : ∃ new, q.output = p.output ++ new ∧ ∀ o ∈ new, Output.standard o
  pages : q.space.Forall PageConfined

theorem confined_setup (h : setup k policy p = .ok q)
    (hwx : p.space.Forall fun page => ¬ (page.write ∧ page.exec)) : Confined q q := by
  obtain ⟨hd, hf, hs, -, -⟩ := setup_bounds h
  refine ⟨fun fd hfd => ?_, ?_, ⟨[], by simp, by simp⟩, fun n page hpage => ?_⟩
  · rw [hd] at hfd
    have := (mem_closed.mp hfd).2
    simp only [Finset.mem_insert, Finset.mem_singleton]
    omega
  · rw [hf]
    exact List.mem_cons_self
  · rw [hs] at hpage
    obtain ⟨old, hold, rfl⟩ := Option.map_eq_some_iff.mp hpage
    exact ⟨hwx n old hold, nofun, fun hx => congrArg Origin.before hx⟩

/-- No call that the filter allows touches what holds the process back. -/
theorem Bounds.perform {call : Seccomp.Call Sysno} {choice : Choice} (h : Bounds policy p q)
    (ha : runnerFilter.allows call) : Bounds policy p (q.perform k call choice) := by
  have hsame : (q.perform k call choice).limits = q.limits ∧
      (q.perform k call choice).domain = q.domain ∧
      (q.perform k call choice).noNewPrivs = q.noNewPrivs := by
    obtain ⟨nr, args⟩ := call
    cases nr with
    | mmap =>
      show (q.mmap args choice).limits = _ ∧ (q.mmap args choice).domain = _ ∧
        (q.mmap args choice).noNewPrivs = _
      unfold Process.mmap
      split
      · exact ⟨rfl, rfl, rfl⟩
      · dsimp only
        split
        · exact ⟨rfl, rfl, rfl⟩
        · split
          · exact ⟨rfl, rfl, rfl⟩
          · split <;> exact ⟨rfl, rfl, rfl⟩
    | mremap =>
      show (q.mremap args choice).limits = _ ∧ (q.mremap args choice).domain = _ ∧
        (q.mremap args choice).noNewPrivs = _
      unfold Process.mremap
      split <;> exact ⟨rfl, rfl, rfl⟩
    | brk =>
      unfold Process.perform
      dsimp only
      split <;> exact ⟨rfl, rfl, rfl⟩
    | write | writev =>
      unfold Process.perform Process.emit
      dsimp only
      split <;> exact ⟨rfl, rfl, rfl⟩
    | other nr => exact absurd ha nofun
    | _ => exact ⟨rfl, rfl, rfl⟩
  exact ⟨hsame.1.trans h.limits, hsame.2.1.trans h.domain, hsame.2.2.trans h.noNewPrivs⟩

theorem confined_perform {call : Seccomp.Call Sysno} {choice : Choice} (h : Confined p q)
    (ha : runnerFilter.allows call) :
    Confined p (q.perform k call choice) ∧
      (q.perform k call choice).descriptors.fds ⊆ q.descriptors.fds := by
  rcases allows_iff.mp ha with ha | hrandom
  · have hst : Steady q (q.perform k call choice) := Scheduler.steady_perform ha
    obtain ⟨old, hold, hstd⟩ := h.output
    obtain ⟨new, hnew, hstd'⟩ := hst.output
    refine ⟨⟨hst.descriptors.trans h.descriptors, hst.filters ▸ h.filter, ⟨old ++ new, ?_, ?_⟩,
      Scheduler.confined_pages ha h.pages⟩, hst.descriptors⟩
    · rw [hnew, hold, List.append_assoc]
    · intro o ho
      exact (List.mem_append.mp ho).elim (hstd o) (hstd' o)
  · rw [perform_getrandom hrandom]
    exact ⟨h, Finset.Subset.refl _⟩

/-- A confined process that the policy bounds. -/
structure Sealed (policy : SandboxPolicy) (p q r : Process) : Prop where
  confined : Confined q r
  bounds : Bounds policy p r

/-- One system call. -/
theorem sealed_syscall {r' : Process} {e : Seccomp.Call Sysno × Choice} (h : Sealed policy p q r)
    (hs : r.syscall k e = some r') :
    Sealed policy p q r' ∧ r'.descriptors.fds ⊆ r.descriptors.fds ∧
      (r'.status ≠ .killed → runnerFilter.allows e.1) := by
  unfold Process.syscall at hs
  split at hs
  · split at hs
    · next hall =>
      cases hs
      have ha : runnerFilter.allows e.1 := List.all_eq_true.mp hall _ h.confined.filter
      obtain ⟨hconfined, hfds⟩ := confined_perform h.confined ha
      exact ⟨⟨hconfined, h.bounds.perform ha⟩, hfds, fun _ => ha⟩
    · cases hs
      obtain ⟨hd, hf, ho, hp⟩ := h.confined
      obtain ⟨hl, hdom, hn⟩ := h.bounds
      exact ⟨⟨⟨hd, hf, ho, hp⟩, ⟨hl, hdom, hn⟩⟩, Finset.Subset.refl _, fun hk => absurd rfl hk⟩
  · cases hs

/-- Once the setup of a runner has succeeded, in a process without a writable and
executable page, every state that any sequence of system calls reaches is
confined and has the limits of the policy and the Landlock domain. No call opens
a descriptor, and one that does not kill is one of the scheduler's or asks for
at most 32 random bytes. -/
theorem runner_sealed (h : setup k policy p = .ok q)
    (hwx : p.space.Forall fun page => ¬ (page.write ∧ page.exec))
    (hr : (kernel k q).Reachable r) :
    Sealed policy p q r ∧ ∀ e r', r.syscall k e = some r' →
      r'.descriptors.fds ⊆ r.descriptors.fds ∧
      (r'.status ≠ .killed → Scheduler.runnerFilter.allows e.1 ∨ ShortRandom e.1) := by
  obtain ⟨-, -, -, -, hbounds⟩ := setup_bounds h
  have hinv : Sealed policy p q r :=
    hr.invariant ⟨confined_setup h hwx, hbounds⟩ fun _ _ _ hc hs => (sealed_syscall hc hs).1
  refine ⟨hinv, fun e r' hs => ?_⟩
  obtain ⟨-, hfds, hallowed⟩ := sealed_syscall hinv hs
  exact ⟨hfds, fun hk => allows_iff.mp (hallowed hk)⟩

/-- A child with the standard descriptors and one more, and a page of code. -/
def probeChild : Process :=
  { spawnedChild with
    space :=
      { pages := fun n => if n = 16 then some ⟨true, false, true, false, .before true⟩ else none
        heapStart := 17 * pageSize
        brk := 17 * pageSize } }

/-- It draws the hash seed, grows its heap, answers and opens a file. -/
def probeCalls : List (Seccomp.Call Sysno × Choice) :=
  [(⟨.getrandom, ![0, 16, 1, 0, 0, 0]⟩, ⟨none, 0, []⟩),
    (⟨.brk, ![18 * 4096, 0, 0, 0, 0, 0]⟩, ⟨some 0, 0, []⟩),
    (⟨.write, ![1, 0, 1, 0, 0, 0]⟩, ⟨none, 0, [65]⟩),
    (⟨.other 2, ![0, 0, 0, 0, 0, 0]⟩, ⟨none, 0, []⟩)]

theorem runner_sealed_probe_child :
    ∃ q r, setup landlockKernel ⟨256 * 1024 * 1024, 2⟩ probeChild = .ok q ∧
      (kernel landlockKernel q).Reachable r ∧ r.output = [⟨.write, 1, [65]⟩] ∧
      r.status = .killed ∧ Sealed ⟨256 * 1024 * 1024, 2⟩ probeChild q r := by
  have hrun : (setup landlockKernel ⟨256 * 1024 * 1024, 2⟩ probeChild).toOption.bind (fun q =>
      ((kernel landlockKernel q).run q probeCalls).map fun r => (r.output, r.status)) =
        some ([⟨.write, 1, [65]⟩], .killed) := by decide +kernel
  obtain ⟨q, hq, hrun⟩ := Option.bind_eq_some_iff.mp hrun
  obtain ⟨r, hr, hout⟩ := Option.map_eq_some_iff.mp hrun
  have hsetup : setup landlockKernel ⟨256 * 1024 * 1024, 2⟩ probeChild = .ok q := by
    cases hs : setup landlockKernel ⟨256 * 1024 * 1024, 2⟩ probeChild with
    | error e => rw [hs] at hq; cases hq
    | ok q' => rw [hs] at hq; cases hq; rfl
  have hreach : (kernel landlockKernel q).Reachable r :=
    (Machine.Reachable.init (M := kernel landlockKernel q)).run hr
  refine ⟨q, r, hsetup, hreach, congrArg Prod.fst hout, congrArg Prod.snd hout,
    (runner_sealed hsetup ?_ hreach).1⟩
  intro n page hpage
  simp only [probeChild] at hpage
  split at hpage
  · cases hpage
    decide
  · cases hpage

end Lab
