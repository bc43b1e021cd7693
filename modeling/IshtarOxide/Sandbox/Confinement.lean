import IshtarOxide.Sandbox.Setup
import Mathlib.Data.Fin.VecNotation

/-!
# Confinement of the scheduler's runner

What a process may still do once the setup of `runner_main` has succeeded: over
every sequence of system calls, with any arguments and whatever the kernel
chooses, until the filter kills it.

* `setup_spec`: what a completed setup leaves behind.
* `allowed_*`: what the filter says about each call that it looks into.
* `confined_syscall`, `confinement`: one call and whole runs keep the invariant.
-/

open Linux Seccomp

namespace Scheduler

open Sandbox

variable {k : Kernel} {p q : Process} {policy : SandboxPolicy}

/-! ## After the setup -/

/-- What no step before the filter touches. -/
structure SameFrame (p q : Process) : Prop where
  descriptors : q.descriptors = p.descriptors
  filters : q.filters = p.filters
  space : q.space = p.space
  output : q.output = p.output

theorem SameFrame.trans {r : Process} (h : SameFrame p q) (h' : SameFrame q r) : SameFrame p r :=
  ⟨h'.descriptors.trans h.descriptors, h'.filters.trans h.filters, h'.space.trans h.space,
    h'.output.trans h.output⟩

theorem sameFrame_setNoNewPrivs (h : setNoNewPrivs p = .ok q) : SameFrame p q := by
  cases h
  exact ⟨rfl, rfl, rfl, rfl⟩

theorem sameFrame_setLimit {resource : Resource} {value : Nat}
    (h : setLimit resource value p = .ok q) : SameFrame p q := by
  have h := Except.mapError_eq_ok.mp h
  unfold Process.setLimit at h
  split at h
  · cases h
  · split at h
    · cases h
    · cases h
      exact ⟨rfl, rfl, rfl, rfl⟩

theorem sameFrame_applyRlimits (h : applyRlimits policy p = .ok q) : SameFrame p q := by
  simp only [applyRlimits, Except.bind_eq_ok] at h
  obtain ⟨p1, h1, p2, h2, p3, h3, p4, h4, h5⟩ := h
  exact ((((sameFrame_setLimit h1).trans (sameFrame_setLimit h2)).trans
    (sameFrame_setLimit h3)).trans (sameFrame_setLimit h4)).trans (sameFrame_setLimit h5)

/-- The ruleset's descriptor is closed again. -/
theorem sameFrame_applyLandlock (h : applyLandlock k p = .ok q) : SameFrame p q := by
  simp only [applyLandlock, Except.bind_eq_ok, Except.mapError_eq_ok] at h
  obtain ⟨⟨fd, p1⟩, h1, p2, h2, p3, h3, h4⟩ := h
  unfold Process.createRuleset at h1
  split at h1
  · cases h1
  · split at h1
    · cases h1
    · next d hd =>
      cases h1
      cases h2
      unfold Process.restrictSelf at h3
      split at h3
      · cases h3
      · cases h3
        split at h4
        · cases h4
        · cases h4
          exact ⟨Descriptors.close_allocate hd, rfl, rfl, rfl⟩

theorem installFilter_ok {filter : Seccomp.Filter Sysno} (h : installFilter k filter p = .ok q) :
    q = { p with noNewPrivs := true, filters := filter :: p.filters, space := p.space.stamp } := by
  unfold installFilter at h
  split at h
  · cases h
  · simp only [Process.setNoNewPrivs, Except.mapError_ok, Except.ok_bind,
      Except.mapError_eq_ok] at h
    unfold Process.installFilter at h
    split at h
    · cases h
    · split at h
      · cases h
      · cases h
        rfl

/-- What a completed setup leaves behind. -/
theorem setup_spec (h : setup k policy p = .ok q) :
    q.descriptors = (closed p).descriptors ∧ q.filters = runnerFilter :: p.filters ∧
      q.space = p.space.stamp ∧ q.output = p.output := by
  simp only [setup, applyRunnerSandbox, Except.bind_eq_ok] at h
  obtain ⟨p0, h0, ⟨status, p4⟩, ⟨p1, h1, p2, h2, p3, h3, p4', h4, hst⟩, _, _, hq⟩ := h
  cases hst
  cases hq
  have hclosed : p0 = closed p := by
    have h0 := Except.mapError_eq_ok.mp h0
    unfold Process.closeRange at h0
    split at h0
    · cases h0
      rfl
    · cases h0
  have hf := ((sameFrame_setNoNewPrivs h1).trans (sameFrame_applyRlimits h2)).trans
    (sameFrame_applyLandlock h3)
  rw [hclosed] at hf
  rw [installFilter_ok h4]
  exact ⟨hf.descriptors, congrArg (runnerFilter :: ·) hf.filters,
    congrArg AddressSpace.stamp hf.space, hf.output⟩

/-! ## What the filter lets through -/

/-- A mapping that the filter allows is anonymous and not executable. -/
theorem allowed_mmap {args : Fin 6 → BitVec 64} (h : runnerFilter.allows ⟨.mmap, args⟩) :
    flag (args 2) protExec = false ∧ flag (args 3) mapAnonymous = true := by
  have hrule : Rule.holds [maskedZero 2 protExec, ⟨3, .dword, .maskedEq mapAnonymous, mapAnonymous⟩,
      ⟨4, .dword, .eq, 0xffffffff⟩] args = true := by
    simpa using (show List.any [_] _ = true from h)
  simp only [Rule.holds, List.all_cons, Bool.and_eq_true] at hrule
  have hexec : args 2 &&& protExec = 0 := maskedEq_dword (by decide) (by decide) hrule.1
  have hanon : args 3 &&& mapAnonymous = mapAnonymous :=
    maskedEq_dword (by decide) (by decide) hrule.2.1
  simp [flag, hexec, hanon]
  decide

/-- A change of protection that the filter allows takes executability away. -/
theorem allowed_mprotect {args : Fin 6 → BitVec 64} (h : runnerFilter.allows ⟨.mprotect, args⟩) :
    flag (args 2) protExec = false := by
  have hrule : Rule.holds [maskedZero 2 protExec] args = true := by
    simpa using (show List.any [_] _ = true from h)
  simp only [Rule.holds, List.all_cons, Bool.and_eq_true] at hrule
  have hexec : args 2 &&& protExec = 0 := maskedEq_dword (by decide) (by decide) hrule.1
  simp [flag, hexec]

/-- Output that the filter allows goes to stdout or stderr. -/
theorem allowed_output {nr : Sysno} {args : Fin 6 → BitVec 64} (hnr : nr = .write ∨ nr = .writev)
    (h : runnerFilter.allows ⟨nr, args⟩) :
    Process.fdArg (args 0) = 1 ∨ Process.fdArg (args 0) = 2 := by
  have hrule : (fdRule 1).holds args = true ∨ (fdRule 2).holds args = true := by
    have hany : [fdRule 1, fdRule 2].any (fun r => Rule.holds r args) = true := by
      rcases hnr with rfl | rfl <;> exact h
    simpa using hany
  simp only [fdRule, Rule.holds, List.all_cons, List.all_nil, Bool.and_true] at hrule
  exact hrule.imp (fun h => (eq_dword h).trans rfl) fun h => (eq_dword h).trans rfl

/-- What has no rules is never let through. -/
theorem not_allowed_other {nr : Nat} {args : Fin 6 → BitVec 64} :
    runnerFilter.allows ⟨.other nr, args⟩ = false := rfl

/-! ## The invariant -/

/-- A page of a confined process: not writable and executable at once, anonymous
if `mmap` made it, and executable only if it was when the filter came. -/
structure PageConfined (page : Page) : Prop where
  noWriteExec : ¬ (page.write ∧ page.exec)
  anonymous : page.origin = .mmap → page.anonymous
  exec : page.exec → page.origin = .before true

/-- Output through stdout or stderr. -/
def Output.standard (o : Output) : Prop :=
  (o.nr = .write ∨ o.nr = .writev) ∧ (o.fd = 1 ∨ o.fd = 2)

/-- A process that was confined as `p`. -/
structure Confined (p q : Process) : Prop where
  descriptors : q.descriptors.fds ⊆ {0, 1, 2}
  filter : runnerFilter ∈ q.filters
  output : ∃ new, q.output = p.output ++ new ∧ ∀ o ∈ new, Output.standard o
  pages : q.space.Forall PageConfined

/-- A page without executability is confined if it is not a file mapping. -/
theorem PageConfined.protect {page : Page} {prot : BitVec 64} (h : PageConfined page)
    (hp : flag prot protExec = false) : PageConfined (page.protect prot) where
  noWriteExec hwx := by simp [Page.protect, hp] at hwx
  anonymous := h.anonymous
  exec hx := by simp [Page.protect, hp] at hx

theorem confined_setup (h : setup k policy p = .ok q)
    (hwx : p.space.Forall fun page => ¬ (page.write ∧ page.exec)) : Confined q q := by
  obtain ⟨hd, hf, hs, ho⟩ := setup_spec h
  refine ⟨fun fd hfd => ?_, ?_, ⟨[], by simp, by simp⟩, fun n page hpage => ?_⟩
  · rw [hd] at hfd
    have := (mem_closed.mp hfd).2
    simp only [Finset.mem_insert, Finset.mem_singleton]
    omega
  · rw [hf]
    exact List.mem_cons_self
  · rw [hs] at hpage
    obtain ⟨old, hold, rfl⟩ := Option.map_eq_some_iff.mp hpage
    exact ⟨hwx n old hold, nofun, fun hx => congrArg Origin.before hx⟩

/-- The pages after a call that the filter allows. -/
theorem confined_pages {call : Call Sysno} {choice : Choice} (ha : runnerFilter.allows call)
    (h : p.space.Forall PageConfined) : (p.perform k call choice).space.Forall PageConfined := by
  obtain ⟨nr, args⟩ := call
  cases nr with
  | mmap =>
    obtain ⟨hexec, hanon⟩ := allowed_mmap ha
    -- a new page is anonymous, and it was never executable
    have hnew : PageConfined (Page.protect ⟨false, false, false, flag (args 3) mapAnonymous, .mmap⟩
        (args 2)) :=
      PageConfined.protect ⟨by simp, fun _ => hanon, nofun⟩ hexec
    show ((p.mmap args choice).space).Forall PageConfined
    unfold Process.mmap
    split
    · exact h
    · dsimp only
      split
      · exact h
      · split
        · exact h.map hnew _ _
        · split
          · exact h.map hnew _ _
          · exact h
  | mprotect => exact h.protect (fun page hp => hp.protect (allowed_mprotect ha)) _ _
  | mremap =>
    show ((p.mremap args choice).space).Forall PageConfined
    unfold Process.mremap
    split
    · exact h
    · exact h.move _ _ _ _ _
  | munmap => exact h.unmap _ _
  | brk =>
    show (if choice.place.isSome then _ else p).space.Forall PageConfined
    split
    · exact h.setBrk ⟨by simp, nofun, nofun⟩ _
    · exact h
  | write | writev =>
    show ((p.emit _ args choice).space).Forall PageConfined
    unfold Process.emit
    split <;> exact h
  | other nr => exact absurd ha (by simp [not_allowed_other])
  | _ => exact h

/-- Nothing but `close` changes descriptors, and nothing but output is output. -/
structure Steady (p q : Process) : Prop where
  descriptors : q.descriptors.fds ⊆ p.descriptors.fds
  filters : q.filters = p.filters
  output : ∃ new, q.output = p.output ++ new ∧ ∀ o ∈ new, Output.standard o

theorem Steady.of_eq (hd : q.descriptors = p.descriptors) (hf : q.filters = p.filters)
    (ho : q.output = p.output) : Steady p q :=
  ⟨by rw [hd], hf, [], by rw [ho, List.append_nil], by simp⟩

theorem steady_emit {nr : Sysno} {args : Fin 6 → BitVec 64} {choice : Choice}
    (hnr : nr = .write ∨ nr = .writev) (ha : runnerFilter.allows ⟨nr, args⟩) :
    Steady p (p.emit nr args choice) := by
  unfold Process.emit
  split
  · exact ⟨Finset.Subset.refl _, rfl, _, rfl, by simpa using ⟨hnr, allowed_output hnr ha⟩⟩
  · exact .of_eq rfl rfl rfl

theorem steady_perform {call : Call Sysno} {choice : Choice} (ha : runnerFilter.allows call) :
    Steady p (p.perform k call choice) := by
  obtain ⟨nr, args⟩ := call
  cases nr with
  | mmap =>
    show Steady p (p.mmap args choice)
    unfold Process.mmap
    split
    · exact .of_eq rfl rfl rfl
    · dsimp only
      split
      · exact .of_eq rfl rfl rfl
      · split
        · exact .of_eq rfl rfl rfl
        · split <;> exact .of_eq rfl rfl rfl
  | mremap =>
    show Steady p (p.mremap args choice)
    unfold Process.mremap
    split <;> exact .of_eq rfl rfl rfl
  | brk =>
    show Steady p (if choice.place.isSome then _ else p)
    split <;> exact .of_eq rfl rfl rfl
  | close => exact ⟨Finset.erase_subset _ _, rfl, [], (List.append_nil _).symm, by simp⟩
  | write => exact steady_emit (.inl rfl) ha
  | writev => exact steady_emit (.inr rfl) ha
  | other nr => exact absurd ha (by simp [not_allowed_other])
  | _ => exact .of_eq rfl rfl rfl

/-- One system call. -/
theorem confined_syscall {r : Process} {e : Call Sysno × Choice} (h : Confined p q)
    (hs : q.syscall k e = some r) :
    Confined p r ∧ r.descriptors.fds ⊆ q.descriptors.fds := by
  unfold Process.syscall at hs
  split at hs
  · split at hs
    · next hall =>
      cases hs
      have ha : runnerFilter.allows e.1 := List.all_eq_true.mp hall _ h.filter
      have hst : Steady q (q.perform k e.1 e.2) := steady_perform ha
      obtain ⟨old, hold, hstd⟩ := h.output
      obtain ⟨new, hnew, hstd'⟩ := hst.output
      refine ⟨⟨hst.descriptors.trans h.descriptors, hst.filters ▸ h.filter, ⟨old ++ new, ?_, ?_⟩,
        confined_pages ha h.pages⟩, hst.descriptors⟩
      · rw [hnew, hold, List.append_assoc]
      · intro o ho
        exact (List.mem_append.mp ho).elim (hstd o) (hstd' o)
    · cases hs
      exact ⟨⟨h.descriptors, h.filter, h.output, h.pages⟩, Finset.Subset.refl _⟩
  · cases hs

/-- Once the setup of the runner has succeeded, in a process without a writable
and executable page, every state that any sequence of system calls reaches is
confined, and no call opens a descriptor. With the scheduler's own limit of three
open files no process that has its standard descriptors open gets that far
(`Sandbox.setup_blocked`), so this is about a policy with a larger limit. -/
theorem confinement (h : setup k policy p = .ok q)
    (hwx : p.space.Forall fun page => ¬ (page.write ∧ page.exec)) {r : Process}
    (hr : (kernel k q).Reachable r) :
    Confined q r ∧ ∀ e r', r.syscall k e = some r' → r'.descriptors.fds ⊆ r.descriptors.fds := by
  have hinv : Confined q r :=
    hr.invariant (confined_setup h hwx) fun _ _ _ hc hs => (confined_syscall hc hs).1
  exact ⟨hinv, fun e r' hs => (confined_syscall hinv hs).2⟩

/-- A child with one page of code and one of data. -/
def mappedChild : Process :=
  { spawnedChild with
    space :=
      { pages := fun n =>
          if n = 16 then some ⟨true, false, true, false, .before true⟩
          else if n = 32 then some ⟨true, true, false, false, .before false⟩
          else none
        heapStart := 33 * pageSize
        brk := 33 * pageSize } }

/-- It maps a page, makes it read-only, moves it and writes to stdout through a
descriptor argument with a dirty upper half. -/
def mappedCalls : List (Call Sysno × Choice) :=
  [(⟨.mmap, ![0, 4096, 3, 0x22, 0xffffffff, 0]⟩, ⟨some 100, 0, []⟩),
    (⟨.mprotect, ![100 * 4096, 4096, 1, 0, 0, 0]⟩, ⟨none, 1, []⟩),
    (⟨.mremap, ![100 * 4096, 4096, 8192, 1, 0, 0]⟩, ⟨some 200, 0, []⟩),
    (⟨.write, ![0x100000001, 0, 1, 0, 0, 0]⟩, ⟨none, 0, [65]⟩)]

/-- Its standard descriptors are open, and a limit of four leaves one for the ruleset. -/
theorem confinement_mapped_child :
    ∃ q r, setup landlockKernel ⟨256 * 1024 * 1024, 2, 4⟩ mappedChild = .ok q ∧
      (kernel landlockKernel q).Reachable r ∧ r.output = [⟨.write, 1, [65]⟩] ∧ Confined q r := by
  have hrun : (setup landlockKernel ⟨256 * 1024 * 1024, 2, 4⟩ mappedChild).toOption.bind (fun q =>
      ((kernel landlockKernel q).run q mappedCalls).map Process.output) =
        some [⟨.write, 1, [65]⟩] := by decide +kernel
  obtain ⟨q, hq, hrun⟩ := Option.bind_eq_some_iff.mp hrun
  obtain ⟨r, hr, hout⟩ := Option.map_eq_some_iff.mp hrun
  have hsetup : setup landlockKernel ⟨256 * 1024 * 1024, 2, 4⟩ mappedChild = .ok q := by
    cases hs : setup landlockKernel ⟨256 * 1024 * 1024, 2, 4⟩ mappedChild with
    | error e => rw [hs] at hq; cases hq
    | ok q' => rw [hs] at hq; cases hq; rfl
  have hreach : (kernel landlockKernel q).Reachable r :=
    (Machine.Reachable.init (M := kernel landlockKernel q)).run hr
  refine ⟨q, r, hsetup, hreach, hout, (confinement hsetup ?_ hreach).1⟩
  intro n page hpage
  simp only [mappedChild] at hpage
  split at hpage
  · cases hpage
    decide
  · split at hpage
    · cases hpage
      decide
    · cases hpage

end Scheduler
