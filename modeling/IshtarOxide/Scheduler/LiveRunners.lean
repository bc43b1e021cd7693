import IshtarOxide.Scheduler.Admission

/-!
# Live runner processes

A runner that overruns its slot is dropped with its future: `kill_on_drop` sends
SIGKILL and nobody waits for the exit. The permit is dropped right after, so
the next run may be spawned while the killed process is still there.
`too_many_live_runners` is such a run under the production policy;
`live_runners_capped` says that this is the only way past the cap.
-/

namespace Scheduler

variable {p : Policy} {s s' : State p} {a : Action} {id j : Nat} {r r' : Request}

/-- The number of runner processes that were spawned and have not exited. -/
def State.live (s : State p) : Nat := s.requests.countP fun r => r.child.live

/-- No permit is dropped while the runner of its request is alive. -/
def ReapedBeforeRelease (s : State p) : Action → Prop
  | .wake id => ∀ r ∈ s.requests[id]?, r.child.live = false
  | _ => True

instance (s : State p) (a : Action) : Decidable (ReapedBeforeRelease s a) :=
  match a with
  | .wake id => inferInstanceAs (Decidable (∀ r ∈ s.requests[id]?, r.child.live = false))
  | .arrive | .disconnect _ | .poll _ | .start _ | .process _ _ | .timeout _ | .finish _
  | .respond _ | .advance _ => isTrue trivial

/-- Only a request that executes has a live runner. -/
def LiveExecuting (s : State p) : Prop :=
  ∀ id r, s.requests[id]? = some r → r.child.live → ∃ d, s.phaseOf id = some (.executing d .elapsed)

/-- A request is replaced by one without a live runner. -/
theorem LiveExecuting.put_dead (h : LiveExecuting s) (hr : s.requests[id]? = some r)
    (hd : r'.child.live = false) : LiveExecuting (s.put id r') := by
  intro j q hq hl
  rw [getElem?_put hr] at hq
  split at hq
  · cases hq
    simp [hd] at hl
  · next hne =>
    obtain ⟨d, hd⟩ := h j q hq hl
    exact ⟨d, by rw [phaseOf_put hr, if_neg hne, hd]⟩

theorem LiveExecuting.append (h : LiveExecuting s) (hd : r.child.live = false)
    (hreq : s'.requests = s.requests ++ [r]) : LiveExecuting s' := by
  intro j q hq hl
  rw [hreq] at hq
  by_cases hj : j < s.requests.length
  · rw [List.getElem?_append_left hj] at hq
    obtain ⟨d, hd⟩ := h j q hq hl
    refine ⟨d, ?_⟩
    rw [State.phaseOf, hreq, phaseOf_append, if_neg (Nat.ne_of_lt hj), hd]
  · rw [List.getElem?_append_right (Nat.le_of_not_lt hj)] at hq
    have : q = r := by simpa using List.mem_of_getElem? hq
    simp [this, hd] at hl

theorem LiveExecuting.step (h : LiveExecuting s) (hc : ReapedBeforeRelease s a)
    (hs : step p s a = some s') : LiveExecuting s' := by
  -- a request whose phase is not `executing` has no live runner to lose track of
  have hdead : ∀ (id : Nat) (r : Request), s.requests[id]? = some r →
      (∀ d st, r.phase ≠ .executing d st) →
      r.child.live = false := by
    intro id r hr hne
    cases hl : r.child.live with
    | false => rfl
    | true =>
      obtain ⟨d, hd⟩ := h id r hr hl
      rw [phaseOf_of_get hr] at hd
      cases hph : r.phase <;> simp_all [Phase.outer]
  cases step_effect hs with
  | accept => exact h.append rfl rfl
  | reject => exact h.append rfl rfl
  | advance => exact h
  | @quiet _ id r r' hr hq =>
    intro j q hq' hl
    rw [phaseOf_quiet hr hq]
    rw [getElem?_put hr] at hq'
    split at hq'
    · next he =>
      subst he
      cases hq'
      rcases hq.child hl with hold | ⟨d, st, hph⟩
      · exact h j r hr hold
      · exact ⟨d, by rw [phaseOf_of_get hr, hph]; rfl⟩
    · exact h j q hq' hl
  | @poll id r hr hph | @start id r hr hph _ | @finish id r hr hph | @respond id r hr hph _ =>
    have hl : r.child.live = false := hdead id r hr (by simp [hph])
    exact h.put_dead hr hl
  | @wake id r _ _ hr _ _ _ =>
    have hl : r.child.live = false := hc r hr
    exact h.put_dead hr hl

/-- In every run that drops a permit only after the runner of its request has
exited, at most `maxParallelWorkers` runner processes are alive in every state. -/
theorem live_runners_capped (h : (machine p).ReachableWhen ReapedBeforeRelease s) :
    s.live ≤ p.maxParallelWorkers := by
  have hlive : LiveExecuting s :=
    h.invariant (by intro id r hr; simp [machine, State.initial] at hr)
      fun _ _ _ hl hc hs => hl.step hc hs
  refine Semaphore.countP_le (s := s.slots) fun id r hr hl => ?_
  obtain ⟨d, hd⟩ := hlive id r hr hl
  exact (books h.reachable).executing id d hd

/-- A runner that exits before its deadline is reaped before its permit goes. -/
def reapedRun : List Action :=
  [.arrive, .poll 0, .start 0, .process 0 (.launch .spawned), .process 0 (.write true),
    .process 0 (.shutdown true), .process 0 (.exit (.code 0)), .process 0 (.wait true),
    .advance 1000000000, .wake 0, .arrive, .poll 1, .start 1, .process 1 (.launch .spawned)]

theorem live_runners_capped_reaped_run :
    ∃ s, (machine .production).ReachableWhen ReapedBeforeRelease s ∧ s.live = 1 ∧
      s.live ≤ Policy.production.maxParallelWorkers := by
  have hrun : (((machine .production).restrict ReapedBeforeRelease).run (.initial .production)
      reapedRun).map State.live = some 1 := by decide
  obtain ⟨s, hs, hl⟩ := Option.map_eq_some_iff.mp hrun
  have hr := Machine.ReachableWhen.run (M := machine .production) .init hs
  exact ⟨s, hr, hl, live_runners_capped hr⟩

/-- Eight runners hang while a ninth request waits. At the deadline the first
one is dropped, its permit goes to the ninth request, and the ninth runner is
spawned before the first one is gone. -/
def overrun : List Action :=
  (List.range 8).flatMap (fun id =>
    [.arrive, .poll id, .start id, .process id (.launch .spawned), .process id (.write true)]) ++
  [.arrive, .poll 8, .advance 1000000000, .timeout 0, .wake 0, .start 8,
    .process 8 (.launch .spawned)]

theorem too_many_live_runners :
    ∃ s, (machine .production).Reachable s ∧ Policy.production.maxParallelWorkers < s.live := by
  have hrun : ((machine .production).run (.initial .production) overrun).map State.live =
      some 9 := by decide
  obtain ⟨s, hs, hl⟩ := Option.map_eq_some_iff.mp hrun
  exact ⟨s, Machine.Reachable.init.run hs, by rw [hl]; decide⟩

end Scheduler
