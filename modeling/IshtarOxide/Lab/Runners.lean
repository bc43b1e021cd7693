import IshtarOxide.Lab.Streams

/-!
# The runners of the lab

`stepAt_life` says what an action can do to the runner of a request: nothing but a
process event touches a child, a runner is started from the slot state as it is,
and a driver is left only when it has returned.

* `reachable_reaped`: as long as neither reading nor waiting fails, a driver
  returns only when its child has exited.
* `one_runner`: so at most one child runs at a time, and the lane is held as long
  as it does.
-/

namespace Lab

variable {policy : Policy} {host : Host} {token : List UInt8} {s s' : State policy} {a : Action}
  {id : Nat} {r r' : Request policy}

/-! ## What an action does to a runner -/

/-- A driver is at work. -/
def Phase.executing? : Phase → Bool
  | .executing .. => true
  | _ => false

/-- The change of one request, as far as its runner is concerned. -/
inductive Life (host : Host) (s : State policy) (a : Action) (r r' : Request policy) : Prop
  | still : r'.phase = r.phase → r'.child = r.child → Life host s a r r'
  | idle : r.phase.executing? = false → r'.phase.executing? = false → r'.child = r.child →
      (r.phase.fresh = false → r'.phase.fresh = false) → Life host s a r r'
  | start {times : Times} {job : Job} {t₁ t₂ : Nat} : r.phase = .admitted t₁ t₂ →
      r'.phase = .executing times job .launching → r'.child = r.child →
      (∀ w, r.work = .turn w → job = executeProcess host policy (s.states w.slot) w.1.role w.1.bit
        (iterationsFor w.1.role w.1.bit policy)) → Life host s a r r'
  | process {id : Nat} {event : ProcessEvent} : a = .process id event →
      r.process host s.now event = some r' → Life host s a r r'
  | settle {times : Times} {job : Job} {result : ProcessResult} :
      r.phase = .executing times job (.returned result) → r'.phase.executing? = false →
      r'.phase.fresh = false → r'.child = r.child → Life host s a r r'

/-- The request `id` changes as its runner allows, and no other. -/
def Lives (host : Host) (s s' : State policy) (a : Action) (id : Nat) (r : Request policy) : Prop :=
  ∃ r', s'.requests = s.requests.set id r' ∧ r'.work = r.work ∧ Life host s a r r'

theorem Lives.same (hr : s.requests[id]? = some r) : Lives host s s a id r := by
  obtain ⟨hlt, heq⟩ := List.getElem?_eq_some_iff.mp hr
  refine ⟨r, ?_, rfl, .still rfl rfl⟩
  rw [← heq, List.set_getElem_self]

theorem Lives.idle {p : Phase} {caller : Caller} (hp : r.phase.executing? = false)
    (hp' : p.executing? = false) (hfresh : r.phase.fresh = false → p.fresh = false)
    (h : s'.requests = s.requests.set id { r with phase := p, caller := caller }) :
    Lives host s s' a id r :=
  ⟨_, h, rfl, .idle hp hp' rfl hfresh⟩

theorem Lives.settle {p : Phase} {times : Times} {job : Job} {result : ProcessResult}
    (hp : r.phase = .executing times job (.returned result)) (hp' : p.executing? = false)
    (hfresh : p.fresh = false) (h : s'.requests = s.requests.set id { r with phase := p }) :
    Lives host s s' a id r :=
  ⟨_, h, rfl, .settle hp hp' hfresh rfl⟩

theorem disconnect_life : Lives host s (s.disconnect id r) a id r := by
  unfold State.disconnect
  split
  · next hp =>
    have hidle : r.phase.executing? = false := by rw [hp]; rfl
    simp only
    split
    · exact .idle hidle rfl (fun _ => rfl) rfl
    · exact .idle hidle rfl (fun _ => rfl) rfl
  · next hp => exact .idle (by rw [hp]; rfl) rfl (fun _ => rfl) rfl
  · next hp => exact .idle (by rw [hp]; rfl) rfl (fun _ => rfl) rfl
  · exact ⟨_, rfl, rfl, .still rfl rfl⟩

theorem enter_life {t₁ t₂ : Nat} (hr : s.requests[id]? = some r)
    (hp : r.phase = .admitted t₁ t₂) : Lives host s (s.enter host id r t₁ t₂) a id r := by
  have hidle : r.phase.executing? = false := by rw [hp]; rfl
  unfold State.enter
  split
  · next w hw =>
    refine ⟨_, rfl, rfl, .start hp rfl rfl fun w' hw' => ?_⟩
    rw [hw] at hw'
    cases hw'
    rfl
  · next w hw =>
    simp only
    split
    · exact .idle hidle rfl (fun _ => rfl) rfl
    · split
      · exact .idle hidle rfl (fun _ => rfl) rfl
      · refine ⟨_, rfl, rfl, .start hp rfl rfl fun w' hw' => ?_⟩
        rw [hw] at hw'
        cases hw'
  · exact .idle hidle rfl (fun _ => rfl) rfl
  · exact .same hr
  · exact .same hr

theorem settle_life {times : Times} {job : Job} {result : ProcessResult}
    (hr : s.requests[id]? = some r) (hp : r.phase = .executing times job (.returned result)) :
    Lives host s (s.settle id r times result) a id r := by
  unfold State.settle
  split
  · exact .settle hp rfl rfl rfl
  · exact .settle hp rfl rfl rfl
  · exact .settle hp rfl rfl rfl
  · exact .settle hp rfl rfl rfl
  · exact .settle hp rfl rfl rfl
  · exact .settle hp rfl rfl rfl
  · exact .same hr

theorem stepAt_life (hr : s.requests[id]? = some r) (h : stepAt host s id r a = some s') :
    Lives host s s' a id r := by
  cases stepAt_branch h with
  | disconnect hc => exact disconnect_life
  | process hr' => exact ⟨_, rfl, (process_keeps hr').1.work, .process rfl hr'⟩
  | enter hp => exact enter_life hr hp
  | settle hp => exact settle_life hr hp
  | poll hp => exact .idle (by rw [hp]; rfl) rfl (fun hf => by rw [hp] at hf; cases hf) rfl
  | grant hp hh => exact .idle (by rw [hp]; rfl) rfl (fun hf => by rw [hp] at hf; cases hf) rfl
  | report hp hw => exact .idle (by rw [hp]; rfl) rfl (fun _ => rfl) rfl
  | leave hp hd => exact .idle (by rw [hp]; rfl) rfl (fun _ => rfl) rfl
  | finish hp => exact .idle (by rw [hp]; rfl) rfl (fun _ => rfl) rfl
  | read hp hw => exact .idle (by rw [hp]; rfl) rfl (fun _ => rfl) rfl
  | respond hp hc => exact ⟨_, rfl, rfl, .still rfl rfl⟩

/-- A request whose runner has not been started. -/
def Request.Unstarted (r : Request policy) : Prop :=
  r.child = none ∧ r.phase.executing? = false

theorem arrive_unstarted (header : Option (List UInt8)) (call : Call) :
    ∃ r, (s.arrive host token header call).requests = s.requests ++ [r] ∧ r.Unstarted := by
  unfold State.arrive State.accept
  repeat' split
  all_goals exact ⟨_, rfl, rfl, rfl⟩

/-- What an action does to the requests: one comes in without a runner, or one
changes as its runner allows. -/
theorem step_life (h : step host token s a = some s') :
    (∃ r, s'.requests = s.requests ++ [r] ∧ r.Unstarted) ∨ s'.requests = s.requests ∨
      ∃ r, s.requests[a.id]? = some r ∧ Lives host s s' a a.id r := by
  unfold step at h
  split at h
  · cases h
    exact .inl (arrive_unstarted _ _)
  · cases h
    exact .inr (.inl rfl)
  · obtain ⟨r, hr, h⟩ := Option.bind_eq_some_iff.mp h
    exact .inr (.inr ⟨r, hr, stepAt_life hr h⟩)

/-- Where a request comes from: it has just come in, or it was there, and is as it
was unless the action is about it. -/
theorem step_before (h : step host token s a = some s') (hr' : s'.requests[id]? = some r') :
    r'.Unstarted ∨ ∃ r, s.requests[id]? = some r ∧ r'.work = r.work ∧ Life host s a r r' ∧
      (r' = r ∨ a.id = id) := by
  have hold : s.requests[id]? = some r' → ∃ r, s.requests[id]? = some r ∧ r'.work = r.work ∧
      Life host s a r r' ∧ (r' = r ∨ a.id = id) :=
    fun hr => ⟨r', hr, rfl, .still rfl rfl, .inl rfl⟩
  rcases step_life h with ⟨r₁, hpushed, hnew⟩ | hsame | ⟨r₁, hr₁, r₂, hset, hwork, hl⟩
  · rcases getElem?_push hpushed hr' with hr | rfl
    · exact .inr (hold hr)
    · exact .inl hnew
  · exact .inr (hold (hsame ▸ hr'))
  · by_cases hj : a.id = id
    · subst hj
      rw [hset, List.getElem?_set_self (List.getElem?_eq_some_iff.mp hr₁).1] at hr'
      cases hr'
      exact .inr ⟨r₁, hr₁, hwork, hl, .inr rfl⟩
    · rw [hset, List.getElem?_set_ne hj] at hr'
      exact .inr (hold hr')

/-- Requests are never lost. -/
theorem step_after (h : step host token s a = some s') (hr : s.requests[id]? = some r) :
    ∃ r', s'.requests[id]? = some r' ∧ Life host s a r r' := by
  have hlt : id < s.requests.length := (List.getElem?_eq_some_iff.mp hr).1
  rcases step_life h with ⟨r₁, hpushed, -⟩ | hsame | ⟨r₁, hr₁, r₂, hset, -, hl⟩
  · refine ⟨r, ?_, .still rfl rfl⟩
    rw [hpushed, List.getElem?_append_left hlt, hr]
  · exact ⟨r, hsame ▸ hr, .still rfl rfl⟩
  · by_cases hj : a.id = id
    · subst hj
      rw [hr] at hr₁
      cases hr₁
      exact ⟨r₂, by rw [hset, List.getElem?_set_self hlt], hl⟩
    · exact ⟨r, by rw [hset, List.getElem?_set_ne hj, hr], .still rfl rfl⟩

/-! ## At most one runner -/

/-- Reading the pipe or waiting for the child failed. -/
def ProcessEvent.osError : ProcessEvent → Bool
  | .read ok | .wait ok | .terminate ok => !ok
  | _ => false

def Action.osError : Action → Bool
  | .process _ event => event.osError
  | _ => false

/-- A child that is alive has a driver that has not returned. -/
def Request.Reaped (r : Request policy) : Prop :=
  ∀ c, r.child = some c → c.live → ∃ times job stage,
    r.phase = .executing times job stage ∧ ∀ result, stage ≠ .returned result

theorem Request.Reaped.of_idle (h : r.Reaped) (hp : r.phase.executing? = false) :
    ∀ c, r.child = some c → c.live = false := by
  intro c hc
  by_contra hlive
  obtain ⟨times, job, stage, hx, _⟩ := h c hc (Bool.not_eq_false _ ▸ hlive)
  rw [hx] at hp
  cases hp

theorem Child.step_live {c c' : Child} {event : ProcessEvent} (h : c.step host event = some c') :
    c.live = true := by
  unfold Child.step at h
  split at h
  · exact (Option.ite_none_right_eq_some.mp h).1
  · exact (Option.ite_none_right_eq_some.mp h).1.1
  · cases h

/-- A driver returns only when its child is not alive. -/
theorem Stage.step_live {job : Job} {expired : Bool} {stage stage' : Stage}
    {child child' : Option Child} {event : ProcessEvent} {c' : Child}
    (h : Stage.step host job expired stage child event = some (stage', child'))
    (hok : event.osError = false) (hc' : child' = some c') (hlive : c'.live)
    (hstage : ∀ c, child = some c → c.live → ∀ result, stage ≠ .returned result) :
    ∀ result, stage' ≠ .returned result := by
  unfold Stage.step at h
  split at h
  · cases h
    cases hc'
  · cases h
    cases hc'
  · cases h
    exact nofun
  · cases h
    exact nofun
  · obtain ⟨c₁, hstep, h⟩ := Option.map_eq_some_iff.mp h
    cases h
    exact hstage _ rfl (Child.step_live hstep)
  · obtain ⟨c₁, hstep, h⟩ := Option.map_eq_some_iff.mp h
    cases h
    exact hstage _ rfl (Child.step_live hstep)
  · obtain ⟨_, h⟩ := Option.ite_none_right_eq_some.mp h
    cases h
    exact nofun
  · obtain ⟨status, hstatus, h⟩ := Option.map_eq_some_iff.mp h
    cases h
    cases hc'
    -- the parent has waited for the child, so it is not alive
    rw [Child.live, hstatus] at hlive
    cases hlive
  · cases hok
  · cases hok
  · obtain ⟨_, h⟩ := Option.ite_none_right_eq_some.mp h
    cases h
    exact nofun
  · obtain ⟨hdone, h⟩ := Option.ite_none_right_eq_some.mp h
    cases h
    cases hc'
    -- a kill that did not fail has ended the child
    rcases hdone with hdead | hfailed
    · rw [hdead] at hlive
      cases hlive
    · rw [hfailed] at hok
      cases hok
  · cases h

theorem Request.Reaped.process {event : ProcessEvent} (h : r.Reaped) (hok : event.osError = false)
    (hp : r.process host s.now event = some r') : r'.Reaped := by
  intro c' hc' hlive
  unfold Request.process at hp
  split at hp
  · next times job stage hx =>
    obtain ⟨⟨stage', child'⟩, hstep, rfl⟩ := Option.map_eq_some_iff.mp hp
    refine ⟨times, job, stage', rfl, Stage.step_live hstep hok hc' hlive fun c hc hl => ?_⟩
    obtain ⟨_, _, _, hx', hret⟩ := h c hc hl
    rw [hx] at hx'
    cases hx'
    exact hret
  · next hx =>
    obtain ⟨c₁, hc₁, rfl⟩ := Option.map_eq_some_iff.mp hp
    obtain ⟨c, hc, hstep⟩ := Option.bind_eq_some_iff.mp hc₁
    obtain ⟨times, job, stage, hx', _⟩ := h c hc (Child.step_live hstep)
    exact absurd hx' (hx times job stage)

theorem Life.reaped (h : Life host s a r r') (hok : a.osError = false) (hr : r.Reaped) :
    r'.Reaped := by
  cases h with
  | still hp hc =>
    intro c hc' hlive
    rw [hp]
    exact hr c (hc ▸ hc') hlive
  | idle hp _ hc =>
    intro c hc' hlive
    rw [hr.of_idle hp c (hc ▸ hc')] at hlive
    cases hlive
  | start hp _ hc =>
    intro c hc' hlive
    rw [hr.of_idle (by rw [hp]; rfl) c (hc ▸ hc')] at hlive
    cases hlive
  | process ha hp =>
    rw [ha] at hok
    exact hr.process hok hp
  | settle hp _ _ hc =>
    intro c hc' hlive
    obtain ⟨_, _, _, hx, hret⟩ := hr c (hc ▸ hc') hlive
    rw [hp] at hx
    cases hx
    exact absurd rfl (hret _)

/-- In every run in which neither reading nor waiting fails, a child that is alive
has a driver that has not returned. -/
theorem reachable_reaped
    (h : (machine host token policy).ReachableWhen (fun _ a => a.osError = false) s) :
    ∀ (j : Nat) r, s.requests[j]? = some r → r.Reaped := by
  refine h.invariant (P := fun s => ∀ (j : Nat) r, s.requests[j]? = some r → r.Reaped) ?_ ?_
  · intro j r hr
    simp [State.initial] at hr
  · intro s a s' hs hok hstep j r' hr'
    rcases step_before hstep hr' with hnew | ⟨r, hr, -, hl, -⟩
    · intro c hc
      rw [hnew.1] at hc
      cases hc
    · exact hl.reaped hok (hs j r hr)

theorem Phase.inside_of_executing {p : Phase} (h : p.executing? = true) : p.tenure = .inside := by
  cases p <;> first | rfl | cases h

/-- A driver is begun inside the lane. -/
theorem Life.was_inside (h : Life host s a r r') (hx : r'.phase.executing? = true) :
    r.phase.tenure = .inside := by
  cases h with
  | still hp _ => exact hp ▸ Phase.inside_of_executing hx
  | idle _ hp' _ _ =>
    rw [hp'] at hx
    cases hx
  | start hp _ _ _ =>
    rw [hp]
    rfl
  | process _ hp => exact (process_keeps hp).2.1 ▸ Phase.inside_of_executing hx
  | settle hp _ _ _ =>
    rw [hp]
    rfl

/-- A driver that has not returned stays inside the lane. -/
theorem Life.stays_inside {times : Times} {job : Job} {stage : Stage} (h : Life host s a r r')
    (hx : r.phase = .executing times job stage) (hret : ∀ result, stage ≠ .returned result) :
    r'.phase.tenure = .inside := by
  have hin : r.phase.tenure = .inside := by rw [hx]; rfl
  cases h with
  | still hp _ => exact hp ▸ hin
  | idle hp _ _ _ =>
    rw [hx] at hp
    cases hp
  | start hp _ _ _ =>
    rw [hx] at hp
    cases hp
  | process _ hp => exact (process_keeps hp).2.1.trans hin
  | settle hp _ _ _ =>
    rw [hx] at hp
    cases hp
    exact absurd rfl (hret _)

/-- A request whose child is alive holds the lane. -/
theorem reaped_holds {c : Child} (hl : s.Laned) (hr : s.requests[id]? = some r) (h : r.Reaped)
    (hc : r.child = some c) (hlive : c.live) : id ∈ s.lane.holders := by
  obtain ⟨times, job, stage, hx, _⟩ := h c hc hlive
  exact hl.inside id (by rw [State.tenure_of hr, hx]; rfl)

/-- In every run in which neither reading from a child nor waiting for one fails,
at most one child is alive, its request holds the lane, and whenever the lane is
given back, none is. -/
theorem one_runner
    (h : (machine host token policy).ReachableWhen (fun _ a => a.osError = false) s) :
    (∀ (i j : Nat) rᵢ rⱼ cᵢ cⱼ, s.requests[i]? = some rᵢ → s.requests[j]? = some rⱼ →
      rᵢ.child = some cᵢ → rⱼ.child = some cⱼ → cᵢ.live → cⱼ.live → i = j) ∧
    (∀ (i : Nat) r c, s.requests[i]? = some r → r.child = some c → c.live →
      i ∈ s.lane.holders) ∧
    ∀ a s' i, a.osError = false → step host token s a = some s' → i ∈ s.lane.holders →
      i ∉ s'.lane.holders → ∀ (j : Nat) r c, s.requests[j]? = some r ∨ s'.requests[j]? = some r →
      r.child = some c → c.live = false := by
  have hl : s.Laned := reachable_laned h.reachable
  have hreaped := reachable_reaped h
  have hholds : ∀ (i : Nat) r c, s.requests[i]? = some r → r.child = some c → c.live →
      i ∈ s.lane.holders := fun i r c hr hc hlive => reaped_holds hl hr (hreaped i r hr) hc hlive
  refine ⟨?_, hholds, ?_⟩
  · intro i j rᵢ rⱼ cᵢ cⱼ hi hj hcᵢ hcⱼ hlᵢ hlⱼ
    exact Semaphore.holder_unique (hholds i rᵢ cᵢ hi hcᵢ hlᵢ) (hholds j rⱼ cⱼ hj hcⱼ hlⱼ)
  · intro a s' i hok hstep hi hi' j r c hr hc
    have h' := h.step hok hstep
    have hl' : s'.Laned := reachable_laned h'.reachable
    by_contra hlive
    rw [Bool.not_eq_false] at hlive
    rcases hr with hr | hr
    · -- the driver of `j` has not returned, so `j` is still inside the lane
      obtain ⟨times, job, stage, hx, hret⟩ := hreaped j r hr c hc hlive
      obtain ⟨r', hr', hlife⟩ := step_after hstep hr
      have hin : j ∈ s'.lane.holders :=
        hl'.inside j (by rw [State.tenure_of hr']; exact hlife.stays_inside hx hret)
      exact hi' (Semaphore.holder_unique (hholds j r c hr hc hlive) hi ▸ hin)
    · -- the driver of `j` was begun inside the lane, so `j` was its holder
      obtain ⟨times, job, stage, hx, hret⟩ := reachable_reaped h' j r hr c hc hlive
      have hin' : j ∈ s'.lane.holders := reaped_holds hl' hr (reachable_reaped h' j r hr) hc hlive
      rcases step_before hstep hr with hnew | ⟨r₁, hr₁, -, hlife, -⟩
      · rw [hnew.1] at hc
        cases hc
      · have hin : j ∈ s.lane.holders :=
          hl.inside j (by rw [State.tenure_of hr₁]; exact hlife.was_inside (by rw [hx]; rfl))
        exact hi' (Semaphore.holder_unique hin hi ▸ hin')

/-- The chunk of `sampleState` while its runner is alive. -/
theorem one_runner_sample :
    ∃ s r c, (machine streamHost sampleToken (defaultPolicy 131072)).ReachableWhen
        (fun _ a => a.osError = false) s ∧
      s.requests[0]? = some r ∧ r.child = some c ∧ c.live ∧ 0 ∈ s.lane.holders := by
  have harrived : (machine streamHost sampleToken (defaultPolicy 131072)).ReachableWhen
      (fun _ a => a.osError = false) sampleArrived :=
    Machine.ReachableWhen.init.step (a := .arrive (some sampleToken) (.streamChunk sampleChunk.1))
      rfl rfl
  have hreach : (machine streamHost sampleToken (defaultPolicy 131072)).ReachableWhen
      (fun _ a => a.osError = false) (sampleState none) :=
    harrived.run (l := [.poll 0, .grant 0, .enter 0, .process 0 (.launch .spawned),
      .process 0 .write, .process 0 (.emit [76, 79])]) rfl
  exact ⟨_, _, _, hreach, rfl, rfl, rfl, (one_runner hreach).2.1 0 _ _ rfl rfl rfl⟩

end Lab
