import IshtarOxide.Scheduler.Timed

/-!
# The time to an answer

A request that is accepted waits for its permit behind at most `maxPendingRuns - 1` others. Every
permit is passed on when the slot of its holder ends, and to the one that has waited longest.
So the permit comes after as many slots as it takes to serve those ahead, all permits at a
time, and the answer one slot later.

* `Policy.slotsAhead`: how many slots that is.
* `Stands`: where an accepted request is on its way to the permit, with the turns that the
  holders have left (`State.turns`).
* `response_time`: when its caller is answered.
-/

namespace Scheduler

variable {p : Policy} {s s' : State p} {a : Action} {id j : Nat} {r r' : Request} {t last : Nat}

/-- How many slots the last one of a full queue waits for its permit. -/
def Policy.slotsAhead (p : Policy) : Nat := (p.maxPendingRuns - 1) / p.maxParallelWorkers

/-! ## Turns -/

/-- How often the permit of request `id` is passed on up to the instant `last`. -/
def State.turns (s : State p) (last id : Nat) : Nat :=
  match s.phaseOf id with
  | some (.executing deadline _) => (last + p.executionSlot - deadline) / p.executionSlot
  | _ => (last - s.now) / p.executionSlot

theorem turns_executing {deadline : Nat} (h : s.phaseOf id = some (.executing deadline .elapsed)) :
    s.turns last id = (last + p.executionSlot - deadline) / p.executionSlot := by
  rw [State.turns, h]

theorem turns_acquiring (h : s.phaseOf id = some .acquiring) :
    s.turns last id = (last - s.now) / p.executionSlot := by
  rw [State.turns, h]

theorem turns_eq (hphase : s'.phaseOf id = s.phaseOf id) (hnow : s'.now = s.now) :
    s'.turns last id = s.turns last id := by
  rw [State.turns, State.turns, hphase, hnow]

/-- What is known in a state of a timed run. -/
structure Known (s : State p) : Prop where
  books : Books s
  counted : Counted s
  dated : Dated s
  punctual : Punctual s

/-- A holder that executes ends its slot between now and one slot from now. -/
theorem Known.deadline (h : Known s) {deadline : Nat}
    (hphase : s.phaseOf id = some (.executing deadline .elapsed)) :
    s.now ≤ deadline ∧ deadline ≤ s.now + p.executionSlot := by
  have hmarks := ((h.counted.held h.books).mp (h.books.executing id deadline hphase)).1
  obtain ⟨e, he, hmark⟩ := List.countP_pos_iff.mp (hmarks ▸ Nat.one_pos)
  simp only [decide_eq_true_eq] at hmark
  obtain ⟨r, hr, hon⟩ := h.punctual.onTime e he hmark.2
  rw [hmark.1] at hr
  rw [phaseOf_of_get hr, Option.some.injEq] at hphase
  rw [Request.OnTime, ← onTime_outer, hphase] at hon
  obtain ⟨hdeadline, hle⟩ : deadline = e.time + p.executionSlot ∧ s.now ≤ deadline := hon
  exact ⟨hle, hdeadline ▸ Nat.add_le_add_right (h.dated.past e he) _⟩

/-- While holders have turns left, the last instant has not come. -/
theorem Known.now_le (h : Known s) (hslot : 0 < p.executionSlot)
    (hserved : s.slots.Served (s.turns last) id) : s.now ≤ last := by
  obtain ⟨j, hj, hpos⟩ := hserved.exists_turn
  rcases h.books.holding j hj with hphase | ⟨deadline, hphase⟩
  · rw [turns_acquiring hphase] at hpos
    have := Nat.pos_of_div_pos hpos
    omega
  · rw [turns_executing hphase, Nat.div_pos_iff] at hpos
    have hnow := (h.deadline hphase).1
    omega

/-! ## On the way to a permit -/

/-- Where a request stands that arrived at `t`. If it is not refused, it takes its permit
between `t` and `last`. -/
inductive Stands (s : State p) (t last id : Nat) : Prop
  | refused : s.phaseOf id = some .rejected → Stands s t last id
  | fresh : s.phaseOf id = some .spawned → s.now = t → Stands s t last id
  | queued : t ≤ s.now → s.slots.Served (s.turns last) id → Stands s t last id
  | taken (e : Entry) : e ∈ s.log → e.id = id → e.mark = .acquired → t ≤ e.time → e.time ≤ last →
      Stands s t last id

/-- What happens to other requests than those that start, that are woken, or that are polled. -/
theorem Stands.frame (h : Stands s t last id) (hslots : s'.slots = s.slots) (hnow : s'.now = s.now)
    (hlog : ∀ e ∈ s.log, e ∈ s'.log)
    (hidle : ∀ ph, ph = .rejected ∨ ph = .spawned → s.phaseOf id = some ph →
      s'.phaseOf id = some ph)
    (hholders : ∀ j ∈ s.slots.holders, s'.turns last j = s.turns last j) :
    Stands s' t last id := by
  cases h with
  | refused hphase => exact .refused (hidle _ (.inl rfl) hphase)
  | fresh hphase ht => exact .fresh (hidle _ (.inr rfl) hphase) (hnow.trans ht)
  | queued ht hserved =>
    refine .queued (hnow ▸ ht) ?_
    rw [hslots]
    exact hserved.congr hholders
  | taken e he hid hmark hge hle => exact .taken e (hlog e he) hid hmark hge hle

/-- The phases change only of requests that have given back their permits. -/
theorem Stands.keep (h : Stands s t last id) (hb : Books s) (hslots : s'.slots = s.slots)
    (hnow : s'.now = s.now) (hlog : ∀ e ∈ s.log, e ∈ s'.log)
    (hkeep : ∀ j ph, ph ≠ .released → s.phaseOf j = some ph → s'.phaseOf j = some ph) :
    Stands s' t last id := by
  refine h.frame hslots hnow hlog (fun ph hph => hkeep id ph ?_) fun j hj => turns_eq ?_ hnow
  · rcases hph with rfl | rfl <;> simp
  · rcases hb.holding j hj with hj | ⟨d, hj⟩
    · rw [hj, hkeep j _ (by simp) hj]
    · rw [hj, hkeep j _ (by simp) hj]

/-- The instant by which a request that arrives at `t` has its permit. -/
def Policy.lastPermit (p : Policy) (t : Nat) : Nat := t + p.slotsAhead * p.executionSlot

theorem maxPendingRuns_le (h : 0 < p.maxParallelWorkers) :
    p.maxPendingRuns ≤ p.maxParallelWorkers * p.slotsAhead + p.maxParallelWorkers := by
  have hlt := Nat.lt_mul_div_succ (p.maxPendingRuns - 1) h
  rw [Nat.mul_succ] at hlt
  unfold Policy.slotsAhead
  omega

/-- The requests that wait and those that hold a permit are unfinished. -/
theorem Known.queue_le (h : Known s) :
    s.slots.waiters.length + s.slots.holders.length ≤ p.maxPendingRuns := by
  have hunfinished : ∀ i ∈ s.slots.waiters ++ s.slots.holders,
      ∃ r, s.requests[i]? = some r ∧ r.unfinished := by
    intro i hi
    have hphase : s.phaseOf i = some .acquiring ∨ ∃ d, s.phaseOf i = some (.executing d .elapsed) :=
      (List.mem_append.mp hi).elim (fun hi => .inl (h.books.waiting i hi)) (h.books.holding i)
    rcases hphase with hphase | ⟨d, hphase⟩
    all_goals
      obtain ⟨r, hr, houter⟩ := Option.map_eq_some_iff.mp hphase
      exact ⟨r, hr, by rw [r.unfinished_outer, houter]⟩
  calc s.slots.waiters.length + s.slots.holders.length
      = (s.slots.waiters ++ s.slots.holders).length := List.length_append.symm
    _ ≤ s.unfinished := List.length_le_countP s.slots.nodup hunfinished
    _ = s.pending := h.books.pending_eq.symm
    _ ≤ p.maxPendingRuns := h.books.pending_le

/-- The first poll of a request that has just arrived: it takes a free permit, or waits behind
so many others that it has its permit in time. -/
theorem Stands.poll (hslot : 0 < p.executionSlot) (hworkers : 0 < p.maxParallelWorkers)
    (h : Known s) (h' : Known (s.poll id r)) (hr : s.requests[id]? = some r)
    (hphase : r.phase = .spawned) : Stands (s.poll id r) s.now (p.lastPermit s.now) id := by
  have hid : s.phaseOf id = some .spawned := by rw [phaseOf_of_get hr, hphase]; rfl
  have hknown : ¬ s.slots.Known id := h.books.not_known (by simp [hid]) (by simp [hid])
  by_cases hfree : 0 < s.slots.free
  · refine .taken ⟨s.now, id, .acquired⟩ ?_ rfl rfl (Nat.le_refl _) (Nat.le_add_right _ _)
    simp [State.poll, hfree]
  · obtain ⟨-, hwaiters, hholders⟩ := Semaphore.acquire_queue hknown hfree
    refine .queued (Nat.le_refl _) (Semaphore.served_of_length (j := s.slots.waiters.length)
      (n := p.slotsAhead) ?_ (fun x hx => ?_) ?_)
    · show (s.slots.acquire id).waiters[_]? = _
      rw [hwaiters, List.getElem?_concat_length]
    · -- every permit is passed on at the end of a slot that has begun
      have hslots : p.slotsAhead * p.executionSlot / p.executionSlot = p.slotsAhead :=
        Nat.mul_div_cancel _ hslot
      rcases h'.books.holding x hx with hx | ⟨deadline, hx⟩
      · rw [turns_acquiring hx]
        show p.slotsAhead ≤ (p.lastPermit s.now - s.now) / _
        rw [Policy.lastPermit, Nat.add_sub_cancel_left, hslots]
      · have hle := (h'.deadline hx).2
        rw [turns_executing hx]
        refine hslots.symm.le.trans (Nat.div_le_div_right ?_)
        show _ ≤ s.now + p.slotsAhead * p.executionSlot + p.executionSlot - deadline
        have hle : deadline ≤ s.now + p.executionSlot := hle
        omega
    · have hqueue : (s.slots.acquire id).waiters.length + (s.slots.acquire id).holders.length ≤
          p.maxPendingRuns := h'.queue_le
      have hbalance := s.slots.balance
      rw [hwaiters, hholders, List.length_append, List.length_singleton] at hqueue
      have hmax := maxPendingRuns_le hworkers
      show _ ≤ (s.slots.acquire id).holders.length * _
      have hheld : s.slots.holders.length = p.maxParallelWorkers := by omega
      rw [hholders, hheld]
      omega

/-- A permit is passed on. -/
theorem Stands.wake {deadline : Nat} {stage : Stage} (hslot : 0 < p.executionSlot) (hk : Known s)
    (h : Stands s t last id) (hr : s.requests[j]? = some r)
    (hphase : r.phase = .executing deadline stage) (hdeadline : deadline ≤ s.now) :
    Stands (s.wake j r) t last id := by
  have hj : s.phaseOf j = some (.executing deadline .elapsed) := by
    rw [phaseOf_of_get hr, hphase]; rfl
  have hholds : j ∈ s.slots.holders := hk.books.executing j deadline hj
  have hother : ∀ x, x ≠ j → (s.wake j r).phaseOf x = s.phaseOf x :=
    fun x hne => by rw [phaseOf_wake hr, if_neg hne]
  have hmem : ∀ e ∈ s.log, e ∈ (s.wake j r).log := fun e he => List.mem_append_left _ he
  cases h with
  | refused hid => exact .refused (by rw [hother id (by rintro rfl; simp [hid] at hj), hid])
  | fresh hid ht => exact .fresh (by rw [hother id (by rintro rfl; simp [hid] at hj), hid]) ht
  | taken e he hid hmark hge hle => exact .taken e (hmem e he) hid hmark hge hle
  | queued ht hserved =>
    have hle := hk.now_le hslot hserved
    obtain ⟨w, hnext⟩ : ∃ w, s.slots.next = some w :=
      Option.ne_none_iff_exists'.mp fun hnone => List.ne_nil_of_mem hserved.mem
        (List.head?_eq_none_iff.mp hnone)
    have hw : (s.wake j r).phaseOf w = some .acquiring := by
      rw [hother w (Semaphore.waiter_ne_holder (Semaphore.next_mem hnext) hholds)]
      exact hk.books.waiting w (Semaphore.next_mem hnext)
    -- the slot ends on time, so the next one has a turn less
    have hpassed : (s.wake j r).turns last w + 1 = s.turns last j := by
      have hnow : deadline = s.now := Nat.le_antisymm hdeadline (hk.deadline hj).1
      rw [turns_acquiring hw, turns_executing hj, hnow, Nat.sub_add_comm hle,
        Nat.add_div_right _ hslot]
      rfl
    rcases hserved.release hholds hnext hpassed fun x _ hne => turns_eq (hother x hne) rfl with
      rfl | hserved
    · refine .taken ⟨s.now, id, .acquired⟩ ?_ rfl rfl ht hle
      exact List.mem_append_right _ (List.mem_cons_of_mem _
        (List.mem_map.mpr ⟨id, Option.mem_toList.mpr hnext, rfl⟩))
    · exact .queued ht hserved

/-- Whatever happens at one instant. -/
theorem Stands.step (hslot : 0 < p.executionSlot) (hworkers : 0 < p.maxParallelWorkers)
    (hk : Known s) (hk' : Known s') (h : Stands s t (p.lastPermit t) id)
    (ha : ∀ d, a ≠ .advance d) (hs : step p s a = some s') : Stands s' t (p.lastPermit t) id := by
  cases step_effect hs with
  | advance d => exact absurd rfl (ha d)
  | accept =>
    refine h.keep hk.books rfl rfl (fun _ he => he) fun j ph _ hj => ?_
    rw [phaseOf_accept, if_neg (by rintro rfl; simp [phaseOf_length] at hj), hj]
  | reject =>
    refine h.keep hk.books rfl rfl (fun _ he => List.mem_append_left _ he) fun j ph _ hj => ?_
    rw [phaseOf_reject, if_neg (by rintro rfl; simp [phaseOf_length] at hj), hj]
  | quiet hr hq =>
    exact h.keep hk.books rfl rfl (fun _ he => he) fun j ph _ hj => (phaseOf_quiet hr hq).trans hj
  | @poll j r hr hph =>
    have hj : s.phaseOf j = some .spawned := by rw [phaseOf_of_get hr, hph]; rfl
    have hother : ∀ x, x ≠ j → (s.poll j r).phaseOf x = s.phaseOf x :=
      fun x hne => by rw [phaseOf_poll hr, if_neg hne]
    cases h with
    | refused hid => exact .refused (by rw [hother id (by rintro rfl; simp [hid] at hj), hid])
    | fresh hid ht =>
      by_cases hne : id = j
      · subst hne
        subst ht
        exact .poll hslot hworkers hk hk' hr hph
      · exact .fresh (by rw [hother id hne, hid]) ht
    | queued ht hserved =>
      refine .queued ht ((hserved.acquire j).congr fun x _ => ?_)
      by_cases hne : x = j
      · -- before and after the poll the request does not execute
        subst hne
        rw [State.turns, State.turns, hj, phaseOf_poll hr, if_pos rfl]
        rfl
      · exact turns_eq (hother x hne) rfl
    | taken e he hid hmark hge hle =>
      exact .taken e (List.mem_append_left _ he) hid hmark hge hle
  | @start j r hr hph hh =>
    have hj : s.phaseOf j = some .acquiring := by rw [phaseOf_of_get hr, hph]; rfl
    have hother : ∀ x, x ≠ j → (s.start j r).phaseOf x = s.phaseOf x :=
      fun x hne => by rw [phaseOf_start hr, if_neg hne]
    refine h.frame rfl rfl (fun _ he => List.mem_append_left _ he) (fun ph hph hid => ?_)
      fun x _ => ?_
    · rw [hother id (by rintro rfl; rcases hph with rfl | rfl <;> simp [hid] at hj), hid]
    · by_cases hne : x = j
      · -- its slot ends one slot from now
        subst hne
        rw [turns_acquiring hj, turns_executing (by rw [phaseOf_start hr, if_pos rfl]),
          Nat.add_sub_add_right]
      · exact turns_eq (hother x hne) rfl
  | wake hr hph _ hdeadline => exact h.wake hslot hk hr hph hdeadline
  | @finish j r hr hph =>
    have hj : s.phaseOf j = some .released := by rw [phaseOf_of_get hr, hph]; rfl
    refine h.keep hk.books rfl rfl (fun _ he => he) fun x ph hne hx => ?_
    rw [phaseOf_finish hr, if_neg, hx]
    rintro rfl
    rw [hj] at hx
    exact hne (Option.some.inj hx).symm
  | @respond j r hr =>
    have hq : Quiet r { r with caller := .answered } := ⟨rfl, fun _ hd => hd, nofun, .inl⟩
    exact h.keep hk.books rfl rfl (fun _ he => List.mem_append_left _ he) fun j ph _ hj =>
      (phaseOf_quiet hr hq).trans hj

/-- Time passes when no request is about to be polled or to start. -/
theorem Stands.tick (hk : Known s) (h : Stands s t last id) (hbusy : s.busy = false) :
    Stands { s with now := s.now + 1 } t last id := by
  have hidle : ∀ i (r : Request), s.requests[i]? = some r → r.ready s.now (s.holds i) = false := by
    intro i r hr
    have hmem : (r, i) ∈ s.requests.zipIdx := List.mem_zipIdx_iff_getElem?.mpr hr
    simpa using List.any_eq_false.mp hbusy (r, i) hmem
  cases h with
  | refused hid => exact .refused hid
  | fresh hid ht =>
    obtain ⟨r, hr, houter⟩ := Option.map_eq_some_iff.mp hid
    have := hidle id r hr
    cases hph : r.phase <;> simp [hph, Phase.outer] at houter
    simp [Request.ready, hph] at this
  | taken e he hid hmark hge hle => exact .taken e he hid hmark hge hle
  | queued ht hserved =>
    refine .queued (Nat.le_succ_of_le ht) (hserved.congr fun j hj => ?_)
    rcases hk.books.holding j hj with hphase | ⟨deadline, hphase⟩
    · -- a holder that has not started is ready
      obtain ⟨r, hr, houter⟩ := Option.map_eq_some_iff.mp hphase
      have := hidle j r hr
      cases hph : r.phase <;> simp [hph, Phase.outer] at houter
      simp [Request.ready, hph, holds_iff.mpr hj] at this
    · rw [turns_executing hphase]
      exact turns_executing (s := { s with now := s.now + 1 }) hphase

/-! ## Runs -/

theorem attempt_frame (ha : a ≠ .arrive) (ha' : ∀ d, a ≠ .advance d) :
    ((machine p).attempt s a).now = s.now ∧
      ((machine p).attempt s a).requests.length = s.requests.length := by
  refine Machine.attempt_preserves
    (P := fun u : State p => u.now = s.now ∧ u.requests.length = s.requests.length) ⟨rfl, rfl⟩
    fun u hu => ?_
  cases step_effect (show step p s a = some u from hu) with
  | accept | reject => exact absurd rfl ha
  | advance d => exact absurd rfl (ha' d)
  | quiet | poll | start | wake | finish | respond => exact ⟨rfl, List.length_set⟩

/-- What all actions but arrivals and the clock preserve is preserved by tasks. -/
theorem tasks_preserve {P : State p → Prop} (launches : Nat → Launch)
    (hattempt : ∀ s a, P s → a ≠ .arrive → (∀ d, a ≠ .advance d) → P ((machine p).attempt s a))
    (tasks : List Task) (h : P s) : P (tasks.foldl (Task.run launches) s) := by
  refine List.foldlRecOn _ _ h fun u hu task _ => ?_
  cases task with
  | poll id => exact hattempt u (.poll id) hu (by simp) (by simp)
  | finish id => exact hattempt u (.finish id) hu (by simp) (by simp)
  | respond id => exact hattempt u (.respond id) hu (by simp) (by simp)
  | start id =>
    exact hattempt _ (.process id _) (hattempt u (.start id) hu (by simp) (by simp)) (by simp)
      (by simp)
  | fire id =>
    exact hattempt _ (.wake id) (hattempt u (.timeout id) hu (by simp) (by simp)) (by simp)
      (by simp)

/-- Tasks neither move the clock nor let a request in. -/
theorem tasks_frame (launches : Nat → Launch) (tasks : List Task) (s : State p) :
    (tasks.foldl (Task.run launches) s).now = s.now ∧
      (tasks.foldl (Task.run launches) s).requests.length = s.requests.length := by
  refine tasks_preserve
    (P := fun u : State p => u.now = s.now ∧ u.requests.length = s.requests.length) launches
    (fun u a hu ha ha' => ?_) tasks ⟨rfl, rfl⟩
  have hframe := attempt_frame (s := u) ha ha'
  exact ⟨hframe.1.trans hu.1, hframe.2.trans hu.2⟩

/-- A reachable state in which every slot is on time. -/
structure Timely (s : State p) : Prop where
  reachable : (machine p).Reachable s
  punctual : Punctual s

theorem Timely.known (h : Timely s) : Known s :=
  ⟨books h.reachable, counted h.reachable, dated h.reachable, h.punctual⟩

theorem Timely.attempt (h : Timely s) (ha : ∀ d, a ≠ .advance d) :
    Timely ((machine p).attempt s a) :=
  ⟨h.reachable.attempt, h.punctual.attempt h.reachable ha⟩

theorem Stands.attempt (hslot : 0 < p.executionSlot) (hworkers : 0 < p.maxParallelWorkers)
    (hs : Timely s) (h : Stands s t (p.lastPermit t) id) (ha : ∀ d, a ≠ .advance d) :
    Stands ((machine p).attempt s a) t (p.lastPermit t) id := by
  cases hstep : (machine p).step s a with
  | none => rwa [Machine.attempt_of_disabled hstep]
  | some s' =>
    have hs' := (hs.attempt ha).known
    rw [Machine.attempt_of_step hstep] at hs' ⊢
    exact h.step hslot hworkers hs.known hs' ha hstep

/-- A request that has arrived. -/
theorem stands_arrive (s : State p) : Stands ((machine p).attempt s .arrive) s.now
    (p.lastPermit s.now) s.requests.length := by
  have hstep : (machine p).step s .arrive =
      some (if s.pending < p.maxPendingRuns then s.accept else s.reject) := rfl
  rw [Machine.attempt_of_step hstep]
  split
  · exact .fresh (by rw [phaseOf_accept, if_pos rfl]) rfl
  · exact .refused (by rw [phaseOf_reject, if_pos rfl])

/-- However the run goes on, it stays on the way. -/
theorem Stands.run (hslot : 0 < p.executionSlot) (hworkers : 0 < p.maxParallelWorkers)
    (tokio : Tokio p) (launches : Nat → Launch) (hs : Timely s)
    (h : Stands s t (p.lastPermit t) id) (events : List Event) :
    Timely (events.foldl (timedStep tokio launches) s) ∧
      Stands (events.foldl (timedStep tokio launches) s) t (p.lastPermit t) id := by
  let P : State p → Prop := fun s => Timely s ∧ Stands s t (p.lastPermit t) id
  have hattempt : ∀ s a, P s → (∀ d, a ≠ .advance d) → P ((machine p).attempt s a) :=
    fun s a h ha => ⟨h.1.attempt ha, h.2.attempt hslot hworkers h.1 ha⟩
  refine List.foldlRecOn (motive := P) _ _ ⟨hs, h⟩ fun s hs e _ =>
    timedStep_preserves (P := P) (fun s task hs => ?_) (fun s i hs => ?_)
      (fun s id event hs => hattempt _ _ hs (by simp)) e hs
  · exact tasks_preserve launches (fun s a hs _ ha => hattempt s a hs ha) [task] hs
  · cases i with
    | arrive => exact hattempt _ .arrive hs (by simp)
    | disconnect id => exact hattempt _ (.disconnect id) hs (by simp)
    | tick =>
      show P (if s.busy then s else _)
      split
      · exact hs
      · next hidle =>
        have hidle : s.busy = false := by simpa using hidle
        exact ⟨⟨hs.1.reachable.attempt, hs.1.punctual.tick (counted hs.1.reachable) hidle⟩,
          hs.2.tick hs.1.known hidle⟩

/-- From its arrival on, a request stands on the way to its permit. -/
theorem stands (hslot : 0 < p.executionSlot) (hworkers : 0 < p.maxParallelWorkers)
    (tokio : Tokio p) (launches : Nat → Launch) (before after : List Event) :
    Timely (timedRun tokio launches (before ++ .input .arrive :: after)) ∧
      Stands (timedRun tokio launches (before ++ .input .arrive :: after))
        (timedRun tokio launches before).now
        (p.lastPermit (timedRun tokio launches before).now)
        (timedRun tokio launches before).requests.length := by
  have hbefore : Timely (timedRun tokio launches before) :=
    ⟨timed_reachable .., punctual ..⟩
  generalize htasks : (tokio (timedRun tokio launches before).view .arrive).foldl
    (Task.run launches) (timedRun tokio launches before) = s
  have hs : Timely s :=
    htasks ▸ tasks_preserve launches (fun _ _ hs _ ha => hs.attempt ha) _ hbefore
  obtain ⟨hnow, hlen⟩ := tasks_frame launches (tokio (timedRun tokio launches before).view .arrive)
    (timedRun tokio launches before)
  rw [htasks] at hnow hlen
  rw [← hnow, ← hlen]
  have hrun : timedRun tokio launches (before ++ .input .arrive :: after) =
      after.foldl (timedStep tokio launches) ((machine p).attempt s .arrive) := by
    rw [timedRun, List.foldl_append, List.foldl_cons, ← htasks]
    rfl
  rw [hrun]
  exact (stands_arrive s).run hslot hworkers tokio launches (hs.attempt (by simp)) after

/-! ## The answer -/

/-- What the caller of request `id` is told, and when. -/
structure InTime (s : State p) (earliest latest id : Nat) : Prop where
  answers : ∀ e ∈ s.log, e.id = id → ∀ response, e.mark = .answered response →
    response = normalizedResponse ∧ earliest ≤ e.time ∧ e.time ≤ latest
  complete : latest < s.now → ∀ r, s.requests[id]? = some r → r.caller = .gone ∨
    ∃ e ∈ s.log, e.id = id ∧ e.mark = .answered normalizedResponse

/-- A request on the way has not been answered. -/
theorem inTime_of_phase {ph : Phase} (h : Timely s) (hphase : s.phaseOf id = some ph)
    (hrejected : ph ≠ .rejected) (hfinished : ph ≠ .finished) {earliest latest : Nat}
    (hnow : s.now ≤ latest) : InTime s earliest latest id where
  answers e he hid response hm := by
    rcases (answered h.reachable).answers e he response hm with ⟨-, hph⟩ | ⟨-, hph⟩
    · rw [hid, hphase, Option.some.injEq] at hph
      exact absurd hph hrejected
    · rw [hid, hphase, Option.some.injEq] at hph
      exact absurd hph hfinished
  complete hlate := absurd hlate (Nat.not_lt.mpr hnow)

/-- A permit is answered one slot after it was taken. -/
theorem inTime_of_permit (h : Timely s) {e : Entry} (he : e ∈ s.log) (hm : e.mark = .acquired) :
    InTime s (e.time + p.executionSlot) (e.time + p.executionSlot) e.id where
  answers e' he' hid response hm' := by
    rcases (answered h.reachable).answers e' he' response hm' with ⟨-, hph⟩ | ⟨rfl, -⟩
    · -- a request with a permit was not refused
      obtain ⟨r, hr, hon⟩ := h.punctual.onTime e he hm
      rw [hid, phaseOf_of_get hr, Option.some.injEq] at hph
      rw [Request.OnTime, ← onTime_outer, hph] at hon
      exact hon.elim
    · have htime := h.punctual.closed e he e' he' hid.symm hm (.inr hm')
      exact ⟨rfl, htime.ge, htime.le⟩
  complete hlate r hr :=
    (((outcome h.reachable h.punctual).complete e he hm hlate).2 r hr).imp_right
      fun he' => ⟨⟨e.time + p.executionSlot, e.id, .answered normalizedResponse⟩, he', rfl, rfl⟩

theorem InTime.mono {earliest latest earliest' latest' : Nat} (h : InTime s earliest latest id)
    (he : earliest' ≤ earliest) (hl : latest ≤ latest') : InTime s earliest' latest' id where
  answers e hmem hid response hm :=
    let ⟨hresponse, hge, hle⟩ := h.answers e hmem hid response hm
    ⟨hresponse, he.trans hge, hle.trans hl⟩
  complete hlate := h.complete (Nat.lt_of_le_of_lt hl hlate)

/-- Whatever the order in which tokio runs what is ready, whatever the runners do and whoever
else comes and goes: a request that arrives is refused, or its caller is told the normalized
answer, no sooner than one slot after the arrival and no later than one slot after all those
who may be ahead have been served. By then it has been told, unless it has gone. -/
theorem response_time (hslot : 0 < p.executionSlot) (hworkers : 0 < p.maxParallelWorkers)
    (tokio : Tokio p) (launches : Nat → Launch) (before after : List Event) :
    (timedRun tokio launches (before ++ .input .arrive :: after)).phaseOf
        (timedRun tokio launches before).requests.length = some .rejected ∨
      InTime (timedRun tokio launches (before ++ .input .arrive :: after))
        ((timedRun tokio launches before).now + p.executionSlot)
        ((timedRun tokio launches before).now + (p.slotsAhead + 1) * p.executionSlot)
        (timedRun tokio launches before).requests.length := by
  obtain ⟨htimely, hstands⟩ := stands hslot hworkers tokio launches before after
  have hlatest : ∀ t, p.lastPermit t + p.executionSlot =
      t + (p.slotsAhead + 1) * p.executionSlot := by
    intro t
    rw [Policy.lastPermit, Nat.add_one_mul, Nat.add_assoc]
  rw [← hlatest]
  cases hstands with
  | refused hphase => exact .inl hphase
  | fresh hphase ht =>
    refine .inr (inTime_of_phase htimely hphase (by simp) (by simp) ?_)
    rw [ht, Policy.lastPermit, Nat.add_assoc]
    exact Nat.le_add_right _ _
  | queued ht hserved =>
    have hnow := htimely.known.now_le hslot hserved
    exact .inr (inTime_of_phase htimely (htimely.known.books.waiting _ hserved.mem) (by simp)
      (by simp) (Nat.le_add_right_of_le hnow))
  | taken e he hid hm hge hle =>
    right
    rw [← hid]
    exact (inTime_of_permit htimely he hm).mono (Nat.add_le_add_right hge _)
      (Nat.add_le_add_right hle _)

/-- The second of two callers. The runner of the first one hangs. -/
def secondCaller : List Event :=
  [.input .tick, .runner 0 (.write true), .input .tick, .input .tick, .runner 1 (.write true),
    .input .tick, .input .tick]

/-- With one permit and a slot of two ticks it is told after four, as late as can be. -/
theorem response_time_second_caller :
    ⟨4, 1, .answered normalizedResponse⟩ ∈ (timedRun (eager tiny) (fun _ => .spawned)
      ([.input .arrive] ++ .input .arrive :: secondCaller)).log ∧
    InTime (timedRun (eager tiny) (fun _ => .spawned)
      ([.input .arrive] ++ .input .arrive :: secondCaller)) 2 4 1 := by
  have hrun := response_time (by decide) (by decide) (eager tiny) (fun _ => .spawned)
    [.input .arrive] secondCaller
  refine ⟨by decide +kernel, hrun.resolve_left ?_⟩
  decide +kernel

end Scheduler
