import IshtarOxide.Lib.Tally
import IshtarOxide.Scheduler.Basic

/-!
# Admission

Which requests the scheduler has admitted, which hold a permit, and since when.
`step_effect` says once what an action can do; `Books` ties the counter and the
permits to the phases of the requests, `Counted` the log to the permits, and
`Dated` the log to the clock.
-/

namespace Scheduler

variable {p : Policy} {s s' : State p} {a : Action} {id j : Nat} {r r' : Request}

/-! ## What an action can do -/

/-- The phase without the progress of `execute_process`. -/
def Phase.outer : Phase → Phase
  | .executing deadline _ => .executing deadline .elapsed
  | phase => phase

/-- A change of a request that neither moves its slot task on nor answers it. -/
structure Quiet (r r' : Request) : Prop where
  phase : r'.phase.outer = r.phase.outer
  launching : ∀ d, r'.phase = .executing d .launching → r.phase = .executing d .launching
  caller : r'.caller = .connected → r.caller = .connected
  child : r'.child.live → r.child.live ∨ ∃ deadline stage, r.phase = .executing deadline stage

/-- `execute_process` is launched once. -/
theorem Stage.launching_of_step {x y : Stage × Child} {event : ProcessEvent}
    (h : Stage.step x event = some y) (hy : y.1 = .launching) : x.1 = .launching := by
  unfold Stage.step at h
  split at h <;> cases h <;> first | exact hy | cases hy

theorem quiet_process {event : ProcessEvent} (h : r.process event = some r') : Quiet r r' := by
  unfold Request.process at h
  split at h
  · next deadline stage hph =>
    obtain ⟨⟨stage', child'⟩, hstep, rfl⟩ := Option.map_eq_some_iff.mp h
    refine ⟨by simp [hph, Phase.outer], fun d hd => ?_, id, fun _ => .inr ⟨deadline, stage, hph⟩⟩
    simp only [Phase.executing.injEq] at hd
    have hstage : stage = .launching := Stage.launching_of_step hstep hd.2
    rw [hph, hd.1, hstage]
  · next st _ =>
    obtain ⟨hl, he⟩ := Option.ite_none_right_eq_some.mp h
    cases he
    exact ⟨rfl, fun _ hd => hd, id, fun _ => .inl hl⟩
  · cases h

theorem process_caller {event : ProcessEvent} (h : r.process event = some r') :
    r'.caller = r.caller := by
  unfold Request.process at h
  split at h
  · obtain ⟨_, _, rfl⟩ := Option.map_eq_some_iff.mp h
    rfl
  · obtain ⟨_, he⟩ := Option.ite_none_right_eq_some.mp h
    cases he
    rfl
  · cases h

/-- Everything an action can do to the state. Disconnects, process events and
timeouts are all `quiet`. -/
inductive Effect (s : State p) : Action → State p → Prop
  | accept : s.pending < p.maxPendingRuns → Effect s .arrive s.accept
  | reject : ¬ s.pending < p.maxPendingRuns → Effect s .arrive s.reject
  | advance (d : Nat) : Effect s (.advance d) { s with now := s.now + d }
  | quiet {a : Action} {id : Nat} {r r' : Request} :
      s.requests[id]? = some r → Quiet r r' → (r'.caller = .answered → r.caller = .answered) →
      Effect s a (s.put id r')
  | poll {id : Nat} {r : Request} :
      s.requests[id]? = some r → r.phase = .spawned → Effect s (.poll id) (s.poll id r)
  | start {id : Nat} {r : Request} :
      s.requests[id]? = some r → r.phase = .acquiring → id ∈ s.slots.holders →
      Effect s (.start id) (s.start id r)
  | wake {id : Nat} {r : Request} {deadline : Nat} {stage : Stage} :
      s.requests[id]? = some r → r.phase = .executing deadline stage → stage.settled →
      deadline ≤ s.now → Effect s (.wake id) (s.wake id r)
  | finish {id : Nat} {r : Request} :
      s.requests[id]? = some r → r.phase = .released → Effect s (.finish id) (s.finish id r)
  | respond {id : Nat} {r : Request} :
      s.requests[id]? = some r → r.phase = .finished → r.caller = .connected →
      Effect s (.respond id) ((s.put id { r with caller := .answered }).record id
        (.answered normalizedResponse))

theorem step_effect (h : step p s a = some s') : Effect s a s' := by
  cases a with
  | arrive =>
    simp only [step, Option.some.injEq] at h
    split at h
    · next hlt => subst h; exact .accept hlt
    · next hge => subst h; exact .reject hge
  | advance d =>
    simp only [step, Option.some.injEq] at h
    subst h
    exact .advance d
  | disconnect id =>
    simp only [step, Option.bind_eq_some_iff, Option.ite_none_right_eq_some, Option.some.injEq] at h
    obtain ⟨r, hr, _, rfl⟩ := h
    exact .quiet hr ⟨rfl, fun _ hd => hd, nofun, .inl⟩ nofun
  | poll id =>
    simp only [step, Option.bind_eq_some_iff, Option.ite_none_right_eq_some, Option.some.injEq] at h
    obtain ⟨r, hr, hph, rfl⟩ := h
    exact .poll hr hph
  | start id =>
    simp only [step, Option.bind_eq_some_iff, Option.ite_none_right_eq_some, Option.some.injEq] at h
    obtain ⟨r, hr, ⟨hph, hh⟩, rfl⟩ := h
    exact .start hr hph hh
  | process id event =>
    simp only [step, Option.bind_eq_some_iff, Option.map_eq_some_iff] at h
    obtain ⟨r, hr, r', hr', rfl⟩ := h
    exact .quiet hr (quiet_process hr') fun hc => process_caller hr' ▸ hc
  | timeout id =>
    simp only [step, Option.bind_eq_some_iff] at h
    obtain ⟨r, hr, h⟩ := h
    split at h
    · next deadline stage hph =>
      obtain ⟨_, he⟩ := Option.ite_none_right_eq_some.mp h
      cases he
      refine .quiet hr ⟨by simp [hph, Phase.outer], by simp, fun hc => hc, fun _ => ?_⟩ fun hc => hc
      exact .inr ⟨deadline, stage, hph⟩
    · cases h
  | wake id =>
    simp only [step, Option.bind_eq_some_iff] at h
    obtain ⟨r, hr, h⟩ := h
    split at h
    · next deadline stage hph =>
      obtain ⟨⟨hst, hd⟩, he⟩ := Option.ite_none_right_eq_some.mp h
      cases he
      exact .wake hr hph hst hd
    · cases h
  | finish id =>
    simp only [step, Option.bind_eq_some_iff, Option.ite_none_right_eq_some, Option.some.injEq] at h
    obtain ⟨r, hr, hph, rfl⟩ := h
    exact .finish hr hph
  | respond id =>
    simp only [step, Option.bind_eq_some_iff, Option.ite_none_right_eq_some, Option.some.injEq] at h
    obtain ⟨r, hr, ⟨hph, hc⟩, rfl⟩ := h
    exact .respond hr hph hc

/-! ## Phases -/

/-- The phase of request `id`, up to the progress of `execute_process`. -/
def State.phaseOf (s : State p) (id : Nat) : Option Phase :=
  s.requests[id]?.map fun r => r.phase.outer

theorem phaseOf_of_get (hr : s.requests[id]? = some r) : s.phaseOf id = some r.phase.outer := by
  simp [State.phaseOf, hr]

theorem getElem?_put (hr : s.requests[id]? = some r) :
    (s.put id r').requests[j]? = if j = id then some r' else s.requests[j]? := by
  have hlt : id < s.requests.length := (List.getElem?_eq_some_iff.mp hr).1
  simp only [State.put, List.getElem?_set]
  split
  · next h => subst h; simp
  · next h => rw [if_neg (Ne.symm h)]

theorem phaseOf_put (hr : s.requests[id]? = some r) :
    (s.put id r').phaseOf j = if j = id then some r'.phase.outer else s.phaseOf j := by
  rw [State.phaseOf, getElem?_put hr]
  split <;> rfl

theorem phaseOf_quiet (hr : s.requests[id]? = some r) (hq : Quiet r r') :
    (s.put id r').phaseOf j = s.phaseOf j := by
  rw [phaseOf_put hr]
  split
  · next h => subst h; rw [hq.phase, phaseOf_of_get hr]
  · rfl

theorem phaseOf_length : s.phaseOf s.requests.length = none := by
  simp [State.phaseOf]

theorem phaseOf_append :
    (s.requests ++ [r])[j]?.map (fun r => r.phase.outer) =
      if j = s.requests.length then some r.phase.outer else s.phaseOf j := by
  rcases Nat.lt_trichotomy j s.requests.length with h | h | h
  · rw [List.getElem?_append_left h, if_neg (by omega)]
    rfl
  · subst h
    simp
  · rw [if_neg (by omega), List.getElem?_eq_none (by simp; omega)]
    simp [State.phaseOf, List.getElem?_eq_none (Nat.le_of_lt h)]

theorem phaseOf_accept :
    s.accept.phaseOf j = if j = s.requests.length then some .spawned else s.phaseOf j :=
  phaseOf_append

theorem phaseOf_reject :
    s.reject.phaseOf j = if j = s.requests.length then some .rejected else s.phaseOf j :=
  phaseOf_append

theorem phaseOf_poll (hr : s.requests[id]? = some r) :
    (s.poll id r).phaseOf j = if j = id then some .acquiring else s.phaseOf j :=
  phaseOf_put hr

theorem phaseOf_start (hr : s.requests[id]? = some r) :
    (s.start id r).phaseOf j =
      if j = id then some (.executing (s.now + p.executionSlot) .elapsed) else s.phaseOf j :=
  phaseOf_put hr

theorem phaseOf_wake (hr : s.requests[id]? = some r) :
    (s.wake id r).phaseOf j = if j = id then some .released else s.phaseOf j :=
  phaseOf_put hr

theorem phaseOf_finish (hr : s.requests[id]? = some r) :
    (s.finish id r).phaseOf j = if j = id then some .finished else s.phaseOf j :=
  phaseOf_put hr

/-- The number of admitted requests whose slot task has not finished. -/
def State.unfinished (s : State p) : Nat := s.requests.countP Request.unfinished

theorem unfinished_put (hr : s.requests[id]? = some r) (r' : Request) :
    (s.put id r').unfinished + r.unfinished.toNat = s.unfinished + r'.unfinished.toNat :=
  List.countP_set_toNat hr

theorem Request.unfinished_outer (r : Request) :
    r.unfinished = match r.phase.outer with
      | .rejected | .finished => false
      | _ => true := by
  unfold Request.unfinished Phase.outer
  cases r.phase <;> rfl

theorem unfinished_quiet (hr : s.requests[id]? = some r) (hq : Quiet r r') :
    (s.put id r').unfinished = s.unfinished := by
  have h := unfinished_put hr r'
  rw [r.unfinished_outer, r'.unfinished_outer, hq.phase] at h
  omega

/-! ## The books -/

/-- The counter, the permits and the phases agree. -/
structure Books (s : State p) : Prop where
  pending_eq : s.pending = s.unfinished
  pending_le : s.pending ≤ p.maxPendingRuns
  waiting : ∀ id ∈ s.slots.waiters, s.phaseOf id = some .acquiring
  holding : ∀ id ∈ s.slots.holders,
    s.phaseOf id = some .acquiring ∨ ∃ d, s.phaseOf id = some (.executing d .elapsed)
  executing : ∀ id d, s.phaseOf id = some (.executing d .elapsed) → id ∈ s.slots.holders

theorem books_init : Books (.initial p) where
  pending_eq := rfl
  pending_le := Nat.zero_le _
  waiting := by simp [State.initial, Semaphore.new]
  holding := by simp [State.initial, Semaphore.new]
  executing := by simp [State.phaseOf, State.initial]

/-- A request in none of the acquiring phases is unknown to the semaphore. -/
theorem Books.not_known (h : Books s) (hj : s.phaseOf j ≠ some .acquiring)
    (hj' : ∀ d, s.phaseOf j ≠ some (.executing d .elapsed)) : ¬ s.slots.Known j := by
  intro hk
  rcases List.mem_append.mp hk with hw | hh
  · exact hj (h.waiting j hw)
  · rcases h.holding j hh with ha | ⟨d, he⟩
    · exact hj ha
    · exact hj' d he

theorem Books.step (h : Books s) (hs : step p s a = some s') : Books s' := by
  cases step_effect hs with
  | accept hlt =>
    -- the new request is spawned, so the semaphore knows nothing of it
    have hnew : ∀ j ph, s.phaseOf j = some ph → s.accept.phaseOf j = some ph := by
      intro j ph hj
      rw [phaseOf_accept, if_neg (by rintro rfl; simp [phaseOf_length] at hj), hj]
    refine ⟨?_, hlt, fun j hj => hnew j _ (h.waiting j hj), fun j hj => ?_, fun j d hj => ?_⟩
    · simp [State.accept, State.unfinished, Request.unfinished, h.pending_eq]
    · exact (h.holding j hj).imp (hnew j _) fun ⟨d, hd⟩ => ⟨d, hnew j _ hd⟩
    · rw [phaseOf_accept] at hj
      split at hj
      · cases hj
      · exact h.executing j d hj
  | reject =>
    have hnew : ∀ j ph, s.phaseOf j = some ph → s.reject.phaseOf j = some ph := by
      intro j ph hj
      rw [phaseOf_reject, if_neg (by rintro rfl; simp [phaseOf_length] at hj), hj]
    refine ⟨?_, h.pending_le, fun j hj => hnew j _ (h.waiting j hj), fun j hj => ?_,
      fun j d hj => ?_⟩
    · simpa [State.reject, State.record, State.unfinished, Request.unfinished] using h.pending_eq
    · exact (h.holding j hj).imp (hnew j _) fun ⟨d, hd⟩ => ⟨d, hnew j _ hd⟩
    · rw [phaseOf_reject] at hj
      split at hj
      · cases hj
      · exact h.executing j d hj
  | advance d => exact ⟨h.pending_eq, h.pending_le, h.waiting, h.holding, h.executing⟩
  | @quiet _ id r r' hr hq =>
    refine ⟨?_, h.pending_le, fun j hj => ?_, fun j hj => ?_, fun j d hj => ?_⟩
    · rw [unfinished_quiet hr hq]
      exact h.pending_eq
    · rw [phaseOf_quiet hr hq]
      exact h.waiting j hj
    · simp only [phaseOf_quiet hr hq]
      exact h.holding j hj
    · rw [phaseOf_quiet hr hq] at hj
      exact h.executing j d hj
  | @poll id r hr hph =>
    have hid : s.phaseOf id = some .spawned := by rw [phaseOf_of_get hr, hph]; rfl
    -- before it has asked for a permit it neither waits for one nor has one
    have hk : ¬ s.slots.Known id := h.not_known (by simp [hid]) (by simp [hid])
    refine ⟨?_, h.pending_le, fun j hj => ?_, fun j hj => ?_, fun j d hj => ?_⟩
    · have := unfinished_put hr { r with phase := .acquiring }
      simp only [Request.unfinished, hph] at this
      exact h.pending_eq.trans (Nat.add_right_cancel this).symm
    · rw [phaseOf_poll hr]
      split
      · rfl
      · next hne =>
        exact h.waiting j (((Semaphore.mem_waiters_acquire hk).mp hj).resolve_right
          fun hj => hne hj.1)
    · rw [phaseOf_poll hr]
      split
      · exact .inl rfl
      · next hne =>
        exact h.holding j (((Semaphore.mem_holders_acquire hk).mp hj).resolve_right
          fun hj => hne hj.1)
    · rw [phaseOf_poll hr] at hj
      split at hj
      · cases hj
      · exact (Semaphore.mem_holders_acquire hk).mpr (.inl (h.executing j d hj))
  | @start id r hr hph hh =>
    have hid : s.phaseOf id = some .acquiring := by rw [phaseOf_of_get hr, hph]; rfl
    refine ⟨?_, h.pending_le, fun j hj => ?_, fun j hj => ?_, fun j d hj => ?_⟩
    · have := unfinished_put hr
        { r with phase := .executing (s.now + p.executionSlot) .launching }
      simp only [Request.unfinished, hph] at this
      exact h.pending_eq.trans (Nat.add_right_cancel this).symm
    · rw [phaseOf_start hr, if_neg (Semaphore.waiter_ne_holder hj hh)]
      exact h.waiting j hj
    · rw [phaseOf_start hr]
      split
      · exact .inr ⟨_, rfl⟩
      · exact h.holding j hj
    · rw [phaseOf_start hr] at hj
      split at hj
      · next he => exact he ▸ hh
      · exact h.executing j d hj
  | @wake id r deadline stage hr hph hst hd =>
    have hid : s.phaseOf id = some (.executing deadline .elapsed) := by
      rw [phaseOf_of_get hr, hph]; rfl
    have hh : id ∈ s.slots.holders := h.executing id deadline hid
    refine ⟨?_, h.pending_le, fun j hj => ?_, fun j hj => ?_, fun j d hj => ?_⟩
    · have := unfinished_put hr { r with phase := .released }
      simp only [Request.unfinished, hph] at this
      exact h.pending_eq.trans (Nat.add_right_cancel this).symm
    · -- the first waiter is none any more, and the others were waiters before
      have hj' : j ∈ s.slots.waiters := by
        rw [show (s.wake id r).slots = s.slots.release id from rfl,
          Semaphore.waiters_release hh] at hj
        exact List.mem_of_mem_tail hj
      rw [phaseOf_wake hr, if_neg (Semaphore.waiter_ne_holder hj' hh)]
      exact h.waiting j hj'
    · rcases (Semaphore.mem_holders_release hh).mp hj with ⟨hj', hne⟩ | hn
      · rw [phaseOf_wake hr, if_neg hne]
        exact h.holding j hj'
      · have hw := Semaphore.next_mem hn
        rw [phaseOf_wake hr, if_neg (Semaphore.waiter_ne_holder hw hh)]
        exact .inl (h.waiting j hw)
    · rw [phaseOf_wake hr] at hj
      split at hj
      · cases hj
      · next hne => exact (Semaphore.mem_holders_release hh).mpr (.inl ⟨h.executing j d hj, hne⟩)
  | @finish id r hr hph =>
    have hid : s.phaseOf id = some .released := by rw [phaseOf_of_get hr, hph]; rfl
    -- the request was counted until now, so the counter does not wrap
    have hcount := unfinished_put hr { r with phase := .finished }
    simp only [Request.unfinished, hph, Bool.toNat_true, Bool.toNat_false, Nat.add_zero] at hcount
    have hpend : (s.finish id r).pending = (s.finish id r).unfinished := by
      show fetchSub s.pending = (s.put id { r with phase := .finished }).unfinished
      rw [h.pending_eq, ← hcount]
      rfl
    refine ⟨hpend, ?_, fun j hj => ?_, fun j hj => ?_, fun j d hj => ?_⟩
    · have hle := h.pending_le
      rw [h.pending_eq] at hle
      rw [hpend]
      show (s.put id { r with phase := .finished }).unfinished ≤ _
      omega
    · have hj' := h.waiting j hj
      rw [phaseOf_finish hr, if_neg (by rintro rfl; simp [hid] at hj'), hj']
    · have hj' := h.holding j hj
      rw [phaseOf_finish hr, if_neg (by rintro rfl; simp [hid] at hj')]
      exact hj'
    · rw [phaseOf_finish hr] at hj
      split at hj
      · cases hj
      · exact h.executing j d hj
  | @respond id r hr hph hc =>
    have hq : Quiet r { r with caller := .answered } := ⟨rfl, fun _ hd => hd, nofun, .inl⟩
    refine ⟨?_, h.pending_le, fun j hj => ?_, fun j hj => ?_, fun j d hj => ?_⟩
    · exact h.pending_eq.trans (unfinished_quiet hr hq).symm
    · exact (phaseOf_quiet hr hq).trans (h.waiting j hj)
    · have := h.holding j hj
      rwa [← phaseOf_quiet hr hq] at this
    · exact h.executing j d ((phaseOf_quiet hr hq).symm.trans hj)

theorem books (h : (machine p).Reachable s) : Books s :=
  h.invariant books_init fun _ _ _ hb hs => hb.step hs

/-! ## The log -/

/-- How often the log has `mark` for request `id`. -/
def State.marks (s : State p) (id : Nat) (mark : Mark) : Nat :=
  s.log.countP fun e => e.id = id ∧ e.mark = mark

/-- How often the log must have a mark for a request in phase `phase` that
holds a permit or not. -/
def tally (phase : Option Phase) (held : Bool) : Mark → Nat
  | .acquired => match phase with
    | some .released | some .finished => 1
    | _ => held.toNat
  | .started => match phase with
    | some (.executing _ _) | some .released | some .finished => 1
    | _ => 0
  | .released => match phase with
    | some .released | some .finished => 1
    | _ => 0
  | .answered _ => 0

/-- The marks that `tally` counts. -/
def Mark.counted : Mark → Bool
  | .answered _ => false
  | _ => true

theorem marks_pos {e : Entry} (he : e ∈ s.log) : 0 < s.marks e.id e.mark :=
  List.countP_pos_iff.mpr ⟨e, he, by simp⟩

theorem marks_append (new : List Entry) {mark : Mark} (h : s'.log = s.log ++ new) :
    s'.marks id mark = s.marks id mark + new.countP fun e => e.id = id ∧ e.mark = mark := by
  rw [State.marks, h, List.countP_append]
  rfl

/-- Request `id` has a permit. -/
def State.holds (s : State p) (id : Nat) : Bool := s.slots.holders.contains id

theorem holds_iff : s.holds id = true ↔ id ∈ s.slots.holders := List.contains_iff_mem

/-- The log agrees with the permits and the phases. -/
def Counted (s : State p) : Prop :=
  ∀ id mark, mark.counted → s.marks id mark = tally (s.phaseOf id) (s.holds id) mark

theorem Counted.init : Counted (.initial p) := by
  intro id mark hm
  cases mark with
  | answered _ => cases hm
  | _ => simp [State.marks, State.initial, tally, State.phaseOf, State.holds, Semaphore.new]

/-- No new entry has this mark for `j`, and none is due. -/
theorem Counted.frame {mark : Mark} (h : Counted s) (hm : mark.counted) (new : List Entry)
    (hlog : s'.log = s.log ++ new) (hnew : ∀ e ∈ new, e.mark = mark → e.id ≠ j)
    (ht : tally (s'.phaseOf j) (s'.holds j) mark = tally (s.phaseOf j) (s.holds j) mark) :
    s'.marks j mark = tally (s'.phaseOf j) (s'.holds j) mark := by
  rw [marks_append new hlog, h j mark hm, ht, List.countP_eq_zero.mpr, Nat.add_zero]
  intro e he
  simp only [decide_eq_true_eq, not_and]
  exact fun hid hmark => hnew e he hmark hid

theorem holds_poll (hk : ¬ s.slots.Known id) :
    (s.poll id r).holds j = (s.holds j || (decide (j = id) && decide (0 < s.slots.free))) := by
  rw [Bool.eq_iff_iff, holds_iff]
  simp only [Bool.or_eq_true, Bool.and_eq_true, decide_eq_true_eq, holds_iff]
  exact Semaphore.mem_holders_acquire hk

theorem holds_wake (hh : id ∈ s.slots.holders) :
    (s.wake id r).holds j =
      ((s.holds j && decide (j ≠ id)) || decide (s.slots.next = some j)) := by
  rw [Bool.eq_iff_iff, holds_iff]
  simp only [Bool.or_eq_true, Bool.and_eq_true, decide_eq_true_eq, holds_iff]
  exact Semaphore.mem_holders_release hh

theorem not_holds_next (hn : s.slots.next = some j) : s.holds j = false := by
  rw [← Bool.not_eq_true, holds_iff]
  exact fun hh => Semaphore.waiter_ne_holder (Semaphore.next_mem hn) hh rfl

theorem Counted.step (hb : Books s) (h : Counted s) (hs : step p s a = some s') : Counted s' := by
  intro j mark hm
  have hj := h j mark hm
  cases step_effect hs with
  | accept hlt =>
    refine h.frame hm [] (by simp [State.accept]) (by simp) ?_
    rw [phaseOf_accept]
    split
    · next he => subst he; rw [phaseOf_length]; cases mark <;> rfl
    · rfl
  | reject =>
    refine h.frame hm [⟨s.now, s.requests.length, .answered queueFull⟩] rfl ?_ ?_
    · rintro e he rfl
      rw [List.mem_singleton.mp he] at hm
      cases hm
    · rw [phaseOf_reject]
      split
      · next he => subst he; rw [phaseOf_length]; cases mark <;> rfl
      · rfl
  | advance d => exact hj
  | quiet hr hq =>
    rw [phaseOf_quiet hr hq]
    exact hj
  | @poll id r hr hph =>
    have hid : s.phaseOf id = some .spawned := by rw [phaseOf_of_get hr, hph]; rfl
    have hk : ¬ s.slots.Known id := hb.not_known (by simp [hid]) (by simp [hid])
    have hfree : s.holds id = false := by
      rw [← Bool.not_eq_true, holds_iff]
      exact fun hh => hk (List.mem_append.mpr (.inr hh))
    -- there is a mark exactly if the permit is there at once
    rw [marks_append _ rfl, hj, phaseOf_poll hr, holds_poll hk]
    by_cases hji : j = id
    · subst hji
      rw [hid, hfree, if_pos rfl]
      by_cases hf : 0 < s.slots.free <;> cases mark <;> simp_all [tally, Mark.counted]
    · rw [if_neg hji]
      by_cases hf : 0 < s.slots.free <;> simp [hf, hji, Ne.symm hji]
  | @start id r hr hph hh =>
    have hid : s.phaseOf id = some .acquiring := by rw [phaseOf_of_get hr, hph]; rfl
    rw [marks_append (s := s) [⟨s.now, id, .started⟩] rfl, hj, phaseOf_start hr]
    by_cases hji : j = id
    · subst hji
      rw [hid, if_pos rfl]
      cases mark <;> simp_all [tally, Mark.counted]
      rfl
    · rw [if_neg hji]
      simp [Ne.symm hji]
      rfl
  | @wake id r deadline stage hr hph hst hd =>
    have hid : s.phaseOf id = some (.executing deadline .elapsed) := by
      rw [phaseOf_of_get hr, hph]; rfl
    have hh : id ∈ s.slots.holders := hb.executing id deadline hid
    have hholds : s.holds id = true := holds_iff.mpr hh
    rw [marks_append (s := s) (⟨s.now, id, .released⟩ :: s.handover) rfl, hj,
      phaseOf_wake hr, holds_wake hh, State.handover]
    by_cases hji : j = id
    · subst hji
      -- a holder does not wait, so the permit goes to another request
      have hn : s.slots.next ≠ some j := fun hn => by simp [not_holds_next hn] at hholds
      cases hnext : s.slots.next with
      | none => cases mark <;> simp_all [tally, Mark.counted]
      | some w => cases mark <;> simp_all [tally, Mark.counted]
    · rw [if_neg hji]
      by_cases hn : s.slots.next = some j
      · -- the next waiter takes the permit in the same step
        have hw : s.phaseOf j = some .acquiring := hb.waiting j (Semaphore.next_mem hn)
        cases mark <;> simp_all [tally, Mark.counted, not_holds_next hn, Ne.symm hji]
      · cases hnext : s.slots.next with
        | none => simp [hji, Ne.symm hji]
        | some w =>
          have hwj : w ≠ j := by rintro rfl; exact hn hnext
          simp [hji, Ne.symm hji, hwj]
  | @finish id r hr hph =>
    have hid : s.phaseOf id = some .released := by rw [phaseOf_of_get hr, hph]; rfl
    refine h.frame hm [] (by simp [State.finish, State.put]) (by simp) ?_
    rw [phaseOf_finish hr]
    split
    · next he => subst he; rw [hid]; cases mark <;> rfl
    · rfl
  | @respond id r hr hph hc =>
    refine h.frame hm [⟨s.now, id, .answered normalizedResponse⟩] rfl ?_ ?_
    · rintro e he rfl
      rw [List.mem_singleton.mp he] at hm
      cases hm
    · have hq : Quiet r { r with caller := .answered } := ⟨rfl, fun _ hd => hd, nofun, .inl⟩
      exact congrArg (fun ph => tally ph (s.holds j) mark) (phaseOf_quiet hr hq)

theorem counted (h : (machine p).Reachable s) : Counted s := by
  refine (h.invariant (P := fun s => Books s ∧ Counted s) ⟨books_init, .init⟩ ?_).2
  rintro s a s' ⟨hb, hc⟩ hs
  exact ⟨hb.step hs, hc.step hb hs⟩

/-- A request that has not dropped its permit has no release in the log. -/
theorem Counted.no_release {e : Entry} (h : Counted s) (he : e ∈ s.log) (hm : e.mark = .released) :
    s.phaseOf e.id = some .released ∨ s.phaseOf e.id = some .finished := by
  have hpos := marks_pos he
  rw [hm, h e.id .released rfl] at hpos
  simp only [tally] at hpos
  split at hpos
  · next hp => exact .inl hp
  · next hp => exact .inr hp
  · cases hpos

/-! ## The clock -/

/-- A mark of a permit taken: from it on, the slot lasts. -/
def Mark.opens : Mark → Bool
  | .acquired | .started => true
  | _ => false

/-- The log agrees with the clock. `deadline` is what carries `late`: whatever
the log has on an executing request is a slot older than its deadline. -/
structure Dated (s : State p) : Prop where
  past : ∀ e ∈ s.log, e.time ≤ s.now
  deadline : ∀ id d, s.phaseOf id = some (.executing d .elapsed) →
    ∀ e ∈ s.log, e.id = id → e.time + p.executionSlot ≤ d
  late : ∀ e ∈ s.log, ∀ e' ∈ s.log, e.id = e'.id → e.mark.opens → e'.mark = .released →
    e.time + p.executionSlot ≤ e'.time
  complete : ∀ e ∈ s.log, e.mark = .answered normalizedResponse →
    s.phaseOf e.id = some .finished

theorem Dated.init : Dated (.initial p) := by
  constructor <;> simp [State.initial]

/-- The log and the clock are as before, and so are the phases, except of
requests that neither execute nor are finished. -/
theorem Dated.frame (h : Dated s) (hlog : s'.log = s.log) (hnow : s.now ≤ s'.now)
    (hexec : ∀ id d, s'.phaseOf id = some (.executing d .elapsed) →
      s.phaseOf id = some (.executing d .elapsed))
    (hfin : ∀ id, s.phaseOf id = some .finished → s'.phaseOf id = some .finished) :
    Dated s' := by
  refine ⟨?_, ?_, ?_, ?_⟩
  · rw [hlog]
    exact fun e he => Nat.le_trans (h.past e he) hnow
  · rw [hlog]
    exact fun id d hd => h.deadline id d (hexec id d hd)
  · rw [hlog]
    exact h.late
  · rw [hlog]
    exact fun e he hm => hfin e.id (h.complete e he hm)

/-- New entries of this instant: a permit is taken by a request that had none,
and released by one that has reached its deadline. -/
theorem Dated.extend (hc : Counted s) (h : Dated s) (new : List Entry)
    (hlog : s'.log = s.log ++ new) (hnow : s'.now = s.now)
    (htime : ∀ e ∈ new, e.time = s.now)
    (hrel : ∀ e ∈ new, e.mark = .released →
      ∃ d, s.phaseOf e.id = some (.executing d .elapsed) ∧ d ≤ s.now)
    (hopen : ∀ e ∈ new, e.mark.opens → s.phaseOf e.id = some .spawned ∨
      s.phaseOf e.id = some .acquiring)
    (hexec : ∀ id d, s'.phaseOf id = some (.executing d .elapsed) →
      (s.phaseOf id = some (.executing d .elapsed) ∧ ∀ e ∈ new, e.id ≠ id) ∨
      s.now + p.executionSlot = d)
    (hdone : ∀ e ∈ new, e.mark = .answered normalizedResponse → s'.phaseOf e.id = some .finished)
    (hfin : ∀ id, s.phaseOf id = some .finished → s'.phaseOf id = some .finished) :
    Dated s' := by
  have hpast : ∀ e ∈ s'.log, e.time ≤ s.now := by
    intro e he
    rw [hlog] at he
    rcases List.mem_append.mp he with he | he
    · exact h.past e he
    · exact Nat.le_of_eq (htime e he)
  refine ⟨by rw [hnow]; exact hpast, fun id d hd e he hid => ?_, ?_, fun e he hm => ?_⟩
  · rcases hexec id d hd with ⟨hold, hnone⟩ | rfl
    · rw [hlog] at he
      rcases List.mem_append.mp he with he | he
      · exact h.deadline id d hold e he hid
      · exact absurd hid (hnone e he)
    · exact Nat.add_le_add_right (hpast e he) _
  · intro e he e' he' hid ho hr
    rw [hlog] at he he'
    rcases List.mem_append.mp he' with hold' | hnew'
    · rcases List.mem_append.mp he with hold | hnew
      · exact h.late e hold e' hold' hid ho hr
      · -- a request that takes a permit now has never released one
        have hph := hc.no_release hold' hr
        rw [← hid] at hph
        rcases hopen e hnew ho with hs | hs <;> simp [hs] at hph
    · obtain ⟨d, hph, hd⟩ := hrel e' hnew' hr
      rcases List.mem_append.mp he with hold | hnew
      · rw [htime e' hnew']
        exact Nat.le_trans (h.deadline e'.id d hph e hold hid) hd
      · rw [← hid] at hph
        rcases hopen e hnew ho with hs | hs <;> simp [hs] at hph
  · rw [hlog] at he
    rcases List.mem_append.mp he with he | he
    · exact hfin e.id (h.complete e he hm)
    · exact hdone e he hm

theorem Dated.step (hb : Books s) (hc : Counted s) (h : Dated s) (hs : step p s a = some s') :
    Dated s' := by
  cases step_effect hs with
  | accept hlt =>
    refine h.frame rfl (Nat.le_refl _) (fun j d hj => ?_) fun j hj => ?_
    · rw [phaseOf_accept] at hj
      split at hj
      · cases hj
      · exact hj
    · rw [phaseOf_accept, if_neg (by rintro rfl; simp [phaseOf_length] at hj), hj]
  | reject =>
    have hlog : s.reject.log = s.log ++ [⟨s.now, s.requests.length, .answered queueFull⟩] := rfl
    refine h.extend hc _ hlog rfl ?_ ?_ ?_ (fun j d hj => ?_) ?_ fun j hj => ?_
    · simp
    · simp
    · simp [Mark.opens]
    · rw [phaseOf_reject] at hj
      split at hj
      · cases hj
      · next hne => exact .inl ⟨hj, by simpa using Ne.symm hne⟩
    · simp [queueFull, normalizedResponse]
    · rw [phaseOf_reject, if_neg (by rintro rfl; simp [phaseOf_length] at hj), hj]
  | advance d => exact h.frame rfl (Nat.le_add_right _ _) (fun _ _ hj => hj) fun _ hj => hj
  | quiet hr hq =>
    refine h.frame rfl (Nat.le_refl _) (fun j d hj => ?_) fun j hj => ?_
    · rwa [phaseOf_quiet hr hq] at hj
    · rwa [phaseOf_quiet hr hq]
  | @poll id r hr hph =>
    have hid : s.phaseOf id = some .spawned := by rw [phaseOf_of_get hr, hph]; rfl
    have hlog : (s.poll id r).log =
        s.log ++ if 0 < s.slots.free then [⟨s.now, id, .acquired⟩] else [] := rfl
    refine h.extend hc _ hlog rfl ?_ ?_ ?_ (fun j d hj => ?_) ?_ fun j hj => ?_
    · split <;> simp
    · split <;> simp
    · split <;> simp [hid]
    · rw [phaseOf_poll hr] at hj
      split at hj
      · cases hj
      · next hne => exact .inl ⟨hj, by split <;> simp [Ne.symm hne]⟩
    · split <;> simp
    · rw [phaseOf_poll hr, if_neg (by rintro rfl; simp [hid] at hj), hj]
  | @start id r hr hph hh =>
    have hid : s.phaseOf id = some .acquiring := by rw [phaseOf_of_get hr, hph]; rfl
    have hlog : (s.start id r).log = s.log ++ [⟨s.now, id, .started⟩] := rfl
    refine h.extend hc _ hlog rfl ?_ ?_ ?_ (fun j d hj => ?_) ?_ fun j hj => ?_
    · simp
    · simp
    · simp [hid]
    · rw [phaseOf_start hr] at hj
      split at hj
      · exact .inr (by simpa using hj)
      · next hne => exact .inl ⟨hj, by simpa using Ne.symm hne⟩
    · simp
    · rw [phaseOf_start hr, if_neg (by rintro rfl; simp [hid] at hj), hj]
  | @wake id r deadline stage hr hph hst hd =>
    have hid : s.phaseOf id = some (.executing deadline .elapsed) := by
      rw [phaseOf_of_get hr, hph]; rfl
    have hlog : (s.wake id r).log = s.log ++ ⟨s.now, id, .released⟩ :: s.handover := rfl
    -- the entry of the handover is that of a request that waited
    have hhand : ∀ e ∈ s.handover, e.time = s.now ∧ e.mark = .acquired ∧
        s.phaseOf e.id = some .acquiring := by
      intro e he
      obtain ⟨w, hw, rfl⟩ := List.mem_map.mp he
      exact ⟨rfl, rfl, hb.waiting w (Semaphore.next_mem (Option.mem_toList.mp hw))⟩
    refine h.extend hc _ hlog rfl ?_ ?_ ?_ (fun j d hj => ?_) ?_ fun j hj => ?_
    · exact List.forall_mem_cons.mpr ⟨rfl, fun e he => (hhand e he).1⟩
    · refine List.forall_mem_cons.mpr ⟨fun _ => ⟨deadline, hid, hd⟩, fun e he hm => ?_⟩
      simp [(hhand e he).2.1] at hm
    · refine List.forall_mem_cons.mpr ⟨fun ho => (by cases ho), fun e he _ => ?_⟩
      exact .inr (hhand e he).2.2
    · rw [phaseOf_wake hr] at hj
      split at hj
      · cases hj
      · next hne =>
        refine .inl ⟨hj, List.forall_mem_cons.mpr ⟨Ne.symm hne, fun e he heq => ?_⟩⟩
        have := (hhand e he).2.2
        rw [heq, hj] at this
        cases this
    · refine List.forall_mem_cons.mpr ⟨fun hm => (by cases hm), fun e he hm => ?_⟩
      simp [(hhand e he).2.1] at hm
    · rw [phaseOf_wake hr, if_neg (by rintro rfl; simp [hid] at hj), hj]
  | @finish id r hr hph =>
    have hid : s.phaseOf id = some .released := by rw [phaseOf_of_get hr, hph]; rfl
    refine h.frame rfl (Nat.le_refl _) (fun j d hj => ?_) fun j hj => ?_
    · rw [phaseOf_finish hr] at hj
      split at hj
      · cases hj
      · exact hj
    · rw [phaseOf_finish hr, hj, ite_self]
  | @respond id r hr hph hc' =>
    have hid : s.phaseOf id = some .finished := by rw [phaseOf_of_get hr, hph]; rfl
    have hq : Quiet r { r with caller := .answered } := ⟨rfl, fun _ hd => hd, nofun, .inl⟩
    have hphase : ∀ j, ((s.put id { r with caller := .answered }).record id
        (.answered normalizedResponse)).phaseOf j = s.phaseOf j := fun j => phaseOf_quiet hr hq
    refine h.extend hc [⟨s.now, id, .answered normalizedResponse⟩] rfl rfl ?_ ?_ ?_
      (fun j d hj => ?_) ?_ fun j hj => ?_
    · simp
    · simp
    · simp [Mark.opens]
    · rw [hphase] at hj
      exact .inl ⟨hj, by simp only [List.mem_singleton, forall_eq]; rintro rfl; simp [hid] at hj⟩
    · simp [hphase, hid]
    · rw [hphase, hj]

theorem dated (h : (machine p).Reachable s) : Dated s := by
  refine (h.invariant (P := fun s => Books s ∧ Counted s ∧ Dated s)
    ⟨books_init, .init, .init⟩ ?_).2.2
  rintro s a s' ⟨hb, hc, hd⟩ hs
  exact ⟨hb.step hs, hc.step hb hs, hd.step hb hc hs⟩

/-! ## The start rate -/

/-- The entries with `mark` in the window of a slot's length from `t` on. -/
def State.inWindow (s : State p) (mark : Mark) (t : Nat) : List Entry :=
  s.log.filter fun e => e.mark = mark ∧ t ≤ e.time ∧ e.time < t + p.executionSlot

/-- A permit taken less than a slot ago is still out. -/
theorem recent_holder (hc : Counted s) (hd : Dated s) {e : Entry} (he : e ∈ s.log)
    (ho : e.mark.opens) (hrecent : s.now < e.time + p.executionSlot) (hb : Books s) :
    e.id ∈ s.slots.holders := by
  have hpos := marks_pos he
  have hopen : ¬ (s.phaseOf e.id = some .released ∨ s.phaseOf e.id = some .finished) := by
    intro hp
    -- a release would be in the log, and a slot later than the permit
    have hrel : 0 < s.marks e.id .released := by
      rw [hc e.id .released rfl]
      rcases hp with hp | hp <;> simp [tally, hp]
    obtain ⟨e', he', hid⟩ := List.countP_pos_iff.mp hrel
    simp only [decide_eq_true_eq] at hid
    have := hd.late e he e' he' hid.1.symm ho hid.2
    have := hd.past e' he'
    omega
  rw [hc e.id e.mark (by cases hm : e.mark <;> simp_all [Mark.opens, Mark.counted])] at hpos
  rw [← holds_iff]
  cases hm : e.mark with
  | acquired =>
    rw [hm] at hpos
    simp only [tally] at hpos
    split at hpos
    · next hp => exact absurd (.inl hp) hopen
    · next hp => exact absurd (.inr hp) hopen
    · cases hh : s.holds e.id with
      | true => rfl
      | false => simp [hh] at hpos
  | started =>
    rw [hm] at hpos
    simp only [tally] at hpos
    split at hpos
    · next d st hp =>
      have : (Phase.executing d st) = .executing d .elapsed := by
        obtain ⟨r, _, hr⟩ := Option.map_eq_some_iff.mp hp
        cases hph : r.phase <;> simp_all [Phase.outer]
      exact holds_iff.mpr (hb.executing e.id d (this ▸ hp))
    · next hp => exact absurd (.inl hp) hopen
    · next hp => exact absurd (.inr hp) hopen
    · cases hpos
  | released | answered _ => simp [hm, Mark.opens] at ho

/-- A request opens its slot once. -/
theorem opens_once (hc : Counted s) {mark : Mark} (hm : mark.opens) (id : Nat) :
    s.marks id mark ≤ 1 := by
  cases mark with
  | acquired =>
    rw [hc id _ rfl]
    simp only [tally]
    split
    · exact Nat.le_refl _
    · exact Nat.le_refl _
    · exact Bool.toNat_le _
  | started =>
    rw [hc id _ rfl]
    simp only [tally]
    split <;> simp
  | released | answered _ => cases hm

/-- The window that the current instant is in: its permits are all still out. -/
theorem window_now (hb : Books s) (hc : Counted s) (hd : Dated s) {mark : Mark} (hm : mark.opens)
    {t : Nat} (ht : s.now < t + p.executionSlot) :
    (s.inWindow mark t).length ≤ p.maxParallelWorkers := by
  have hnodup : ((s.inWindow mark t).map Entry.id).Nodup := by
    rw [List.nodup_iff_count_le_one]
    intro id
    refine Nat.le_trans ?_ (opens_once hc hm id)
    rw [State.inWindow, List.count, List.countP_map, List.countP_filter]
    refine List.countP_mono_left fun e _ h => ?_
    simp only [Function.comp, Bool.and_eq_true, beq_iff_eq, decide_eq_true_eq] at h ⊢
    exact ⟨h.1, h.2.1⟩
  have hsub : (s.inWindow mark t).map Entry.id ⊆ s.slots.holders := by
    intro id hid
    obtain ⟨e, he, rfl⟩ := List.mem_map.mp hid
    obtain ⟨he, hw⟩ := List.mem_filter.mp he
    simp only [decide_eq_true_eq] at hw
    exact recent_holder hc hd he (hw.1 ▸ hm) (by omega) hb
  calc (s.inWindow mark t).length = ((s.inWindow mark t).map Entry.id).length :=
        (List.length_map Entry.id).symm
    _ ≤ s.slots.holders.length := (hnodup.subperm hsub).length_le
    _ ≤ p.maxParallelWorkers := s.slots.holders_le

/-- Every entry an action adds is of the instant it happens in. -/
theorem log_step (h : step p s a = some s') :
    ∃ new, s'.log = s.log ++ new ∧ ∀ e ∈ new, e.time = s'.now := by
  cases step_effect h with
  | accept | advance | quiet | finish => exact ⟨[], (List.append_nil _).symm, by simp⟩
  | reject | start | respond =>
    exact ⟨_, rfl, by simp [State.reject, State.start, State.record, State.put]⟩
  | poll => exact ⟨_, rfl, by split <;> simp [State.poll, State.put]⟩
  | wake =>
    refine ⟨_, rfl, List.forall_mem_cons.mpr ⟨rfl, fun e he => ?_⟩⟩
    obtain ⟨w, _, rfl⟩ := List.mem_map.mp he
    rfl

/-- In a window of a slot's length at most `maxParallelWorkers` permits are
taken, and as many runs start. -/
theorem start_rate (h : (machine p).Reachable s) {mark : Mark} (hm : mark.opens) (t : Nat) :
    (s.inWindow mark t).length ≤ p.maxParallelWorkers := by
  induction h with
  | refl => simp [State.inWindow, machine, State.initial]
  | @tail s s' hr hs ih =>
    obtain ⟨a, _, hs⟩ := hs
    have hr' : (machine p).Reachable s' := Machine.Reachable.step hr hs
    by_cases ht : s'.now < t + p.executionSlot
    · exact window_now (books hr') (counted hr') (dated hr') hm ht
    · -- the window has closed, so the step adds nothing to it
      obtain ⟨new, hlog, hnew⟩ := log_step hs
      have hnone : new.filter (fun e => e.mark = mark ∧ t ≤ e.time ∧
          e.time < t + p.executionSlot) = [] := by
        refine List.filter_eq_nil_iff.mpr fun e he => ?_
        simp only [decide_eq_true_eq]
        rintro ⟨_, _, hlt⟩
        exact ht (hnew e he ▸ hlt)
      rw [State.inWindow, hlog, List.filter_append, hnone, List.append_nil]
      exact ih

/-! ## Admission is safe -/

/-- What admission guarantees in a state. `held` says that the permits that are
out are exactly those taken and not yet released. -/
structure AdmissionSafe (s : State p) : Prop where
  pending_eq : s.pending = s.unfinished
  pending_le : s.pending ≤ p.maxPendingRuns
  no_wrap : ∀ id s', step p s (.finish id) = some s' → s'.pending + 1 = s.pending
  permits : s.slots.free + s.slots.holders.length = p.maxParallelWorkers
  held : ∀ id, id ∈ s.slots.holders ↔ s.marks id .acquired = 1 ∧ s.marks id .released = 0
  acquires_once : ∀ id, s.marks id .acquired ≤ 1
  releases_once : ∀ id, s.marks id .released ≤ s.marks id .acquired
  finished : ∀ id r, s.requests[id]? = some r → r.phase = .finished →
    s.marks id .acquired = 1 ∧ s.marks id .released = 1
  release_late : ∀ e ∈ s.log, ∀ e' ∈ s.log, e.id = e'.id → e.mark = .acquired →
    e'.mark = .released → e.time + p.executionSlot ≤ e'.time
  refused : ∀ a s' id, step p s a = some s' →
    s'.marks id (.answered queueFull) ≠ s.marks id (.answered queueFull) →
    a = .arrive ∧ s.unfinished = p.maxPendingRuns
  answered : ∀ e ∈ s.log, e.mark = .answered normalizedResponse →
    ∃ r, s.requests[e.id]? = some r ∧ r.unfinished = false
  start_rate : ∀ t, (s.inWindow .started t).length ≤ p.maxParallelWorkers

theorem marks_same {mark : Mark} (h : s'.log = s.log) : s'.marks id mark = s.marks id mark := by
  rw [State.marks, h, State.marks]

theorem marks_other {new : List Entry} {mark : Mark} (h : s'.log = s.log ++ new)
    (hnew : ∀ e ∈ new, e.mark ≠ mark) : s'.marks id mark = s.marks id mark := by
  rw [marks_append new h, List.countP_eq_zero.mpr, Nat.add_zero]
  intro e he
  simp [hnew e he]

/-- A queue-full answer is given by a refused arrival and by nothing else. -/
theorem refused_of_marks (h : step p s a = some s')
    (hm : s'.marks id (.answered queueFull) ≠ s.marks id (.answered queueFull)) :
    a = .arrive ∧ ¬ s.pending < p.maxPendingRuns := by
  cases step_effect h with
  | reject hge => exact ⟨rfl, hge⟩
  | accept | advance | quiet | finish => exact absurd (marks_same rfl) hm
  | start => exact absurd (marks_other rfl (by simp)) hm
  | respond => exact absurd (marks_other rfl (by simp [queueFull, normalizedResponse])) hm
  | poll => exact absurd (marks_other rfl (by split <;> simp)) hm
  | wake =>
    refine absurd (marks_other rfl (List.forall_mem_cons.mpr ⟨by simp, fun e he => ?_⟩)) hm
    obtain ⟨w, _, rfl⟩ := List.mem_map.mp he
    simp

theorem Counted.held (hb : Books s) (hc : Counted s) :
    id ∈ s.slots.holders ↔ s.marks id .acquired = 1 ∧ s.marks id .released = 0 := by
  rw [hc id .acquired rfl, hc id .released rfl, ← holds_iff]
  simp only [tally]
  split
  · next hp =>
    refine ⟨fun hh => ?_, by simp⟩
    rcases hb.holding id (holds_iff.mp hh) with h | ⟨d, h⟩ <;> simp [hp] at h
  · next hp =>
    refine ⟨fun hh => ?_, by simp⟩
    rcases hb.holding id (holds_iff.mp hh) with h | ⟨d, h⟩ <;> simp [hp] at h
  · cases s.holds id <;> simp

theorem Counted.releases_once (hc : Counted s) :
    s.marks id .released ≤ s.marks id .acquired := by
  rw [hc id .acquired rfl, hc id .released rfl]
  simp only [tally]
  split <;> simp

/-- In every reachable state, under every policy, admission is safe: the counter
is the number of admitted requests whose slot task has not finished, permits
are conserved, taken once, released once and never before the slot is over, a
429 means that the queue is exactly full, an answered caller is no longer
pending, and at most `maxParallelWorkers` runs start in a slot's length. -/
theorem admission_invariant (h : (machine p).Reachable s) : AdmissionSafe s where
  pending_eq := (books h).pending_eq
  pending_le := (books h).pending_le
  no_wrap id s' hs := by
    have hb := books h
    have hb' := hb.step hs
    simp only [step, Option.bind_eq_some_iff, Option.ite_none_right_eq_some,
      Option.some.injEq] at hs
    obtain ⟨r, hr, hph, rfl⟩ := hs
    have hcount := unfinished_put hr { r with phase := .finished }
    simp only [Request.unfinished, hph, Bool.toNat_true, Bool.toNat_false, Nat.add_zero] at hcount
    rw [hb.pending_eq, hb'.pending_eq]
    exact hcount
  permits := s.slots.balance
  held id := (counted h).held (books h)
  acquires_once := opens_once (counted h) rfl
  releases_once id := (counted h).releases_once
  finished id r hr hph := by
    have hid : s.phaseOf id = some .finished := by rw [phaseOf_of_get hr, hph]; rfl
    rw [counted h id .acquired rfl, counted h id .released rfl, hid]
    exact ⟨rfl, rfl⟩
  release_late e he e' he' hid hm hr := (dated h).late e he e' he' hid (by rw [hm]; rfl) hr
  refused a s' id hs hm := by
    have hb := books h
    obtain ⟨ha, hge⟩ := refused_of_marks hs hm
    refine ⟨ha, ?_⟩
    have := hb.pending_le
    rw [← hb.pending_eq]
    omega
  answered e he hm := by
    obtain ⟨r, hr, hph⟩ := Option.map_eq_some_iff.mp ((dated h).complete e he hm)
    refine ⟨r, hr, ?_⟩
    rw [r.unfinished_outer, hph]
  start_rate := start_rate h rfl

/-- One request whose runner hangs until its deadline. -/
def hungRun : List Action :=
  [.arrive, .poll 0, .start 0, .process 0 (.launch .spawned), .process 0 (.write true),
    .advance 1000000000, .timeout 0, .wake 0, .finish 0, .respond 0]

theorem admission_invariant_hung_run :
    ∃ s, (machine .production).run (.initial .production) hungRun = some s ∧
      s.marks 0 .released = 1 ∧ AdmissionSafe s := by
  have hrun : ((machine .production).run (.initial .production) hungRun).map
      (fun s => s.marks 0 .released) = some 1 := by decide
  obtain ⟨s, hs, hm⟩ := Option.map_eq_some_iff.mp hrun
  exact ⟨s, hs, hm, admission_invariant (Machine.Reachable.init.run hs)⟩

end Scheduler
