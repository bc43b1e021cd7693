import IshtarOxide.Lib.Semaphore
import Mathlib.Logic.Function.Basic

/-!
# The order in which a lock is assigned

Tasks named by natural numbers take turns with a fair lock, each of them at most
once. `tenure` says how far each task is, and `order` records the tasks in the
order in which the lock was assigned to them. A `Ledger` ties the three together:
the holder is the last in the order, and every other task in the order is done.
-/

/-- How far a task is with a lock. -/
inductive Tenure
  | before
  | queued
  | inside
  | after
deriving DecidableEq, Repr

/-- The tasks, the lock and the order of assignment fit together. -/
structure Ledger (tenure : Nat → Tenure) (lock : Semaphore 1) (order : List Nat) : Prop where
  waiter : ∀ i ∈ lock.waiters, tenure i = .queued
  holder : ∀ i ∈ lock.holders, tenure i = .queued ∨ tenure i = .inside
  inside : ∀ i, tenure i = .inside → i ∈ lock.holders
  nodup : order.Nodup
  last : ∀ i ∈ lock.holders, ∃ front, order = front ++ [i]
  past : ∀ i ∈ order, i ∈ lock.holders ∨ tenure i = .after

namespace Ledger

variable {t : Nat → Tenure} {lock : Semaphore 1} {order : List Nat} {i j : Nat} {x : Tenure}

theorem initial : Ledger (fun _ => .before) (.new 1) [] := by
  constructor <;> simp [Semaphore.new]

/-- A task that has not asked for the lock is not known to it. -/
theorem not_known (h : Ledger t lock order) (ht : t i = .before) : ¬ lock.Known i := by
  intro hi
  rcases List.mem_append.mp hi with hw | hh
  · rw [h.waiter i hw] at ht
    cases ht
  · rcases h.holder i hh with hq | hq <;> rw [hq] at ht <;> cases ht

/-- A task that neither holds the lock nor is done with it has not had it. -/
theorem not_mem_order (h : Ledger t lock order) (hi : i ∉ lock.holders) (ht : t i ≠ .after) :
    i ∉ order :=
  fun hmem => (h.past i hmem).elim hi ht

/-- In front of a task in the order, all are done. -/
theorem front_after (h : Ledger t lock order) {front back : List Nat}
    (ho : order = front ++ i :: back) (hj : j ∈ front) : t j = .after := by
  rcases h.past j (ho ▸ List.mem_append_left _ hj) with hh | ha
  · -- the holder is last, so it cannot stand in front of `i`
    obtain ⟨front', hlast⟩ := h.last j hh
    have hn := h.nodup
    rw [ho, ← List.dropLast_append_getLast (List.cons_ne_nil i back), ← List.append_assoc] at hlast
    obtain ⟨hfront, heq⟩ := List.append_inj' hlast rfl
    rw [ho] at hn
    have hmem : j ∈ i :: back := by
      rw [← List.dropLast_append_getLast (List.cons_ne_nil i back)]
      exact List.mem_append_right _ (heq ▸ List.mem_singleton_self j)
    exact absurd hmem (List.disjoint_of_nodup_append hn hj)
  · exact ha

/-- If nobody holds the lock, all in the order are done. -/
theorem all_after (h : Ledger t lock order) (hidle : lock.holders = []) (hj : j ∈ order) :
    t j = .after := by
  rcases h.past j hj with hh | ha
  · rw [hidle] at hh
    cases hh
  · exact ha

/-! ## What tasks can do -/

/-- A task goes on without the lock changing hands. -/
theorem stay (h : Ledger t lock order)
    (hx : x = t i ∨ (t i = .before ∧ x = .after) ∨
      (i ∈ lock.holders ∧ t i = .queued ∧ x = .inside)) :
    Ledger (Function.update t i x) lock order where
  waiter := by
    intro j hj
    by_cases hji : j = i
    · subst hji
      rw [Function.update_self]
      have hq := h.waiter j hj
      rcases hx with rfl | ⟨hb, _⟩ | ⟨hh, _⟩
      · exact hq
      · rw [hq] at hb
        cases hb
      · exact absurd rfl (Semaphore.waiter_ne_holder hj hh)
    · rw [Function.update_of_ne hji]
      exact h.waiter j hj
  holder := by
    intro j hj
    by_cases hji : j = i
    · subst hji
      rw [Function.update_self]
      rcases hx with rfl | ⟨hb, _⟩ | ⟨_, _, rfl⟩
      · exact h.holder j hj
      · rcases h.holder j hj with hq | hq <;> rw [hq] at hb <;> cases hb
      · exact .inr rfl
    · rw [Function.update_of_ne hji]
      exact h.holder j hj
  inside := by
    intro j hj
    by_cases hji : j = i
    · subst hji
      rw [Function.update_self] at hj
      rcases hx with rfl | ⟨_, rfl⟩ | ⟨hh, _⟩
      · exact h.inside j hj
      · cases hj
      · exact hh
    · rw [Function.update_of_ne hji] at hj
      exact h.inside j hj
  nodup := h.nodup
  last := h.last
  past := by
    intro j hj
    refine (h.past j hj).imp id fun ha => ?_
    by_cases hji : j = i
    · subst hji
      rw [Function.update_self]
      rcases hx with rfl | ⟨_, rfl⟩ | ⟨_, hq, _⟩
      · exact ha
      · rfl
      · rw [ha] at hq
        cases hq
    · rw [Function.update_of_ne hji]
      exact ha

/-- A task asks for the lock. -/
theorem acquire (h : Ledger t lock order) (ht : t i = .before) :
    Ledger (Function.update t i .queued) (lock.acquire i)
      (order ++ if 0 < lock.free then [i] else []) where
  waiter := by
    intro j hj
    rcases (Semaphore.mem_waiters_acquire (h.not_known ht)).mp hj with hw | ⟨rfl, _⟩
    · have hji : j ≠ i := fun e => h.not_known ht (e ▸ List.mem_append_left _ hw)
      rw [Function.update_of_ne hji]
      exact h.waiter j hw
    · exact Function.update_self ..
  holder := by
    intro j hj
    rcases (Semaphore.mem_holders_acquire (h.not_known ht)).mp hj with hh | ⟨rfl, _⟩
    · have hji : j ≠ i := fun e => h.not_known ht (e ▸ List.mem_append_right _ hh)
      rw [Function.update_of_ne hji]
      exact h.holder j hh
    · exact .inl (Function.update_self ..)
  inside := by
    intro j hj
    have hji : j ≠ i := by
      rintro rfl
      rw [Function.update_self] at hj
      cases hj
    rw [Function.update_of_ne hji] at hj
    exact (Semaphore.mem_holders_acquire (h.not_known ht)).mpr (.inl (h.inside j hj))
  nodup := by
    have hi : i ∉ order := h.not_mem_order
      (fun hh => h.not_known ht (List.mem_append_right _ hh)) (by rw [ht]; decide)
    split
    · exact List.nodup_append.mpr ⟨h.nodup, List.nodup_singleton i, fun a ha b hb e =>
        hi (List.mem_singleton.mp hb ▸ e ▸ ha)⟩
    · rw [List.append_nil]
      exact h.nodup
  last := by
    intro j hj
    rcases (Semaphore.mem_holders_acquire (h.not_known ht)).mp hj with hh | ⟨rfl, hf⟩
    · -- there is a holder, so no permit is free
      have hbal := lock.balance
      have hpos := List.length_pos_of_mem hh
      rw [if_neg (by omega), List.append_nil]
      exact h.last j hh
    · rw [if_pos hf]
      exact ⟨order, rfl⟩
  past := by
    intro j hj
    rcases List.mem_append.mp hj with ho | hn
    · rcases h.past j ho with hh | ha
      · exact .inl ((Semaphore.mem_holders_acquire (h.not_known ht)).mpr (.inl hh))
      · have hji : j ≠ i := by
          rintro rfl
          rw [ht] at ha
          cases ha
        exact .inr (by rw [Function.update_of_ne hji]; exact ha)
    · split at hn
      · next hf =>
        rw [List.mem_singleton] at hn
        exact .inl ((Semaphore.mem_holders_acquire (h.not_known ht)).mpr (.inr ⟨hn, hf⟩))
      · cases hn

/-- The holder gives the lock back, and the next waiter has it. -/
theorem release (h : Ledger t lock order) (hi : i ∈ lock.holders) :
    Ledger (Function.update t i .after) (lock.release i) (order ++ lock.next.toList) where
  waiter := by
    intro j hj
    rw [Semaphore.waiters_release hi] at hj
    have hw := List.mem_of_mem_tail hj
    rw [Function.update_of_ne (Semaphore.waiter_ne_holder hw hi)]
    exact h.waiter j hw
  holder := by
    intro j hj
    rcases (Semaphore.mem_holders_release hi).mp hj with ⟨hh, hne⟩ | hn
    · rw [Function.update_of_ne hne]
      exact h.holder j hh
    · have hw := Semaphore.next_mem hn
      rw [Function.update_of_ne (Semaphore.waiter_ne_holder hw hi)]
      exact .inl (h.waiter j hw)
  inside := by
    intro j hj
    have hji : j ≠ i := by
      rintro rfl
      rw [Function.update_self] at hj
      cases hj
    rw [Function.update_of_ne hji] at hj
    exact absurd (Semaphore.holder_unique (h.inside j hj) hi) hji
  nodup := by
    cases hn : lock.next with
    | none => simpa using h.nodup
    | some w =>
      have hw := Semaphore.next_mem hn
      have hwo : w ∉ order := h.not_mem_order
        (fun hh => Semaphore.waiter_ne_holder hw hh rfl) (by rw [h.waiter w hw]; decide)
      exact List.nodup_append.mpr ⟨h.nodup, List.nodup_singleton w, fun a ha b hb e =>
        hwo (List.mem_singleton.mp hb ▸ e ▸ ha)⟩
  last := by
    intro j hj
    rcases (Semaphore.mem_holders_release hi).mp hj with ⟨hh, hne⟩ | hn
    · exact absurd (Semaphore.holder_unique hh hi) hne
    · rw [hn]
      exact ⟨order, rfl⟩
  past := by
    intro j hj
    rcases List.mem_append.mp hj with ho | hn
    · by_cases hji : j = i
      · subst hji
        exact .inr (Function.update_self ..)
      · refine .inr ?_
        rw [Function.update_of_ne hji]
        exact (h.past j ho).resolve_left fun hh => hji (Semaphore.holder_unique hh hi)
    · exact .inl ((Semaphore.mem_holders_release hi).mpr (.inr (Option.mem_toList.mp hn)))

/-- A waiter gives up. -/
theorem cancel (h : Ledger t lock order) (hq : t i = .queued) (hi : i ∉ lock.holders) :
    Ledger (Function.update t i .after) (lock.cancel i) order where
  waiter := by
    intro j hj
    have hji : j ≠ i := by
      rintro rfl
      exact (List.Nodup.of_append_left lock.nodup).not_mem_erase hj
    rw [Function.update_of_ne hji]
    exact h.waiter j (Semaphore.waiters_cancel_subset hj)
  holder := by
    intro j hj
    have hji : j ≠ i := fun e => hi (e ▸ hj)
    rw [Function.update_of_ne hji]
    exact h.holder j hj
  inside := by
    intro j hj
    have hji : j ≠ i := by
      rintro rfl
      rw [Function.update_self] at hj
      cases hj
    rw [Function.update_of_ne hji] at hj
    exact h.inside j hj
  nodup := h.nodup
  last := h.last
  past := by
    intro j hj
    refine (h.past j hj).imp id fun ha => ?_
    have hji : j ≠ i := by
      rintro rfl
      rw [hq] at ha
      cases ha
    rw [Function.update_of_ne hji]
    exact ha

/-! ## Waiting is remembered -/

/-- A task that asked for the lock and is not done with it is known to it. -/
def Attended (t : Nat → Tenure) (lock : Semaphore 1) : Prop := ∀ i, t i = .queued → lock.Known i

theorem attended_stay (h : Attended t lock) (hx : x = t i ∨ x ≠ .queued) :
    Attended (Function.update t i x) lock := by
  intro j hj
  by_cases hji : j = i
  · subst hji
    rw [Function.update_self] at hj
    exact hx.elim (fun hx => h j (hx ▸ hj)) fun hx => absurd hj hx
  · rw [Function.update_of_ne hji] at hj
    exact h j hj

theorem attended_acquire (h : Attended t lock) :
    Attended (Function.update t i .queued) (lock.acquire i) := by
  intro j hj
  by_cases hji : j = i
  · exact Semaphore.acquire_known (.inr hji)
  · rw [Function.update_of_ne hji] at hj
    exact Semaphore.acquire_known (.inl (h j hj))

theorem attended_leave {lock' : Semaphore 1} (h : Attended t lock) (hx : x ≠ .queued)
    (hlock : ∀ j ≠ i, lock.Known j → lock'.Known j) : Attended (Function.update t i x) lock' := by
  intro j hj
  by_cases hji : j = i
  · subst hji
    rw [Function.update_self] at hj
    exact absurd hj hx
  · rw [Function.update_of_ne hji] at hj
    exact hlock j hji (h j hj)

end Ledger
