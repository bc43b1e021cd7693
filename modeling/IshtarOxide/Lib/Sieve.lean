import Mathlib.Algebra.Ring.Nat
import Mathlib.Data.List.Basic
import Mathlib.Logic.Function.Basic
import Mathlib.Tactic.Common

/-!
# Entries that stay when others are deleted

Flags say which entries of a growing list stay. `position` is where the entries that
stay were before the deletion, `rank` where one of them is after it; entries that are
yet to come stay.
-/

namespace Sieve

/-- The old place of the entry that is at `k` when those with the flag `false` are
gone. -/
def position : List Bool → Nat → Nat
  | [], k => k
  | true :: _, 0 => 0
  | true :: flags, k + 1 => position flags k + 1
  | false :: flags, k => position flags k + 1

/-- The new place of the entry at `i`. -/
def rank (flags : List Bool) (i : Nat) : Nat := (flags.take i).count true

variable {flags : List Bool} {i k : Nat}

theorem position_injective (flags : List Bool) : Function.Injective (position flags) := by
  induction flags with
  | nil => exact fun _ _ h => h
  | cons b flags ih =>
    intro j k h
    cases b with
    | false => exact ih (Nat.succ.inj h)
    | true =>
      cases j with
      | zero =>
        cases k with
        | zero => rfl
        | succ k => cases h
      | succ j =>
        cases k with
        | zero => cases h
        | succ k => rw [ih (Nat.succ.inj h)]

/-- An entry that stays, stays at its place among the others. -/
theorem position_rank (h : flags[i]? = some true) : position flags (rank flags i) = i := by
  induction flags generalizing i with
  | nil => cases h
  | cons b flags ih =>
    cases i with
    | zero =>
      cases h
      rfl
    | succ i =>
      have hi := ih h
      cases b with
      | false =>
        show position flags (rank flags i) + 1 = i + 1
        rw [hi]
      | true =>
        have hrank : rank (true :: flags) (i + 1) = rank flags i + 1 := by
          simp [rank]
        rw [hrank, position, hi]

/-- The entries to come follow those that there are. -/
theorem position_count (flags : List Bool) (k : Nat) :
    position flags (flags.count true + k) = flags.length + k := by
  induction flags with
  | nil => simp [position]
  | cons b flags ih =>
    cases b with
    | false =>
      rw [List.count_cons_of_ne (by decide), position, ih, List.length_cons]
      omega
    | true =>
      rw [List.count_cons_self, Nat.add_right_comm, position, ih, List.length_cons]
      omega

theorem getElem?_position (h : k < flags.count true) : flags[position flags k]? = some true := by
  induction flags generalizing k with
  | nil => cases h
  | cons b flags ih =>
    cases b with
    | false =>
      rw [List.count_cons_of_ne (by decide)] at h
      exact ih h
    | true =>
      cases k with
      | zero => rfl
      | succ k =>
        rw [List.count_cons_self] at h
        exact ih (Nat.lt_of_succ_lt_succ h)

theorem position_lt (h : k < flags.count true) : position flags k < flags.length :=
  (List.getElem?_eq_some_iff.mp (getElem?_position h)).1

theorem rank_lt (h : flags[i]? = some true) : rank flags i < flags.count true := by
  by_contra hge
  obtain ⟨k, hk⟩ := Nat.exists_eq_add_of_le (Nat.not_lt.mp hge)
  have hpos := position_rank h
  rw [hk, position_count] at hpos
  have hlt := (List.getElem?_eq_some_iff.mp h).1
  omega

theorem position_append_true (flags : List Bool) : position (flags ++ [true]) = position flags := by
  funext k
  induction flags generalizing k with
  | nil =>
    cases k with
    | zero => rfl
    | succ k => rfl
  | cons b flags ih =>
    cases b with
    | false =>
      rw [List.cons_append, position, position, ih]
    | true =>
      cases k with
      | zero => rfl
      | succ k => rw [List.cons_append, position, position, ih]

theorem position_append_false (h : k < flags.count true) :
    position (flags ++ [false]) k = position flags k := by
  induction flags generalizing k with
  | nil => cases h
  | cons b flags ih =>
    cases b with
    | false =>
      rw [List.count_cons_of_ne (by decide)] at h
      rw [List.cons_append, position, position, ih h]
    | true =>
      cases k with
      | zero => rfl
      | succ k =>
        rw [List.count_cons_self] at h
        rw [List.cons_append, position, position, ih (Nat.lt_of_succ_lt_succ h)]

/-! ## Lists -/

/-- `l'` is what stays of `l`. -/
structure Sifts {α : Type} (flags : List Bool) (l l' : List α) : Prop where
  length : l.length = flags.length
  count : l'.length = flags.count true
  get : ∀ k : Nat, l'[k]? = l[position flags k]?

namespace Sifts

variable {α : Type} {l l' : List α} {a : α}

theorem nil : Sifts [] ([] : List α) [] := ⟨rfl, rfl, fun _ => rfl⟩

theorem set (h : Sifts flags l l') (k : Nat) (a : α) :
    Sifts flags (l.set (position flags k) a) (l'.set k a) where
  length := by rw [List.length_set, h.length]
  count := by rw [List.length_set, h.count]
  get := by
    intro j
    rw [List.getElem?_set, List.getElem?_set, h.get]
    by_cases hk : k = j
    · have hlt : k < l'.length ↔ position flags k < l.length := by
        rw [hk, ← Nat.not_le, ← Nat.not_le, ← List.getElem?_eq_none_iff, h.get,
          List.getElem?_eq_none_iff]
      simp only [hk, if_true] at hlt ⊢
      simp only [hlt]
    · rw [if_neg hk, if_neg fun he => hk (position_injective flags he)]

theorem append_true (h : Sifts flags l l') (a : α) :
    Sifts (flags ++ [true]) (l ++ [a]) (l' ++ [a]) where
  length := by rw [List.length_append, List.length_append, h.length]; rfl
  count := by rw [List.length_append, List.count_append, h.count]; rfl
  get := by
    intro k
    rw [position_append_true]
    by_cases hk : k < flags.count true
    · have hlt := position_lt hk
      rw [List.getElem?_append_left (h.count ▸ hk), List.getElem?_append_left (h.length ▸ hlt), h.get]
    · obtain ⟨j, rfl⟩ := Nat.exists_eq_add_of_le (Nat.not_lt.mp hk)
      rw [position_count, ← h.count, ← h.length, List.getElem?_append_right (Nat.le_add_right _ _),
        List.getElem?_append_right (Nat.le_add_right _ _), Nat.add_sub_cancel_left,
        Nat.add_sub_cancel_left]

theorem append_false (h : Sifts flags l l') (a : α) :
    Sifts (flags ++ [false]) (l ++ [a]) l' where
  length := by rw [List.length_append, List.length_append, h.length]; rfl
  count := by rw [List.count_append, h.count]; rfl
  get := by
    intro k
    by_cases hk : k < flags.count true
    · have hlt := position_lt hk
      rw [position_append_false hk, List.getElem?_append_left (h.length ▸ hlt), h.get]
    · have hcount : (flags ++ [false]).count true = flags.count true := by
        rw [List.count_append]
        rfl
      obtain ⟨j, rfl⟩ := Nat.exists_eq_add_of_le (Nat.not_lt.mp hk)
      rw [← hcount, position_count, hcount, List.getElem?_eq_none (by rw [h.count]; omega),
        List.getElem?_eq_none (by simp [h.length])]

end Sifts

end Sieve
