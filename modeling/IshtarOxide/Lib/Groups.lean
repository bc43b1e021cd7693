import Mathlib.Algebra.BigOperators.Ring.Finset
import Mathlib.Algebra.Order.BigOperators.Group.List
import Mathlib.Algebra.Order.Field.Basic
import IshtarOxide.Lib.Lookup
import IshtarOxide.Lib.Tally

/-!
# Groups of a list

The entries of a list by a key, and averages over them.

* `groupOn_perm`, `sum_groupOn`: the groups make up the list.
* `exists_mapM_groupOn`: a loop over the groups.
* `weightedAverage_mul`: an average by weights, times their sum.
-/

namespace List

variable {α β : Type}

/-! ## Sums -/

theorem sum_map_flatMap {M : Type} [AddCommMonoid M] (f : β → M) (g : α → List β) (l : List α) :
    ((l.flatMap g).map f).sum = (l.map fun x => ((g x).map f).sum).sum := by
  rw [flatMap_def, map_flatten, sum_flatten, map_map, map_map]
  rfl

theorem cast_sum_map {K : Type} [AddCommMonoidWithOne K] (f : α → ℕ) (l : List α) :
    (((l.map f).sum : ℕ) : K) = (l.map fun x => (f x : K)).sum := by
  rw [Nat.cast_list_sum, map_map]
  rfl

/-! ## Groups -/

section Groups

variable [DecidableEq β] [LE β] [DecidableLE β] [Std.IsLinearOrder β] {key : α → β} {l : List α}

/-- The entries with each key, in the order of the keys. -/
def groupOn (key : α → β) (l : List α) : List (List α) :=
  (l.map key).sortDedup.map fun k => l.filter (key · = k)

theorem groupOn_perm (key : α → β) (l : List α) : (l.groupOn key).flatten.Perm l := by
  rw [groupOn, ← flatMap_def]
  exact perm_flatMap_filter (nodup_sortDedup _) fun x hx => mem_sortDedup.mpr (mem_map_of_mem hx)

omit [Std.IsLinearOrder β] in
theorem map_groupOn {γ : Type} (f : List α → γ) (key : α → β) (l : List α) :
    (l.groupOn key).map f = (l.map key).sortDedup.map fun k => f (l.filter (key · = k)) := by
  rw [groupOn, map_map]
  rfl

theorem sum_groupOn {M : Type} [AddCommMonoid M] (f : α → M) (key : α → β) (l : List α) :
    ((l.map key).sortDedup.map fun k => ((l.filter (key · = k)).map f).sum).sum =
      (l.map f).sum := by
  have hsum := ((groupOn_perm key l).map f).sum_eq
  rwa [map_flatten, sum_flatten, map_map, map_groupOn] at hsum

theorem sum_countP_groupOn (p : α → Bool) (key : α → β) (l : List α) :
    ((l.map key).sortDedup.map fun k => (l.filter (key · = k)).countP p).sum = l.countP p := by
  rw [← map_groupOn, ← countP_flatten, (groupOn_perm key l).countP_eq]

theorem sum_length_groupOn (key : α → β) (l : List α) :
    ((l.map key).sortDedup.map fun k => (l.filter (key · = k)).length).sum = l.length := by
  rw [← map_groupOn, ← length_flatten, (groupOn_perm key l).length_eq]

/-- A step that succeeds for every group. -/
theorem exists_mapM_groupOn {γ : Type} {f : List α → Option γ} {P : β → γ → Prop}
    (h : ∀ k ∈ l.map key, ∃ y, f (l.filter (key · = k)) = some y ∧ P k y) :
    ∃ ys, (l.groupOn key).mapM f = some ys ∧ Forall₂ P (l.map key).sortDedup ys := by
  rw [groupOn, mapM_map]
  exact exists_mapM fun k hk => h k (mem_sortDedup.mp hk)

/-- There is one value when all are the same. -/
theorem length_sortDedup_eq_one {l : List β} (hne : l ≠ []) :
    l.sortDedup.length = 1 ↔ ∀ a ∈ l, ∀ b ∈ l, a = b := by
  obtain ⟨x, hx⟩ := exists_mem_of_ne_nil l hne
  constructor
  · intro h a ha b hb
    obtain ⟨y, hy⟩ := length_eq_one_iff.mp h
    rw [← mem_sortDedup, hy, mem_singleton] at ha hb
    rw [ha, hb]
  · intro h
    have hreplicate : l.sortDedup = replicate l.sortDedup.length x :=
      eq_replicate_iff.mpr ⟨rfl, fun a ha => h a (mem_sortDedup.mp ha) x hx⟩
    have hle : l.sortDedup.length ≤ 1 :=
      nodup_replicate.mp (hreplicate ▸ nodup_sortDedup l)
    have hpos : 0 < l.sortDedup.length := length_pos_of_mem (mem_sortDedup.mpr hx)
    omega

end Groups

/-! ## Averages -/

section Averages

variable {K : Type} [Field K] [LinearOrder K] [IsStrictOrderedRing K] {value weight : α → K}
  {l : List α}

/-- The average of the values by their weights, or 0 without weight. -/
def weightedAverage (value weight : α → K) (l : List α) : K :=
  if (l.map weight).sum = 0 then 0
  else (l.map fun x => value x * weight x).sum / (l.map weight).sum

theorem weightedAverage_mul (h : ∀ x ∈ l, 0 ≤ weight x) :
    l.weightedAverage value weight * (l.map weight).sum =
      (l.map fun x => value x * weight x).sum := by
  unfold weightedAverage
  split
  · next hzero =>
    -- no entry has any weight
    have hall : ∀ x ∈ l, weight x = 0 := fun x hx =>
      all_zero_of_le_zero_le_of_sum_eq_zero (by simpa using h) hzero (mem_map_of_mem hx)
    rw [zero_mul, eq_comm]
    exact sum_eq_zero fun y hy => by
      obtain ⟨x, hx, rfl⟩ := mem_map.mp hy
      rw [hall x hx, mul_zero]
  · next hne => exact div_mul_cancel₀ _ hne

/-- The weights can be counts. -/
theorem weightedAverage_mul_count (value : α → K) (count : α → ℕ) (l : List α) :
    (l.weightedAverage value fun x => (count x : K)) * ((l.map count).sum : ℕ) =
      (l.map fun x => value x * (count x : K)).sum := by
  rw [cast_sum_map]
  exact weightedAverage_mul fun _ _ => Nat.cast_nonneg _

end Averages

end List
