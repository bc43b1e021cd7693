import Mathlib.Data.List.Sort

/-!
# Order statistics

The entries of a list by their rank.

* `orderStatistic_le`: they grow with the rank.
* `le_countP_ge`: how many entries are at least as great as one.
-/

namespace List

/-- The entry of rank `i`, from zero for the smallest. -/
def orderStatistic {κ : Type} [LE κ] [DecidableLE κ] (l : List κ) (i : Nat) : Option κ :=
  (l.mergeSort (· ≤ ·))[i]?

variable {κ : Type} [LinearOrder κ] {l : List κ} {i j : Nat} {x y : κ}

theorem exists_orderStatistic (h : i < l.length) : ∃ x, l.orderStatistic i = some x :=
  ⟨_, getElem?_eq_getElem (by rwa [length_mergeSort])⟩

theorem mem_of_orderStatistic (h : l.orderStatistic i = some x) : x ∈ l :=
  mem_mergeSort.mp (mem_of_getElem? h)

theorem orderStatistic_le (hx : l.orderStatistic i = some x) (hy : l.orderStatistic j = some y)
    (hle : i ≤ j) : x ≤ y := by
  obtain ⟨hi, rfl⟩ := getElem?_eq_some_iff.mp hx
  obtain ⟨hj, rfl⟩ := getElem?_eq_some_iff.mp hy
  exact sortedLE_mergeSort.getElem_le_getElem_of_le hle

/-- The entries of lower ranks and those of the others. -/
theorem countP_ranks (p : κ → Bool) (l : List κ) (i : Nat) :
    l.countP p = ((l.mergeSort (· ≤ ·)).take i).countP p +
      ((l.mergeSort (· ≤ ·)).drop i).countP p := by
  rw [← countP_append, take_append_drop]
  exact ((mergeSort_perm l _).countP_eq p).symm

theorem le_of_mem_drop (h : l.orderStatistic i = some x) (hij : i ≤ j)
    (hy : y ∈ (l.mergeSort (· ≤ ·)).drop j) : x ≤ y := by
  obtain ⟨k, hk⟩ := mem_iff_getElem?.mp hy
  rw [getElem?_drop] at hk
  exact orderStatistic_le h hk (Nat.le_trans hij (Nat.le_add_right j k))

/-- An entry and those after it are at least as great as it. -/
theorem le_countP_ge (h : l.orderStatistic i = some x) :
    l.length - i ≤ l.countP (x ≤ ·) := by
  have hrest : ((l.mergeSort (· ≤ ·)).drop i).countP (x ≤ ·) =
      ((l.mergeSort (· ≤ ·)).drop i).length :=
    countP_eq_length.mpr fun y hy => by
      simpa using le_of_mem_drop h (Nat.le_refl i) hy
  rw [countP_ranks _ l i, hrest, length_drop, length_mergeSort]
  exact Nat.le_add_left _ _

end List
