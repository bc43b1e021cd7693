import Mathlib.InformationTheory.KullbackLeibler.KLFun
import Mathlib.Analysis.SpecialFunctions.Log.Base

/-!
# Mutual information

The mutual information of a table of weights: the relative entropy of the weights and of
the products of their margins.

* `relativeEntropy_nonneg`, `relativeEntropy_eq_zero_iff`: Gibbs' inequality, with its case
  of equality.
* `Table.information_nonneg`, `Table.information_eq_zero_iff`, `Table.information_le`: the
  bounds of the mutual information, and when the margins are independent.
* `Table.information_transpose`, `Table.information_reindex`: it does not depend on the
  names of the rows and columns.
-/

namespace Information

open InformationTheory (klFun klFun_nonneg klFun_eq_zero_iff)

/-! ## Relative entropy -/

section Relative

variable {ι : Type*} [Fintype ι] {p q : ι → ℝ}

/-- The relative entropy of two families of weights, in nats. -/
noncomputable def relativeEntropy (p q : ι → ℝ) : ℝ := ∑ i, p i * Real.log (p i / q i)

/-- Weights with the same sum, where `p` has none but where `q` has. -/
structure Dominated (p q : ι → ℝ) : Prop where
  left : ∀ i, 0 ≤ p i
  right : ∀ i, 0 ≤ q i
  zero : ∀ i, q i = 0 → p i = 0
  sum : ∑ i, p i = ∑ i, q i

theorem mul_klFun {x y : ℝ} (h : y = 0 → x = 0) :
    y * klFun (x / y) = x * Real.log (x / y) + (y - x) := by
  by_cases hy : y = 0
  · rw [hy, h hy, zero_mul, zero_mul, sub_zero, zero_add]
  · rw [InformationTheory.klFun_apply]
    field_simp
    ring

/-- The terms of the relative entropy, made nonnegative each. -/
theorem Dominated.relativeEntropy_eq (h : Dominated p q) :
    relativeEntropy p q = ∑ i, q i * klFun (p i / q i) := by
  have hterm : ∀ i, q i * klFun (p i / q i) = p i * Real.log (p i / q i) + (q i - p i) :=
    fun i => mul_klFun (h.zero i)
  simp only [hterm, Finset.sum_add_distrib, Finset.sum_sub_distrib, h.sum, sub_self, add_zero]
  rfl

theorem Dominated.term_nonneg (h : Dominated p q) (i : ι) : 0 ≤ q i * klFun (p i / q i) :=
  mul_nonneg (h.right i) (klFun_nonneg (div_nonneg (h.left i) (h.right i)))

/-- Gibbs' inequality. -/
theorem Dominated.relativeEntropy_nonneg (h : Dominated p q) : 0 ≤ relativeEntropy p q := by
  rw [h.relativeEntropy_eq]
  exact Finset.sum_nonneg fun i _ => h.term_nonneg i

theorem Dominated.relativeEntropy_eq_zero_iff (h : Dominated p q) :
    relativeEntropy p q = 0 ↔ ∀ i, p i = q i := by
  have hterm : ∀ i, q i * klFun (p i / q i) = 0 ↔ p i = q i := by
    intro i
    rw [mul_eq_zero, klFun_eq_zero_iff (div_nonneg (h.left i) (h.right i))]
    by_cases hq : q i = 0
    · simp [hq, h.zero i hq]
    · simp [hq, div_eq_one_iff_eq]
  rw [h.relativeEntropy_eq, Finset.sum_eq_zero_iff_of_nonneg fun i _ => h.term_nonneg i]
  simp only [Finset.mem_univ, true_imp_iff, hterm]

end Relative

/-! ## Tables -/

/-- A table of weights, not all of them zero. -/
@[ext]
structure Table (α β : Type*) [Fintype α] [Fintype β] where
  weight : α → β → ℝ
  nonneg : ∀ a b, 0 ≤ weight a b
  pos : 0 < ∑ a, ∑ b, weight a b

namespace Table

variable {α β α' β' : Type*} [Fintype α] [Fintype β] [Fintype α'] [Fintype β'] (T : Table α β)
  {c : ℝ}

def row (a : α) : ℝ := ∑ b, T.weight a b

def col (b : β) : ℝ := ∑ a, T.weight a b

def total : ℝ := ∑ a, T.row a

/-- The mutual information of rows and columns, with the logarithm to the base `c`. -/
noncomputable def information (c : ℝ) : ℝ :=
  ∑ a, ∑ b, T.weight a b / T.total *
    Real.logb c (T.weight a b * T.total / (T.row a * T.col b))

theorem total_pos : 0 < T.total := T.pos

theorem row_nonneg (a : α) : 0 ≤ T.row a := Finset.sum_nonneg fun b _ => T.nonneg a b

theorem col_nonneg (b : β) : 0 ≤ T.col b := Finset.sum_nonneg fun a _ => T.nonneg a b

theorem sum_col : ∑ b, T.col b = T.total := Finset.sum_comm

theorem weight_le_row (a : α) (b : β) : T.weight a b ≤ T.row a :=
  Finset.single_le_sum (fun b _ => T.nonneg a b) (Finset.mem_univ b)

theorem weight_le_col (a : α) (b : β) : T.weight a b ≤ T.col b :=
  Finset.single_le_sum (fun a _ => T.nonneg a b) (Finset.mem_univ a)

/-! ## Bounds -/

/-- The weights of the cells, relative to those that the margins alone would give. -/
theorem dominated : Dominated (fun x : α × β => T.weight x.1 x.2 / T.total)
    fun x => T.row x.1 * T.col x.2 / T.total ^ 2 where
  left x := div_nonneg (T.nonneg _ _) T.total_pos.le
  right x := div_nonneg (mul_nonneg (T.row_nonneg _) (T.col_nonneg _)) (sq_nonneg _)
  zero x h := by
    have hmargin : T.row x.1 = 0 ∨ T.col x.2 = 0 := by
      simpa [T.total_pos.ne'] using h
    have hzero : T.weight x.1 x.2 = 0 := by
      rcases hmargin with hrow | hcol
      · exact le_antisymm (hrow ▸ T.weight_le_row x.1 x.2) (T.nonneg _ _)
      · exact le_antisymm (hcol ▸ T.weight_le_col x.1 x.2) (T.nonneg _ _)
    rw [hzero, zero_div]
  sum := by
    have hne := T.total_pos.ne'
    have hcells : ∑ x : α × β, T.weight x.1 x.2 = T.total := Fintype.sum_prod_type _
    have hmargins : ∑ x : α × β, T.row x.1 * T.col x.2 = T.total * T.total := by
      rw [Fintype.sum_prod_type, ← T.sum_col]
      simp only [← Finset.mul_sum, ← Finset.sum_mul]
      rw [T.sum_col]
      rfl
    rw [← Finset.sum_div, ← Finset.sum_div, hcells, hmargins]
    field_simp

theorem information_eq : T.information c =
    relativeEntropy (fun x : α × β => T.weight x.1 x.2 / T.total)
      (fun x => T.row x.1 * T.col x.2 / T.total ^ 2) / Real.log c := by
  have hne := T.total_pos.ne'
  have hratio : ∀ a b, T.weight a b / T.total / (T.row a * T.col b / T.total ^ 2) =
      T.weight a b * T.total / (T.row a * T.col b) := by
    intro a b
    field_simp
  rw [relativeEntropy, Fintype.sum_prod_type, Finset.sum_div]
  refine Finset.sum_congr rfl fun a _ => ?_
  rw [Finset.sum_div]
  refine Finset.sum_congr rfl fun b _ => ?_
  rw [hratio, Real.logb, ← mul_div_assoc]

theorem information_nonneg (hc : 1 < c) : 0 ≤ T.information c := by
  rw [information_eq]
  exact div_nonneg T.dominated.relativeEntropy_nonneg (Real.log_pos hc).le

/-- The mutual information is zero exactly when every cell has the weight that the margins
give it. -/
theorem information_eq_zero_iff (hc : 1 < c) :
    T.information c = 0 ↔ ∀ a b, T.weight a b * T.total = T.row a * T.col b := by
  have hne := T.total_pos.ne'
  rw [information_eq, div_eq_zero_iff, or_iff_left (Real.log_pos hc).ne',
    T.dominated.relativeEntropy_eq_zero_iff, Prod.forall]
  refine forall_congr' fun a => forall_congr' fun b => ?_
  rw [div_eq_div_iff hne (pow_ne_zero 2 hne)]
  constructor
  · intro h
    have hmul : T.weight a b * T.total * T.total = T.row a * T.col b * T.total := by linarith
    exact mul_right_cancel₀ hne hmul
  · intro h
    rw [← h]
    ring

/-- The entropy of the rows, in nats. -/
noncomputable def rowEntropy : ℝ := ∑ a, T.row a / T.total * Real.log (T.total / T.row a)

/-- A row and a column tell of each other no more than there is to tell of the row. -/
theorem relativeEntropy_le_rowEntropy :
    relativeEntropy (fun x : α × β => T.weight x.1 x.2 / T.total)
      (fun x => T.row x.1 * T.col x.2 / T.total ^ 2) ≤ T.rowEntropy := by
  have hne := T.total_pos.ne'
  have hterm : ∀ a b, T.weight a b / T.total *
      Real.log (T.weight a b / T.total / (T.row a * T.col b / T.total ^ 2)) ≤
      T.weight a b / T.total * Real.log (T.total / T.row a) := by
    intro a b
    rcases (T.nonneg a b).eq_or_lt with hzero | hpos
    · rw [← hzero, zero_div, zero_mul, zero_mul]
    · have hrow : 0 < T.row a := hpos.trans_le (T.weight_le_row a b)
      have hcol : 0 < T.col b := hpos.trans_le (T.weight_le_col a b)
      have hratio : T.weight a b / T.total / (T.row a * T.col b / T.total ^ 2) =
          T.total / T.row a * (T.weight a b / T.col b) := by
        field_simp
      have hle : T.total / T.row a * (T.weight a b / T.col b) ≤ T.total / T.row a :=
        mul_le_of_le_one_right (div_pos T.total_pos hrow).le
          ((div_le_one hcol).mpr (T.weight_le_col a b))
      rw [hratio]
      exact mul_le_mul_of_nonneg_left
        (Real.log_le_log (mul_pos (div_pos T.total_pos hrow) (div_pos hpos hcol)) hle)
        (div_pos hpos T.total_pos).le
  rw [relativeEntropy, Fintype.sum_prod_type, rowEntropy]
  refine Finset.sum_le_sum fun a _ => ?_
  calc _ ≤ ∑ b, T.weight a b / T.total * Real.log (T.total / T.row a) :=
        Finset.sum_le_sum fun b _ => hterm a b
    _ = T.row a / T.total * Real.log (T.total / T.row a) := by
        rw [← Finset.sum_mul, ← Finset.sum_div]
        rfl

include T in
theorem card_pos : 0 < Fintype.card α := by
  rw [Fintype.card_pos_iff]
  by_contra hempty
  rw [not_nonempty_iff] at hempty
  exact T.total_pos.ne' (Finset.sum_of_isEmpty _)

theorem sum_row_div : ∑ a, T.row a / T.total = 1 := by
  rw [← Finset.sum_div]
  exact div_self T.total_pos.ne'

theorem dominated_row :
    Dominated (fun a => T.row a / T.total) (fun _ => (Fintype.card α : ℝ)⁻¹) where
  left a := div_nonneg (T.row_nonneg a) T.total_pos.le
  right _ := inv_nonneg.mpr (Nat.cast_nonneg _)
  zero _ h := absurd h (inv_ne_zero (Nat.cast_ne_zero.mpr T.card_pos.ne'))
  sum := by
    rw [T.sum_row_div, Finset.sum_const, Finset.card_univ, nsmul_eq_mul,
      mul_inv_cancel₀ (Nat.cast_ne_zero.mpr T.card_pos.ne')]

/-- Rows of equal weight have the largest entropy. -/
theorem rowEntropy_le : T.rowEntropy ≤ Real.log (Fintype.card α) := by
  have hne := T.total_pos.ne'
  have hcard : (Fintype.card α : ℝ) ≠ 0 := Nat.cast_ne_zero.mpr T.card_pos.ne'
  have hterm : ∀ a, T.row a / T.total * Real.log (T.total / T.row a) +
      T.row a / T.total * Real.log (T.row a / T.total / (Fintype.card α : ℝ)⁻¹) =
      T.row a / T.total * Real.log (Fintype.card α) := by
    intro a
    rcases (T.row_nonneg a).eq_or_lt with hzero | hpos
    · rw [← hzero, zero_div, zero_mul, zero_mul, zero_mul, zero_add]
    · rw [← mul_add, ← Real.log_mul (div_pos T.total_pos hpos).ne'
        (div_ne_zero (div_pos hpos T.total_pos).ne' (inv_ne_zero hcard))]
      congr 2
      field_simp
  have hsum : T.rowEntropy + relativeEntropy (fun a => T.row a / T.total)
      (fun _ => (Fintype.card α : ℝ)⁻¹) = Real.log (Fintype.card α) := by
    rw [rowEntropy, relativeEntropy, ← Finset.sum_add_distrib]
    simp only [hterm]
    rw [← Finset.sum_mul, T.sum_row_div, one_mul]
  linarith [T.dominated_row.relativeEntropy_nonneg]

/-- There is no more information in a table than its rows can tell apart. -/
theorem information_le (hc : 1 < c) : T.information c ≤ Real.logb c (Fintype.card α) := by
  rw [information_eq, Real.logb, div_le_div_iff_of_pos_right (Real.log_pos hc)]
  exact T.relativeEntropy_le_rowEntropy.trans T.rowEntropy_le

/-! ## Other names -/

/-- The table with rows and columns exchanged. -/
def transpose : Table β α where
  weight b a := T.weight a b
  nonneg b a := T.nonneg a b
  pos := Finset.sum_comm (s := Finset.univ) (t := Finset.univ) (f := T.weight) ▸ T.pos

/-- The table with other names for the rows and the columns. -/
def reindex (e : α' ≃ α) (f : β' ≃ β) : Table α' β' where
  weight a b := T.weight (e a) (f b)
  nonneg _ _ := T.nonneg _ _
  pos := by
    have hrow : ∀ a, ∑ b, T.weight a (f b) = T.row a := fun a => f.sum_comp (T.weight a)
    simp only [hrow]
    rw [e.sum_comp T.row]
    exact T.pos

theorem information_transpose : T.transpose.information c = T.information c := by
  have htotal : T.transpose.total = T.total := T.sum_col
  unfold information
  rw [Finset.sum_comm, htotal]
  refine Finset.sum_congr rfl fun a _ => Finset.sum_congr rfl fun b _ => ?_
  rw [mul_comm (T.row a)]
  rfl

theorem information_reindex (e : α' ≃ α) (f : β' ≃ β) :
    (T.reindex e f).information c = T.information c := by
  have hrow : ∀ a, (T.reindex e f).row a = T.row (e a) := fun a => f.sum_comp (T.weight (e a))
  have hcol : ∀ b, (T.reindex e f).col b = T.col (f b) := fun b => e.sum_comp (T.weight · (f b))
  have htotal : (T.reindex e f).total = T.total := by
    unfold total
    simp only [hrow]
    exact e.sum_comp T.row
  unfold information
  rw [← e.sum_comp]
  refine Finset.sum_congr rfl fun a _ => ?_
  rw [← f.sum_comp]
  refine Finset.sum_congr rfl fun b _ => ?_
  rw [hrow, hcol, htotal]
  rfl

end Table

end Information
