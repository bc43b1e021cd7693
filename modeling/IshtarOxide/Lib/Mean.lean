import Mathlib.Algebra.BigOperators.Group.List.Basic
import Mathlib.Algebra.Order.Field.Basic
import Mathlib.Tactic.FieldSimp
import Mathlib.Tactic.Linarith
import Mathlib.Tactic.Ring

/-!
# Means

The mean of a list of numbers, and the rule that tells two populations apart by a
threshold half-way between their means.

* `mean_perm`, `mean_map_add`: how the mean changes with the list.
* `nearest_decode`: the rule picks the nearer mean.
-/

/-! ## The mean -/

namespace List

/-- The sum, from the left, over the number of entries. -/
def mean {κ : Type} [NatCast κ] [Add κ] [Div κ] (values : List κ) : κ :=
  values.foldl (· + ·) ((0 : Nat) : κ) / ((values.length : Nat) : κ)

variable {K : Type} [Field K] {l l' : List K}

theorem mean_eq_sum_div (l : List K) : l.mean = l.sum / (l.length : K) := by
  rw [mean, sum_eq_foldl, Nat.cast_zero]

theorem mean_perm (h : l.Perm l') : l.mean = l'.mean := by
  rw [mean_eq_sum_div, mean_eq_sum_div, h.sum_eq, h.length_eq]

/-- A constant added to every entry is added to the mean. -/
theorem mean_map_add [CharZero K] (hne : l ≠ []) (c : K) : (l.map (· + c)).mean = l.mean + c := by
  have hlen : (l.length : K) ≠ 0 := Nat.cast_ne_zero.mpr (length_pos_iff.mpr hne).ne'
  have hsum : (l.map (· + c)).sum = l.sum + l.length * c := by
    rw [sum_map_add, map_id', map_const', sum_replicate, nsmul_eq_mul]
  rw [mean_eq_sum_div, mean_eq_sum_div, length_map, hsum]
  field_simp

end List

/-! ## The nearer mean -/

namespace Threshold

section Decode

variable {κ : Type} [NatCast κ] [Add κ] [Div κ] [LE κ] [DecidableLE κ]

/-- Half-way between two means. -/
def between (zero one : κ) : κ := (zero + one) / ((2 : Nat) : κ)

/-- Whether a value belongs to the mean `one`, by the side of the threshold that it is on. -/
def decode (zero one value : κ) : Bool :=
  let highIsOne : Bool := zero ≤ one
  let high : Bool := between zero one ≤ value
  if highIsOne then high else !high

end Decode

variable {K : Type} [Field K]

theorem between_comm (zero one : K) : between zero one = between one zero := by
  rw [between, between, add_comm]

variable [LinearOrder K] [IsStrictOrderedRing K] {zero one : K}

/-- The side of a value is the mean that it is nearer to. A value half-way between two means is
that of the larger one, and with equal means the values from them on are that of `one`. -/
def Nearest (zero one value : K) (isOne : Bool) : Prop :=
  (|value - one| < |value - zero| → isOne = true) ∧
  (|value - zero| < |value - one| → isOne = false) ∧
  (|value - zero| = |value - one| →
    (zero < one → isOne = true) ∧ (one < zero → isOne = false) ∧
      (zero = one → (isOne = true ↔ zero ≤ value)))

theorem between_le_iff (h : zero < one) (value : K) :
    between zero one ≤ value ↔ |value - one| ≤ |value - zero| := by
  rw [between, Nat.cast_ofNat, div_le_iff₀ two_pos]
  rcases abs_cases (value - one) with ⟨hone, _⟩ | ⟨hone, _⟩
  · rw [hone, abs_of_nonneg (by linarith)]
    constructor <;> intro <;> linarith
  · rcases abs_cases (value - zero) with ⟨hzero, _⟩ | ⟨hzero, _⟩
    · rw [hone, hzero]
      constructor <;> intro <;> linarith
    · rw [hone, hzero]
      constructor <;> intro <;> linarith

theorem nearest_decode (zero one value : K) : Nearest zero one value (decode zero one value) := by
  rcases lt_trichotomy zero one with hlt | rfl | hlt
  · have hiff := between_le_iff hlt value
    simp only [Nearest, decode, hlt.le, decide_true, if_true, decide_eq_true_eq,
      decide_eq_false_iff_not, hiff]
    exact ⟨le_of_lt, not_le_of_gt, fun he => ⟨fun _ => he.ge, fun h => absurd hlt h.not_gt,
      fun h => absurd h hlt.ne⟩⟩
  · have hbetween : between zero zero = zero := by
      rw [between, Nat.cast_ofNat]
      ring
    simp only [Nearest, decode, le_refl, decide_true, if_true, hbetween, decide_eq_true_eq,
      lt_irrefl, false_imp_iff, true_and, imp_self]
  · have hiff := between_le_iff hlt value
    rw [between_comm] at hiff
    simp only [Nearest, decode, hlt.not_ge, decide_false, Bool.false_eq_true, if_false,
      Bool.not_eq_true', decide_eq_false_iff_not, Bool.not_eq_false', decide_eq_true_eq, hiff]
    exact ⟨not_le_of_gt, le_of_lt, fun he => ⟨fun h => absurd hlt h.not_gt, fun _ => he.le,
      fun h => absurd h hlt.ne'⟩⟩

/-- The same constant added to both means and to the value decides nothing else. -/
theorem decode_add (zero one value c : K) :
    decode (zero + c) (one + c) (value + c) = decode zero one value := by
  have hbetween : between (zero + c) (one + c) = between zero one + c := by
    rw [between, between, Nat.cast_ofNat]
    ring
  simp only [decode, hbetween, add_le_add_iff_right]

end Threshold
