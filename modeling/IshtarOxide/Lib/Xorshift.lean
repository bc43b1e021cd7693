import Mathlib.Data.FinEnum
import Mathlib.Logic.Function.Iterate
import IshtarOxide.Lib.Shuffle

/-!
# The states of a xorshift generator

Every round of the generator adds a shifted copy of the state to it. Whether the shift
goes up or down, the state before can be read off bit by bit, from the end that the copy
does not reach. A step therefore merges no states, and only zero leads to zero. Both hold
of any number of steps, also when they are the rounds of a loop that draws.

* `xorshiftStep_injective`, `xorshiftStep_apart`: a step is injective, and a bijection.
* `iterate_eq_zero`: a stream is zero at some point exactly when it begins with zero.
* `Apart.foldl`, `foldlM_state`: the states after a loop.
-/

/-! ## Shifted copies -/

section Shift

variable {w k : Nat}

/-- A shift to the left leaves the low bits alone; every other bit follows from one below. -/
theorem BitVec.xor_shiftLeft_injective (hk : 0 < k) :
    Function.Injective fun x : BitVec w => x ^^^ (x <<< k) := by
  intro x y h
  have hbit : ∀ i, x.getLsbD i = y.getLsbD i := by
    intro i
    induction i using Nat.strongRecOn with
    | ind i ih =>
      have hi : (x ^^^ (x <<< k)).getLsbD i = (y ^^^ (y <<< k)).getLsbD i :=
        congrArg (·.getLsbD i) h
      rw [BitVec.getLsbD_xor, BitVec.getLsbD_xor, BitVec.getLsbD_shiftLeft,
        BitVec.getLsbD_shiftLeft] at hi
      by_cases hlow : i < k
      · simpa [hlow] using hi
      · rw [ih (i - k) (by omega)] at hi
        exact Bool.xor_left_inj.mp hi
  exact BitVec.eq_of_getLsbD_eq fun i _ => hbit i

/-- A shift to the right leaves the high bits alone; every other bit follows from one above. -/
theorem BitVec.xor_ushiftRight_injective (hk : 0 < k) :
    Function.Injective fun x : BitVec w => x ^^^ (x >>> k) := by
  intro x y h
  have hbit : ∀ d i, w ≤ i + d → x.getLsbD i = y.getLsbD i := by
    intro d
    induction d with
    | zero =>
      intro i hi
      rw [BitVec.getLsbD_of_ge x i hi, BitVec.getLsbD_of_ge y i hi]
    | succ d ih =>
      intro i hi
      have hxy : (x ^^^ (x >>> k)).getLsbD i = (y ^^^ (y >>> k)).getLsbD i :=
        congrArg (·.getLsbD i) h
      rw [BitVec.getLsbD_xor, BitVec.getLsbD_xor, BitVec.getLsbD_ushiftRight,
        BitVec.getLsbD_ushiftRight, ih (k + i) (by omega)] at hxy
      exact Bool.xor_left_inj.mp hxy
  exact BitVec.eq_of_getLsbD_eq fun i _ => hbit w i (Nat.le_add_left w i)

end Shift

namespace Xorshift

/-! ## States that stay apart -/

/-- An update of the state that merges no two states, leaves none out, and makes zero of
zero alone. -/
structure Apart (update : UInt64 → UInt64) : Prop where
  bijective : Function.Bijective update
  eq_zero_iff : ∀ s, update s = 0 ↔ s = 0

namespace Apart

variable {f g : UInt64 → UInt64}

/-- On finitely many states it is enough that none are merged. -/
theorem of_injective (hf : Function.Injective f) (hzero : f 0 = 0) : Apart f where
  bijective := Finite.injective_iff_bijective.mp hf
  eq_zero_iff _ := hf.eq_iff' hzero

theorem id : Apart id := ⟨Function.bijective_id, fun _ => Iff.rfl⟩

theorem comp (hg : Apart g) (hf : Apart f) : Apart (g ∘ f) where
  bijective := hg.bijective.comp hf.bijective
  eq_zero_iff s := (hg.eq_zero_iff (f s)).trans (hf.eq_zero_iff s)

theorem iterate (hf : Apart f) (n : Nat) : Apart f^[n] := by
  induction n with
  | zero => exact .id
  | succ n ih => exact ih.comp hf

/-- Different updates, one after the other. -/
theorem foldl {α : Type} {update : UInt64 → α → UInt64} (h : ∀ a, Apart fun s => update s a)
    (l : List α) : Apart fun s => l.foldl update s := by
  induction l with
  | nil => exact .id
  | cons a l ih => exact ih.comp (h a)

end Apart

/-- A loop that draws once in every round leaves the state that many draws later. -/
theorem foldlM_state {σ α β : Type} {f : σ → σ} {l : List β}
    {round : α × σ → β → Option (α × σ)} (h : ∀ x s, ∀ b ∈ l, ∃ y, round (x, s) b = some (y, f s))
    (x : α) (s : σ) : ∃ y, l.foldlM round (x, s) = some (y, f^[l.length] s) := by
  induction l generalizing x s with
  | nil => exact ⟨x, rfl⟩
  | cons b l ih =>
    obtain ⟨y, hy⟩ := h x s b List.mem_cons_self
    rw [List.foldlM_cons, hy]
    exact ih (fun x s b hb => h x s b (List.mem_cons_of_mem _ hb)) y (f s)

/-! ## Steps -/

variable {s : UInt64} {n : Nat}

theorem up_injective {c : UInt64} (hc : 0 < (c.toBitVec % 64).toNat) :
    Function.Injective fun x : UInt64 => x ^^^ (x <<< c) := by
  intro x y h
  have hbits := congrArg UInt64.toBitVec h
  simp only [UInt64.toBitVec_xor, UInt64.toBitVec_shiftLeft, BitVec.shiftLeft_eq'] at hbits
  exact UInt64.toBitVec_inj.mp (BitVec.xor_shiftLeft_injective hc hbits)

theorem down_injective {c : UInt64} (hc : 0 < (c.toBitVec % 64).toNat) :
    Function.Injective fun x : UInt64 => x ^^^ (x >>> c) := by
  intro x y h
  have hbits := congrArg UInt64.toBitVec h
  simp only [UInt64.toBitVec_xor, UInt64.toBitVec_shiftRight, BitVec.ushiftRight_eq'] at hbits
  exact UInt64.toBitVec_inj.mp (BitVec.xor_ushiftRight_injective hc hbits)

/-- Different states stay different. -/
theorem xorshiftStep_injective : Function.Injective xorshiftStep := by
  have h13 := up_injective (c := 13) (by decide)
  have h7 := down_injective (c := 7) (by decide)
  have h17 := up_injective (c := 17) (by decide)
  exact (h17.comp h7).comp h13

@[simp] theorem xorshiftStep_zero : xorshiftStep 0 = 0 := by decide

theorem xorshiftStep_apart : Apart xorshiftStep :=
  .of_injective xorshiftStep_injective xorshiftStep_zero

theorem iterate_zero (n : Nat) : xorshiftStep^[n] 0 = 0 :=
  Function.iterate_fixed xorshiftStep_zero n

/-- A stream is zero after some number of steps exactly when it begins with zero. -/
theorem iterate_eq_zero : xorshiftStep^[n] s = 0 ↔ s = 0 :=
  (xorshiftStep_apart.iterate n).eq_zero_iff s

/-- What is drawn for a list that is not empty is the index of an element. -/
theorem draw_get {α : Type} {l : List α} (hl : l ≠ []) (s : UInt64) :
    ∃ a, l[(Shuffle.Source.xorshift.draw s l.length).1]? = some a :=
  ⟨_, List.getElem?_eq_getElem (Nat.mod_lt _ (List.length_pos_of_ne_nil hl))⟩

/-- The index that is drawn in the state zero. -/
theorem draw_zero (upper : Nat) : Shuffle.Source.xorshift.draw 0 upper = (0, 0) := by
  show ((xorshiftStep 0).toNat % upper, xorshiftStep 0) = (0, 0)
  rw [xorshiftStep_zero]
  exact congrArg (·, 0) (Nat.zero_mod upper)

end Xorshift
