import Mathlib.Algebra.BigOperators.Ring.Finset
import Mathlib.Algebra.Order.BigOperators.Group.Finset
import Mathlib.Data.Fin.Tuple.Basic
import Mathlib.Data.Fintype.Pi
import Mathlib.Logic.Equiv.Basic

/-!
# Exchangeable draws

Of values that were drawn alike, any one is as likely as any other to be among the greatest.

* `card_rank_le`: no more than `k` of finitely many values have at most `k` values that are
  not below them.
* `card_first_rank_le`: so this holds of the first of `n + 1` draws in a share of at most
  `k / (n + 1)` of all cases.
* `walk_bijective`: the places of a walk are drawn alike, when every step of it can lead
  anywhere and in one way only.
-/

namespace Exchange

open Finset

variable {ι κ X C : Type}

/-! ## Ranks -/

section Ranks

variable [Fintype ι] [LinearOrder κ]

/-- How many values are not below the one at `i`. -/
def rank (f : ι → κ) (i : ι) : Nat := (univ.filter fun j => f i ≤ f j).card

/-- The least of these values has all of them above it. -/
theorem card_rank_le (f : ι → κ) (k : Nat) : (univ.filter fun i => rank f i ≤ k).card ≤ k := by
  rcases (univ.filter fun i => rank f i ≤ k).eq_empty_or_nonempty with hempty | hne
  · rw [hempty, card_empty]
    exact Nat.zero_le k
  · obtain ⟨i, hi, hleast⟩ := exists_min_image _ f hne
    have habove : (univ.filter fun i => rank f i ≤ k) ⊆ univ.filter fun j => f i ≤ f j :=
      fun j hj => mem_filter.mpr ⟨mem_univ j, hleast j hj⟩
    exact (card_le_card habove).trans (mem_filter.mp hi).2

/-- A rank goes with its place. -/
theorem rank_comp (f : ι → κ) (e : Equiv.Perm ι) (i : ι) : rank (f ∘ e) i = rank f (e i) := by
  refine card_bij (fun j _ => e j) ?_ (fun _ _ _ _ he => e.injective he) fun j hj => ?_
  · intro j hj
    exact mem_filter.mpr ⟨mem_univ _, (mem_filter.mp hj).2⟩
  · refine ⟨e.symm j, mem_filter.mpr ⟨mem_univ _, ?_⟩, e.apply_symm_apply j⟩
    rw [Function.comp_apply, Function.comp_apply, e.apply_symm_apply]
    exact (mem_filter.mp hj).2

end Ranks

/-! ## Draws -/

section Draws

variable [Fintype X] [LinearOrder κ] {n : Nat}

/-- Exchanging two draws turns the rank of the one into the rank of the other. -/
theorem card_rank_eq (T : X → κ) (k : Nat) (i : Fin (n + 1)) :
    (univ.filter fun x : Fin (n + 1) → X => rank (T ∘ x) i ≤ k).card =
      (univ.filter fun x : Fin (n + 1) → X => rank (T ∘ x) 0 ≤ k).card := by
  have hrank : ∀ x : Fin (n + 1) → X, rank (T ∘ x ∘ Equiv.swap 0 i) 0 = rank (T ∘ x) i := by
    intro x
    rw [← Function.comp_assoc, rank_comp, Equiv.swap_apply_left]
  refine card_bij (fun x _ => x ∘ Equiv.swap 0 i) ?_ ?_ fun x hx => ?_
  · intro x hx
    rw [mem_filter, hrank]
    exact ⟨mem_univ _, (mem_filter.mp hx).2⟩
  · intro x _ y _ he
    exact (Equiv.swap 0 i).surjective.injective_comp_right he
  · refine ⟨x ∘ Equiv.swap 0 i, mem_filter.mpr ⟨mem_univ _, ?_⟩, ?_⟩
    · rw [← hrank]
      simpa [Function.comp_assoc, Function.comp_def] using (mem_filter.mp hx).2
    · simp [Function.comp_def]

/-- Every case gives at most `k` of its draws a rank up to `k`, and all draws get as many. -/
theorem card_first_rank_le (T : X → κ) (n k : Nat) :
    (n + 1) * (univ.filter fun x : Fin (n + 1) → X => rank (T ∘ x) 0 ≤ k).card ≤
      k * Fintype.card (Fin (n + 1) → X) := by
  calc (n + 1) * (univ.filter fun x : Fin (n + 1) → X => rank (T ∘ x) 0 ≤ k).card
      = ∑ i : Fin (n + 1), (univ.filter fun x : Fin (n + 1) → X => rank (T ∘ x) i ≤ k).card := by
        rw [sum_const_nat fun i _ => card_rank_eq T k i, card_univ, Fintype.card_fin]
    _ = ∑ x : Fin (n + 1) → X, (univ.filter fun i => rank (T ∘ x) i ≤ k).card := by
        simp only [card_filter]
        exact sum_comm
    _ ≤ ∑ _ : Fin (n + 1) → X, k := sum_le_sum fun x _ => card_rank_le (T ∘ x) k
    _ = k * Fintype.card (Fin (n + 1) → X) := by
        rw [sum_const_nat fun _ _ => rfl, card_univ, Nat.mul_comm]

end Draws

/-! ## Walks -/

section Walks

variable (step : X → C → X)

/-- The first of some choices. -/
abbrev first {n : Nat} (c : Fin (n + 1) → C) : C := c 0

/-- The places of a walk, from the first one after its start. -/
def walk : {n : Nat} → X → (Fin n → C) → Fin n → X
  | 0, _, _ => Fin.elim0
  | _ + 1, x, c => Fin.cons (step x (c 0)) (walk (step x (c 0)) (Fin.tail c))

variable {step}

/-- Where every step can lead anywhere and in one way only, so can a walk. -/
theorem walk_bijective (hstep : ∀ x, Function.Bijective (step x)) (n : Nat) (x : X) :
    Function.Bijective (walk step x : (Fin n → C) → Fin n → X) := by
  induction n generalizing x with
  | zero => exact ⟨fun _ _ _ => Subsingleton.elim _ _, fun y => ⟨Fin.elim0, Subsingleton.elim _ _⟩⟩
  | succ n ih =>
    constructor
    · intro c c' he
      obtain ⟨hhead, htail⟩ := Fin.cons_inj.mp he
      have hfirst : c 0 = c' 0 := (hstep x).injective hhead
      rw [hfirst] at htail
      rw [← Fin.cons_self_tail c, ← Fin.cons_self_tail c', hfirst, (ih _).injective htail]
    · intro y
      obtain ⟨first, hfirst⟩ := (hstep x).surjective (y 0)
      obtain ⟨rest, hrest⟩ := (ih (y 0)).surjective (Fin.tail y)
      refine ⟨Fin.cons first rest, ?_⟩
      rw [walk, Fin.cons_zero, Fin.tail_cons, hfirst, hrest, Fin.cons_self_tail]

end Walks

end Exchange
