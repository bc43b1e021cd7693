import Mathlib.Data.Fintype.Perm
import Mathlib.GroupTheory.Perm.Option
import Mathlib.Logic.Equiv.Fin.Basic
import Mathlib.Probability.Distributions.Uniform
import IshtarOxide.Lib.Strata

/-!
# What a shuffle can come to

A shuffle makes a choice for every position from the last one down to the second, none of
them above the position. The choices determine a permutation, and every permutation comes of
exactly one sequence of choices.

* `Choices.equiv`: choices and permutations, one to one.
* `permuteGroup_drawn`, `shuffle_drawn`: it is the permutation of the choices that were drawn
  that the entries go through, in a group and in a whole list.
* `map_permutation_uniform`: independent uniform choices give every order the same chance.
-/

namespace Shuffle

/-! ## Choices -/

/-- A choice for every position from `n - 1` down to 1, none of them above the position. -/
inductive Choices : Nat → Type
  | zero : Choices 0
  | one : Choices 1
  | cons {n : Nat} (j : Fin (n + 2)) (c : Choices (n + 1)) : Choices (n + 2)

namespace Choices

/-- The choices, in the order in which they are made. -/
def toList : {n : Nat} → Choices n → List Nat
  | 0, .zero => []
  | 1, .one => []
  | _ + 2, .cons j c => j.val :: toList c

/-- The first choice and the others. -/
def split (n : Nat) : Choices (n + 2) ≃ Fin (n + 2) × Choices (n + 1) where
  toFun | .cons j c => (j, c)
  invFun x := .cons x.1 x.2
  left_inv | .cons _ _ => rfl
  right_inv _ := rfl

instance instUniqueZero : Unique (Choices 0) := ⟨⟨.zero⟩, fun | .zero => rfl⟩

instance instUniqueOne : Unique (Choices 1) := ⟨⟨.one⟩, fun | .one => rfl⟩

/-- The first choice is what the last position gets. The others permute the positions below
it, and then the two are exchanged. -/
def equiv : (n : Nat) → Choices n ≃ Equiv.Perm (Fin n)
  | 0 => Equiv.ofUnique _ _
  | 1 => Equiv.ofUnique _ _
  | n + 2 => (split n).trans ((finSuccEquivLast.prodCongr (equiv (n + 1))).trans
    (Equiv.Perm.decomposeOption.symm.trans finSuccEquivLast.symm.permCongr))

/-- The permutation of the positions that the choices lead to. -/
def permutation {n : Nat} (c : Choices n) : Equiv.Perm (Fin n) := equiv n c

variable {n : Nat}

theorem permutation_bijective (n : Nat) :
    Function.Bijective (permutation : Choices n → Equiv.Perm (Fin n)) :=
  (equiv n).bijective

theorem permutation_apply (j : Fin (n + 2)) (c : Choices (n + 1)) (k : Fin (n + 2)) :
    permutation (.cons j c) k = finSuccEquivLast.symm
      (Equiv.swap none (finSuccEquivLast j) ((finSuccEquivLast k).map c.permutation)) := rfl

theorem permutation_last (j : Fin (n + 2)) (c : Choices (n + 1)) :
    permutation (.cons j c) (Fin.last (n + 1)) = j := by
  rw [permutation_apply, finSuccEquivLast_last, Option.map_none, Equiv.swap_apply_left,
    Equiv.symm_apply_apply]

theorem permutation_castSucc (j : Fin (n + 2)) (c : Choices (n + 1)) (k : Fin (n + 1)) :
    permutation (.cons j c) k.castSucc =
      Equiv.swap (Fin.last (n + 1)) j (c.permutation k).castSucc := by
  rw [permutation_apply, finSuccEquivLast_castSucc, Option.map_some,
    finSuccEquivLast.symm.injective.map_swap, Equiv.symm_apply_apply, finSuccEquivLast_symm_none,
    finSuccEquivLast_symm_some]

end Choices

/-! ## Drawing -/

section Drawing

variable {α σ : Type} (source : Source σ)

/-- The choices that a source makes, and its state after that. -/
def drawn : (n : Nat) → σ → Choices n × σ
  | 0, s => (.zero, s)
  | 1, s => (.one, s)
  | n + 2, s =>
    let (c, s') := drawn (n + 1) (source.draw s (n + 2)).2
    (.cons ⟨(source.draw s (n + 2)).1, source.draw_lt s (n + 2) (Nat.succ_pos _)⟩ c, s')

/-- A source that gives out the numbers of a list. -/
def Source.given : Source (List Nat) where
  draw numbers n := (numbers.headD 0 % n, numbers.tail)
  draw_lt _ _ h := Nat.mod_lt _ h

/-- Every sequence of choices is drawn from some source. -/
theorem drawn_given {n : Nat} (c : Choices n) (rest : List Nat) :
    drawn .given n (c.toList ++ rest) = (c, rest) := by
  induction n using Nat.strongRecOn with
  | ind n ih =>
    match n, c with
    | 0, .zero => rfl
    | 1, .one => rfl
    | n + 2, .cons j c =>
      have hj : j.val % (n + 2) = j.val := Nat.mod_eq_of_lt j.isLt
      have hc := ih (n + 1) (Nat.lt_succ_self _) c
      simp only [drawn, Source.given, Choices.toList, List.cons_append, List.headD_cons,
        List.tail_cons, hj] at hc ⊢
      rw [hc]

variable {group : List Nat} {l : List α} {i n : Nat} {s : σ}

/-- The rounds for the positions of a group below the `n`-th. -/
theorem permuteFrom_drawn (hnodup : group.Nodup) (hrange : ∀ k ∈ group, k < l.length)
    (hi : i + 1 ≤ group.length) :
    ∃ l', permuteFrom source group i l s = some (l', (drawn source (i + 1) s).2) ∧
      l'.length = l.length ∧
      (∀ k : Fin (i + 1), l'[group.get (k.castLE hi)]? =
        l[group.get (((drawn source (i + 1) s).1.permutation k).castLE hi)]?) ∧
      ∀ p, (∀ k : Fin (i + 1), group.get (k.castLE hi) ≠ p) → l'[p]? = l[p]? := by
  induction i generalizing l s with
  | zero =>
    refine ⟨l, rfl, rfl, fun k => ?_, fun _ _ => rfl⟩
    rw [Subsingleton.elim ((drawn source 1 s).1.permutation k) k]
  | succ i ih =>
    let j : Fin (i + 2) := ⟨(source.draw s (i + 2)).1, source.draw_lt s (i + 2) (Nat.succ_pos _)⟩
    let place : Fin (i + 2) → Nat := fun k => group.get (k.castLE hi)
    have hinj : Function.Injective place :=
      (List.nodup_iff_injective_get.mp hnodup).comp (Fin.castLE_injective hi)
    have hlt : ∀ k, place k < l.length := fun k => hrange _ (List.get_mem group _)
    -- the swap of this round
    have hmoved : ∀ k, (Shuffle.swap l (place (Fin.last (i + 1))) (place j))[place k]? =
        l[place (Equiv.swap (Fin.last (i + 1)) j k)]? := by
      intro k
      rw [getElem?_swap (hlt _) (hlt _), hinj.map_swap]
    have hlen : (Shuffle.swap l (place (Fin.last (i + 1))) (place j)).length = l.length :=
      (swap_perm l _ _).length_eq
    obtain ⟨l', hrun, hlen', hpermuted, hfixed⟩ := ih (s := (source.draw s (i + 2)).2)
      (l := Shuffle.swap l (place (Fin.last (i + 1))) (place j))
      (fun k hk => hlen ▸ hrange k hk) (Nat.le_of_succ_le hi)
    refine ⟨l', ?_, hlen'.trans hlen, fun k => ?_, fun p hp => ?_⟩
    · have hlast : group[i + 1]? = some (place (Fin.last (i + 1))) := List.getElem?_eq_getElem _
      have hchoice : group[(source.draw s (i + 1 + 1)).1]? = some (place j) :=
        List.getElem?_eq_getElem _
      simp only [permuteFrom, hlast, hchoice, Option.bind_eq_bind, Option.bind_some, swap?,
        if_pos (And.intro (hlt (Fin.last (i + 1))) (hlt j)), hrun]
      rfl
    · -- the last of these positions has its choice, and the others are as the rest permutes them
      cases k using Fin.lastCases with
      | last =>
        have hother : ∀ k : Fin (i + 1),
            group.get (k.castLE (Nat.le_of_succ_le hi)) ≠ place (Fin.last (i + 1)) :=
          fun k he => (Fin.castSucc_lt_last k).ne (hinj he)
        refine (hfixed _ hother).trans ((hmoved _).trans ?_)
        rw [Equiv.swap_apply_left]
        exact congrArg (fun k => l[place k]?) (Choices.permutation_last j _).symm
      | cast k =>
        refine (hpermuted k).trans ((hmoved (Fin.castSucc _)).trans ?_)
        exact congrArg (fun k => l[place k]?) (Choices.permutation_castSucc j _ k).symm
    · rw [hfixed p fun k => hp k.castSucc, getElem?_swap (hlt _) (hlt _),
        Equiv.swap_apply_of_ne_of_ne (hp _).symm (hp j).symm]

/-- In `l'` the entries of `l` at the positions of a group are permuted, and all others are
where they were. -/
structure PermutedWithin (group : List Nat) (hn : n = group.length) (π : Equiv.Perm (Fin n))
    (l l' : List α) : Prop where
  length : l'.length = l.length
  permuted : ∀ k : Fin n, l'[group.get (k.cast hn)]? = l[group.get ((π k).cast hn)]?
  fixed : ∀ p ∉ group, l'[p]? = l[p]?

/-- A group is permuted as its choices say. -/
theorem permuteGroup_drawn (hnodup : group.Nodup) (hrange : ∀ k ∈ group, k < l.length)
    (hn : n = group.length) (s : σ) :
    ∃ l', permuteGroup source group l s = some (l', (drawn source n s).2) ∧
      PermutedWithin group hn (drawn source n s).1.permutation l l' := by
  subst hn
  cases group with
  | nil => exact ⟨l, rfl, rfl, (fun k => k.elim0), fun _ _ => rfl⟩
  | cons p group =>
    obtain ⟨l', hrun, hlen, hpermuted, hfixed⟩ :=
      permuteFrom_drawn source hnodup hrange (s := s) (Nat.le_refl (group.length + 1))
    exact ⟨l', hrun, hlen, hpermuted, fun q hq => hfixed q fun k he => hq (he ▸ List.get_mem _ _)⟩

/-- A shuffle is one of the group of all positions. -/
theorem permuteFrom_range (hi : i < l.length) :
    permuteFrom source (List.range l.length) i l s = some (shuffleFrom source i l s) := by
  induction i generalizing l s with
  | zero => rfl
  | succ i ih =>
    have hlt := source.draw_lt s (i + 1 + 1) (Nat.succ_pos _)
    have hj : (source.draw s (i + 1 + 1)).1 < l.length := by omega
    have hlen : (Shuffle.swap l (i + 1) (source.draw s (i + 1 + 1)).1).length = l.length :=
      (swap_perm l _ _).length_eq
    have hrest := ih (l := Shuffle.swap l (i + 1) (source.draw s (i + 1 + 1)).1)
      (s := (source.draw s (i + 1 + 1)).2) (by omega)
    rw [hlen] at hrest
    simp only [permuteFrom, List.getElem?_range hi, List.getElem?_range hj, Option.bind_eq_bind,
      Option.bind_some, swap?, if_pos (And.intro hi hj), hrest]
    rfl

theorem permuteGroup_range (l : List α) (s : σ) :
    permuteGroup source (List.range l.length) l s = some (shuffle source l s) := by
  rw [permuteGroup, List.length_range]
  cases l with
  | nil => rfl
  | cons x l => exact permuteFrom_range source (by simp)

/-- The entries of a list in another order. -/
def reordered (l : List α) (hn : n = l.length) (π : Equiv.Perm (Fin n)) : List α :=
  List.ofFn fun k => l.get ((π k).cast hn)

/-- A list is permuted as its choices say. -/
theorem shuffle_drawn (l : List α) (hn : n = l.length) (s : σ) :
    shuffle source l s =
      (reordered l hn (drawn source n s).1.permutation, (drawn source n s).2) := by
  subst hn
  obtain ⟨l', hrun, hpermuted⟩ := permuteGroup_drawn source (l := l) List.nodup_range
    (fun k hk => List.mem_range.mp hk) List.length_range.symm s
  rw [permuteGroup_range] at hrun
  refine (Option.some.inj hrun).trans (Prod.ext (List.ext_getElem ?_ ?_) rfl)
  · rw [hpermuted.length, reordered, List.length_ofFn]
  · intro k hk hk'
    have hlt : k < l.length := Nat.lt_of_lt_of_eq hk hpermuted.length
    have hget := hpermuted.permuted ⟨k, hlt⟩
    simp only [List.get_eq_getElem, List.getElem_range, Fin.val_cast] at hget
    rw [List.getElem?_eq_getElem hk, List.getElem?_eq_getElem (Fin.is_lt _)] at hget
    simp only [reordered, List.getElem_ofFn]
    exact Option.some.inj hget

end Drawing

/-! ## Chances -/

/-- Every choice is made with the same chance, whatever the others are. -/
noncomputable def independentChoices : (n : Nat) → PMF (Choices n)
  | 0 => PMF.pure .zero
  | 1 => PMF.pure .one
  | n + 2 => (PMF.uniformOfFintype (Fin (n + 2))).bind fun j =>
    (independentChoices (n + 1)).map (.cons j)

theorem map_apply_injective {α β : Type} {p : PMF α} {f : α → β} (hf : Function.Injective f)
    (a : α) : p.map f (f a) = p a := by
  rw [PMF.map_apply, tsum_eq_single a fun b hb => if_neg fun he => hb (hf he).symm, if_pos rfl]

theorem independentChoices_apply {n : Nat} (c : Choices n) :
    independentChoices n c = (n.factorial : ENNReal)⁻¹ := by
  induction n using Nat.strongRecOn with
  | ind n ih =>
    match n, c with
    | 0, .zero => simp [independentChoices]
    | 1, .one => simp [independentChoices]
    | n + 2, .cons j c =>
      have hother : ∀ j' ≠ j,
          (independentChoices (n + 1)).map (Choices.cons j') (Choices.cons j c) = 0 := by
        intro j' hj
        rw [PMF.map_apply, ENNReal.tsum_eq_zero]
        exact fun c' => if_neg fun he => hj (Choices.cons.inj he).1.symm
      have hsame : (independentChoices (n + 1)).map (Choices.cons j) (Choices.cons j c) =
          independentChoices (n + 1) c :=
        map_apply_injective (fun _ _ he => (Choices.cons.inj he).2) c
      rw [independentChoices, PMF.bind_apply,
        tsum_eq_single j fun j' hj => by rw [hother j' hj, mul_zero], hsame,
        ih (n + 1) (Nat.lt_succ_self _), PMF.uniformOfFintype_apply, Fintype.card_fin,
        Nat.factorial_succ (n + 1), Nat.cast_mul,
        ENNReal.mul_inv (.inr (ENNReal.natCast_ne_top _)) (.inl (ENNReal.natCast_ne_top _))]

/-- Every order comes out with the same chance. -/
theorem map_permutation_uniform (n : Nat) :
    (independentChoices n).map Choices.permutation = PMF.uniformOfFintype (Equiv.Perm (Fin n)) := by
  ext π
  obtain ⟨c, rfl⟩ := (Choices.permutation_bijective n).surjective π
  rw [map_apply_injective (Choices.permutation_bijective n).injective, independentChoices_apply,
    PMF.uniformOfFintype_apply, Fintype.card_perm, Fintype.card_fin]

end Shuffle
