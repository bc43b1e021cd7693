import Mathlib.Data.Rat.Cast.Order
import Mathlib.Order.WithBot
import IshtarOxide.Lib.Exchange
import IshtarOxide.Lib.FisherYates

/-!
# Rounds of shuffles

A round shuffles every group of a list for itself. Its choices are drawn one after the other,
and lead from one arrangement of the entries within their groups to another. From any
arrangement, every other one comes of exactly one round.

* `permuteGroups_drawn`: what a round does to the entries.
* `card_rejected_le`: when the labels of a permutation test were shuffled themselves, no more
  than one in `m` of all sequences of rounds makes them one of the `m`-th part of the
  estimates that are greatest.
-/

namespace Shuffle

open Finset

variable {α κ : Type}

/-! ## Choices and arrangements -/

/-- The choices of a round. -/
def Round : List (List Nat) → Type
  | [] => Unit
  | group :: groups => Choices group.length × Round groups

/-- How the entries of every group are permuted. -/
def Arrangement : List (List Nat) → Type
  | [] => Unit
  | group :: groups => Equiv.Perm (Fin group.length) × Arrangement groups

instance Choices.instFintype (n : Nat) : Fintype (Choices n) := .ofEquiv _ (equiv n).symm

instance Round.instFintype : (groups : List (List Nat)) → Fintype (Round groups)
  | [] => inferInstanceAs (Fintype Unit)
  | group :: groups =>
    have := Round.instFintype groups
    inferInstanceAs (Fintype (Choices group.length × Round groups))

instance Arrangement.instFintype : (groups : List (List Nat)) → Fintype (Arrangement groups)
  | [] => inferInstanceAs (Fintype Unit)
  | group :: groups =>
    have := Arrangement.instFintype groups
    inferInstanceAs (Fintype (Equiv.Perm (Fin group.length) × Arrangement groups))

/-- The choices in the order in which they are made. -/
def Round.toList : {groups : List (List Nat)} → Round groups → List Nat
  | [], _ => []
  | _ :: _, (c, r) => c.toList ++ toList r

/-- Nothing is moved. -/
def Arrangement.start : (groups : List (List Nat)) → Arrangement groups
  | [] => ()
  | _ :: groups => (1, start groups)

/-- A round on top of an arrangement. -/
def Arrangement.after : {groups : List (List Nat)} → Arrangement groups → Round groups →
    Arrangement groups
  | [], _, _ => ()
  | _ :: _, (π, x), (c, r) => (π * c.permutation, after x r)

theorem Arrangement.after_bijective {groups : List (List Nat)} (x : Arrangement groups) :
    Function.Bijective (x.after : Round groups → Arrangement groups) := by
  induction groups with
  | nil => exact ⟨fun _ _ _ => rfl, fun _ => ⟨(), rfl⟩⟩
  | cons group groups ih =>
    obtain ⟨π, x⟩ := x
    exact ((Group.mulLeft_bijective π).comp
      (Choices.permutation_bijective group.length)).prodMap (ih x)

/-- The entries of `l'` at the positions of the groups are those of `l`, permuted. -/
def Arrangement.Moved : {groups : List (List Nat)} → Arrangement groups → List α → List α → Prop
  | [], _, _, _ => True
  | group :: _, (π, x), l, l' =>
    (∀ k : Fin group.length, l'[group.get k]? = l[group.get (π k)]?) ∧ Moved x l l'

/-- `l'` is `l` in another arrangement. -/
structure Arranged {groups : List (List Nat)} (x : Arrangement groups) (l l' : List α) : Prop where
  length : l'.length = l.length
  moved : x.Moved l l'
  fixed : ∀ p ∉ groups.flatten, l'[p]? = l[p]?

section Arranged

variable {groups : List (List Nat)} {x : Arrangement groups} {l l' l'' : List α}

/-- There is only one list in an arrangement. -/
theorem Arranged.unique (h : Arranged x l l') (h' : Arranged x l l'') : l' = l'' := by
  have hmoved : ∀ p ∈ groups.flatten, l'[p]? = l''[p]? := by
    have hx := h.moved
    have hx' := h'.moved
    clear h h'
    induction groups with
    | nil => simp
    | cons group groups ih =>
      obtain ⟨π, x⟩ := x
      intro p hp
      rcases List.mem_append.mp hp with hp | hp
      · obtain ⟨k, rfl⟩ := List.get_of_mem hp
        rw [hx.1 k, hx'.1 k]
      · exact ih hx.2 hx'.2 p hp
  refine List.ext_getElem? fun p => ?_
  by_cases hp : p ∈ groups.flatten
  · exact hmoved p hp
  · rw [h.fixed p hp, h'.fixed p hp]

/-- A group is permuted on top of an arrangement. -/
theorem Arrangement.Moved.congr {l₁ l₂ : List α} (h : x.Moved l₁ l₂)
    (h₁ : ∀ p ∈ groups.flatten, l₁[p]? = l[p]?) (h₂ : ∀ p ∈ groups.flatten, l₂[p]? = l'[p]?) :
    x.Moved l l' := by
  induction groups with
  | nil => trivial
  | cons group groups ih =>
    obtain ⟨π, x⟩ := x
    have hmem : ∀ k, group.get k ∈ (group :: groups).flatten :=
      fun k => List.mem_append_left _ (List.get_mem group k)
    refine ⟨fun k => ?_, ih h.2 (fun p hp => h₁ p (List.mem_append_right _ hp))
      fun p hp => h₂ p (List.mem_append_right _ hp)⟩
    rw [← h₂ _ (hmem _), h.1 k, h₁ _ (hmem _)]

theorem Arranged.trans {r : Round groups} (h : Arranged x l l')
    (hr : Arranged ((Arrangement.start groups).after r) l' l'') : Arranged (x.after r) l l'' where
  length := hr.length.trans h.length
  moved := by
    have hx := h.moved
    have hx' := hr.moved
    clear h hr
    induction groups with
    | nil => trivial
    | cons group groups ih =>
      obtain ⟨π, x⟩ := x
      obtain ⟨c, r⟩ := r
      refine ⟨fun k => ?_, ih hx.2 hx'.2⟩
      have hk := hx'.1 k
      rw [one_mul] at hk
      rw [hk, hx.1]
      rfl
  fixed p hp := (hr.fixed p hp).trans (h.fixed p hp)

end Arranged

/-! ## Drawing a round -/

section Drawing

variable {groups : List (List Nat)} {x : Arrangement groups} {labels l : List α}

/-- A round permutes the entries of every group as its choices say. -/
theorem permuteGroups_drawn (hnodup : groups.flatten.Nodup)
    (hrange : ∀ p ∈ groups.flatten, p < l.length) (r : Round groups) (rest : List Nat) :
    ∃ l', permuteGroups .given groups l (r.toList ++ rest) = some (l', rest) ∧
      Arranged ((Arrangement.start groups).after r) l l' := by
  induction groups generalizing l with
  | nil => exact ⟨l, rfl, rfl, trivial, fun _ _ => rfl⟩
  | cons group groups ih =>
    obtain ⟨c, r⟩ := r
    obtain ⟨hgroup, hgroups, hdisjoint⟩ := List.nodup_append'.mp hnodup
    have hfirst : ∀ p ∈ group, p < l.length := fun p hp => hrange p (List.mem_append_left _ hp)
    obtain ⟨l₁, hrun, hpermuted⟩ :=
      permuteGroup_drawn .given hgroup hfirst rfl (c.toList ++ (r.toList ++ rest))
    rw [drawn_given] at hrun hpermuted
    obtain ⟨l', hruns, harranged⟩ := ih hgroups
      (fun p hp => by rw [hpermuted.length]; exact hrange p (List.mem_append_right _ hp)) r
    refine ⟨l', ?_, harranged.length.trans hpermuted.length, ⟨fun k => ?_, ?_⟩, fun p hp => ?_⟩
    · rw [permuteGroups, List.foldlM_cons, Round.toList, List.append_assoc, hrun]
      exact hruns
    · rw [harranged.fixed _ fun hmem => hdisjoint (List.get_mem group k) hmem, one_mul]
      exact hpermuted.permuted k
    · exact harranged.moved.congr (fun p hp => hpermuted.fixed p fun hmem => hdisjoint hmem hp)
        fun _ _ => rfl
    · rw [List.flatten_cons, List.mem_append, not_or] at hp
      rw [harranged.fixed p hp.2, hpermuted.fixed p hp.1]

/-- Every arrangement has a list. -/
theorem exists_arranged (hnodup : groups.flatten.Nodup)
    (hrange : ∀ p ∈ groups.flatten, p < l.length) (x : Arrangement groups) :
    ∃ l', Arranged x l l' := by
  obtain ⟨r, rfl⟩ := (Arrangement.start groups).after_bijective.surjective x
  obtain ⟨l', -, harranged⟩ := permuteGroups_drawn hnodup hrange r []
  exact ⟨l', harranged⟩

end Drawing

/-! ## Tests of shuffled labels -/

section Tests

variable {groups : List (List Nat)} {labels l : List α} {estimate : List α → Option κ}

/-- The choices of several rounds, in the order in which they are made. -/
def numbers {n : Nat} (r : Fin n → Round groups) : List Nat :=
  (List.ofFn r).flatMap Round.toList

theorem numbers_succ {n : Nat} (r : Fin (n + 1) → Round groups) :
    numbers r = (Exchange.first r).toList ++ numbers (Fin.tail r) := by
  rw [numbers, List.ofFn_succ, List.flatMap_cons]
  rfl

/-- The first of the iterations, and then the others. -/
theorem iterations_succ {σ : Type} {source : Source σ} {extreme : κ → Bool} (n : Nat)
    (y : Progress α κ σ) : iterations source groups estimate extreme y (n + 1) =
      (iteration source groups estimate extreme y).bind
        (iterations source groups estimate extreme · n) := by
  induction n with
  | zero =>
    show (some y).bind _ = _
    rw [Option.bind_some]
    exact (Option.bind_fun_some _).symm
  | succ n ih =>
    rw [iterations, ih, Option.bind_assoc]
    rfl

/-- A test whose labels were shuffled first comes out with at most `k` estimates, the observed
one among them, that it counts as extreme. -/
def Rejected (groups : List (List Nat)) (labels : List α) (estimate : List α → Option κ)
    (extreme : κ → κ → Bool) (n k : Nat) (r : Fin (n + 1) → Round groups) : Prop :=
  ∃ l observed y, permuteGroups .given groups labels (Exchange.first r).toList = some (l, []) ∧
    estimate l = some observed ∧
    iterations .given groups estimate (extreme observed) ⟨l, numbers (Fin.tail r), [], 0⟩ n =
      some y ∧ y.atLeast + 1 ≤ k

variable [LinearOrder κ] {extreme : κ → Bool} {T : Arrangement groups → WithBot κ} {n : Nat}
  {observed : κ} {x : Arrangement groups}

/-- Every estimate that comes up to the observed one is counted. -/
theorem iterations_atLeast (hnodup : groups.flatten.Nodup)
    (hrange : ∀ p ∈ groups.flatten, p < labels.length)
    (hT : ∀ x l, Arranged x labels l → T x = estimate l) (hextreme : ∀ e, observed ≤ e → extreme e)
    {r : Fin n → Round groups} {es : List κ} {a : Nat} {y : Progress α κ (List Nat)}
    (hl : Arranged x labels l)
    (h : iterations .given groups estimate extreme ⟨l, numbers r, es, a⟩ n = some y) :
    a + (univ.filter fun i => observed ≤ T (Exchange.walk Arrangement.after x r i)).card ≤
      y.atLeast := by
  induction n generalizing x l es a with
  | zero =>
    cases h
    simp
  | succ n ih =>
    obtain ⟨l', hrun, harranged⟩ := permuteGroups_drawn (l := l) hnodup
      (by rw [hl.length]; exact hrange) (r 0) (numbers (Fin.tail r))
    have hl' := hl.trans harranged
    rw [iterations_succ, Option.bind_eq_some_iff] at h
    obtain ⟨z, hz, h⟩ := h
    simp only [iteration, numbers_succ, hrun, Option.bind_eq_bind, Option.bind_some,
      Option.bind_eq_some_iff] at hz
    obtain ⟨e, he, hz⟩ := hz
    cases hz
    have hrest := ih hl' h
    have hfirst : T (x.after (r 0)) = e := (hT _ _ hl').trans he
    rw [Fin.card_filter_univ_succ]
    simp only [Exchange.walk, Fin.cons_zero, Fin.cons_succ, hfirst, WithBot.coe_le_coe]
    by_cases hle : observed ≤ e
    · rw [if_pos hle]
      rw [if_pos (hextreme e hle)] at hrest
      omega
    · rw [if_neg hle]
      split at hrest <;> omega

/-- When the labels were shuffled themselves, the observed estimate is one of all those of the
test, drawn alike. -/
theorem card_rejected_le (hnodup : groups.flatten.Nodup)
    (hrange : ∀ p ∈ groups.flatten, p < labels.length) {extreme : κ → κ → Bool}
    (hextreme : ∀ o e, o ≤ e → extreme o e) (n k : Nat)
    [DecidablePred (Rejected groups labels estimate extreme n k)] :
    (n + 1) * (univ.filter (Rejected groups labels estimate extreme n k)).card ≤
      k * Fintype.card (Fin (n + 1) → Round groups) := by
  choose list hlist using exists_arranged hnodup hrange (l := labels)
  let T : Arrangement groups → WithBot κ := fun x => estimate (list x)
  let places : (Fin (n + 1) → Round groups) → Fin (n + 1) → Arrangement groups :=
    Exchange.walk Arrangement.after (Arrangement.start groups)
  have hT : ∀ x l, Arranged x labels l → T x = estimate l := fun x l h =>
    congrArg estimate ((hlist x).unique h)
  have hplaces : Function.Bijective places :=
    Exchange.walk_bijective Arrangement.after_bijective (n + 1) _
  -- the rank of the observed estimate is at most what the test counts
  have hrank : ∀ r, Rejected groups labels estimate extreme n k r →
      Exchange.rank (T ∘ places r) 0 ≤ k := by
    rintro r ⟨l, observed, y, hrun, hobserved, hy, hle⟩
    obtain ⟨l', hrun', harranged⟩ := permuteGroups_drawn hnodup hrange (r 0) []
    rw [List.append_nil, hrun, Option.some.injEq, Prod.mk.injEq] at hrun'
    obtain ⟨rfl, -⟩ := hrun'
    have hcount := iterations_atLeast hnodup hrange hT (hextreme observed) harranged hy
    have hfirst : T (places r 0) = observed := (hT _ _ harranged).trans hobserved
    have hranked : Exchange.rank (T ∘ places r) 0 = (univ.filter fun i =>
        observed ≤ T (places r (Fin.succ i))).card + 1 := by
      rw [Exchange.rank, Fin.card_filter_univ_succ, if_pos le_rfl]
      simp only [Function.comp_apply, hfirst]
    rw [hranked]
    exact (Nat.succ_le_succ (Nat.le_trans (Nat.le_add_left _ 0) hcount)).trans hle
  have hcard : (univ.filter (Rejected groups labels estimate extreme n k)).card ≤
      (univ.filter fun x : Fin (n + 1) → Arrangement groups =>
        Exchange.rank (T ∘ x) 0 ≤ k).card := by
    refine card_le_card_of_injOn places (fun r hr => ?_) hplaces.injective.injOn
    exact mem_filter.mpr ⟨mem_univ _, hrank r (mem_filter.mp hr).2⟩
  calc (n + 1) * (univ.filter (Rejected groups labels estimate extreme n k)).card
      ≤ (n + 1) * (univ.filter fun x : Fin (n + 1) → Arrangement groups =>
          Exchange.rank (T ∘ x) 0 ≤ k).card := Nat.mul_le_mul_left _ hcard
    _ ≤ k * Fintype.card (Fin (n + 1) → Arrangement groups) := Exchange.card_first_rank_le T n k
    _ = k * Fintype.card (Fin (n + 1) → Round groups) := by
        rw [Fintype.card_of_bijective hplaces]

end Tests

end Shuffle
