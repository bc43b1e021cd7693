import IshtarOxide.Lib.FisherYates
import IshtarOxide.Campaign.Permutation

/-!
# Orders

`shuffle` of crates/bench-client and of `benchmark` in crates/sequential-lab, and the loop of
both `permutation_test` over the positions of a group. Whatever the generator, the indices
that it draws are a sequence of choices, and the entries are permuted as these say. Every
order comes of one sequence of choices and of no other.

* `groups_drawn`: a group of a test.
* `shuffles_reach_every_order`: both shuffles and the groups of both tests.
-/

namespace Campaign

open Shuffle

variable {β : Type} {key : β → UInt64} {pairs : List β} {group : List Nat} {n : Nat}

theorem nodup_group (h : group ∈ groupsBy key pairs) : group.Nodup := by
  have hflatten : (groupsBy key pairs).flatten.Nodup :=
    (groupsBy_perm key pairs).nodup_iff.mpr List.nodup_range
  exact (List.nodup_flatten.mp hflatten).1 group h

theorem lt_of_mem_group (h : group ∈ groupsBy key pairs) {k : Nat} (hk : k ∈ group) :
    k < pairs.length := by
  have hmem : k ∈ (groupsBy key pairs).flatten := List.mem_flatten.mpr ⟨group, h, hk⟩
  exact List.mem_range.mp ((groupsBy_perm key pairs).mem_iff.mp hmem)

/-- The loop over a group of a test, for any generator. -/
theorem groups_drawn {σ : Type} (source : Source σ) (h : group ∈ groupsBy key pairs)
    (hn : n = group.length) {labels : List UInt8} (hlabels : labels.length = pairs.length) (s : σ) :
    ∃ labels', permuteGroup source group labels s = some (labels', (drawn source n s).2) ∧
      PermutedWithin group hn (drawn source n s).1.permutation labels labels' := by
  refine permuteGroup_drawn source (nodup_group h) (fun k hk => ?_) hn s
  rw [hlabels]
  exact lt_of_mem_group h hk

/-- Sequences of choices and orders of `n` entries correspond one to one, so that independent
uniform choices lead to a uniform order. The shuffles put entries into the order of the
choices that are drawn, and so does the loop over a group of a test with the labels at the
positions of the group, which leaves all others in their places. -/
theorem shuffles_reach_every_order (n : Nat) :
    Function.Bijective (Choices.permutation : Choices n → Equiv.Perm (Fin n)) ∧
    (independentChoices n).map Choices.permutation = PMF.uniformOfFintype (Equiv.Perm (Fin n)) ∧
    (∀ (α : Type) (l : List α) (hn : n = l.length),
      (∀ c : Choices n,
        Shuffle.shuffle .given l c.toList = (reordered l hn c.permutation, [])) ∧
      ∀ state, BenchClient.shuffle l state =
          (reordered l hn (drawn .xorshift n state).1.permutation, (drawn .xorshift n state).2) ∧
        Lab.shuffle l state =
          (reordered l hn (drawn .xorshift n state).1.permutation, (drawn .xorshift n state).2)) ∧
    ∀ (β : Type) (key : β → UInt64) (pairs : List β), ∀ group ∈ groupsBy key pairs,
      ∀ (hn : n = group.length) (labels : List UInt8), labels.length = pairs.length →
      (∀ c : Choices n, ∃ labels', permuteGroup .given group labels c.toList = some (labels', []) ∧
        PermutedWithin group hn c.permutation labels labels') ∧
      ∀ state, ∃ labels', permuteGroup .xorshift group labels state =
          some (labels', (drawn .xorshift n state).2) ∧
        PermutedWithin group hn (drawn .xorshift n state).1.permutation labels labels' := by
  have hgiven : ∀ c : Choices n, drawn .given n c.toList = (c, []) := by
    intro c
    have hdrawn := drawn_given c []
    rwa [List.append_nil] at hdrawn
  refine ⟨Choices.permutation_bijective n, map_permutation_uniform n, fun α l hn => ⟨fun c => ?_,
    fun state => ⟨shuffle_drawn _ l hn state, shuffle_drawn _ l hn state⟩⟩, ?_⟩
  · rw [shuffle_drawn _ l hn, hgiven]
  · intro β key pairs group hgroup hn labels hlabels
    refine ⟨fun c => ?_, fun state => groups_drawn _ hgroup hn hlabels state⟩
    have hgroups := groups_drawn .given hgroup hn hlabels c.toList
    rwa [hgiven] at hgroups

/-- Two of three pairs are in one group. The choice 0 exchanges their labels. -/
theorem shuffles_reach_every_order_group : ∃ labels',
    permuteGroup .given [0, 2] [5, 6, 7] [0] = some (labels', []) ∧ labels' = [7, 6, 5] ∧
      PermutedWithin [0, 2] rfl (Choices.cons 0 .one).permutation ([5, 6, 7] : List UInt8)
        labels' := by
  have hgroup : [0, 2] ∈ groupsBy (id : UInt64 → UInt64) [3, 4, 3] :=
    List.mem_map.mpr ⟨3, List.mem_sortDedup.mpr (by decide), rfl⟩
  obtain ⟨labels', hrun, hpermuted⟩ := ((shuffles_reach_every_order 2).2.2.2 UInt64 id [3, 4, 3]
    [0, 2] hgroup rfl [5, 6, 7] rfl).1 (.cons 0 .one)
  have hlabels : permuteGroup .given [0, 2] ([5, 6, 7] : List UInt8) [0] =
      some ([7, 6, 5], []) := rfl
  exact ⟨labels', hrun, congrArg Prod.fst (Option.some.inj (hrun.symm.trans hlabels)), hpermuted⟩

end Campaign
