import Mathlib.Algebra.BigOperators.Group.List.Basic
import Mathlib.Algebra.Ring.Nat
import Mathlib.Data.List.Dedup
import Mathlib.Data.List.Destutter
import Mathlib.Data.List.Perm.Subperm
import Mathlib.Tactic.Common

/-!
# Counting the entries of a list

How a count changes when one entry is replaced or added, how counts add up, how many
distinct entries a list has, and the list that has a block so many times for every entry
of another.
-/

namespace List

variable {α : Type} {l : List α} {p q r : α → Bool} {a b : α} {i : Nat}

theorem countP_set_toNat (h : l[i]? = some a) :
    (l.set i b).countP p + (p a).toNat = l.countP p + (p b).toNat := by
  obtain ⟨hlt, he⟩ := getElem?_eq_some_iff.mp h
  have hmem : a ∈ l := he ▸ getElem_mem hlt
  rw [countP_set hlt, he]
  cases ha : p a with
  | false => cases p b <;> simp
  | true =>
    have hpos : 0 < l.countP p := countP_pos_iff.mpr ⟨a, hmem, ha⟩
    cases p b <;> simp <;> omega

/-- A count that an entry and its replacement agree on. -/
theorem countP_set_of_eq (h : l[i]? = some a) (hp : p b = p a) :
    (l.set i b).countP p = l.countP p := by
  have hset := countP_set_toNat (p := p) (b := b) h
  rw [hp] at hset
  exact Nat.add_right_cancel hset

theorem countP_concat_toNat : (l ++ [a]).countP p = l.countP p + (p a).toNat := by
  rw [countP_append, countP_singleton]
  cases p a <;> rfl

/-- Distinct positions of such entries are no more than there are of these. -/
theorem length_le_countP {ids : List Nat} (hids : ids.Nodup)
    (h : ∀ i ∈ ids, ∃ x, l[i]? = some x ∧ p x) : ids.length ≤ l.countP p := by
  have hsub : ids ⊆ (l.zipIdx.filter fun x => p x.1).map Prod.snd := by
    intro i hi
    obtain ⟨x, hx, hp⟩ := h i hi
    exact mem_map.mpr ⟨(x, i), mem_filter.mpr ⟨mem_zipIdx_iff_getElem?.mpr hx, hp⟩, rfl⟩
  calc ids.length ≤ ((l.zipIdx.filter fun x => p x.1).map Prod.snd).length :=
        (hids.subperm hsub).length_le
    _ = l.zipIdx.countP (p ∘ Prod.fst) := by
        rw [length_map, ← countP_eq_length_filter]
        rfl
    _ = l.countP p := by rw [← countP_map, zipIdx_map_fst]

/-- Two kinds of entries that together make up a third. -/
theorem countP_eq_add (h : ∀ x ∈ l, (p x).toNat = (q x).toNat + (r x).toNat) :
    l.countP p = l.countP q + l.countP r := by
  induction l with
  | nil => rfl
  | cons x l ih =>
    have hx := h x mem_cons_self
    have hl := ih fun y hy => h y (mem_cons_of_mem x hy)
    simp only [countP_cons]
    cases hp : p x <;> cases hq : q x <;> cases hr : r x <;> simp_all <;> omega

/-- A lookup that succeeds for every entry. -/
theorem mapM_eq_some_map {β : Type} {f : α → Option β} {g : α → β}
    (h : ∀ x ∈ l, f x = some (g x)) : l.mapM f = some (l.map g) := by
  induction l with
  | nil => rfl
  | cons x l ih =>
    rw [mapM_cons, h x mem_cons_self, ih fun y hy => h y (mem_cons_of_mem x hy)]
    rfl

/-- One entry of a sum, and what is left of the sum when it is replaced. -/
theorem exists_sum_set {M : Type} [AddCommMonoid M] {f : α → M} (h : l[i]? = some a) :
    ∃ rest, (l.map f).sum = rest + f a ∧ ∀ b, ((l.set i b).map f).sum = rest + f b := by
  induction l generalizing i with
  | nil => cases h
  | cons x l ih =>
    cases i with
    | zero =>
      cases h
      exact ⟨(l.map f).sum, add_comm _ _, fun b => add_comm _ _⟩
    | succ i =>
      obtain ⟨rest, hsum, hset⟩ := ih h
      refine ⟨f x + rest, ?_, fun b => ?_⟩
      · rw [map_cons, sum_cons, hsum, add_assoc]
      · rw [set_cons_succ, map_cons, sum_cons, hset, add_assoc]

/-! ## Distinct entries -/

section Dedup

variable [DecidableEq α] {k : List α}

theorem length_dedup_eq_iff : l.dedup.length = l.length ↔ l.Nodup := by
  constructor
  · intro h
    rw [← dedup_eq_self]
    exact (dedup_sublist l).eq_of_length h
  · intro h
    rw [h.dedup]

/-- A list without repetitions has as many entries as any list with the same ones has
distinct entries. -/
theorem length_eq_dedup (hk : k.Nodup) (h : ∀ x, x ∈ k ↔ x ∈ l) : k.length = l.dedup.length := by
  have hperm : k.Perm l.dedup := by
    rw [perm_ext_iff_of_nodup hk (nodup_dedup l)]
    intro x
    rw [mem_dedup]
    exact h x
  exact hperm.length_eq

end Dedup

/-! ## Sorted and without repetitions -/

section SortDedup

variable [DecidableEq α] [LE α] [DecidableLE α] [Std.IsLinearOrder α]

/-- Sorts a list and removes consecutive repetitions. -/
def sortDedup (l : List α) : List α := (l.mergeSort (· ≤ ·)).destutter (· ≠ ·)

theorem sortDedup_eq (l : List α) : l.sortDedup = (l.mergeSort (· ≤ ·)).dedup := by
  have hsorted : (l.mergeSort (· ≤ ·)).Pairwise (decide <| · ≤ ·) := by
    apply pairwise_mergeSort
    · intro a b c hab hbc
      exact decide_eq_true (Std.le_trans (of_decide_eq_true hab) (of_decide_eq_true hbc))
    · intro a b
      simpa using Std.le_total (a := a) (b := b)
  exact (hsorted.imp of_decide_eq_true).destutter_eq_dedup

theorem nodup_sortDedup (l : List α) : l.sortDedup.Nodup := by
  rw [sortDedup_eq]
  exact nodup_dedup _

@[simp] theorem mem_sortDedup : a ∈ l.sortDedup ↔ a ∈ l := by
  rw [sortDedup_eq, mem_dedup, mem_mergeSort]

end SortDedup

/-! ## Groups -/

/-- A list is put together from its groups, for keys that are distinct and cover it. -/
theorem perm_flatMap_filter {β : Type} [DecidableEq β] {f : α → β} {k : List β} (hk : k.Nodup)
    (h : ∀ x ∈ l, f x ∈ k) : (k.flatMap fun b => l.filter (f · = b)).Perm l := by
  induction k generalizing l with
  | nil =>
    have hnil : l = [] := eq_nil_iff_forall_not_mem.mpr fun x hx => by cases h x hx
    rw [hnil]
    exact .refl _
  | cons b k ih =>
    obtain ⟨hb, hk⟩ := nodup_cons.mp hk
    have hothers : ∀ c ∈ k, l.filter (f · = c) =
        (l.filter (fun x => !decide (f x = b))).filter (f · = c) := by
      intro c hc
      rw [filter_filter]
      refine filter_congr fun x _ => ?_
      have hne : c ≠ b := fun he => hb (he ▸ hc)
      by_cases hx : f x = c
      · simp [hx, hne]
      · simp [hx]
    have hrest : ∀ x ∈ l.filter (fun x => !decide (f x = b)), f x ∈ k := by
      intro x hx
      obtain ⟨hx, hne⟩ := mem_filter.mp hx
      rcases mem_cons.mp (h x hx) with he | hmem
      · simp [he] at hne
      · exact hmem
    rw [flatMap_cons, flatMap_congr hothers]
    exact ((ih hk hrest).append_left _).trans (filter_append_perm _ l)

/-! ## Repeated blocks -/

section Repeat

variable {β : Type} {f : α → List β} {n m : Nat} {y : β}

/-- For every entry of the list, its block `n` times. -/
def repeatEach (n : Nat) (f : α → List β) (l : List α) : List β :=
  l.flatMap fun x => (replicate n (f x)).flatten

theorem repeatEach_cons (x : α) (l : List α) :
    repeatEach n f (x :: l) = (replicate n (f x)).flatten ++ repeatEach n f l := rfl

theorem mem_repeatEach (hn : n ≠ 0) : y ∈ repeatEach n f l ↔ y ∈ l.flatMap f := by
  simp [repeatEach, mem_replicate, hn]

theorem length_repeatEach (h : ∀ x, (f x).length = m) :
    (repeatEach n f l).length = l.length * n * m := by
  induction l with
  | nil => simp [repeatEach]
  | cons x l ih =>
    rw [repeatEach_cons, length_append, ih, length_flatten, map_replicate, sum_replicate_nat, h,
      length_cons, Nat.add_mul, Nat.add_mul, Nat.one_mul, Nat.add_comm]

theorem count_repeatEach [DecidableEq β] :
    (repeatEach n f l).count y = n * (l.map fun x => (f x).count y).sum := by
  induction l with
  | nil => simp [repeatEach]
  | cons x l ih =>
    rw [repeatEach_cons, count_append, ih, count_flatten, map_replicate, sum_replicate_nat, map_cons,
      sum_cons, Nat.mul_add]

/-- The blocks of a list as often, in another order. -/
theorem repeatEach_perm [DecidableEq β] :
    (repeatEach n f l).Perm (replicate n (l.flatMap f)).flatten := by
  refine perm_iff_count.mpr fun y => ?_
  rw [count_repeatEach, count_flatten, map_replicate, sum_replicate_nat, count_flatMap]
  rfl

end Repeat

end List
