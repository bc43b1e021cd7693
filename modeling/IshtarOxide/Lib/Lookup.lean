import Mathlib.Data.List.Basic
import Mathlib.Data.List.Forall2
import Mathlib.Tactic.Common

/-!
# Loops that look entries up

Loops over a list whose steps look entries of another one up by their positions, and what
they come to when every lookup finds something.

* `exists_mapM`, `foldlM_concat`, `foldlM_set`: the loops that collect and the one that writes back.
* `mapM_indexesWhere`: the entries at the positions that were filtered out.
-/

namespace List

variable {α β : Type} {l : List α}

/-! ## Collecting -/

/-- A step that succeeds for every entry. -/
theorem exists_mapM {f : α → Option β} {P : α → β → Prop}
    (h : ∀ x ∈ l, ∃ y, f x = some y ∧ P x y) : ∃ ys, l.mapM f = some ys ∧ Forall₂ P l ys := by
  induction l with
  | nil => exact ⟨[], rfl, .nil⟩
  | cons x l ih =>
    obtain ⟨y, hy, hP⟩ := h x mem_cons_self
    obtain ⟨ys, hys, hPs⟩ := ih fun z hz => h z (mem_cons_of_mem x hz)
    refine ⟨y :: ys, ?_, .cons hP hPs⟩
    rw [mapM_cons, hy, hys]
    rfl

/-- The results of lookups, entry by entry. -/
theorem forall₂_of_mapM {f : α → Option β} {ys : List β} (h : l.mapM f = some ys) :
    Forall₂ (fun x y => f x = some y) l ys := by
  induction l generalizing ys with
  | nil =>
    cases h
    exact .nil
  | cons x l ih =>
    rw [mapM_cons, Option.bind_eq_bind, Option.bind_eq_some_iff] at h
    obtain ⟨y, hy, h⟩ := h
    obtain ⟨ys', hys', h⟩ := Option.bind_eq_some_iff.mp h
    cases h
    exact .cons hy (ih hys')

/-- A loop that adds at most one entry in a round. -/
theorem foldlM_concat {step : List β → α → Option (List β)} {f : α → Option β}
    (h : ∀ x ∈ l, ∀ acc, step acc x = some (acc ++ (f x).toList)) (acc : List β) :
    l.foldlM step acc = some (acc ++ l.filterMap f) := by
  induction l generalizing acc with
  | nil => rw [filterMap_nil, append_nil]; rfl
  | cons x l ih =>
    rw [foldlM_cons, h x mem_cons_self acc, Option.bind_eq_bind, Option.bind_some,
      ih (fun y hy => h y (mem_cons_of_mem x hy)), append_assoc]
    cases hx : f x with
    | none => rw [filterMap_cons_none hx, Option.toList_none, nil_append]
    | some y => rw [filterMap_cons_some hx, Option.toList_some, singleton_append]

/-- What is collected from the entries that give something. -/
theorem forall₂_filterMap {f : α → Option β} {p : α → Bool}
    (h : ∀ x ∈ l, (f x).isSome = p x) :
    Forall₂ (fun x y => f x = some y) (l.filter p) (l.filterMap f) := by
  induction l with
  | nil => exact .nil
  | cons x l ih =>
    have hx := h x mem_cons_self
    have hl := ih fun y hy => h y (mem_cons_of_mem x hy)
    cases hf : f x with
    | none =>
      rw [hf, Option.isSome_none] at hx
      rw [filterMap_cons_none hf, filter_cons_of_neg (by simp [← hx])]
      exact hl
    | some y =>
      rw [hf, Option.isSome_some] at hx
      rw [filterMap_cons_some hf, filter_cons_of_pos hx.symm]
      exact .cons hf hl

/-! ## Positions -/

/-- The positions of some of the entries. -/
def indexesWhere (p : α → Bool) (l : List α) : List Nat :=
  (l.zipIdx.filter fun x => p x.1).map Prod.snd

theorem mem_indexesWhere {p : α → Bool} {i : Nat} :
    i ∈ indexesWhere p l ↔ ∃ x, l[i]? = some x ∧ p x = true := by
  simp only [indexesWhere, mem_map, mem_filter]
  constructor
  · rintro ⟨⟨x, j⟩, ⟨hmem, hp⟩, rfl⟩
    exact ⟨x, mem_zipIdx_iff_getElem?.mp hmem, hp⟩
  · rintro ⟨x, hx, hp⟩
    exact ⟨(x, i), ⟨mem_zipIdx_iff_getElem?.mpr hx, hp⟩, rfl⟩

theorem mapM_indexesWhere (p : α → Bool) (l : List α) :
    (indexesWhere p l).mapM (l[·]?) = some (l.filter p) := by
  have hlookup : ∀ x ∈ l.zipIdx.filter fun x => p x.1, l[x.2]? = some x.1 :=
    fun x hx => mem_zipIdx_iff_getElem?.mp (mem_filter.mp hx).1
  have hmap : (l.zipIdx.filter fun x => p x.1).map Prod.fst = l.filter p := by
    conv_rhs => rw [← zipIdx_map_fst 0 l, filter_map]
    rfl
  rw [← hmap, indexesWhere]
  generalize l.zipIdx.filter (fun x => p x.1) = positions at hlookup
  induction positions with
  | nil => rfl
  | cons x positions ih =>
    rw [map_cons, mapM_cons, hlookup x mem_cons_self,
      ih fun y hy => hlookup y (mem_cons_of_mem x hy)]
    rfl

/-- Writing to positions of the list, each time what the entry becomes. -/
theorem foldlM_set {f : α → α} (hf : ∀ x, f (f x) = f x) {indexes : List Nat}
    (h : ∀ i ∈ indexes, i < l.length) :
    ∃ l', indexes.foldlM (fun l i => (l[i]?).map fun x => l.set i (f x)) l = some l' ∧
      ∀ i, l'[i]? = (l[i]?).map fun x => if i ∈ indexes then f x else x := by
  induction indexes generalizing l with
  | nil => exact ⟨l, rfl, fun i => by simp⟩
  | cons i indexes ih =>
    have hi := h i mem_cons_self
    obtain ⟨l', hl', hget⟩ := ih (l := l.set i (f l[i])) fun j hj => by
      rw [length_set]
      exact h j (mem_cons_of_mem i hj)
    refine ⟨l', ?_, fun j => ?_⟩
    · rw [foldlM_cons, getElem?_eq_getElem hi, Option.map_some, Option.bind_eq_bind,
        Option.bind_some, hl']
    · rw [hget j, getElem?_set]
      by_cases hij : i = j
      · subst hij
        simp [hi, hf]
      · simp [hij, Ne.symm hij]

end List
