import Mathlib.Logic.Equiv.Basic
import Mathlib.Data.Option.NAry
import IshtarOxide.Lib.Tally
import IshtarOxide.Lib.Shuffle

/-!
# Shuffles within strata

The entries of a list belong to groups, given by their positions. Every group is shuffled
in place, through its positions, round after round.

* `Rearranges key l l'`: `l'` is `l` with its entries moved, each to a position with the
  same key.
* `permuteGroups_rearranges`: a round of shuffles moves entries within groups only and
  finds all of its positions.
* `Rearranges.zip_perm`: when in every group the entries or what they are paired with are
  all the same, the pairs stay the same.
-/

namespace Shuffle

variable {α β κ ι σ : Type} (source : Source σ)

/-! ## Groups -/

/-- The positions of the entries with a key. -/
def positions [DecidableEq κ] (f : α → κ) (l : List α) (key : κ) : List Nat :=
  (l.zipIdx.filter (f ·.1 = key)).map Prod.snd

theorem mem_positions [DecidableEq κ] {f : α → κ} {l : List α} {key : κ} {i : Nat} :
    i ∈ positions f l key ↔ (l[i]?).map f = some key := by
  simp only [positions, List.mem_map, List.mem_filter, decide_eq_true_eq, Option.map_eq_some_iff]
  constructor
  · rintro ⟨⟨x, j⟩, ⟨hmem, hkey⟩, rfl⟩
    exact ⟨x, List.mem_zipIdx_iff_getElem?.mp hmem, hkey⟩
  · rintro ⟨x, hx, hkey⟩
    exact ⟨(x, i), ⟨List.mem_zipIdx_iff_getElem?.mpr hx, hkey⟩, rfl⟩

/-- The groups of distinct keys that cover a list are a partition of its positions. -/
theorem positions_perm [DecidableEq κ] {f : α → κ} {l : List α} {keys : List κ} (hkeys : keys.Nodup)
    (hcover : ∀ x ∈ l, f x ∈ keys) :
    (keys.map (positions f l)).flatten.Perm (List.range l.length) := by
  have hperm := List.perm_flatMap_filter (l := l.zipIdx) (f := fun x => f x.1) hkeys
    fun x hx => hcover x.1 (List.fst_mem_of_mem_zipIdx hx)
  have hmap := hperm.map Prod.snd
  rw [List.zipIdx_map_snd, List.map_flatMap, ← List.range_eq_range'] at hmap
  rwa [← List.flatMap_def]

/-! ## Shuffling a group -/

/-- Exchanges two entries, if there are such. -/
def swap? (l : List α) (i j : Nat) : Option (List α) :=
  if i < l.length ∧ j < l.length then some (swap l i j) else none

/-- The rounds for the positions of a group from the `i`-th down to the second. -/
def permuteFrom (group : List Nat) : Nat → List α → σ → Option (List α × σ)
  | 0, l, s => some (l, s)
  | i + 1, l, s => do
    let (j, s) := source.draw s (i + 1 + 1)
    let l ← swap? l (← group[i + 1]?) (← group[j]?)
    permuteFrom group i l s

def permuteGroup (group : List Nat) (l : List α) (s : σ) : Option (List α × σ) :=
  permuteFrom source group (group.length - 1) l s

def permuteGroups (groups : List (List Nat)) (l : List α) (s : σ) : Option (List α × σ) :=
  groups.foldlM (fun x group => permuteGroup source group x.1 x.2) (l, s)

/-! ## Rearrangements -/

/-- The entries of `l` are moved to positions with the same key. -/
structure Rearranges (key : Nat → ι) (l l' : List α) : Prop where
  length : l'.length = l.length
  moved : ∃ f : Equiv.Perm Nat, (∀ i, key (f i) = key i) ∧ ∀ i, l'[i]? = l[f i]?

variable {key : Nat → ι} {l l' l'' : List α} {i j : Nat}

theorem Rearranges.refl (l : List α) : Rearranges key l l :=
  ⟨rfl, .refl Nat, fun _ => rfl, fun _ => rfl⟩

theorem Rearranges.trans (h : Rearranges key l l') (h' : Rearranges key l' l'') :
    Rearranges key l l'' := by
  obtain ⟨f, hkey, hf⟩ := h.moved
  obtain ⟨g, hkey', hg⟩ := h'.moved
  refine ⟨h'.length.trans h.length, g.trans f, fun i => ?_, fun i => ?_⟩
  · exact (hkey (g i)).trans (hkey' i)
  · exact (hg i).trans (hf (g i))

theorem getElem?_swap (hi : i < l.length) (hj : j < l.length) (k : Nat) :
    (swap l i j)[k]? = l[Equiv.swap i j k]? := by
  unfold Shuffle.swap Array.swapIfInBounds
  rw [dif_pos (by simpa using hi), dif_pos (by simpa using hj), Array.getElem?_toList,
    Array.getElem?_swap]
  by_cases hkj : j = k
  · subst hkj
    rw [if_pos rfl, Equiv.swap_apply_right, List.getElem?_eq_getElem hi, List.getElem_toArray]
  · by_cases hki : i = k
    · subst hki
      rw [if_neg hkj, if_pos rfl, Equiv.swap_apply_left, List.getElem?_eq_getElem hj,
        List.getElem_toArray]
    · rw [if_neg hkj, if_neg hki, Equiv.swap_apply_of_ne_of_ne (Ne.symm hki) (Ne.symm hkj),
        List.getElem?_toArray]

theorem Rearranges.swap (hi : i < l.length) (hj : j < l.length) (hkey : key i = key j) :
    Rearranges key l (swap l i j) where
  length := (swap_perm l i j).length_eq
  moved := by
    refine ⟨Equiv.swap i j, fun k => ?_, getElem?_swap hi hj⟩
    rw [Equiv.swap_apply_def]
    split
    · next h => rw [h, hkey]
    · split
      · next h => rw [h, hkey]
      · rfl

/-- A position of the group is exchanged with an earlier one of it. -/
theorem permuteFrom_rearranges {group : List Nat} (hrange : ∀ k ∈ group, k < l.length)
    (hkey : ∀ k ∈ group, ∀ k' ∈ group, key k = key k') (s : σ) (hi : i < group.length) :
    ∃ l' s', permuteFrom source group i l s = some (l', s') ∧ Rearranges key l l' := by
  induction i generalizing l s with
  | zero => exact ⟨l, s, rfl, .refl l⟩
  | succ i ih =>
    have hdraw := source.draw_lt s (i + 1 + 1) (Nat.succ_pos _)
    generalize hs : source.draw s (i + 1 + 1) = drawn at hdraw
    obtain ⟨j, s'⟩ := drawn
    have ha : group[i + 1]? = some group[i + 1] := List.getElem?_eq_getElem hi
    have hj : j < group.length := by omega
    have hb : group[j]? = some group[j] := List.getElem?_eq_getElem hj
    have hma := List.getElem_mem hi
    have hmb := List.getElem_mem hj
    have hswap := Rearranges.swap (hrange _ hma) (hrange _ hmb) (hkey _ hma _ hmb)
    obtain ⟨l', s'', hrun, hl'⟩ := ih (l := Shuffle.swap l group[i + 1] group[j])
      (fun k hk => by rw [hswap.length]; exact hrange k hk) s' (by omega)
    refine ⟨l', s'', ?_, hswap.trans hl'⟩
    simp only [permuteFrom, hs, ha, hb, Option.bind_eq_bind, Option.bind_some, swap?,
      if_pos (And.intro (hrange _ hma) (hrange _ hmb)), hrun]

theorem permuteGroup_rearranges {group : List Nat} (hrange : ∀ k ∈ group, k < l.length)
    (hkey : ∀ k ∈ group, ∀ k' ∈ group, key k = key k') (s : σ) :
    ∃ l' s', permuteGroup source group l s = some (l', s') ∧ Rearranges key l l' := by
  unfold permuteGroup
  cases group with
  | nil => exact ⟨l, s, rfl, .refl l⟩
  | cons k group => exact permuteFrom_rearranges source hrange hkey s (by simp)

/-- Every group is shuffled for itself, and every position of it is there. -/
theorem permuteGroups_rearranges {groups : List (List Nat)}
    (hrange : ∀ group ∈ groups, ∀ k ∈ group, k < l.length)
    (hkey : ∀ group ∈ groups, ∀ k ∈ group, ∀ k' ∈ group, key k = key k') (s : σ) :
    ∃ l' s', permuteGroups source groups l s = some (l', s') ∧ Rearranges key l l' := by
  induction groups generalizing l s with
  | nil => exact ⟨l, s, rfl, .refl l⟩
  | cons group groups ih =>
    obtain ⟨l', s', hrun, hl'⟩ := permuteGroup_rearranges source
      (hrange group List.mem_cons_self) (hkey group List.mem_cons_self) s
    have hrange' : ∀ g ∈ groups, ∀ k ∈ g, k < l'.length := by
      intro g hg k hk
      rw [hl'.length]
      exact hrange g (List.mem_cons_of_mem group hg) k hk
    obtain ⟨l'', s'', hruns, hl''⟩ := ih hrange'
      (fun g hg => hkey g (List.mem_cons_of_mem group hg)) s'
    refine ⟨l'', s'', ?_, hl'.trans hl''⟩
    rw [permuteGroups, List.foldlM_cons, hrun, Option.bind_eq_bind, Option.bind_some]
    exact hruns

/-! ## What a rearrangement keeps -/

/-- Moving positions with the same key permutes the positions of any keys. -/
theorem map_positions_perm {f : Equiv.Perm Nat} {n : Nat} {p : ι → Bool}
    (hkey : ∀ i, key (f i) = key i) (hrange : ∀ i, f i < n ↔ i < n) :
    (((List.range n).filter fun i => p (key i)).map f).Perm
      ((List.range n).filter fun i => p (key i)) := by
  refine (List.perm_ext_iff_of_nodup ?_ ?_).mpr fun i => ?_
  · exact (List.nodup_range.filter _).map f.injective
  · exact List.nodup_range.filter _
  · simp only [List.mem_map, List.mem_filter, List.mem_range]
    constructor
    · rintro ⟨j, ⟨hj, hp⟩, rfl⟩
      exact ⟨(hrange j).mpr hj, by rw [hkey]; exact hp⟩
    · rintro ⟨hi, hp⟩
      refine ⟨f.symm i, ⟨?_, ?_⟩, f.apply_symm_apply i⟩
      · rw [← hrange, f.apply_symm_apply]
        exact hi
      · rw [← hkey, f.apply_symm_apply]
        exact hp

theorem Rearranges.range (h : Rearranges key l l') {f : Equiv.Perm Nat}
    (hf : ∀ i, l'[i]? = l[f i]?) (i : Nat) : f i < l.length ↔ i < l.length := by
  rw [← Nat.not_le, ← Nat.not_le, ← List.getElem?_eq_none_iff, ← hf, List.getElem?_eq_none_iff,
    h.length]

theorem Rearranges.mem {x : α} (h : Rearranges key l l') (hx : x ∈ l') : x ∈ l := by
  obtain ⟨f, -, hf⟩ := h.moved
  obtain ⟨i, hi⟩ := List.mem_iff_getElem?.mp hx
  rw [hf] at hi
  exact List.mem_of_getElem? hi

theorem map_some_eq (l : List α) : l.map some = (List.range l.length).map (l[·]?) := by
  refine List.ext_getElem (by simp) fun i hi hi' => ?_
  rw [List.length_map] at hi
  simp [hi]

/-- The pairs with `d` stay the same when in every group the entries of `l` or those of `d`
are all the same. -/
theorem Rearranges.zip_perm (h : Rearranges key l l') {d : List β} (hd : d.length = l.length)
    (hconst : ∀ k, (∀ i j, key i = k → key j = k → l[i]? = l[j]?) ∨
      ∀ i j, key i = k → key j = k → d[i]? = d[j]?) : (l'.zip d).Perm (l.zip d) := by
  classical
  obtain ⟨f, hkey, hf⟩ := h.moved
  let p : ι → Bool := fun k => decide (∀ i j, key i = k → key j = k → d[i]? = d[j]?)
  have hpair : ∀ (x : List α) (i : Nat), (x.zip d)[i]? = Option.map₂ Prod.mk x[i]? d[i]? := by
    intro x i
    rw [List.zip, List.getElem?_zipWith]
    cases x[i]? <;> cases d[i]? <;> rfl
  -- where `d` is constant, a pair moves with its entry; elsewhere the entries are the same
  have hmoved : ∀ i ∈ (List.range l.length).filter fun i => p (key i),
      (l'.zip d)[i]? = (l.zip d)[f i]? := by
    intro i hi
    have hp : ∀ a b, key a = key i → key b = key i → d[a]? = d[b]? := by
      simpa [p] using (List.mem_filter.mp hi).2
    rw [hpair, hpair, hf, hp i (f i) rfl (hkey i)]
  have hfixed : ∀ i ∈ (List.range l.length).filter fun i => !p (key i),
      (l'.zip d)[i]? = (l.zip d)[i]? := by
    intro i hi
    have hp : ¬ ∀ a b, key a = key i → key b = key i → d[a]? = d[b]? := by
      simpa [p] using (List.mem_filter.mp hi).2
    have hl := (hconst (key i)).resolve_right hp
    rw [hpair, hpair, hf, hl (f i) i (hkey i) rfl]
  have hlen : ∀ x : List α, x.length = l.length → (x.zip d).length = l.length := by
    intro x hx
    rw [List.length_zip, hx, hd, Nat.min_self]
  have hsplit : (((List.range l.length).filter fun i => p (key i)) ++
      (List.range l.length).filter fun i => !p (key i)).Perm (List.range l.length) :=
    List.filter_append_perm _ _
  have hperm : ((List.range l.length).map ((l'.zip d)[·]?)).Perm
      ((List.range l.length).map ((l.zip d)[·]?)) := by
    refine ((hsplit.map _).symm.trans ?_).trans (hsplit.map _)
    rw [List.map_append, List.map_append, List.map_congr_left hmoved, List.map_congr_left hfixed]
    refine List.Perm.append_right _ ?_
    have hcomp := (map_positions_perm (p := p) hkey (h.range hf)).map ((l.zip d)[·]?)
    rwa [List.map_map] at hcomp
  rw [← hlen l' h.length, ← map_some_eq, hlen l' h.length, ← hlen l rfl, ← map_some_eq] at hperm
  simpa using hperm.filterMap id

/-- The entries are permuted within the keys. -/
theorem Rearranges.zip_keys_perm {keys : List κ} (h : Rearranges (fun i => keys[i]?) l l')
    (hlen : keys.length = l.length) : (l'.zip keys).Perm (l.zip keys) :=
  h.zip_perm hlen fun _ => .inr fun _ _ hi hj => hi.trans hj.symm

/-! ## Permutation tests -/

/-- Where a permutation test stands: the labels, the generator, the estimates so far and how
many of them were extreme. -/
structure Progress (α κ σ : Type) where
  labels : List α
  state : σ
  estimates : List κ
  atLeast : Nat

/-- One iteration. `estimate` is of the labels, if it finds its way, and `extreme` is the test
of an estimate. -/
def iteration (groups : List (List Nat)) (estimate : List α → Option κ) (extreme : κ → Bool)
    (x : Progress α κ σ) : Option (Progress α κ σ) := do
  let (labels, state) ← permuteGroups source groups x.labels x.state
  let e ← estimate labels
  return ⟨labels, state, x.estimates ++ [e], if extreme e then x.atLeast + 1 else x.atLeast⟩

def iterations (groups : List (List Nat)) (estimate : List α → Option κ) (extreme : κ → Bool)
    (x : Progress α κ σ) : Nat → Option (Progress α κ σ)
  | 0 => some x
  | n + 1 => (iterations groups estimate extreme x n).bind
      (iteration source groups estimate extreme)

section Test

variable {groups : List (List Nat)} {estimate : List α → Option κ} (extreme : κ → Bool)
  {x : Progress α κ σ}

/-- Every iteration rearranges the labels within the groups and adds an estimate. -/
theorem iterations_spec (hrange : ∀ group ∈ groups, ∀ k ∈ group, k < x.labels.length)
    (hkey : ∀ group ∈ groups, ∀ k ∈ group, ∀ k' ∈ group, key k = key k')
    (hestimate : ∀ l, Rearranges key x.labels l → ∃ e, estimate l = some e) (n : Nat) :
    ∃ y, iterations source groups estimate extreme x n = some y ∧
      Rearranges key x.labels y.labels ∧ y.estimates.length = x.estimates.length + n ∧
      x.atLeast ≤ y.atLeast ∧ y.atLeast ≤ x.atLeast + n ∧
      ((∀ l e, Rearranges key x.labels l → estimate l = some e → extreme e) →
        y.atLeast = x.atLeast + n) := by
  induction n with
  | zero => exact ⟨x, rfl, .refl _, rfl, Nat.le_refl _, Nat.le_refl _, fun _ => rfl⟩
  | succ n ih =>
    obtain ⟨y, hy, hlabels, hlen, hle, hge, hall⟩ := ih
    obtain ⟨l, s, hrun, hl⟩ := permuteGroups_rearranges source
      (fun group hg k hk => by rw [hlabels.length]; exact hrange group hg k hk) hkey y.state
    obtain ⟨e, he⟩ := hestimate l (hlabels.trans hl)
    refine ⟨⟨l, s, y.estimates ++ [e], if extreme e then y.atLeast + 1 else y.atLeast⟩, ?_,
      hlabels.trans hl, ?_, ?_, ?_, ?_⟩
    · simp only [iterations, hy, Option.bind_some, iteration, hrun, Option.bind_eq_bind, he,
        Option.pure_def]
    · rw [List.length_append, List.length_singleton, hlen, Nat.add_assoc]
    · dsimp only
      split <;> omega
    · dsimp only
      split <;> omega
    · intro hextreme
      dsimp only
      rw [if_pos (hextreme l e (hlabels.trans hl) he), hall hextreme, Nat.add_assoc]

/-- The iterations add the estimates of rearranged labels, and count the extreme ones. -/
theorem iterations_estimates (hrange : ∀ group ∈ groups, ∀ k ∈ group, k < x.labels.length)
    (hkey : ∀ group ∈ groups, ∀ k ∈ group, ∀ k' ∈ group, key k = key k') {n : Nat}
    {y : Progress α κ σ} (h : iterations source groups estimate extreme x n = some y) :
    Rearranges key x.labels y.labels ∧ ∃ new, y.estimates = x.estimates ++ new ∧
      new.length = n ∧ y.atLeast = x.atLeast + new.countP extreme ∧
      ∀ e ∈ new, ∃ l, Rearranges key x.labels l ∧ estimate l = some e := by
  induction n generalizing y with
  | zero =>
    cases h
    exact ⟨.refl _, [], (List.append_nil _).symm, rfl, rfl, nofun⟩
  | succ n ih =>
    obtain ⟨z, hz, hstep⟩ := Option.bind_eq_some_iff.mp h
    obtain ⟨hlabels, new, hnew, hlen, hcount, hmem⟩ := ih hz
    simp only [iteration, Option.bind_eq_bind, Option.bind_eq_some_iff] at hstep
    obtain ⟨⟨l, s⟩, hrun, e, he, hy⟩ := hstep
    cases hy
    obtain ⟨l', s', hrun', hl⟩ := permuteGroups_rearranges source
      (fun group hg k hk => by rw [hlabels.length]; exact hrange group hg k hk) hkey z.state
    cases hrun.symm.trans hrun'
    refine ⟨hlabels.trans hl, new ++ [e], ?_, ?_, ?_, fun e' he' => ?_⟩
    · rw [hnew, List.append_assoc]
    · rw [List.length_append, List.length_singleton, hlen]
    · dsimp only
      rw [List.countP_append, List.countP_singleton, hcount]
      split <;> omega
    · rcases List.mem_append.mp he' with he' | he'
      · exact hmem e' he'
      · rw [List.mem_singleton.mp he']
        exact ⟨l, hlabels.trans hl, he⟩

section States

variable {source} {P : σ → Prop} {s s' : σ} (hdraw : ∀ s n, P s → P (source.draw s n).2)

include hdraw

theorem permuteFrom_state {group : List Nat} (hs : P s)
    (h : permuteFrom source group i l s = some (l', s')) : P s' := by
  induction i generalizing l s with
  | zero =>
    cases h
    exact hs
  | succ i ih =>
    simp only [permuteFrom, Option.bind_eq_bind, Option.bind_eq_some_iff] at h
    obtain ⟨_, -, _, -, _, -, h⟩ := h
    exact ih (hdraw s _ hs) h

theorem permuteGroups_state (hs : P s) (h : permuteGroups source groups l s = some (l', s')) :
    P s' := by
  induction groups generalizing l s with
  | nil =>
    cases h
    exact hs
  | cons group groups ih =>
    rw [permuteGroups, List.foldlM_cons, Option.bind_eq_bind, Option.bind_eq_some_iff] at h
    obtain ⟨⟨l₁, s₁⟩, hgroup, h⟩ := h
    exact ih (permuteFrom_state hdraw hs hgroup) h

theorem iterations_state {y : Progress α κ σ} {n : Nat} (hs : P x.state)
    (h : iterations source groups estimate extreme x n = some y) : P y.state := by
  induction n generalizing y with
  | zero =>
    cases h
    exact hs
  | succ n ih =>
    obtain ⟨z, hz, h⟩ := Option.bind_eq_some_iff.mp h
    simp only [iteration, Option.bind_eq_bind, Option.bind_eq_some_iff] at h
    obtain ⟨⟨l, t⟩, hgroups, _, -, h⟩ := h
    cases h
    exact permuteGroups_state hdraw (ih hz) hgroups

end States

end Test

end Shuffle
