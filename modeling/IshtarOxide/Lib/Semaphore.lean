import Mathlib.Algebra.Order.BigOperators.Group.List
import Mathlib.Algebra.Order.Group.Nat
import Mathlib.Algebra.Ring.Nat
import Mathlib.Data.List.Nodup
import Mathlib.Data.List.Perm.Subperm
import Mathlib.Tactic.Common

/-!
# A fair counting semaphore

Permits are handed out in the order in which tasks asked for them: a released
permit goes to the first waiter, and only a permit that nobody waits for
becomes free. Tasks are named by natural numbers. The holders are recorded, one
entry for each permit that is out, so that the number of permits is an
invariant of the type. What the operations do does not depend on the names.
-/

/-- A semaphore of `capacity` permits. -/
structure Semaphore (capacity : Nat) where
  free : Nat
  waiters : List Nat
  holders : List Nat
  balance : free + holders.length = capacity
  nodup : (waiters ++ holders).Nodup
  idle : 0 < free → waiters = []
deriving DecidableEq, Repr

namespace Semaphore

variable {c : Nat} {s : Semaphore c} {i j : Nat}

/-- All permits are free. -/
def new (c : Nat) : Semaphore c := ⟨c, [], [], by simp, by simp, fun _ => rfl⟩

/-- A task known to the semaphore: it waits for a permit or holds one. -/
def Known (s : Semaphore c) (i : Nat) : Prop := i ∈ s.waiters ++ s.holders

instance (s : Semaphore c) (i : Nat) : Decidable (s.Known i) :=
  inferInstanceAs (Decidable (i ∈ s.waiters ++ s.holders))

/-- `i` asks for a permit: it takes a free one, or joins the end of the queue. -/
def acquire (s : Semaphore c) (i : Nat) : Semaphore c :=
  if hk : s.Known i then s
  else if hf : 0 < s.free then
    { free := s.free - 1
      waiters := s.waiters
      holders := i :: s.holders
      balance := by have := s.balance; simp only [List.length_cons]; omega
      nodup := List.nodup_middle.mpr (List.nodup_cons.mpr ⟨hk, s.nodup⟩)
      idle := fun _ => s.idle hf }
  else
    { free := s.free
      waiters := s.waiters ++ [i]
      holders := s.holders
      balance := s.balance
      nodup := by
        rw [List.append_assoc, List.singleton_append]
        exact List.nodup_middle.mpr (List.nodup_cons.mpr ⟨hk, s.nodup⟩)
      idle := fun h => absurd h hf }

/-- The waiter that the next released permit goes to. -/
def next (s : Semaphore c) : Option Nat := s.waiters.head?

/-- The holder `i` drops its permit. -/
def release (s : Semaphore c) (i : Nat) : Semaphore c :=
  if hi : i ∈ s.holders then
    match hw : s.waiters with
    | [] =>
      { free := s.free + 1
        waiters := []
        holders := s.holders.erase i
        balance := by
          have := s.balance
          have := List.length_pos_of_mem hi
          rw [List.length_erase_of_mem hi]
          omega
        nodup := by
          rw [List.nil_append]
          exact (List.Nodup.of_append_right s.nodup).erase i
        idle := fun _ => rfl }
    | w :: ws =>
      { free := s.free
        waiters := ws
        holders := w :: s.holders.erase i
        balance := by
          have := s.balance
          have := List.length_pos_of_mem hi
          rw [List.length_cons, List.length_erase_of_mem hi]
          omega
        nodup := by
          have hn := s.nodup
          rw [hw, List.cons_append] at hn
          refine List.nodup_middle.mpr (hn.sublist ?_)
          exact (List.Sublist.append (List.Sublist.refl ws) List.erase_sublist).cons_cons w
        idle := fun h => absurd (s.idle h) (by simp [hw]) }
  else s

/-- The waiter `i` gives up. -/
def cancel (s : Semaphore c) (i : Nat) : Semaphore c :=
  { free := s.free
    waiters := s.waiters.erase i
    holders := s.holders
    balance := s.balance
    nodup := s.nodup.sublist (List.Sublist.append List.erase_sublist (List.Sublist.refl _))
    idle := fun h => by rw [s.idle h]; rfl }

/-! ## What the operations do -/

theorem holders_le (s : Semaphore c) : s.holders.length ≤ c := by
  have := s.balance
  omega

theorem nodup_holders (s : Semaphore c) : s.holders.Nodup := List.Nodup.of_append_right s.nodup

theorem waiter_ne_holder (hi : i ∈ s.waiters) (hj : j ∈ s.holders) : i ≠ j := by
  rintro rfl
  exact List.disjoint_of_nodup_append s.nodup hi hj

/-- A semaphore of one permit is a lock: there is one holder at most. -/
theorem holder_unique {s : Semaphore 1} (hi : i ∈ s.holders) (hj : j ∈ s.holders) : i = j := by
  have hl := s.holders_le
  match hs : s.holders with
  | [] => simp [hs] at hi
  | [x] =>
    rw [hs, List.mem_singleton] at hi hj
    rw [hi, hj]
  | x :: y :: l => simp [hs] at hl

/-- Tasks are the indices of a list. If all its members that satisfy `q` hold a
permit, there are no more of them than permits. -/
theorem countP_le {τ : Type} {l : List τ} {q : τ → Bool}
    (h : ∀ i t, l[i]? = some t → q t → i ∈ s.holders) : l.countP q ≤ c := by
  have hcount : l.countP q = ((l.zipIdx.filter fun x => q x.1).map Prod.snd).length := by
    rw [List.length_map, ← List.countP_eq_length_filter]
    conv_lhs => rw [← List.zipIdx_map_fst 0 l, List.countP_map]
    rfl
  have hnodup : ((l.zipIdx.filter fun x => q x.1).map Prod.snd).Nodup := by
    refine List.Nodup.sublist (List.filter_sublist.map Prod.snd) ?_
    rw [List.zipIdx_map_snd]
    exact List.nodup_range'
  have hsub : (l.zipIdx.filter fun x => q x.1).map Prod.snd ⊆ s.holders := by
    intro i hi
    obtain ⟨⟨t, j⟩, hx, rfl⟩ := List.mem_map.mp hi
    obtain ⟨hx, hq⟩ := List.mem_filter.mp hx
    exact h j t (List.mem_zipIdx_iff_getElem?.mp hx) hq
  rw [hcount]
  exact Nat.le_trans (hnodup.subperm hsub).length_le s.holders_le

theorem acquire_free (hk : ¬ s.Known i) (hf : 0 < s.free) :
    (s.acquire i).free = s.free - 1 ∧ (s.acquire i).waiters = s.waiters ∧
      (s.acquire i).holders = i :: s.holders := by
  simp [acquire, hk, hf]

theorem acquire_queue (hk : ¬ s.Known i) (hf : ¬ 0 < s.free) :
    (s.acquire i).free = s.free ∧ (s.acquire i).waiters = s.waiters ++ [i] ∧
      (s.acquire i).holders = s.holders := by
  simp [acquire, hk, hf]

theorem mem_holders_acquire (hk : ¬ s.Known i) :
    j ∈ (s.acquire i).holders ↔ j ∈ s.holders ∨ (j = i ∧ 0 < s.free) := by
  by_cases hf : 0 < s.free
  · rw [(acquire_free hk hf).2.2, List.mem_cons]
    exact ⟨fun h => h.elim (fun h => .inr ⟨h, hf⟩) .inl, fun h => h.elim .inr fun h => .inl h.1⟩
  · rw [(acquire_queue hk hf).2.2]
    exact ⟨.inl, fun h => h.elim id fun h => absurd h.2 hf⟩

theorem mem_waiters_acquire (hk : ¬ s.Known i) :
    j ∈ (s.acquire i).waiters ↔ j ∈ s.waiters ∨ (j = i ∧ ¬ 0 < s.free) := by
  by_cases hf : 0 < s.free
  · rw [(acquire_free hk hf).2.1]
    exact ⟨.inl, fun h => h.elim id fun h => absurd hf h.2⟩
  · rw [(acquire_queue hk hf).2.1, List.mem_append, List.mem_singleton]
    exact ⟨fun h => h.imp id fun h => ⟨h, hf⟩, fun h => h.imp id And.left⟩

theorem release_idle (hi : i ∈ s.holders) (hw : s.waiters = []) :
    (s.release i).free = s.free + 1 ∧ (s.release i).waiters = [] ∧
      (s.release i).holders = s.holders.erase i := by
  unfold release
  rw [dif_pos hi]
  split
  · exact ⟨rfl, rfl, rfl⟩
  · next h => rw [hw] at h; cases h

theorem release_handover {w : Nat} {ws : List Nat} (hi : i ∈ s.holders) (hw : s.waiters = w :: ws) :
    (s.release i).free = s.free ∧ (s.release i).waiters = ws ∧
      (s.release i).holders = w :: s.holders.erase i := by
  unfold release
  rw [dif_pos hi]
  split
  · next h => rw [hw] at h; cases h
  · next h =>
    rw [hw] at h
    cases h
    exact ⟨rfl, rfl, rfl⟩

theorem mem_holders_release (hi : i ∈ s.holders) :
    j ∈ (s.release i).holders ↔ (j ∈ s.holders ∧ j ≠ i) ∨ s.next = some j := by
  have herase : j ∈ s.holders.erase i ↔ j ∈ s.holders ∧ j ≠ i := by
    rw [s.nodup_holders.mem_erase_iff]
    exact and_comm
  cases hw : s.waiters with
  | nil => simp [(release_idle hi hw).2.2, herase, next, hw]
  | cons w ws =>
    rw [(release_handover hi hw).2.2, List.mem_cons, herase]
    simp only [next, hw, List.head?_cons, Option.some.injEq]
    exact ⟨fun h => h.elim (fun h => .inr h.symm) .inl, fun h => h.elim .inr fun h => .inl h.symm⟩

theorem waiters_release (hi : i ∈ s.holders) : (s.release i).waiters = s.waiters.tail := by
  cases hw : s.waiters with
  | nil => rw [(release_idle hi hw).2.1, List.tail_nil]
  | cons w ws => rw [(release_handover hi hw).2.1, List.tail_cons]

theorem next_mem (h : s.next = some i) : i ∈ s.waiters := List.mem_of_head? h

theorem waiters_cancel_subset : (s.cancel i).waiters ⊆ s.waiters := List.erase_subset

theorem known_acquire (h : (s.acquire i).Known j) : s.Known j ∨ j = i := by
  by_cases hk : s.Known i
  · rw [acquire, dif_pos hk] at h
    exact .inl h
  · unfold Known at h ⊢
    rw [List.mem_append, mem_waiters_acquire hk, mem_holders_acquire hk] at h
    rw [List.mem_append]
    rcases h with (h | h) | (h | h)
    · exact .inl (.inl h)
    · exact .inr h.1
    · exact .inl (.inr h)
    · exact .inr h.1

theorem known_release (h : (s.release i).Known j) : s.Known j := by
  by_cases hi : i ∈ s.holders
  · unfold Known at h ⊢
    rw [List.mem_append, waiters_release hi, mem_holders_release hi] at h
    rw [List.mem_append]
    rcases h with h | h | h
    · exact .inl (List.mem_of_mem_tail h)
    · exact .inr h.1
    · exact .inl (next_mem h)
  · rwa [release, dif_neg hi] at h

theorem known_cancel (h : (s.cancel i).Known j) : s.Known j := by
  rcases List.mem_append.mp h with h | h
  · exact List.mem_append_left _ (waiters_cancel_subset h)
  · exact List.mem_append_right _ h

theorem acquire_known (h : s.Known j ∨ j = i) : (s.acquire i).Known j := by
  by_cases hk : s.Known i
  · rw [acquire, dif_pos hk]
    exact h.elim id fun hj => hj ▸ hk
  · unfold Known
    rw [List.mem_append, mem_waiters_acquire hk, mem_holders_acquire hk]
    rcases h with h | rfl
    · exact (List.mem_append.mp h).imp .inl .inl
    · by_cases hf : 0 < s.free
      · exact .inr (.inr ⟨rfl, hf⟩)
      · exact .inl (.inr ⟨rfl, hf⟩)

theorem release_known (hne : j ≠ i) (h : s.Known j) : (s.release i).Known j := by
  by_cases hi : i ∈ s.holders
  · unfold Known
    rw [List.mem_append, waiters_release hi, mem_holders_release hi]
    rcases List.mem_append.mp h with h | h
    · cases hw : s.waiters with
      | nil =>
        rw [hw] at h
        cases h
      | cons w ws =>
        rw [hw] at h
        rcases List.mem_cons.mp h with rfl | h
        · exact .inr (.inr (by rw [Semaphore.next, hw, List.head?_cons]))
        · exact .inl h
    · exact .inr (.inl ⟨h, hne⟩)
  · rwa [release, dif_neg hi]

theorem cancel_known (hne : j ≠ i) (h : s.Known j) : (s.cancel i).Known j :=
  (List.mem_append.mp h).elim
    (fun h => List.mem_append_left _ ((List.mem_erase_of_ne hne).mpr h))
    fun h => List.mem_append_right _ h

/-- Somebody holds a permit that another one waits for. -/
theorem exists_holder (hc : 0 < c) (h : s.Known i) : ∃ j, j ∈ s.holders := by
  rcases List.mem_append.mp h with h | h
  · have hfree : ¬ 0 < s.free := fun hf => by
      rw [s.idle hf] at h
      cases h
    have hbal := s.balance
    exact List.exists_mem_of_length_pos (by omega)
  · exact ⟨i, h⟩

/-! ## Waiting for turns -/

section Turns

/-- The waiter `i` is served before the holders have had all their turns: every permit that is
passed on takes one. -/
def Served (s : Semaphore c) (turns : Nat → Nat) (i : Nat) : Prop :=
  ∃ k, s.waiters[k]? = some i ∧ k + 1 ≤ (s.holders.map turns).sum

variable {turns turns' : Nat → Nat} {w : Nat}

theorem Served.mem (h : s.Served turns i) : i ∈ s.waiters := by
  obtain ⟨k, hk, -⟩ := h
  exact List.mem_of_getElem? hk

theorem Served.congr (h : s.Served turns i) (hturns : ∀ j ∈ s.holders, turns' j = turns j) :
    s.Served turns' i := by
  obtain ⟨k, hk, hle⟩ := h
  exact ⟨k, hk, by rwa [List.map_congr_left hturns]⟩

/-- Some holder has a turn left. -/
theorem Served.exists_turn (h : s.Served turns i) : ∃ j ∈ s.holders, 0 < turns j := by
  obtain ⟨k, -, hle⟩ := h
  by_contra hnone
  push Not at hnone
  have hzero : (s.holders.map turns).sum = 0 :=
    List.sum_eq_zero fun x hx => by
      obtain ⟨j, hj, rfl⟩ := List.mem_map.mp hx
      exact Nat.le_zero.mp (hnone j hj)
  omega

/-- Whoever comes later waits behind. -/
theorem Served.acquire (h : s.Served turns i) (j : Nat) : (s.acquire j).Served turns i := by
  obtain ⟨k, hk, hle⟩ := h
  by_cases hknown : s.Known j
  · rw [Semaphore.acquire, dif_pos hknown]
    exact ⟨k, hk, hle⟩
  · have hfree : ¬ 0 < s.free := fun hf => by
      rw [s.idle hf] at hk
      cases hk
    obtain ⟨-, hwaiters, hholders⟩ := acquire_queue hknown hfree
    refine ⟨k, ?_, by rwa [hholders]⟩
    rw [hwaiters, List.getElem?_append_left (List.getElem?_eq_some_iff.mp hk).1, hk]

/-- A holder passes its permit on, and its turns but one with it. -/
theorem Served.release (h : s.Served turns i) (hj : j ∈ s.holders) (hnext : s.next = some w)
    (hpassed : turns' w + 1 = turns j) (hothers : ∀ x ∈ s.holders, x ≠ j → turns' x = turns x) :
    i = w ∨ (s.release j).Served turns' i := by
  obtain ⟨k, hk, hle⟩ := h
  obtain ⟨ws, hws⟩ := List.head?_eq_some_iff.mp hnext
  cases k with
  | zero =>
    rw [hws] at hk
    exact .inl (Option.some.inj hk).symm
  | succ k =>
    right
    obtain ⟨-, hwaiters, hholders⟩ := release_handover hj hws
    rw [hws, List.getElem?_cons_succ] at hk
    refine ⟨k, by rw [hwaiters, hk], ?_⟩
    have hrest : (s.holders.erase j).map turns' = (s.holders.erase j).map turns := by
      refine List.map_congr_left fun x hx => ?_
      obtain ⟨hne, hx⟩ := (s.nodup_holders.mem_erase_iff).mp hx
      exact hothers x hx hne
    have hsum := List.sum_map_erase turns hj
    rw [hholders, List.map_cons, List.sum_cons, hrest]
    omega

/-- With `n` turns for every holder, the queue may be `n` times as long as there are holders. -/
theorem served_of_length {n : Nat} (hi : s.waiters[j]? = some i)
    (hturns : ∀ x ∈ s.holders, n ≤ turns x) (hlen : j + 1 ≤ s.holders.length * n) :
    s.Served turns i := by
  refine ⟨j, hi, hlen.trans ?_⟩
  have hsum := List.card_nsmul_le_sum (s.holders.map turns) n fun x hx => by
    obtain ⟨y, hy, rfl⟩ := List.mem_map.mp hx
    exact hturns y hy
  rw [List.length_map] at hsum
  exact hsum

end Turns

/-! ## Other names for the tasks -/

/-- `t` is `s` with other names for the tasks. -/
structure Renames (f : Nat → Nat) (s t : Semaphore c) : Prop where
  free : t.free = s.free
  waiters : t.waiters = s.waiters.map f
  holders : t.holders = s.holders.map f

namespace Renames

variable {f : Nat → Nat} {t : Semaphore c}

theorem congr {f' : Nat → Nat} (h : Renames f s t) (hf : ∀ i, s.Known i → f' i = f i) :
    Renames f' s t where
  free := h.free
  waiters := by
    rw [h.waiters]
    exact List.map_congr_left fun i hi => (hf i (List.mem_append_left _ hi)).symm
  holders := by
    rw [h.holders]
    exact List.map_congr_left fun i hi => (hf i (List.mem_append_right _ hi)).symm

theorem next (h : Renames f s t) : t.next = s.next.map f := by
  unfold Semaphore.next
  rw [h.waiters, List.head?_map]

section Injective

variable (hf : Function.Injective f) (h : Renames f s t)

include hf h

theorem mem_holders : f i ∈ t.holders ↔ i ∈ s.holders := by
  rw [h.holders, List.mem_map_of_injective hf]

theorem known : t.Known (f i) ↔ s.Known i := by
  unfold Known
  rw [h.waiters, h.holders, ← List.map_append, List.mem_map_of_injective hf]

theorem acquire (i : Nat) : Renames f (s.acquire i) (t.acquire (f i)) := by
  by_cases hk : s.Known i
  · have hk' := (h.known hf).mpr hk
    rw [Semaphore.acquire, dif_pos hk, Semaphore.acquire, dif_pos hk']
    exact h
  · have hk' := fun hk' => hk ((h.known hf).mp hk')
    by_cases hfree : 0 < s.free
    · obtain ⟨hs₁, hs₂, hs₃⟩ := acquire_free hk hfree
      obtain ⟨ht₁, ht₂, ht₃⟩ := acquire_free hk' (h.free ▸ hfree)
      exact ⟨by rw [ht₁, hs₁, h.free], by rw [ht₂, hs₂, h.waiters],
        by rw [ht₃, hs₃, h.holders, List.map_cons]⟩
    · obtain ⟨hs₁, hs₂, hs₃⟩ := acquire_queue hk hfree
      obtain ⟨ht₁, ht₂, ht₃⟩ := acquire_queue hk' (h.free ▸ hfree)
      exact ⟨by rw [ht₁, hs₁, h.free],
        by rw [ht₂, hs₂, h.waiters, List.map_append, List.map_singleton],
        by rw [ht₃, hs₃, h.holders]⟩

theorem release (i : Nat) : Renames f (s.release i) (t.release (f i)) := by
  by_cases hi : i ∈ s.holders
  · have hi' := (h.mem_holders hf).mpr hi
    have herase : t.holders.erase (f i) = (s.holders.erase i).map f := by
      rw [h.holders, List.map_erase hf]
    cases hw : s.waiters with
    | nil =>
      obtain ⟨hs₁, hs₂, hs₃⟩ := release_idle hi hw
      obtain ⟨ht₁, ht₂, ht₃⟩ := release_idle hi' (by rw [h.waiters, hw, List.map_nil])
      exact ⟨by rw [ht₁, hs₁, h.free], by rw [ht₂, hs₂, List.map_nil],
        by rw [ht₃, hs₃, herase]⟩
    | cons w ws =>
      obtain ⟨hs₁, hs₂, hs₃⟩ := release_handover hi hw
      obtain ⟨ht₁, ht₂, ht₃⟩ := release_handover hi' (by rw [h.waiters, hw, List.map_cons])
      exact ⟨by rw [ht₁, hs₁, h.free], by rw [ht₂, hs₂], by rw [ht₃, hs₃, herase, List.map_cons]⟩
  · have hi' := fun hi' => hi ((h.mem_holders hf).mp hi')
    rw [Semaphore.release, dif_neg hi, Semaphore.release, dif_neg hi']
    exact h

theorem cancel (i : Nat) : Renames f (s.cancel i) (t.cancel (f i)) where
  free := h.free
  waiters := by
    show t.waiters.erase (f i) = (s.waiters.erase i).map f
    rw [h.waiters, List.map_erase hf]
  holders := h.holders

end Injective

end Renames

end Semaphore
