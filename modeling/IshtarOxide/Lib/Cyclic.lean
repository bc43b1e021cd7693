import Mathlib.Algebra.Ring.Nat
import Mathlib.Data.List.Basic

/-!
# Cyclic texts

A text that is repeated without end, and what can be read of it in pieces.

* `getElem?_cyclic`: the entry at every place.
* `cyclic_add`: a piece that begins anywhere is what comes after the text before it.
* `flatMap_window`: pieces of the same length, one after the other.
-/

namespace List

variable {α : Type*} {text : List α} {d : α} {k n m : Nat}

/-- The first `n` entries of a text that is repeated. -/
def cyclic (text : List α) (n : Nat) : List α := (replicate n text).flatten.take n

/-- The `n` entries of a text that is repeated, from the place `start` on. -/
def window (text : List α) (d : α) (start n : Nat) : List α :=
  (range n).map fun k => text.getD ((start + k) % text.length) d

theorem getElem?_flatten_replicate (h : k < n * text.length) :
    (replicate n text).flatten[k]? = text[k % text.length]? := by
  induction n generalizing k with
  | zero =>
    rw [Nat.zero_mul] at h
    cases h
  | succ n ih =>
    rw [replicate_succ, flatten_cons]
    by_cases hk : k < text.length
    · rw [getElem?_append_left hk, Nat.mod_eq_of_lt hk]
    · rw [Nat.succ_mul] at h
      rw [getElem?_append_right (by omega), ih (by omega), ← Nat.mod_eq_sub_mod (by omega)]

theorem getElem?_cyclic (h : k < n) : (text.cyclic n)[k]? = text[k % text.length]? := by
  rw [cyclic, getElem?_take_of_lt h]
  rcases Nat.eq_zero_or_pos text.length with hzero | hpos
  · rw [eq_nil_of_length_eq_zero hzero]
    simp
  · exact getElem?_flatten_replicate (Nat.lt_of_lt_of_le h (Nat.le_mul_of_pos_right n hpos))

theorem length_cyclic (h : text ≠ []) (n : Nat) : (text.cyclic n).length = n := by
  have hpos : 0 < text.length := length_pos_iff.mpr h
  have hle : n ≤ n * text.length := Nat.le_mul_of_pos_right n hpos
  rw [cyclic, length_take, length_flatten, map_replicate, sum_replicate_nat, Nat.min_eq_left hle]

@[simp] theorem length_window (start n : Nat) : (text.window d start n).length = n := by
  rw [window, length_map, length_range]

theorem getElem?_window (h : text ≠ []) (start : Nat) (hk : k < n) :
    (text.window d start n)[k]? = text[(start + k) % text.length]? := by
  have hlt : (start + k) % text.length < text.length := Nat.mod_lt _ (length_pos_iff.mpr h)
  simp [window, hk, hlt]

/-- What comes after the first `m` entries. -/
theorem cyclic_add (h : text ≠ []) (d : α) (m n : Nat) :
    text.cyclic (m + n) = text.cyclic m ++ text.window d m n := by
  have hlen := length_cyclic h
  refine ext_getElem? fun k => ?_
  by_cases hk : k < m + n
  · rw [getElem?_cyclic hk]
    by_cases hm : k < m
    · rw [getElem?_append_left (by rw [hlen]; exact hm), getElem?_cyclic hm]
    · rw [getElem?_append_right (by rw [hlen]; omega), hlen, getElem?_window h m (by omega),
        Nat.add_sub_cancel' (by omega)]
  · rw [getElem?_eq_none (by rw [hlen]; omega),
      getElem?_eq_none (by rw [length_append, hlen, length_window]; omega)]

/-- Pieces of the length `b`, each from where the one before ends. -/
theorem flatMap_window (h : text ≠ []) (d : α) (b n : Nat) :
    ((range n).flatMap fun k => text.window d (k * b) b) = text.cyclic (n * b) := by
  induction n with
  | zero =>
    rw [Nat.zero_mul]
    rfl
  | succ n ih =>
    rw [range_succ, flatMap_append, flatMap_singleton, ih, Nat.succ_mul, cyclic_add h d]

/-- Only the place within the text matters. -/
theorem window_mod (start n : Nat) :
    text.window d (start % text.length) n = text.window d start n := by
  simp only [window, Nat.mod_add_mod]

end List
