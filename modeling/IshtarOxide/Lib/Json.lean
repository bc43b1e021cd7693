import Mathlib.Algebra.Ring.Nat
import Mathlib.Algebra.BigOperators.Group.List.Basic
import Mathlib.Tactic.Common

/-!
# JSON text

What a serializer writes without white space, as bytes. In a string, a quote, a backslash and
five of the control characters have an escape of two characters; the other control characters
have one of six.

* `length_writeString`: how long a string gets, by the number of each kind.
-/

namespace Json

/-! ## Writing -/

/-- How a byte of a string is written. -/
inductive Escape
  | none
  | letter (c : UInt8)
  | hex
deriving DecidableEq, Repr

/-- The table of escapes. -/
def escapeOf (b : UInt8) : Escape :=
  if b = 34 then .letter 34
  else if b = 92 then .letter 92
  else if b = 8 then .letter 98
  else if b = 9 then .letter 116
  else if b = 10 then .letter 110
  else if b = 12 then .letter 102
  else if b = 13 then .letter 114
  else if b < 32 then .hex
  else .none

/-- A hexadecimal digit, in lower case. -/
def hexDigit (n : UInt8) : UInt8 := if n < 10 then 48 + n else 87 + n

def writeByte (b : UInt8) : List UInt8 :=
  match escapeOf b with
  | .none => [b]
  | .letter c => [92, c]
  | .hex => [92, 117, 48, 48, hexDigit (b / 16), hexDigit (b % 16)]

def writeString (s : List UInt8) : List UInt8 := 34 :: (s.flatMap writeByte ++ [34])

def writeNat (n : Nat) : List UInt8 := (Nat.toDigits 10 n).map fun c => UInt8.ofNat c.toNat

/-- The values that a flat object has. -/
inductive Value
  | number (n : Nat)
  | string (s : List UInt8)
deriving DecidableEq, Repr

def Value.write : Value → List UInt8
  | .number n => writeNat n
  | .string s => writeString s

/-- `"key":value`. -/
def writeField (field : List UInt8 × Value) : List UInt8 :=
  writeString field.1 ++ 58 :: field.2.write

/-- `{field,…,field}`. -/
def writeObject (fields : List (List UInt8 × Value)) : List UInt8 :=
  123 :: ([44].intercalate (fields.map writeField) ++ [125])

/-! ## Lengths -/

/-- The bytes with an escape of two characters: `"`, `\`, and what `\b`, `\t`, `\n`, `\f` and
`\r` stand for. -/
def twoBytes (b : UInt8) : Bool := [34, 92, 8, 9, 10, 12, 13].contains b

/-- The bytes with an escape of six characters: the other control characters. -/
def sixBytes (b : UInt8) : Bool := b < 32 && !twoBytes b

theorem escapeOf_eq (b : UInt8) : (∃ c, escapeOf b = .letter c) ∧ twoBytes b = true ∨
    escapeOf b = .hex ∧ sixBytes b = true ∨
    escapeOf b = .none ∧ twoBytes b = false ∧ sixBytes b = false := by
  by_cases htwo : b ∈ [34, 92, 8, 9, 10, 12, 13]
  · refine .inl ⟨?_, List.contains_iff_mem.mpr htwo⟩
    simp only [List.mem_cons, List.not_mem_nil, or_false] at htwo
    rcases htwo with rfl | rfl | rfl | rfl | rfl | rfl | rfl <;> exact ⟨_, rfl⟩
  · have hfalse : twoBytes b = false := by
      rw [twoBytes, Bool.eq_false_iff]
      exact fun h => htwo (List.contains_iff_mem.mp h)
    simp only [List.mem_cons, List.not_mem_nil, or_false, not_or] at htwo
    obtain ⟨h34, h92, h8, h9, h10, h12, h13⟩ := htwo
    unfold escapeOf sixBytes
    rw [if_neg h34, if_neg h92, if_neg h8, if_neg h9, if_neg h10, if_neg h12, if_neg h13, hfalse]
    by_cases hlt : b < 32
    · exact .inr (.inl ⟨if_pos hlt, by simpa using hlt⟩)
    · exact .inr (.inr ⟨if_neg hlt, rfl, by simpa using hlt⟩)

theorem sixBytes_of_twoBytes {b : UInt8} (h : twoBytes b = true) : sixBytes b = false := by
  rw [sixBytes, h, Bool.not_true, Bool.and_false]

theorem twoBytes_of_sixBytes {b : UInt8} (h : sixBytes b = true) : twoBytes b = false := by
  cases htwo : twoBytes b with
  | false => rfl
  | true => rw [sixBytes_of_twoBytes htwo] at h; cases h

theorem length_writeByte (b : UInt8) : (writeByte b).length =
    1 + (if twoBytes b then 1 else 0) + 5 * (if sixBytes b then 1 else 0) := by
  unfold writeByte
  rcases escapeOf_eq b with ⟨⟨c, hc⟩, htwo⟩ | ⟨hhex, hsix⟩ | ⟨hnone, htwo, hsix⟩
  · rw [hc, htwo, sixBytes_of_twoBytes htwo]
    rfl
  · rw [hhex, hsix, twoBytes_of_sixBytes hsix]
    rfl
  · rw [hnone, htwo, hsix]
    rfl

theorem length_flatMap_writeByte (s : List UInt8) : (s.flatMap writeByte).length =
    s.length + s.countP twoBytes + 5 * s.countP sixBytes := by
  induction s with
  | nil => rfl
  | cons b s ih =>
    rw [List.flatMap_cons, List.length_append, ih, length_writeByte, List.length_cons,
      List.countP_cons, List.countP_cons]
    omega

theorem length_writeString (s : List UInt8) : (writeString s).length =
    2 + s.length + s.countP twoBytes + 5 * s.countP sixBytes := by
  rw [writeString, List.length_cons, List.length_append, length_flatMap_writeByte,
    List.length_singleton]
  omega

/-- No byte has two escapes. -/
theorem countP_escapes_le (s : List UInt8) : s.countP twoBytes + s.countP sixBytes ≤ s.length := by
  induction s with
  | nil => exact Nat.le_refl 0
  | cons b s ih =>
    have hone : (if twoBytes b then 1 else 0) + (if sixBytes b then 1 else 0) ≤ 1 := by
      rcases escapeOf_eq b with ⟨-, htwo⟩ | ⟨-, hsix⟩ | ⟨-, htwo, hsix⟩
      · rw [htwo, sixBytes_of_twoBytes htwo]
        decide
      · rw [hsix, twoBytes_of_sixBytes hsix]
        decide
      · rw [htwo, hsix]
        decide
    rw [List.countP_cons, List.countP_cons, List.length_cons]
    omega

theorem length_writeNat (n : Nat) : (writeNat n).length = (Nat.toDigits 10 n).length :=
  List.length_map _

theorem length_writeNat_le {n k : Nat} (hk : 0 < k) (h : n < 10 ^ k) : (writeNat n).length ≤ k := by
  rw [length_writeNat]
  exact (Nat.length_toDigits_le_iff (by decide) hk).mpr h

end Json
