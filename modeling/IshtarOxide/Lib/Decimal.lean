import Mathlib.Algebra.Ring.Nat
import Mathlib.Tactic.Common

/-!
# Decimal integers

How fixed-width integers are read from text: an optional sign, at least one
digit, and an overflow check at every digit. Text is written by `Nat.repr`.
`parseUnsigned_repr` and `parseSigned_repr` say when it is read back, and
`append_repr_inj` that a number at the end of a text can be told from what is before it.
-/

namespace Decimal

inductive ParseIntError
  | empty
  | invalidDigit
  | posOverflow
  | negOverflow
deriving DecidableEq, Repr

/-- The digits `cs` after the value `acc`, with `max` as the largest value. -/
def digits (max acc : Nat) : List Char → Except ParseIntError Nat
  | [] => .ok acc
  | c :: cs =>
    if c.isDigit then
      if 10 * acc + (c.toNat - '0'.toNat) ≤ max then digits max (10 * acc + (c.toNat - '0'.toNat)) cs
      else .error .posOverflow
    else .error .invalidDigit

/-- An unsigned integer of at most `max`. A minus sign is an invalid digit. -/
def parseUnsigned (max : Nat) (s : String) : Except ParseIntError Nat :=
  match s.toList with
  | [] => .error .empty
  | ['+'] | ['-'] => .error .invalidDigit
  | '+' :: cs => digits max 0 cs
  | cs => digits max 0 cs

/-- A signed integer from `-max - 1` to `max`. -/
def parseSigned (max : Nat) (s : String) : Except ParseIntError Int :=
  match s.toList with
  | [] => .error .empty
  | ['+'] | ['-'] => .error .invalidDigit
  | '-' :: cs =>
    match digits (max + 1) 0 cs with
    | .ok n => .ok (-n)
    | .error .posOverflow => .error .negOverflow
    | .error e => .error e
  | '+' :: cs => (digits max 0 cs).map Int.ofNat
  | cs => (digits max 0 cs).map Int.ofNat

theorem le_ofDigitChars (cs : List Char) (acc : Nat) : acc ≤ Nat.ofDigitChars 10 cs acc := by
  induction cs generalizing acc with
  | nil => simp
  | cons c cs ih =>
    rw [Nat.ofDigitChars_cons]
    exact Nat.le_trans (by omega) (ih _)

/-- Digits are read to their value, or overflow. -/
theorem digits_eq {max : Nat} {cs : List Char} (hcs : ∀ c ∈ cs, c.isDigit) {acc : Nat}
    (hacc : acc ≤ max) : digits max acc cs =
      if Nat.ofDigitChars 10 cs acc ≤ max then .ok (Nat.ofDigitChars 10 cs acc)
      else .error .posOverflow := by
  induction cs generalizing acc with
  | nil => simp [digits, hacc]
  | cons c cs ih =>
    unfold digits
    rw [if_pos (hcs c List.mem_cons_self), Nat.ofDigitChars_cons]
    split
    · next hle => exact ih (fun c hc => hcs c (List.mem_cons_of_mem _ hc)) hle
    · next hgt =>
      -- the value only grows, so an overflow stays one
      rw [if_neg fun hle => hgt (Nat.le_trans (le_ofDigitChars cs _) hle)]

theorem digits_toDigits (max n : Nat) : digits max 0 (Nat.toDigits 10 n) =
    if n ≤ max then .ok n else .error .posOverflow := by
  rw [digits_eq (fun c hc => Nat.isDigit_of_mem_toDigits (by decide) (by decide) hc)
    (Nat.zero_le max), Nat.ofDigitChars_ten_toDigits]

/-- What is written for `n` is not empty and has no sign. -/
theorem repr_cons (n : Nat) :
    ∃ c cs, n.repr.toList = c :: cs ∧ c ≠ '+' ∧ c ≠ '-' := by
  rw [Nat.toList_repr]
  cases hd : Nat.toDigits 10 n with
  | nil => exact absurd hd Nat.toDigits_ne_nil
  | cons c cs =>
    have hc : c.isDigit :=
      Nat.isDigit_of_mem_toDigits (b := 10) (n := n) (by decide) (by decide) (by simp [hd])
    refine ⟨c, cs, rfl, ?_, ?_⟩
    · rintro rfl
      exact absurd hc (by decide)
    · rintro rfl
      exact absurd hc (by decide)

theorem parseUnsigned_repr (max n : Nat) : parseUnsigned max n.repr =
    if n ≤ max then .ok n else .error .posOverflow := by
  obtain ⟨c, cs, hrepr, hplus, hminus⟩ := repr_cons n
  rw [← digits_toDigits, ← Nat.toList_repr, parseUnsigned, hrepr]
  split <;> simp_all

theorem parseSigned_repr (max n : Nat) : parseSigned max n.repr =
    if n ≤ max then .ok (Int.ofNat n) else .error .posOverflow := by
  obtain ⟨c, cs, hrepr, hplus, hminus⟩ := repr_cons n
  have hdigits : (digits max 0 n.repr.toList).map Int.ofNat =
      if n ≤ max then .ok (Int.ofNat n) else .error .posOverflow := by
    rw [Nat.toList_repr, digits_toDigits]
    split <;> rfl
  rw [← hdigits, parseSigned, hrepr]
  split <;> simp_all

/-! ## A number at the end of a text -/

theorem repr_injective {n m : Nat} (h : n.repr = m.repr) : n = m := by
  have hn := parseUnsigned_repr (max n m) n
  have hm := parseUnsigned_repr (max n m) m
  rw [if_pos (Nat.le_max_left n m)] at hn
  rw [if_pos (Nat.le_max_right n m), ← h, hn] at hm
  cases hm
  rfl

theorem isDigit_of_mem_repr {n : Nat} {c : Char} (h : c ∈ n.repr.toList) : c.isDigit := by
  rw [Nat.toList_repr] at h
  exact Nat.isDigit_of_mem_toDigits (by decide) (by decide) h

/-- The last character that is no digit can be told from the digits after it. -/
theorem append_digits_inj {a a' d d' : List Char} {c c' : Char} (hd : ∀ x ∈ d, x.isDigit)
    (hd' : ∀ x ∈ d', x.isDigit) (hc : ¬ c.isDigit) (hc' : ¬ c'.isDigit)
    (h : a ++ c :: d = a' ++ c' :: d') : a = a' ∧ c = c' ∧ d = d' := by
  rcases List.append_eq_append_iff.mp h with ⟨t, rfl, ht⟩ | ⟨t, rfl, ht⟩
  · cases t with
    | nil =>
      cases ht
      exact ⟨(List.append_nil a).symm, rfl, rfl⟩
    | cons x t =>
      cases ht
      exact absurd (hd c' (List.mem_append_right _ List.mem_cons_self)) hc'
  · cases t with
    | nil =>
      cases ht
      exact ⟨List.append_nil a', rfl, rfl⟩
    | cons x t =>
      cases ht
      exact absurd (hd' c (List.mem_append_right _ List.mem_cons_self)) hc

/-- After a text that does not end in a minus sign, and one more, an integer can be told from
the text. -/
theorem append_repr_inj {a a' : List Char} {i i' : Int} (ha : a.getLast? ≠ some '-')
    (ha' : a'.getLast? ≠ some '-')
    (h : a ++ '-' :: i.repr.toList = a' ++ '-' :: i'.repr.toList) : a = a' ∧ i = i' := by
  have hminus : ¬ '-'.isDigit := by decide
  have hneg : ∀ (a : List Char) (n : Nat), a ++ '-' :: (Int.negSucc n).repr.toList =
      (a ++ ['-']) ++ '-' :: (n + 1).repr.toList := fun a n => by
    rw [Int.repr, String.toList_append, List.append_assoc]
    rfl
  cases i with
  | ofNat n =>
    cases i' with
    | ofNat m =>
      obtain ⟨rfl, -, hrepr⟩ := append_digits_inj (fun _ => isDigit_of_mem_repr)
        (fun _ => isDigit_of_mem_repr) hminus hminus h
      exact ⟨rfl, congrArg _ (repr_injective (String.toList_inj.mp hrepr))⟩
    | negSucc m =>
      rw [hneg] at h
      obtain ⟨rfl, -, -⟩ := append_digits_inj (fun _ => isDigit_of_mem_repr)
        (fun _ => isDigit_of_mem_repr) hminus hminus h
      exact absurd List.getLast?_concat ha
  | negSucc n =>
    rw [hneg] at h
    cases i' with
    | ofNat m =>
      obtain ⟨rfl, -, -⟩ := append_digits_inj (fun _ => isDigit_of_mem_repr)
        (fun _ => isDigit_of_mem_repr) hminus hminus h
      exact absurd List.getLast?_concat ha'
    | negSucc m =>
      rw [hneg] at h
      obtain ⟨hsame, -, hrepr⟩ := append_digits_inj (fun _ => isDigit_of_mem_repr)
        (fun _ => isDigit_of_mem_repr) hminus hminus h
      have hm := repr_injective (String.toList_inj.mp hrepr)
      exact ⟨List.append_cancel_right hsame, by rw [Nat.succ.inj hm]⟩

end Decimal
