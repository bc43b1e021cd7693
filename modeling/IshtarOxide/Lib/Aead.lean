import Mathlib.Algebra.Ring.Nat
import Mathlib.Tactic.Common

/-!
# Authenticated encryption

An AEAD as its users see it: opening undoes sealing and nothing else opens.
`ofStream` builds one from a keystream and a tag over the masked text, which is
how the counter-mode constructions are made.
-/

/-- Authenticated encryption with associated data, with tags of 16 bytes. -/
structure Aead where
  sealInPlace : (key nonce aad plaintext : List UInt8) → List UInt8
  openInPlace : (key nonce aad ciphertext : List UInt8) → Option (List UInt8)
  openInPlace_eq_some : ∀ {key nonce aad ciphertext plaintext},
    openInPlace key nonce aad ciphertext = some plaintext ↔
      ciphertext = sealInPlace key nonce aad plaintext
  length_sealInPlace : ∀ {key nonce aad plaintext},
    (sealInPlace key nonce aad plaintext).length = plaintext.length + 16

namespace Aead

attribute [simp] length_sealInPlace

@[simp] theorem openInPlace_sealInPlace (aead : Aead) (key nonce aad plaintext : List UInt8) :
    aead.openInPlace key nonce aad (aead.sealInPlace key nonce aad plaintext) = some plaintext :=
  aead.openInPlace_eq_some.mpr rfl

/-- The text under a keystream. -/
def mask (keystream : Nat → UInt8) (text : List UInt8) : List UInt8 :=
  text.mapIdx fun i b => b ^^^ keystream i

@[simp] theorem length_mask (keystream : Nat → UInt8) (text : List UInt8) :
    (mask keystream text).length = text.length := by
  simp [mask]

@[simp] theorem mask_mask (keystream : Nat → UInt8) (text : List UInt8) :
    mask keystream (mask keystream text) = text := by
  apply List.ext_getElem
  · simp
  · intro i _ _
    have hcancel : text[i] ^^^ keystream i ^^^ keystream i = text[i] := by
      rw [UInt8.xor_assoc, UInt8.xor_self, UInt8.xor_zero]
    simp only [mask, List.getElem_mapIdx, hcancel]

section Stream

variable (keystream : (key nonce : List UInt8) → Nat → UInt8)
  (tag : (key nonce aad masked : List UInt8) → Vector UInt8 16)

/-- The AEAD of a keystream and a tag over the masked text. -/
def ofStream : Aead where
  sealInPlace key nonce aad plaintext :=
    mask (keystream key nonce) plaintext ++
      (tag key nonce aad (mask (keystream key nonce) plaintext)).toList
  openInPlace key nonce aad ciphertext :=
    let masked := ciphertext.take (ciphertext.length - 16)
    if ciphertext = masked ++ (tag key nonce aad masked).toList
    then some (mask (keystream key nonce) masked)
    else none
  openInPlace_eq_some := by
    intro key nonce aad ciphertext plaintext
    constructor
    · intro h
      obtain ⟨hc, hp⟩ := Option.ite_none_right_eq_some.mp h
      cases hp
      rw [mask_mask]
      exact hc
    · intro h
      subst h
      simp
  length_sealInPlace := by simp

end Stream

end Aead
