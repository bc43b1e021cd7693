import Mathlib.Algebra.Ring.Nat
import Mathlib.Tactic.Common

/-!
# Fallible computations

How a sequence of fallible steps is run forwards (`ok_bind`, `error_bind`) and
taken apart backwards (`bind_eq_ok`), without unfolding the monad; and programs that
may panic, for want of room in a vector, or not come to an end.
-/

namespace Except

variable {ε ε' α β : Type}

@[simp] theorem ok_bind (a : α) (f : α → Except ε β) : (Except.ok a >>= f) = f a := rfl

@[simp] theorem error_bind (e : ε) (f : α → Except ε β) :
    (Except.error e >>= f) = Except.error e := rfl

@[simp] theorem throw_bind (e : ε) (f : α → Except ε β) :
    ((throw e : Except ε α) >>= f) = Except.error e := rfl

@[simp] theorem pure_eq_ok (a : α) : (pure a : Except ε α) = Except.ok a := rfl

@[simp] theorem mapError_ok (f : ε → ε') (a : α) : (Except.ok a).mapError f = Except.ok a := rfl

@[simp] theorem mapError_error (f : ε → ε') (e : ε) :
    (Except.error e : Except ε α).mapError f = Except.error (f e) := rfl

theorem bind_eq_ok {x : Except ε α} {f : α → Except ε β} {b : β} :
    x >>= f = Except.ok b ↔ ∃ a, x = Except.ok a ∧ f a = Except.ok b := by
  cases x with
  | error e => exact ⟨nofun, fun ⟨_, h, _⟩ => nomatch h⟩
  | ok a => exact ⟨fun h => ⟨a, rfl, h⟩, fun ⟨_, ha, h⟩ => by cases ha; exact h⟩

theorem mapError_eq_ok {x : Except ε α} {f : ε → ε'} {a : α} :
    x.mapError f = Except.ok a ↔ x = Except.ok a := by
  cases x with
  | error e => exact ⟨nofun, nofun⟩
  | ok b => exact ⟨fun h => by cases h; rfl, fun h => by cases h; rfl⟩

theorem map_eq_ok {x : Except ε α} {f : α → β} {b : β} :
    x.map f = Except.ok b ↔ ∃ a, x = Except.ok a ∧ f a = b := by
  cases x with
  | error e => exact ⟨nofun, fun ⟨_, h, _⟩ => nomatch h⟩
  | ok a =>
    exact ⟨fun h => ⟨a, rfl, by cases h; rfl⟩, fun ⟨_, ha, h⟩ => by cases ha; exact congrArg _ h⟩

/-- A pass succeeds when all of its checks do. -/
theorem forM_eq_ok_iff {f : α → Except ε Unit} {l : List α} :
    l.forM f = .ok () ↔ ∀ x ∈ l, f x = .ok () := by
  induction l with
  | nil => exact ⟨fun _ _ hx => absurd hx List.not_mem_nil, fun _ => rfl⟩
  | cons x l ih =>
    show (f x >>= fun _ => l.forM f) = .ok () ↔ _
    rw [bind_eq_ok, List.forall_mem_cons, ← ih]
    constructor
    · rintro ⟨_, hx, hl⟩
      exact ⟨hx, hl⟩
    · rintro ⟨hx, hl⟩
      exact ⟨(), hx, hl⟩

theorem forM_eq_ok {f : α → Except ε Unit} {l : List α} (h : ∀ x ∈ l, f x = .ok ()) :
    l.forM f = .ok () :=
  forM_eq_ok_iff.mpr h

end Except

/-! ## Programs that stop -/

/-- How a program ends without a result: with an error, with a panic, or not within the
rounds that its loop was given. -/
inductive Stop
  | error (message : String)
  | panic
  | running
deriving DecidableEq, Repr

/-- The most bytes that a vector holds, `isize::MAX`. -/
def Vec.maxBytes : Nat := 2 ^ 63 - 1

/-- Room in a vector for `len` entries of so many bytes each. A "capacity overflow" is a
panic. -/
def Vec.reserve (size len : Nat) : Except Stop Unit :=
  if len * size ≤ Vec.maxBytes then .ok () else .error .panic

theorem Vec.reserve_eq_ok {size len : Nat} {u : Unit} :
    Vec.reserve size len = .ok u ↔ len * size ≤ Vec.maxBytes := by
  unfold Vec.reserve
  split
  · next h => simp [h]
  · next h => simp [h]
