import Mathlib.Algebra.Ring.Nat
import Mathlib.Tactic.Common

/-!
# System call filters

A filter has, for some system calls, a list of alternative rules; the
conditions of a rule are conjoined, and a system call with no rules at all is
allowed whatever its arguments are. Everything else kills the process. A filter
sees the raw 64-bit argument registers; a condition compares all of one or its
low 32 bits.
-/

namespace Seccomp

/-- The argument registers are numbered from 0 to 5. -/
instance instNeZeroArgs : NeZero 6 := ⟨Nat.succ_ne_zero 5⟩

/-- A system call as a filter sees it. -/
structure Call (ν : Type) where
  nr : ν
  args : Fin 6 → BitVec 64

inductive ArgLen
  | dword
  | qword
deriving DecidableEq, Repr

inductive CmpOp
  | eq
  | le
  | maskedEq (mask : BitVec 64)
deriving DecidableEq, Repr

/-- A condition on one argument register. -/
structure Condition where
  arg : Fin 6
  len : ArgLen
  op : CmpOp
  value : BitVec 64
deriving DecidableEq, Repr

def CmpOp.test {w : Nat} (op : CmpOp) (x value : BitVec w) : Bool :=
  match op with
  | .eq => x == value
  | .le => x ≤ value
  | .maskedEq mask => (x &&& mask.setWidth w) == value

def Condition.holds (c : Condition) (args : Fin 6 → BitVec 64) : Bool :=
  match c.len with
  | .dword => c.op.test ((args c.arg).setWidth 32) (c.value.setWidth 32)
  | .qword => c.op.test (args c.arg) c.value

/-- The conditions of a rule are conjoined. -/
abbrev Rule := List Condition

def Rule.holds (r : Rule) (args : Fin 6 → BitVec 64) : Bool := r.all fun c => c.holds args

/-- A filter over the system calls named by `ν`. -/
structure Filter (ν : Type) where
  rules : List (ν × List Rule)
deriving DecidableEq, Repr

variable {ν : Type} [BEq ν]

/-- The call passes: no match kills. -/
def Filter.allows (f : Filter ν) (call : Call ν) : Bool :=
  match f.rules.lookup call.nr with
  | none => false
  | some [] => true
  | some rules => rules.any fun r => Rule.holds r call.args

/-! ## Arguments that fit 32 bits -/

/-- A mask below 2^32 makes no difference between an argument and its low half. -/
theorem maskedEq_dword {x mask value : BitVec 64} (hm : mask.toNat < 2 ^ 32)
    (hv : value.toNat < 2 ^ 32)
    (h : CmpOp.test (.maskedEq mask) (x.setWidth 32) (value.setWidth 32) = true) :
    x &&& mask = value := by
  have h := congrArg BitVec.toNat (beq_iff_eq.mp h)
  rw [BitVec.toNat_and, BitVec.toNat_setWidth, BitVec.toNat_setWidth, BitVec.toNat_setWidth,
    ← Nat.and_mod_two_pow, Nat.mod_eq_of_lt hv,
    Nat.mod_eq_of_lt (Nat.lt_of_le_of_lt Nat.and_le_right hm)] at h
  exact BitVec.eq_of_toNat_eq (by rw [BitVec.toNat_and, h])

theorem eq_dword {x value : BitVec 64}
    (h : CmpOp.test .eq (x.setWidth 32) (value.setWidth 32) = true) :
    x.toNat % 2 ^ 32 = value.toNat % 2 ^ 32 := by
  have h := congrArg BitVec.toNat (beq_iff_eq.mp h)
  simpa only [BitVec.toNat_setWidth] using h

end Seccomp
