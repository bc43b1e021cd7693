import IshtarOxide.Lib.Result

/-!
# Module validation

`validate` of both `wasm.rs`: a pass over the payloads that wasmparser reports,
after wasmparser's own validator. wasmparser is a parameter. The lab's pass also
forbids start functions and asks for exactly one memory.
-/

namespace Guest

/-- `wasmparser::MemoryType`, as far as it is looked at. -/
structure MemoryType where
  shared : Bool
  memory64 : Bool
  pageSizeLog2 : Option Nat
  initial : Nat
  maximum : Option Nat
deriving DecidableEq, Repr

/-- The payloads that a pass tells apart. A memory that cannot be read is `none`. -/
inductive Payload
  | importSection (count : Nat)
  | startSection
  | memorySection (memories : List (Option MemoryType))
  | component
  | other
deriving DecidableEq, Repr

/-- What is used of wasmparser. A payload that cannot be parsed is `none`. -/
structure Wasmparser where
  validateAll : List UInt8 → Bool
  parseAll : List UInt8 → List (Option Payload)

inductive ValidateError
  | invalidCore
  | parse
  | imports
  | start
  | invalidMemory
  | memoryForm
  | memoryLimit
  | components
  | memoryCount
deriving DecidableEq, Repr

/-- The checks on one memory. -/
def checkMemory (maxMemoryPages : Nat) : Option MemoryType → Except ValidateError Unit
  | none => .error .invalidMemory
  | some m =>
    if m.shared || m.memory64 || m.pageSizeLog2.isSome then .error .memoryForm
    else if maxMemoryPages < m.initial ∨ m.maximum.any (maxMemoryPages < ·) then .error .memoryLimit
    else .ok ()

/-- The checks on one payload; `start` is whether start functions are allowed. -/
def checkPayload (start : Bool) (maxMemoryPages : Nat) : Option Payload → Except ValidateError Unit
  | none => .error .parse
  | some (.importSection count) => if count ≠ 0 then .error .imports else .ok ()
  | some .startSection => if start then .ok () else .error .start
  | some (.memorySection memories) => memories.forM (checkMemory maxMemoryPages)
  | some .component => .error .components
  | some .other => .ok ()

/-- The number of memories that a payload declares. -/
def memoriesOf : Option Payload → Nat
  | some (.memorySection memories) => memories.length
  | _ => 0

end Guest

/-- `validate` of the scheduler. -/
def Scheduler.validate (w : Guest.Wasmparser) (bytes : List UInt8) (maxMemoryPages : Nat) :
    Except Guest.ValidateError Unit := do
  if w.validateAll bytes = false then throw .invalidCore
  (w.parseAll bytes).forM (Guest.checkPayload true maxMemoryPages)

/-- `validate` of the lab. -/
def Lab.validate (w : Guest.Wasmparser) (bytes : List UInt8) (maxMemoryPages : Nat) :
    Except Guest.ValidateError Unit := do
  if w.validateAll bytes = false then throw .invalidCore
  (w.parseAll bytes).forM (Guest.checkPayload false maxMemoryPages)
  if ((w.parseAll bytes).map Guest.memoriesOf).sum ≠ 1 then throw .memoryCount
