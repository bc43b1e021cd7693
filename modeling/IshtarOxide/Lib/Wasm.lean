import Mathlib.Algebra.Ring.Nat
import Mathlib.Tactic.Common

/-!
# A fragment of WebAssembly

Functions over `i32` with one linear memory: the instructions of a byte loop,
structured control included. `step` is a small-step semantics with an explicit
stack of labels, and `run` gives it a number of steps as fuel.

* `Terminates n c Q`: with the fuel `n` the configuration `c` finishes without a
  trap in a frame that satisfies `Q`.
* `Terminates.ops`, `Terminates.next`, `Terminates.loop`: the rules for straight-line
  code, for one step of control and for a loop with a variant.
* `Terminates.whileLoop`: the rule for a block with a loop that tests its end, runs
  straight-line code and comes round.
-/

namespace Wasm

abbrev Value := BitVec 32

def truth (b : Bool) : Value := if b then 1 else 0

inductive BinOp
  | add | sub | mul | and | or | xor | ltU | gtU | leU | geU
deriving DecidableEq, Repr

def BinOp.eval : BinOp → Value → Value → Value
  | .add, a, b => a + b
  | .sub, a, b => a - b
  | .mul, a, b => a * b
  | .and, a, b => a &&& b
  | .or, a, b => a ||| b
  | .xor, a, b => a ^^^ b
  | .ltU, a, b => truth (a < b)
  | .gtU, a, b => truth (b < a)
  | .leU, a, b => truth (a ≤ b)
  | .geU, a, b => truth (b ≤ a)

/-! ## Memory -/

/-- A linear memory of `size` bytes. What lies beyond is never read. -/
structure Memory where
  size : Nat
  byte : Nat → UInt8

namespace Memory

def pageSize : Nat := 65536

/-- A new memory. -/
def zero (pages : Nat) : Memory := ⟨pages * pageSize, fun _ => 0⟩

/-- `count` bytes from `address` on, if they are inside. -/
def read (m : Memory) (address count : Nat) : Option (List UInt8) :=
  if address + count ≤ m.size then some ((List.range count).map fun i => m.byte (address + i))
  else none

def set (m : Memory) (address : Nat) (b : UInt8) : Memory :=
  { m with byte := fun a => if a = address then b else m.byte a }

/-- The bytes are written from `address` on, if there is room. -/
def write (m : Memory) (address : Nat) (bytes : List UInt8) : Option Memory :=
  if address + bytes.length ≤ m.size then
    some { m with
      byte := fun a => if address ≤ a then bytes.getD (a - address) (m.byte a) else m.byte a }
  else none

/-- A little-endian word. -/
def word (m : Memory) (address : Nat) : Value :=
  (m.byte address).toBitVec.setWidth 32 ||| (m.byte (address + 1)).toBitVec.setWidth 32 <<< 8 |||
    (m.byte (address + 2)).toBitVec.setWidth 32 <<< 16 |||
    (m.byte (address + 3)).toBitVec.setWidth 32 <<< 24

def setWord (m : Memory) (address : Nat) (v : Value) : Memory :=
  (((m.set address ⟨v.setWidth 8⟩).set (address + 1) ⟨(v >>> 8).setWidth 8⟩).set (address + 2)
    ⟨(v >>> 16).setWidth 8⟩).set (address + 3) ⟨(v >>> 24).setWidth 8⟩

/-- A memory that holds `bytes` from zero on, and zeros after them. -/
def ofBytes (size : Nat) (bytes : List UInt8) : Memory := ⟨size, fun i => bytes.getD i 0⟩

/-- Bytes are written behind the others. -/
theorem write_ofBytes {size : Nat} (bytes more : List UInt8)
    (h : bytes.length + more.length ≤ size) :
    (ofBytes size bytes).write bytes.length more = some (ofBytes size (bytes ++ more)) := by
  unfold write
  rw [if_pos (by exact h)]
  simp only [ofBytes, Option.some.injEq, Memory.mk.injEq, true_and, List.getD_eq_getElem?_getD]
  funext a
  split
  · next ha => rw [List.getElem?_append_right ha, List.getElem?_eq_none ha]; rfl
  · next ha => rw [List.getElem?_append_left (Nat.not_le.mp ha)]

theorem read_ofBytes {size : Nat} (bytes : List UInt8) (h : bytes.length ≤ size) :
    (ofBytes size bytes).read 0 bytes.length = some bytes := by
  unfold read
  rw [if_pos (by rw [Nat.zero_add]; exact h)]
  congr 1
  refine List.ext_getElem (by simp) fun i _ hi => ?_
  simp [ofBytes, hi]

theorem set_self (m : Memory) (address : Nat) : m.set address (m.byte address) = m := by
  have : ∀ a, (if a = address then m.byte address else m.byte a) = m.byte a := by
    intro a
    split
    · next h => rw [h]
    · rfl
  simp [set, this]

end Memory

/-! ## Instructions -/

/-- Straight-line instructions. Addresses have a constant offset. -/
inductive Op
  | localGet (n : Nat)
  | localSet (n : Nat)
  | const (v : Value)
  | binop (op : BinOp)
  | load8U (offset : Nat)
  | store8 (offset : Nat)
  | load (offset : Nat)
  | store (offset : Nat)
deriving DecidableEq, Repr

/-- Instructions. Blocks take and leave nothing on the stack. -/
inductive Instr
  | op (o : Op)
  | block (body : List Instr)
  | loop (body : List Instr)
  | ite (thenBody elseBody : List Instr)
  | br (n : Nat)
  | brIf (n : Nat)
  | ret

structure Frame where
  stack : List Value
  locals : List Value
  memory : Memory

/-- A straight-line instruction; `none` is a trap. -/
def Op.exec (o : Op) (f : Frame) : Option Frame :=
  match o, f.stack with
  | .localGet n, stack => f.locals[n]?.map fun v => { f with stack := v :: stack }
  | .localSet n, v :: stack =>
    if n < f.locals.length then some { f with stack := stack, locals := f.locals.set n v } else none
  | .const v, stack => some { f with stack := v :: stack }
  | .binop op, b :: a :: stack => some { f with stack := op.eval a b :: stack }
  | .load8U offset, a :: stack =>
    if a.toNat + offset < f.memory.size then
      some { f with stack := (f.memory.byte (a.toNat + offset)).toBitVec.setWidth 32 :: stack }
    else none
  | .store8 offset, v :: a :: stack =>
    if a.toNat + offset < f.memory.size then
      some { f with
        stack := stack
        memory := f.memory.set (a.toNat + offset) ⟨v.setWidth 8⟩ }
    else none
  | .load offset, a :: stack =>
    if a.toNat + offset + 4 ≤ f.memory.size then
      some { f with stack := f.memory.word (a.toNat + offset) :: stack }
    else none
  | .store offset, v :: a :: stack =>
    if a.toNat + offset + 4 ≤ f.memory.size then
      some { f with stack := stack, memory := f.memory.setWord (a.toNat + offset) v }
    else none
  | _, _ => none

/-- Straight-line code. -/
def execOps (os : List Op) (f : Frame) : Option Frame := os.foldlM (fun f o => o.exec f) f

theorem execOps_append {os os' : List Op} {f g : Frame} (h : execOps os f = some g) :
    execOps (os ++ os') f = execOps os' g := by
  rw [execOps, List.foldlM_append]
  exact (congrArg (· >>= execOps os') h).trans (Option.bind_some ..)

/-! ## Configurations -/

/-- An enclosing block: where a branch to it goes, with which stack, and what
follows it. -/
structure Label where
  target : List Instr
  stack : List Value
  after : List Instr

structure Config where
  frame : Frame
  code : List Instr
  labels : List Label

inductive Step
  | next (c : Config)
  | halt (f : Frame)
  | trap

/-- A branch to label `n`; past the labels it leaves the function. -/
def branch (n : Nat) (c : Config) : Step :=
  match c.labels[n]? with
  | some l =>
    .next ⟨{ c.frame with stack := l.stack }, l.target, c.labels.drop (n + 1)⟩
  | none => .halt c.frame

/-- `body` is entered, with `rest` after it and `target` as the end of its branches. -/
def enter (f : Frame) (body target rest : List Instr) (labels : List Label) : Step :=
  .next ⟨f, body, ⟨target, f.stack, rest⟩ :: labels⟩

def step (c : Config) : Step :=
  match c.code with
  | [] =>
    match c.labels with
    | [] => .halt c.frame
    | l :: labels => .next ⟨c.frame, l.after, labels⟩
  | .op o :: rest =>
    match o.exec c.frame with
    | some f => .next ⟨f, rest, c.labels⟩
    | none => .trap
  | .block body :: rest => enter c.frame body rest rest c.labels
  | .loop body :: rest => enter c.frame body (.loop body :: rest) rest c.labels
  | .ite thenBody elseBody :: rest =>
    match c.frame.stack with
    | v :: stack =>
      enter { c.frame with stack := stack } (if v ≠ 0 then thenBody else elseBody) rest rest c.labels
    | [] => .trap
  | .br n :: _ => branch n c
  | .brIf n :: rest =>
    match c.frame.stack with
    | v :: stack =>
      if v ≠ 0 then branch n ⟨{ c.frame with stack := stack }, rest, c.labels⟩
      else .next ⟨{ c.frame with stack := stack }, rest, c.labels⟩
    | [] => .trap
  | .ret :: _ => .halt c.frame

inductive Result
  | done (f : Frame)
  | trap
  | outOfFuel

/-- At most `fuel` steps. -/
def run : Nat → Config → Result
  | 0, _ => .outOfFuel
  | fuel + 1, c =>
    match step c with
    | .next c => run fuel c
    | .halt f => .done f
    | .trap => .trap

/-! ## Termination -/

/-- With the fuel `n`, `c` finishes in a frame that satisfies `Q`. -/
def Terminates (n : Nat) (c : Config) (Q : Frame → Prop) : Prop := ∃ f, run n c = .done f ∧ Q f

variable {c d : Config} {f g : Frame} {Q : Frame → Prop} {n k : Nat}

theorem run_mono (h : run n c = .done f) : run (n + k) c = .done f := by
  induction n generalizing c with
  | zero => cases h
  | succ n ih =>
    rw [Nat.succ_add]
    unfold run at h ⊢
    cases hs : step c with
    | next d =>
      rw [hs] at h
      exact ih h
    | halt g =>
      rw [hs] at h
      exact h
    | trap =>
      rw [hs] at h
      cases h

/-- More fuel does no harm. -/
theorem Terminates.mono (hn : n ≤ k) (h : Terminates n c Q) : Terminates k c Q := by
  obtain ⟨f, hf, hq⟩ := h
  obtain ⟨m, rfl⟩ := Nat.exists_eq_add_of_le hn
  exact ⟨f, run_mono hf, hq⟩

theorem Terminates.halt (h : step c = .halt f) (hq : Q f) : Terminates (n + 1) c Q :=
  ⟨f, by simp [run, h], hq⟩

theorem Terminates.next (h : step c = .next d) (ht : Terminates n d Q) :
    Terminates (n + 1) c Q := by
  obtain ⟨f, hf, hq⟩ := ht
  exact ⟨f, by simp [run, h, hf], hq⟩

/-- Straight-line code in front. -/
theorem Terminates.ops (os : List Op) (rest : List Instr) {labels : List Label}
    (h : execOps os f = some g) (ht : Terminates n ⟨g, rest, labels⟩ Q) :
    Terminates (n + os.length) ⟨f, os.map .op ++ rest, labels⟩ Q := by
  induction os generalizing f with
  | nil =>
    cases h
    exact ht
  | cons o os ih =>
    simp only [execOps, List.foldlM_cons, Option.bind_eq_bind, Option.bind_eq_some_iff] at h
    obtain ⟨f', hf', h⟩ := h
    refine .next (d := ⟨f', os.map .op ++ rest, labels⟩) ?_ (ih h)
    simp [step, hf']

/-- A loop that keeps `I` and lowers the variant `μ` whenever it comes round, and
ends well whenever it does not. The fuel it needs is a function of the variant. -/
theorem Terminates.loop {body rest : List Instr} {labels : List Label} {I : Frame → Prop}
    (μ : Frame → Nat) (fuel : Nat → Nat)
    (hround : ∀ f, I f →
      (∀ g, I g → μ g < μ f → Terminates (fuel (μ g)) ⟨g, .loop body :: rest, labels⟩ Q) →
      Terminates (fuel (μ f)) ⟨f, .loop body :: rest, labels⟩ Q)
    (hf : I f) : Terminates (fuel (μ f)) ⟨f, .loop body :: rest, labels⟩ Q := by
  induction hn : μ f using Nat.strongRecOn generalizing f with
  | ind m ih =>
    subst hn
    exact hround f hf fun f' hf' hlt => ih (μ f') hlt hf' rfl

/-- A block around a loop: leave it if the test gives something else than zero, run
the body and come round. -/
def whileLoop (test body : List Op) : Instr :=
  .block [.loop (test.map .op ++ .brIf 1 :: (body.map .op ++ [.br 0]))]

/-- The rule for `whileLoop`. The invariant `I` holds at the head of the loop, where
the stack is empty. -/
theorem Terminates.whileLoop {test body : List Op} {rest : List Instr} {labels : List Label}
    {I : Frame → Prop} (μ : Frame → Nat) (hstack : ∀ f, I f → f.stack = [])
    (hround : ∀ f, I f → ∃ v, execOps test f = some { f with stack := [v] } ∧
      (v ≠ 0 → Terminates n ⟨f, rest, labels⟩ Q) ∧
      (v = 0 → ∃ g, execOps body f = some g ∧ I g ∧ μ g < μ f))
    (hf : I f) :
    Terminates ((test.length + body.length + 3) * μ f + test.length + n + 3)
      ⟨f, Wasm.whileLoop test body :: rest, labels⟩ Q := by
  have hloop : Terminates ((test.length + body.length + 3) * μ f + test.length + n + 2)
      ⟨f, [.loop (test.map .op ++ .brIf 1 :: (body.map .op ++ [.br 0]))],
        ⟨rest, [], rest⟩ :: labels⟩ Q := by
    refine Terminates.loop (I := I) μ
      (fun k => (test.length + body.length + 3) * k + test.length + n + 2) ?_ hf
    rintro ⟨stack, locals, memory⟩ hI hnext
    obtain rfl : stack = [] := hstack _ hI
    obtain ⟨v, htest, hleave, hbody⟩ := hround _ hI
    by_cases hv : v = 0
    · subst hv
      obtain ⟨g, hg, hIg, hlt⟩ := hbody rfl
      have hfuel : (test.length + body.length + 3) * μ g + test.length + n + 2 + 1 +
          body.length + 1 + test.length + 1 ≤
          (test.length + body.length + 3) * μ ⟨[], locals, memory⟩ + test.length + n + 2 := by
        have hmul := Nat.mul_le_mul_left (test.length + body.length + 3) hlt
        rw [Nat.succ_eq_add_one, Nat.mul_add] at hmul
        omega
      refine .mono hfuel (.next rfl (.ops test _ htest (.next rfl (.ops body _ hg ?_))))
      -- the branch to the loop goes back to its head with an empty stack
      obtain ⟨stack', locals', memory'⟩ := g
      obtain rfl : stack' = [] := hstack _ hIg
      exact .next rfl (hnext _ hIg hlt)
    · have hfuel : n + 1 + test.length + 1 ≤
          (test.length + body.length + 3) * μ ⟨[], locals, memory⟩ + test.length + n + 2 := by
        omega
      refine .mono hfuel (.next rfl (.ops test _ htest (.next ?_ (hleave hv))))
      simp only [step, hv, ne_eq, not_false_eq_true, if_true]
      rfl
  obtain ⟨stack, locals, memory⟩ := f
  obtain rfl : stack = [] := hstack _ hf
  exact .next rfl hloop

/-- Whatever a terminating configuration finishes in satisfies the
postcondition, with any fuel. -/
theorem Terminates.of_done (h : Terminates n c Q) (hd : run k c = .done f) : Q f := by
  obtain ⟨g, hg, hq⟩ := h
  have heq := run_mono (k := n) hd
  rw [Nat.add_comm, run_mono hg] at heq
  cases heq
  exact hq

/-! ## Modules -/

/-- A function over `i32`s. -/
structure Func where
  params : Nat
  results : Nat
  locals : Nat
  body : List Instr

inductive Export
  | memory
  | func (f : Func)

/-- A module with one memory and no start function. -/
structure Module where
  minPages : Nat
  maxPages : Option Nat
  exports : List (String × Export)

/-- The memory of a new instance, whose store allows `limit` bytes. -/
def Module.instantiate (m : Module) (limit : Nat) : Option Memory :=
  if m.minPages * Memory.pageSize ≤ limit then some (.zero m.minPages) else none

def Module.hasMemory (m : Module) (name : String) : Bool :=
  match m.exports.lookup name with
  | some .memory => true
  | _ => false

/-- The exported function of that name, if it has the type. -/
def Module.typedFunc (m : Module) (name : String) (params results : Nat) : Option Func :=
  match m.exports.lookup name with
  | some (.func f) => if f.params = params ∧ f.results = results then some f else none
  | _ => none

/-- The configuration of a call: the other locals start at zero. -/
def Func.call (f : Func) (args : List Value) (m : Memory) : Config :=
  ⟨⟨[], args ++ List.replicate f.locals 0, m⟩, f.body, []⟩

/-- The call of a function with one result: the result, and the memory after it. -/
def Func.invoke (f : Func) (fuel : Nat) (args : List Value) (m : Memory) : Option (Value × Memory) :=
  match run fuel (f.call args m) with
  | .done g => g.stack.head?.map fun v => (v, g.memory)
  | .trap | .outOfFuel => none

end Wasm
