import IshtarOxide.Guest.StreamCapitalize
import IshtarOxide.Guest.Validate
import IshtarOxide.Lab.RunnerProtocol
import IshtarOxide.Sandbox.Setup

/-!
# The runners of the lab

`wasm::execute` and `wasm::execute_stream`, and the two mains around them, from
the arguments and the input to the bytes on stdout. wasmparser and the front end
of wasmi are parameters; a module is run as `Lib.Wasm` says, with one unit of
fuel for a step.

* `callProcess_returns`: if the shipped module returns, the result is the previous state
  followed by the chunk in upper case, and nothing else.
* `executeStream_eq`: with enough fuel it returns.
-/

open Linux Sandbox Guest Wasm

namespace Lab

/-! ## `wasm.rs` -/

/-- What is used of wasmparser, and `Module::new` of wasmi. -/
structure Toolchain where
  wasmparser : Wasmparser
  compile : List UInt8 → Option Module

inductive ExecuteError
  | capacity
  | validate (e : ValidateError)
  | compile
  | instantiate
  | missingMemory
  | exceedsMemory
  | rehydrate
  | inject
  | missingFunc
  | call
  | invalidLength
  | read
deriving DecidableEq, Repr

/-- `execute`. -/
def execute (t : Toolchain) (bytes state : List UInt8) (role bit iterations : Int)
    (fuel maxMemoryPages : Nat) : Except ExecuteError (List UInt8) := do
  (validate t.wasmparser bytes maxMemoryPages).mapError .validate
  let some module := t.compile bytes | throw .compile
  let some memory := module.instantiate (maxMemoryPages * 65536) | throw .instantiate
  if module.hasMemory "memory" = false then throw .missingMemory
  if memory.size < state.length then throw .exceedsMemory
  let some memory := memory.write 0 state | throw .inject
  let some run := module.typedFunc "run" 4 1 | throw .missingFunc
  let some (_, memory) := run.invoke fuel
    [.ofInt 32 role, .ofInt 32 bit, .ofInt 32 iterations, .ofNat 32 state.length] memory
    | throw .call
  let some output := memory.read 0 state.length | throw .read
  pure output

/-- The end of `execute_stream`: the call of `process` and what is read back. -/
def callProcess (process : Func) (memory : Memory) (previous chunk : List UInt8)
    (capacity fuel : Nat) : Except ExecuteError (List UInt8) := do
  let combinedLen := previous.length + chunk.length
  let some (outputLen, memory) := process.invoke fuel
    [.ofNat 32 previous.length, .ofNat 32 chunk.length, .ofNat 32 capacity] memory
    | throw .call
  if outputLen.toInt < 0 ∨ outputLen.toInt ≠ combinedLen then throw .invalidLength
  let some output := memory.read 0 combinedLen | throw .read
  pure output

/-- `execute_stream`. -/
def executeStream (t : Toolchain) (bytes previous chunk : List UInt8)
    (capacity fuel maxMemoryPages : Nat) : Except ExecuteError (List UInt8) := do
  if capacity < saturatingAdd previous.length chunk.length then throw .capacity
  (validate t.wasmparser bytes maxMemoryPages).mapError .validate
  let some module := t.compile bytes | throw .compile
  let some memory := module.instantiate (maxMemoryPages * 65536) | throw .instantiate
  if module.hasMemory "memory" = false then throw .missingMemory
  if memory.size < capacity then throw .exceedsMemory
  let some memory := memory.write 0 previous | throw .rehydrate
  let some memory := memory.write previous.length chunk | throw .inject
  let some process := module.typedFunc "process" 3 1 | throw .missingFunc
  callProcess process memory previous chunk capacity fuel

/-! ## The mains -/

/-- Where the lab runs: its executable and the modules that it compiled at
startup, the kernel and the process that a spawn gives a runner, the wasm
crates and SHA-256. -/
structure Host where
  executable : String
  module : List UInt8
  streamModule : List UInt8
  kernel : Kernel
  process : Process
  toolchain : Toolchain
  sha256 : List UInt8 → List UInt8

inductive MainError
  | input (e : RunnerError)
  | sandbox (e : SandboxError)
  | execute (e : ExecuteError)
  | command
deriving DecidableEq, Repr

/-- `runner_main`: what it writes to stdout. -/
def runnerMain (host : Host) (args : List String) (stdin : List UInt8) :
    Except MainError (List UInt8) := do
  let i ← (runnerInvocation args stdin).mapError .input
  let _ ← (setup host.kernel ⟨i.addressSpaceBytes, i.cpuSeconds⟩ host.process).mapError .sandbox
  (execute host.toolchain i.module i.state i.role i.bit i.iterations i.fuel
    i.maxMemoryPages).mapError .execute

/-- `stream_runner_main`: what it writes to stdout. -/
def streamRunnerMain (host : Host) (args : List String) (stdin : List UInt8) :
    Except MainError (List UInt8) := do
  let i ← (streamInvocation args stdin).mapError .input
  let _ ← (setup host.kernel ⟨i.addressSpaceBytes, i.cpuSeconds⟩ host.process).mapError .sandbox
  (executeStream host.toolchain i.module i.previous i.chunk i.capacity i.fuel
    i.maxMemoryPages).mapError .execute

/-- `main`, as far as it is started by the server. -/
def main (host : Host) (args : List String) (stdin : List UInt8) : Except MainError (List UInt8) :=
  match args[1]? with
  | some "__runner" => runnerMain host args stdin
  | some "__stream_runner" => streamRunnerMain host args stdin
  | _ => .error .command

/-! ## The shipped stream module -/

/-- `bytes` is a module that the crates see as they should: it is valid, has one
memory and compiles to `module`. -/
structure Ships (t : Toolchain) (bytes : List UInt8) (memory : MemoryType) (module : Module) :
    Prop where
  nonempty : 1 ≤ bytes.length
  size : bytes.length ≤ 1024 * 1024
  valid : t.wasmparser.validateAll bytes = true
  payloads : ∃ before after, t.wasmparser.parseAll bytes =
    List.replicate before (some .other) ++ some (.memorySection [some memory]) ::
      List.replicate after (some .other)
  compiles : t.compile bytes = some module

/-- The memory of `stream_capitalize.wat`. -/
def streamMemory : MemoryType := ⟨false, false, none, 16, some 16⟩

variable {t : Toolchain} {bytes previous chunk : List UInt8} {fuel pages : Nat}

theorem validate_ships {memory : MemoryType} {module : Module} (h : Ships t bytes memory module)
    (hm : checkMemory pages (some memory) = .ok ()) :
    validate t.wasmparser bytes pages = .ok () := by
  obtain ⟨before, after, hp⟩ := h.payloads
  have hpass : (t.wasmparser.parseAll bytes).forM (checkPayload false pages) = .ok () := by
    refine Except.forM_eq_ok fun payload hpayload => ?_
    rw [hp, List.mem_append, List.mem_cons, List.mem_replicate, List.mem_replicate] at hpayload
    rcases hpayload with ⟨_, rfl⟩ | rfl | ⟨_, rfl⟩
    · rfl
    · exact Except.forM_eq_ok fun m hmem => List.mem_singleton.mp hmem ▸ hm
    · rfl
  have hcount : ((t.wasmparser.parseAll bytes).map memoriesOf).sum = 1 := by
    simp [hp, memoriesOf]
  simp [validate, h.valid, hpass, hcount]

/-- What the worker makes of a chunk. -/
def upperAll (chunk : List UInt8) : List UInt8 := chunk.map asciiUpper

@[simp] theorem length_upperAll : (upperAll chunk).length = chunk.length := List.length_map _

/-- The memory after `process`. -/
theorem upperUpTo_ofBytes {size : Nat} :
    StreamCapitalize.upperUpTo (.ofBytes size (previous ++ chunk)) previous.length
      (previous.length + chunk.length) = .ofBytes size (previous ++ upperAll chunk) := by
  simp only [StreamCapitalize.upperUpTo, Memory.ofBytes, Memory.mk.injEq, true_and,
    List.getD_eq_getElem?_getD]
  funext a
  by_cases hlt : a < previous.length
  · rw [if_neg fun h => absurd h.1 (Nat.not_le.mpr hlt), List.getElem?_append_left hlt,
      List.getElem?_append_left hlt]
  · have hle := Nat.not_lt.mp hlt
    rw [List.getElem?_append_right hle, List.getElem?_append_right hle, upperAll, List.getElem?_map]
    split
    · next h => rw [List.getElem?_eq_getElem (show a - previous.length < chunk.length by omega)]; rfl
    · next h =>
      rw [List.getElem?_eq_none (show chunk.length ≤ a - previous.length by omega)]
      rfl

/-- Everything in `execute_stream` up to the call of `process` is fine, and the
guest finds the chunk behind the previous state. -/
theorem executeStream_eq_callProcess
    (h : Ships t bytes streamMemory StreamCapitalize.streamCapitalize) (hpages : 16 ≤ pages)
    (hcap : previous.length + chunk.length ≤ streamStateBytes) :
    executeStream t bytes previous chunk streamStateBytes fuel pages =
      callProcess StreamCapitalize.process (.ofBytes streamStateBytes (previous ++ chunk)) previous
        chunk streamStateBytes fuel := by
  have hsat : ¬ streamStateBytes < saturatingAdd previous.length chunk.length := by
    unfold saturatingAdd
    omega
  have hvalid : validate t.wasmparser bytes pages = .ok () :=
    validate_ships h (by simp [checkMemory, streamMemory, hpages])
  have hinst : StreamCapitalize.streamCapitalize.instantiate (pages * 65536) =
      some (.ofBytes streamStateBytes []) :=
    if_pos (Nat.mul_le_mul_right 65536 hpages)
  have hmem : StreamCapitalize.streamCapitalize.hasMemory "memory" = true := rfl
  have hsize : (Memory.ofBytes streamStateBytes []).size = streamStateBytes := rfl
  have hrehydrate : (Memory.ofBytes streamStateBytes []).write 0 previous =
      some (.ofBytes streamStateBytes previous) :=
    Memory.write_ofBytes [] previous (by rw [List.length_nil]; omega)
  have hinject := Memory.write_ofBytes previous chunk hcap
  have hfunc : StreamCapitalize.streamCapitalize.typedFunc "process" 3 1 =
      some StreamCapitalize.process := rfl
  simp [executeStream, hsat, hvalid, h.compiles, hinst, hmem, hsize, hrehydrate, hinject, hfunc]

/-- Lengths are small enough for an `i32`. -/
theorem toNat_ofNat_length (hcap : bytes.length ≤ streamStateBytes) :
    (BitVec.ofNat 32 bytes.length).toNat = bytes.length :=
  Nat.mod_eq_of_lt (Nat.lt_of_le_of_lt hcap (by decide))

theorem toNat_combined (hcap : previous.length + chunk.length ≤ streamStateBytes) :
    (BitVec.ofNat 32 previous.length + BitVec.ofNat 32 chunk.length).toNat =
      previous.length + chunk.length := by
  rw [BitVec.toNat_add, toNat_ofNat_length (by omega), toNat_ofNat_length (by omega)]
  exact Nat.mod_eq_of_lt (Nat.lt_of_le_of_lt hcap (by decide))

/-- If `process` returns, it returned the new length and left the chunk in upper
case, which is read back. -/
theorem callProcess_returns (hcap : previous.length + chunk.length ≤ streamStateBytes)
    (h : StreamCapitalize.process.invoke fuel
        [.ofNat 32 previous.length, .ofNat 32 chunk.length, .ofNat 32 streamStateBytes]
        (.ofBytes streamStateBytes (previous ++ chunk)) ≠ none) :
    callProcess StreamCapitalize.process (.ofBytes streamStateBytes (previous ++ chunk)) previous
      chunk streamStateBytes fuel = .ok (previous ++ upperAll chunk) := by
  obtain ⟨⟨v, m⟩, hv⟩ := Option.ne_none_iff_exists'.mp h
  obtain ⟨rfl, rfl⟩ := StreamCapitalize.eq_of_process_invoke
    (by rw [toNat_ofNat_length (by omega), toNat_ofNat_length (by omega)]; exact hcap)
    (by exact Nat.le_refl streamStateBytes) hv
  have hint : (BitVec.ofNat 32 previous.length + BitVec.ofNat 32 chunk.length).toInt =
      (previous.length + chunk.length : Nat) := by
    have hlt : 2 * streamStateBytes < 2 ^ 32 := by decide
    rw [BitVec.toInt_eq_toNat_of_lt (by rw [toNat_combined hcap]; omega), toNat_combined hcap]
  have hread := Memory.read_ofBytes (previous ++ upperAll chunk)
    (show _ ≤ streamStateBytes by simpa using hcap)
  rw [toNat_combined hcap, toNat_ofNat_length (by omega), upperUpTo_ofBytes] at hv
  rw [List.length_append, length_upperAll] at hread
  have hnonneg : ¬ ((previous.length + chunk.length : Nat) : Int) < 0 := by omega
  simp only [callProcess, hv, hint, hread, hnonneg, ne_eq, not_true, or_self, if_false,
    Except.pure_eq_ok]

/-- With enough fuel the shipped module returns the previous state followed by
the chunk in upper case. -/
theorem executeStream_eq (h : Ships t bytes streamMemory StreamCapitalize.streamCapitalize)
    (hpages : 16 ≤ pages) (hcap : previous.length + chunk.length ≤ streamStateBytes)
    (hfuel : StreamCapitalize.processFuel chunk.length ≤ fuel) :
    executeStream t bytes previous chunk streamStateBytes fuel pages =
      .ok (previous ++ upperAll chunk) := by
  rw [executeStream_eq_callProcess h hpages hcap]
  refine callProcess_returns hcap ?_
  rw [StreamCapitalize.process_invoke
    (by rw [toNat_ofNat_length (by omega), toNat_ofNat_length (by omega)]; exact hcap)
    (by exact Nat.le_refl streamStateBytes) (by rw [toNat_ofNat_length (by omega)]; exact hfuel)]
  exact Option.some_ne_none _

end Lab
