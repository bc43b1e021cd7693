import IshtarOxide.Lib.Decimal
import IshtarOxide.Lab.Basic

/-!
# The protocol between the lab and its runners

The parent renders lengths, limits and guest parameters as decimal arguments and
writes the byte strings to stdin one after the other; `runner_main` and
`stream_runner_main` parse them back, check their bounds and split the bytes.
The types at which the arguments are parsed are those of the parameters of
`wasm::execute` and `wasm::execute_stream`.

* `roundTrips_iff`: the probe runner gets what the parent meant exactly if the
  iteration count, which is a `u32` here and an `i32` there, is below 2^31.
* `streamInvocation_eq`: the stream runner always does.
-/

open Decimal

namespace Lab

/-! ## Arguments -/

inductive RunnerError
  | missingArg (name : String)
  | invalidArg (name : String) (e : ParseIntError)
  | bounds
  | unexpectedEof
deriving DecidableEq, Repr

/-- `env::args().nth(index)` with its error. -/
def argAt (args : List String) (index : Nat) (name : String) : Except RunnerError String :=
  match args[index]? with
  | none => .error (.missingArg name)
  | some s => .ok s

/-- `runner_arg` at an unsigned type with the largest value `max`. -/
def unsignedArg (max : Nat) (args : List String) (index : Nat) (name : String) :
    Except RunnerError Nat := do
  let s ← argAt args index name
  (parseUnsigned max s).mapError (.invalidArg name)

/-- `runner_arg` at a signed type with the largest value `max`. -/
def signedArg (max : Nat) (args : List String) (index : Nat) (name : String) :
    Except RunnerError Int := do
  let s ← argAt args index name
  (parseSigned max s).mapError (.invalidArg name)

def usizeArg := unsignedArg (2 ^ 64 - 1)
def u64Arg := unsignedArg (2 ^ 64 - 1)
def u32Arg := unsignedArg (2 ^ 32 - 1)
def i32Arg := signedArg (2 ^ 31 - 1)

/-- `read_exact`. -/
def readExact (stdin : List UInt8) (n : Nat) : Except RunnerError (List UInt8) :=
  if stdin.length < n then .error .unexpectedEof else .ok (stdin.take n)

theorem unsignedArg_repr {max n index : Nat} {args : List String} {name : String}
    (ha : args[index]? = some n.repr) (hn : n ≤ max) :
    unsignedArg max args index name = .ok n := by
  simp [unsignedArg, argAt, ha, parseUnsigned_repr, hn]

theorem signedArg_repr {max n index : Nat} {args : List String} {name : String}
    (ha : args[index]? = some n.repr) :
    signedArg max args index name =
      if n ≤ max then .ok (Int.ofNat n) else .error (.invalidArg name .posOverflow) := by
  simp only [signedArg, argAt, ha, Except.ok_bind, parseSigned_repr]
  split <;> rfl

theorem readExact_length (bytes : List UInt8) : readExact bytes bytes.length = .ok bytes := by
  simp [readExact]

/-! ## The probe runner -/

/-- What `runner_main` knows when it enters its sandbox, and then passes to
`wasm::execute`. -/
structure Invocation where
  module : List UInt8
  state : List UInt8
  role : Int
  bit : Int
  iterations : Int
  fuel : Nat
  maxMemoryPages : Nat
  addressSpaceBytes : Nat
  cpuSeconds : Nat
deriving DecidableEq, Repr

/-- The arguments of `execute_process_inner`. -/
def runnerArgs (executable : String) (module state : List UInt8) (role : Role) (bit : UInt8)
    (iterations : UInt32) (policy : Policy) : List String :=
  [executable, "__runner", module.length.repr, state.length.repr, policy.fuel.repr,
    policy.maxMemoryPages.repr, policy.addressSpaceBytes.repr, policy.cpuSeconds.repr,
    role.abi.repr, bit.toNat.repr, iterations.toNat.repr]

/-- The input of `execute_process_inner`. -/
def runnerStdin (module state : List UInt8) : List UInt8 := module ++ state

/-- `runner_main` up to its sandbox. -/
def runnerInvocation (args : List String) (stdin : List UInt8) : Except RunnerError Invocation := do
  let moduleLen ← usizeArg args 2 "module length"
  let stateLen ← usizeArg args 3 "state length"
  let fuel ← u64Arg args 4 "fuel"
  let maxMemoryPages ← u32Arg args 5 "memory pages"
  let addressSpaceBytes ← u64Arg args 6 "address space"
  let cpuSeconds ← u64Arg args 7 "CPU seconds"
  let role ← i32Arg args 8 "role"
  let bit ← i32Arg args 9 "bit"
  let iterations ← i32Arg args 10 "iterations"
  if moduleLen = 0 ∨ 1024 * 1024 < moduleLen ∨ stateLen = 0 ∨ 65536 < stateLen then .error .bounds
  else
    let input ← readExact stdin (moduleLen + stateLen)
    pure ⟨input.take moduleLen, input.drop moduleLen, role, bit, iterations, fuel, maxMemoryPages,
      addressSpaceBytes, cpuSeconds⟩

theorem Role.repr_abi (role : Role) : ∃ n : Nat, n ≤ 2 ∧ role.abi = Int.ofNat n ∧
    role.abi.repr = n.repr := by
  cases role with
  | sender => exact ⟨0, by decide, rfl, rfl⟩
  | probe => exact ⟨1, by decide, rfl, rfl⟩
  | control => exact ⟨2, by decide, rfl, rfl⟩

section ProbeRunner

variable {policy : Policy} (hp : policy.Served) {module : List UInt8} (hm : 1 ≤ module.length)
  (hm' : module.length ≤ 1024 * 1024) (state : SlotState policy) (executable : String)
  (role : Role) (bit : UInt8) (iterations : UInt32)

include hp hm hm'

/-- The parent's arguments pass every check of the probe runner, up to the iteration
count; what is left is to read and split the input. -/
theorem runnerInvocation_args (stdin : List UInt8) :
    runnerInvocation (runnerArgs executable module state.1 role bit iterations policy) stdin =
      if iterations.toNat < 2 ^ 31 then
        (readExact stdin (module.length + state.1.length)).map fun input =>
          ⟨input.take module.length, input.drop module.length, role.abi, bit.toNat,
            iterations.toNat, policy.fuel, policy.maxMemoryPages, policy.addressSpaceBytes,
            policy.cpuSeconds⟩
      else .error (.invalidArg "iterations" .posOverflow) := by
  obtain ⟨n, hn, habi, hrepr⟩ := role.repr_abi
  have hs := state.2
  have hs0 := hp.stateBytes_pos
  have hs1 := hp.stateBytes_le
  have hb := bit.toNat_lt
  unfold runnerInvocation usizeArg u64Arg u32Arg i32Arg
  rw [unsignedArg_repr (n := module.length) rfl (by omega), Except.ok_bind,
    unsignedArg_repr (n := state.1.length) rfl (by omega), Except.ok_bind,
    unsignedArg_repr (n := policy.fuel) rfl (by rw [hp.fuel]; decide), Except.ok_bind,
    unsignedArg_repr (n := policy.maxMemoryPages) rfl (by rw [hp.maxMemoryPages]; decide),
    Except.ok_bind,
    unsignedArg_repr (n := policy.addressSpaceBytes) rfl (by rw [hp.addressSpaceBytes]; decide),
    Except.ok_bind, unsignedArg_repr (n := policy.cpuSeconds) rfl (by rw [hp.cpuSeconds]; decide),
    Except.ok_bind, signedArg_repr (n := n) (congrArg some hrepr), if_pos (by omega), Except.ok_bind,
    signedArg_repr (n := bit.toNat) rfl, if_pos (by omega), Except.ok_bind,
    signedArg_repr (n := iterations.toNat) rfl]
  by_cases hi : iterations.toNat < 2 ^ 31
  · rw [if_pos (by omega), if_pos hi, Except.ok_bind, if_neg (by omega), habi]
    cases readExact stdin (module.length + state.1.length) <;> rfl
  · rw [if_neg (by omega), if_neg hi]
    rfl

/-- What `runner_main` makes of the parent's arguments and input. -/
theorem runnerInvocation_eq :
    runnerInvocation (runnerArgs executable module state.1 role bit iterations policy)
      (runnerStdin module state.1) =
      if iterations.toNat < 2 ^ 31 then
        .ok ⟨module, state.1, role.abi, bit.toNat, iterations.toNat, policy.fuel,
          policy.maxMemoryPages, policy.addressSpaceBytes, policy.cpuSeconds⟩
      else .error (.invalidArg "iterations" .posOverflow) := by
  have hread : readExact (module ++ state.1) (module.length + state.1.length) =
      .ok (module ++ state.1) := by
    rw [← List.length_append, readExact_length]
  rw [runnerInvocation_args hp hm hm', runnerStdin, hread]
  simp [Except.map]

/-- A runner that is cut off from its input does not go on. -/
theorem runnerInvocation_short {stdin : List UInt8}
    (h : stdin.length < (runnerStdin module state.1).length) :
    ∃ e, runnerInvocation (runnerArgs executable module state.1 role bit iterations policy) stdin =
      .error e := by
  rw [runnerStdin, List.length_append] at h
  rw [runnerInvocation_args hp hm hm', readExact, if_pos h]
  split
  · exact ⟨_, rfl⟩
  · exact ⟨_, rfl⟩

end ProbeRunner

/-- The probe runner passes to `wasm::execute` exactly what the parent meant: the
iteration count has the 32-bit pattern of the parent's. -/
def RoundTrips (executable : String) (policy : Policy) (module : List UInt8) (request : TurnRequest)
    (state : SlotState policy) : Prop :=
  runnerInvocation
    (runnerArgs executable module state.1 request.role request.bit
      (iterationsFor request.role request.bit policy) policy)
    (runnerStdin module state.1) =
  .ok ⟨module, state.1, request.role.abi, request.bit.toNat,
    (iterationsFor request.role request.bit policy).toBitVec.toInt, policy.fuel,
    policy.maxMemoryPages, policy.addressSpaceBytes, policy.cpuSeconds⟩

theorem roundTrips_of_served {policy : Policy} (hp : policy.Served) {module : List UInt8}
    (hm : 1 ≤ module.length) (hm' : module.length ≤ 1024 * 1024) (state : SlotState policy)
    (executable : String) (request : TurnRequest) :
    RoundTrips executable policy module request state ↔
      (iterationsFor request.role request.bit policy).toNat < 2 ^ 31 := by
  unfold RoundTrips
  rw [runnerInvocation_eq hp hm hm']
  split
  · next hi =>
    have hint : (iterationsFor request.role request.bit policy).toBitVec.toInt =
        (iterationsFor request.role request.bit policy).toNat :=
      BitVec.toInt_eq_toNat_of_lt (by simp only [UInt32.toNat_toBitVec]; omega)
    simpa [hint] using hi
  · next hi => simpa using hi

/-- For every configuration that `serve` accepts, every request (whether or not
`turn` admits it) and every slot state, the runner protocol round-trips exactly
if the iteration count chosen for the request is below 2^31. -/
theorem roundTrips_iff {args : ServeArgs} {policy : Policy} (hargs : serve args = .ok policy)
    (executable : String) {module : List UInt8} (hm : 1 ≤ module.length)
    (hm' : module.length ≤ 1024 * 1024) (request : TurnRequest) (state : SlotState policy) :
    RoundTrips executable policy module request state ↔
      (iterationsFor request.role request.bit policy).toNat < 2 ^ 31 :=
  roundTrips_of_served (serve_served hargs) hm hm' state executable request

/-- The default configuration, with the given number of hot iterations. -/
def defaultArgs (senderHotIterations : UInt32) : ServeArgs where
  token := List.replicate 16 97
  sessionSlots := 64
  stateBytes := 65536
  senderHotIterations := senderHotIterations
  senderColdIterations := 1024
  senderControlIterations := 65536
  probeIterations := 131072
  executionCutoffUs := 100000
  releaseSlotUs := 0

/-- The policy of the default configuration. -/
def defaultPolicy (senderHotIterations : UInt32) : Policy where
  stateBytes := 65536
  sessionSlots := 64
  senderHotIterations := senderHotIterations
  senderColdIterations := 1024
  senderControlIterations := 65536
  probeIterations := 131072
  executionCutoff := 100000
  releaseSlot := none
  fuel := 100000000
  maxMemoryPages := 129
  addressSpaceBytes := 256 * 1024 * 1024
  cpuSeconds := 2

theorem serve_defaultArgs (n : UInt32) : serve (defaultArgs n) = .ok (defaultPolicy n) := by
  simp [serve, releaseSlotOf, defaultArgs, defaultPolicy, Except.map]

/-- A fresh slot. -/
def zeroState (policy : Policy) : SlotState policy :=
  ⟨List.replicate policy.stateBytes 0, List.length_replicate⟩

/-- A sender's turn with bit 1. -/
def hotTurn : TurnRequest := ⟨0, 0, .sender, 1⟩

theorem roundTrips_default :
    RoundTrips "lab" (defaultPolicy 131072) [0] hotTurn (zeroState _) := by
  refine (roundTrips_iff (serve_defaultArgs 131072) "lab" (by decide) (by decide) hotTurn _).mpr ?_
  decide

/-- With 2^31 hot iterations the runner cannot parse its last argument. -/
theorem hot_turn_not_parsed :
    serve (defaultArgs 2147483648) = .ok (defaultPolicy 2147483648) ∧
    hotTurn.valid (defaultPolicy 2147483648) ∧
    ¬ RoundTrips "lab" (defaultPolicy 2147483648) [0] hotTurn (zeroState _) := by
  refine ⟨serve_defaultArgs _, by decide, fun h => ?_⟩
  have hlt := (roundTrips_of_served (serve_served (serve_defaultArgs 2147483648)) (by decide)
    (by decide) _ "lab" hotTurn).mp h
  exact absurd hlt (by decide)

/-! ## The stream runner -/

/-- What `stream_runner_main` knows when it enters its sandbox, and then passes
to `wasm::execute_stream`. -/
structure StreamInvocation where
  module : List UInt8
  previous : List UInt8
  chunk : List UInt8
  capacity : Nat
  fuel : Nat
  maxMemoryPages : Nat
  addressSpaceBytes : Nat
  cpuSeconds : Nat
deriving DecidableEq, Repr

/-- The arguments of `execute_stream_process_inner`. -/
def streamRunnerArgs (executable : String) (module previous chunk : List UInt8) (policy : Policy) :
    List String :=
  [executable, "__stream_runner", module.length.repr, previous.length.repr, chunk.length.repr,
    policy.fuel.repr, policy.maxMemoryPages.repr, policy.addressSpaceBytes.repr,
    policy.cpuSeconds.repr, streamStateBytes.repr]

/-- The input of `execute_stream_process_inner`. -/
def streamRunnerStdin (module previous chunk : List UInt8) : List UInt8 := module ++ previous ++ chunk

/-- `usize::saturating_add`. -/
def saturatingAdd (a b : Nat) : Nat := min (a + b) (2 ^ 64 - 1)

/-- `stream_runner_main` up to its sandbox. -/
def streamInvocation (args : List String) (stdin : List UInt8) :
    Except RunnerError StreamInvocation := do
  let moduleLen ← usizeArg args 2 "stream module length"
  let previousLen ← usizeArg args 3 "stream previous length"
  let chunkLen ← usizeArg args 4 "stream chunk length"
  let fuel ← u64Arg args 5 "stream fuel"
  let maxMemoryPages ← u32Arg args 6 "stream memory pages"
  let addressSpaceBytes ← u64Arg args 7 "stream address space"
  let cpuSeconds ← u64Arg args 8 "stream CPU seconds"
  let capacity ← usizeArg args 9 "stream state capacity"
  if moduleLen = 0 ∨ 1024 * 1024 < moduleLen ∨ chunkLen = 0 ∨ maxChunkBytes < chunkLen ∨
      capacity ≠ streamStateBytes ∨ capacity < saturatingAdd previousLen chunkLen then
    .error .bounds
  else
    let input ← readExact stdin (moduleLen + previousLen + chunkLen)
    let stateStart := moduleLen
    let chunkStart := stateStart + previousLen
    pure ⟨input.take moduleLen, (input.take chunkStart).drop stateStart, input.drop chunkStart,
      capacity, fuel, maxMemoryPages, addressSpaceBytes, cpuSeconds⟩

section StreamRunner

variable {policy : Policy} (hp : policy.Served) {module previous chunk : List UInt8}
  (hm : 1 ≤ module.length) (hm' : module.length ≤ 1024 * 1024) (hc : 1 ≤ chunk.length)
  (hc' : chunk.length ≤ maxChunkBytes)
  (hcap : previous.length + chunk.length ≤ streamStateBytes) (executable : String)

include hp hm hm' hc hc' hcap

/-- The parent's arguments pass every check of the stream runner; what is left is
to read and split the input. -/
theorem streamInvocation_args (stdin : List UInt8) :
    streamInvocation (streamRunnerArgs executable module previous chunk policy) stdin =
      (readExact stdin (module.length + previous.length + chunk.length)).map fun input =>
        ⟨input.take module.length,
          (input.take (module.length + previous.length)).drop module.length,
          input.drop (module.length + previous.length), streamStateBytes, policy.fuel,
          policy.maxMemoryPages, policy.addressSpaceBytes, policy.cpuSeconds⟩ := by
  have hbytes : streamStateBytes = 1048576 := rfl
  have hchunk : maxChunkBytes = 1024 := rfl
  have hsat : saturatingAdd previous.length chunk.length = previous.length + chunk.length :=
    Nat.min_eq_left (by omega)
  unfold streamInvocation usizeArg u64Arg u32Arg
  rw [unsignedArg_repr (n := module.length) rfl (by omega), Except.ok_bind,
    unsignedArg_repr (n := previous.length) rfl (by omega), Except.ok_bind,
    unsignedArg_repr (n := chunk.length) rfl (by omega), Except.ok_bind,
    unsignedArg_repr (n := policy.fuel) rfl (by rw [hp.fuel]; decide), Except.ok_bind,
    unsignedArg_repr (n := policy.maxMemoryPages) rfl (by rw [hp.maxMemoryPages]; decide),
    Except.ok_bind,
    unsignedArg_repr (n := policy.addressSpaceBytes) rfl (by rw [hp.addressSpaceBytes]; decide),
    Except.ok_bind, unsignedArg_repr (n := policy.cpuSeconds) rfl (by rw [hp.cpuSeconds]; decide),
    Except.ok_bind, unsignedArg_repr (n := streamStateBytes) rfl (by decide), Except.ok_bind, hsat,
    if_neg (by omega)]
  cases readExact stdin (module.length + previous.length + chunk.length) <;> rfl

/-- The stream runner passes to `wasm::execute_stream` exactly what the parent
meant. -/
theorem streamInvocation_eq :
    streamInvocation (streamRunnerArgs executable module previous chunk policy)
      (streamRunnerStdin module previous chunk) =
      .ok ⟨module, previous, chunk, streamStateBytes, policy.fuel, policy.maxMemoryPages,
        policy.addressSpaceBytes, policy.cpuSeconds⟩ := by
  have hread : readExact (module ++ previous ++ chunk)
      (module.length + previous.length + chunk.length) = .ok (module ++ previous ++ chunk) := by
    rw [← List.length_append, ← List.length_append, readExact_length]
  have hmodule : (module ++ previous ++ chunk).take module.length = module := by simp
  have hprevious : ((module ++ previous ++ chunk).take (module.length + previous.length)).drop
      module.length = previous := by
    rw [← List.length_append, List.take_left, List.drop_left]
  have hrest : (module ++ previous ++ chunk).drop (module.length + previous.length) = chunk := by
    rw [← List.length_append, List.drop_left]
  rw [streamInvocation_args hp hm hm' hc hc' hcap, streamRunnerStdin, hread]
  simp only [Except.map, hmodule, hprevious, hrest]

/-- A runner that is cut off from its input does not go on. -/
theorem streamInvocation_short {stdin : List UInt8}
    (h : stdin.length < (streamRunnerStdin module previous chunk).length) :
    streamInvocation (streamRunnerArgs executable module previous chunk policy) stdin =
      .error .unexpectedEof := by
  rw [streamRunnerStdin, List.length_append, List.length_append] at h
  rw [streamInvocation_args hp hm hm' hc hc' hcap, readExact, if_pos h]
  rfl

end StreamRunner

end Lab
