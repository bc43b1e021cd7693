import IshtarOxide.Lib.Result

/-!
# The sequential lab: configuration and requests

The constants, command line, policy and request types of
crates/sequential-lab/src/main.rs and protocol.rs, and the checks that come
before anything is run. Byte counts and slots are natural numbers; integers
that cross a process boundary keep their width.
-/

namespace Lab

/-- `MAX_CHUNK_BYTES`. -/
def maxChunkBytes : Nat := 1024

/-- `MAX_PENDING`. -/
def maxPending : Nat := 256

/-- `STREAM_STATE_BYTES`: the 16 pages of guest memory. -/
def streamStateBytes : Nat := 16 * 65536

/-! ## Configuration -/

/-- `ServeArgs`, without the address to bind. The token is its bytes. -/
structure ServeArgs where
  token : List UInt8
  sessionSlots : Nat
  stateBytes : Nat
  senderHotIterations : UInt32
  senderColdIterations : UInt32
  senderControlIterations : UInt32
  probeIterations : UInt32
  executionCutoffUs : UInt64
  releaseSlotUs : UInt64
deriving DecidableEq, Repr

/-- `Policy`. Durations are in microseconds. -/
structure Policy where
  stateBytes : Nat
  sessionSlots : Nat
  senderHotIterations : UInt32
  senderColdIterations : UInt32
  senderControlIterations : UInt32
  probeIterations : UInt32
  executionCutoff : Nat
  releaseSlot : Option Nat
  fuel : Nat
  maxMemoryPages : Nat
  addressSpaceBytes : Nat
  cpuSeconds : Nat
deriving DecidableEq, Repr

inductive ServeError
  | shortToken
  | slotsOrState
  | zeroCutoff
  | releaseSlot
deriving DecidableEq, Repr

/-- The `release_slot` of `serve`. The sum with the cutoff is one of 64-bit
integers. -/
def releaseSlotOf (args : ServeArgs) : Except ServeError (Option Nat) :=
  if args.releaseSlotUs = 0 then .ok none
  else if args.executionCutoffUs + 1000 < args.releaseSlotUs then
    .ok (some args.releaseSlotUs.toNat)
  else .error .releaseSlot

/-- `serve` up to the policy. -/
def serve (args : ServeArgs) : Except ServeError Policy :=
  if args.token.length < 16 then .error .shortToken
  else if args.sessionSlots < 2 ∨ args.stateBytes = 0 ∨ 65536 < args.stateBytes then
    .error .slotsOrState
  else if args.executionCutoffUs = 0 then .error .zeroCutoff
  else (releaseSlotOf args).map fun releaseSlot => {
    stateBytes := args.stateBytes
    sessionSlots := args.sessionSlots
    senderHotIterations := args.senderHotIterations
    senderColdIterations := args.senderColdIterations
    senderControlIterations := args.senderControlIterations
    probeIterations := args.probeIterations
    executionCutoff := args.executionCutoffUs.toNat
    releaseSlot := releaseSlot
    fuel := 100000000
    maxMemoryPages := 129
    addressSpaceBytes := 256 * 1024 * 1024
    cpuSeconds := 2 }

/-- The bytes of a session slot. -/
def SlotState (policy : Policy) : Type := { bytes : List UInt8 // bytes.length = policy.stateBytes }

/-- What is known of every policy that `serve` builds. -/
structure Policy.Served (policy : Policy) : Prop where
  stateBytes_pos : 0 < policy.stateBytes
  stateBytes_le : policy.stateBytes ≤ 65536
  sessionSlots : 2 ≤ policy.sessionSlots
  executionCutoff : 0 < policy.executionCutoff
  fuel : policy.fuel = 100000000
  maxMemoryPages : policy.maxMemoryPages = 129
  addressSpaceBytes : policy.addressSpaceBytes = 256 * 1024 * 1024
  cpuSeconds : policy.cpuSeconds = 2

theorem serve_served {args : ServeArgs} {policy : Policy} (h : serve args = .ok policy) :
    policy.Served := by
  unfold serve at h
  split at h
  · cases h
  · split at h
    · cases h
    · next hslots =>
      split at h
      · cases h
      · next hcut =>
        obtain ⟨release, _, rfl⟩ := Except.map_eq_ok.mp h
        have hpos : args.executionCutoffUs.toNat ≠ 0 := fun h0 =>
          hcut (UInt64.toNat_inj.mp h0)
        constructor <;> first | rfl | (simp only; omega)

/-! ## Requests -/

/-- `Role`. -/
inductive Role
  | sender
  | probe
  | control
deriving DecidableEq, Repr

/-- `Role::abi`. -/
def Role.abi : Role → Int
  | .sender => 0
  | .probe => 1
  | .control => 2

/-- `TurnRequest`. -/
structure TurnRequest where
  sessionSlot : UInt16
  trialId : UInt64
  role : Role
  bit : UInt8
deriving DecidableEq, Repr

/-- `StreamChunkRequest`. The chunk is the bytes of its UTF-8 text. -/
structure StreamChunkRequest where
  sessionSlot : UInt16
  sequence : UInt64
  chunk : List UInt8
deriving DecidableEq, Repr

/-- The checks of `turn` on its request. -/
def TurnRequest.valid (policy : Policy) (request : TurnRequest) : Bool :=
  ¬ (policy.sessionSlots ≤ request.sessionSlot.toNat ∨ 1 < request.bit ∨
    (request.role = .probe ∧ request.bit ≠ 0))

/-- The checks of `stream_chunk` on its request. -/
def StreamChunkRequest.valid (policy : Policy) (request : StreamChunkRequest) : Bool :=
  ¬ (policy.sessionSlots ≤ request.sessionSlot.toNat ∨ request.chunk = [] ∨
    maxChunkBytes < request.chunk.length ∨ ¬ request.chunk.all (· < 128))

/-- `iterations_for`. -/
def iterationsFor (role : Role) (bit : UInt8) (policy : Policy) : UInt32 :=
  match role with
  | .sender => if bit = 1 then policy.senderHotIterations else policy.senderColdIterations
  | .control => policy.senderControlIterations
  | .probe => policy.probeIterations

/-- The `outcome` of a chunk. -/
inductive Outcome
  | complete
  | timedOut
  | failed
deriving DecidableEq, Repr

end Lab
