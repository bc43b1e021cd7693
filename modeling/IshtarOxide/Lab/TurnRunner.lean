import IshtarOxide.Guest.ProbeTrace
import IshtarOxide.Lab.StreamRunner

/-!
# The probe runner end to end

From the arguments and the input of a turn, through the guest, back to the
parent's test of the output.

* `turn_success`: what the driver returns as a success is the slot state with every
  byte flipped, whatever the role, the bit and the iterations were.
* `turnMain_eq`: with enough fuel the runner gets there.
* `probe_fixture`: the shipped module on every input, with its accesses to the memory.
-/

open Linux Sandbox Guest Wasm

namespace Lab

/-! ## `wasm::execute` on the shipped module -/

/-- The memory of `sequential_probe.wat`. -/
def probeMemory : MemoryType := ⟨false, false, none, 129, some 129⟩

/-- What a turn makes of a slot state. -/
def flipAll (state : List UInt8) : List UInt8 := state.map flip

@[simp] theorem length_flipAll (state : List UInt8) : (flipAll state).length = state.length :=
  List.length_map _

variable {t : Toolchain} {bytes state : List UInt8} {role bit iterations : Int} {fuel pages : Nat}

/-- The state is read back flipped. -/
theorem read_flipped {size : Nat} {m : Memory} (hsize : 65536 ≤ size)
    (hstate : state.length ≤ 65536)
    (h : SequentialProbe.SameState
      (SequentialProbe.flipUpTo (.ofBytes size state) state.length) m) :
    m.read 0 state.length = some (flipAll state) := by
  have hm : m.size = size := h.size
  unfold Memory.read
  rw [if_pos (by omega)]
  congr 1
  refine List.ext_getElem (by simp) fun i hi _ => ?_
  simp only [List.length_map, List.length_range] at hi
  have hbyte := h.byte i (by omega)
  simp only [SequentialProbe.flipUpTo, if_pos hi, Memory.ofBytes, List.getD_eq_getElem?_getD,
    List.getElem?_eq_getElem hi, Option.getD_some] at hbyte
  simp [flipAll, hbyte]

/-- Everything in `execute` around the call of `run` is fine. -/
theorem execute_eq_invoke (h : Ships t bytes probeMemory SequentialProbe.sequentialProbe)
    (hpages : 129 ≤ pages) (hstate : state.length ≤ 65536) :
    execute t bytes state role bit iterations fuel pages =
      if (SequentialProbe.run.invoke fuel [.ofInt 32 role, .ofInt 32 bit, .ofInt 32 iterations,
        .ofNat 32 state.length] (.ofBytes (129 * 65536) state)).isSome then .ok (flipAll state)
      else .error .call := by
  have hvalid : validate t.wasmparser bytes pages = .ok () :=
    validate_ships h (by simp [checkMemory, probeMemory, hpages])
  have hinst : SequentialProbe.sequentialProbe.instantiate (pages * 65536) =
      some (.ofBytes (129 * 65536) []) :=
    if_pos (Nat.mul_le_mul_right 65536 hpages)
  have hmem : SequentialProbe.sequentialProbe.hasMemory "memory" = true := rfl
  have hfits : ¬ (Memory.ofBytes (129 * 65536) []).size < state.length := by
    show ¬ 129 * 65536 < state.length
    omega
  have hinject : (Memory.ofBytes (129 * 65536) []).write 0 state =
      some (.ofBytes (129 * 65536) state) :=
    Memory.write_ofBytes [] state (by rw [List.length_nil]; omega)
  have hfunc : SequentialProbe.sequentialProbe.typedFunc "run" 4 1 =
      some SequentialProbe.run := rfl
  have hlen : (BitVec.ofNat 32 state.length).toNat = state.length :=
    Nat.mod_eq_of_lt (Nat.lt_of_le_of_lt hstate (by decide))
  simp only [execute, hvalid, Except.mapError_ok, Except.ok_bind, h.compiles, hinst, hmem,
    Bool.true_eq_false, if_false, hfits, hinject, hfunc]
  cases hrun : SequentialProbe.run.invoke fuel [.ofInt 32 role, .ofInt 32 bit, .ofInt 32 iterations,
      .ofNat 32 state.length] (.ofBytes (129 * 65536) state) with
  | none => rfl
  | some result =>
    obtain ⟨v, m⟩ := result
    have hsame := SequentialProbe.eq_of_run_invoke rfl
      (show _ ≤ 129 * 65536 by rw [hlen]; omega) hrun
    rw [hlen] at hsame
    simp only [read_flipped (by decide) hstate hsame]
    rfl

/-- With any fuel it returns nothing but the flipped state. -/
theorem execute_ok {output : List UInt8}
    (h : Ships t bytes probeMemory SequentialProbe.sequentialProbe) (hpages : 129 ≤ pages)
    (hstate : state.length ≤ 65536)
    (hok : execute t bytes state role bit iterations fuel pages = .ok output) :
    output = flipAll state := by
  rw [execute_eq_invoke h hpages hstate] at hok
  split at hok
  · cases hok
    rfl
  · cases hok

/-- With enough fuel it returns the flipped state. -/
theorem execute_eq {rounds : Nat} (h : Ships t bytes probeMemory SequentialProbe.sequentialProbe)
    (hpages : 129 ≤ pages) (hstate : state.length ≤ 65536) (hrounds : rounds < 2 ^ 31)
    (hfuel : SequentialProbe.runFuel rounds state.length ≤ fuel) :
    execute t bytes state role bit rounds fuel pages = .ok (flipAll state) := by
  have hlen : (BitVec.ofNat 32 state.length).toNat = state.length :=
    Nat.mod_eq_of_lt (Nat.lt_of_le_of_lt hstate (by decide))
  have hiter : (BitVec.ofInt 32 (rounds : Int)).toNat = rounds := by
    rw [BitVec.ofInt_natCast, BitVec.toNat_ofNat]
    exact Nat.mod_eq_of_lt (by omega)
  have hrun : ∃ v m, SequentialProbe.run.invoke fuel [.ofInt 32 role, .ofInt 32 bit,
      .ofInt 32 rounds, .ofNat 32 state.length] (.ofBytes (129 * 65536) state) = some (v, m) :=
    SequentialProbe.run_invoke rfl (show _ ≤ 129 * 65536 by rw [hlen]; omega)
      (by rw [hlen, hiter]; exact hfuel)
  obtain ⟨v, m, hrun⟩ := hrun
  rw [execute_eq_invoke h hpages hstate, hrun]
  rfl

theorem flipAll_flipAll (state : List UInt8) : flipAll (flipAll state) = state := by
  simp [flipAll, Function.comp_def, Guest.flip_flip]

/-! ## From the parent to the guest and back -/

section TurnRunner

variable {host : Host} {policy : Policy} (hp : policy.Served) (state : SlotState policy)
  (hship : Ships host.toolchain host.module probeMemory SequentialProbe.sequentialProbe)
  {role : Role} {bit : UInt8} {iterations : UInt32}

include hp hship

/-- Whatever part of its input reaches it, the probe runner writes nothing else. -/
theorem turnMain_ok {n : Nat} {stdout : List UInt8}
    (h : main host (executeProcess host policy state.1 role bit iterations).argv
      ((executeProcess host policy state.1 role bit iterations).stdin.take n) = .ok stdout) :
    stdout = flipAll state.1 := by
  have hmain : main host (executeProcess host policy state.1 role bit iterations).argv =
      runnerMain host (executeProcess host policy state.1 role bit iterations).argv := rfl
  rw [hmain] at h
  obtain ⟨invocation, hinvocation, h⟩ := Except.bind_eq_ok.mp h
  obtain ⟨_, _, h⟩ := Except.bind_eq_ok.mp h
  have hinvocation := Except.mapError_eq_ok.mp hinvocation
  by_cases hn : (executeProcess host policy state.1 role bit iterations).stdin.length ≤ n
  · rw [List.take_of_length_le hn] at hinvocation
    have heq := runnerInvocation_eq hp hship.nonempty hship.size state host.executable role bit
      iterations
    rw [show runnerInvocation (runnerArgs host.executable host.module state.1 role bit iterations
      policy) (runnerStdin host.module state.1) = .ok invocation from hinvocation] at heq
    split at heq
    · cases heq
      have hstate := state.2
      have hbytes := hp.stateBytes_le
      exact execute_ok hship (by rw [hp.maxMemoryPages]) (show state.1.length ≤ 65536 by omega)
        (Except.mapError_eq_ok.mp h)
    · cases heq
  · obtain ⟨e, he⟩ := runnerInvocation_short hp hship.nonempty hship.size state host.executable role
      bit iterations
      (show ((executeProcess host policy state.1 role bit iterations).stdin.take n).length < _ from
        Nat.lt_of_le_of_lt (List.length_take_le _ _) (Nat.not_le.mp hn))
    rw [show runnerInvocation (runnerArgs host.executable host.module state.1 role bit iterations
      policy) _ = .ok invocation from hinvocation] at he
    cases he

/-- What the driver of a turn returns as a success. -/
theorem turn_success {output : List UInt8}
    (h : (executeProcess host policy state.1 role bit iterations).Succeeds host output) :
    output = flipAll state.1 := by
  obtain ⟨⟨n, stdout, hmain, rfl⟩, _⟩ := h
  rw [turnMain_ok hp state hship hmain]
  refine List.take_of_length_le ?_
  rw [length_flipAll, state.2]
  exact Nat.le_succ _

/-- In a sandbox that can be set up, with enough fuel for its iterations, the probe
runner returns. -/
theorem turnMain_eq (hconf : host.Confines policy) (hiter : iterations.toNat < 2 ^ 31)
    (hfuel : SequentialProbe.runFuel iterations.toNat policy.stateBytes ≤ policy.fuel) :
    main host (executeProcess host policy state.1 role bit iterations).argv
      (executeProcess host policy state.1 role bit iterations).stdin = .ok (flipAll state.1) := by
  obtain ⟨q, hq⟩ := hconf.setup_ok
  have hinvocation := runnerInvocation_eq hp hship.nonempty hship.size state host.executable role
    bit iterations
  rw [if_pos hiter] at hinvocation
  have hstate := state.2
  have hbytes := hp.stateBytes_le
  have hrun : execute host.toolchain host.module state.1 role.abi bit.toNat iterations.toNat
      policy.fuel policy.maxMemoryPages = .ok (flipAll state.1) :=
    execute_eq hship (by rw [hp.maxMemoryPages]) (by omega) hiter (by rw [hstate]; exact hfuel)
  show runnerMain host (runnerArgs host.executable host.module state.1 role bit iterations policy)
    (runnerStdin host.module state.1) = _
  simp only [runnerMain, hinvocation, Except.mapError_ok, Except.ok_bind, hq, hrun]

end TurnRunner

/-! ## A host with the shipped module -/

/-- `sequential_probe.wat` in binary form, up to the end of the state loop. -/
def probeStart : List UInt8 :=
  [0, 97, 115, 109, 1, 0, 0, 0, 1, 9, 1, 96, 4, 127, 127, 127, 127, 1, 127, 3, 2, 1, 0, 5, 6, 1,
    1, 129, 1, 129, 1, 7, 16, 2, 6, 109, 101, 109, 111, 114, 121, 2, 0, 3, 114, 117, 110, 0, 0, 10,
    121, 1, 119, 1, 3, 127, 65, 0, 33, 4, 2, 64, 3, 64, 32, 4, 32, 3, 79, 13, 1, 32, 4, 32, 4, 45,
    0, 0, 65, 218, 0, 115, 58, 0, 0, 32, 4, 65, 1, 106, 33, 4, 12, 0, 11, 11]

/-- The rest of it. -/
def probeEnd : List UInt8 :=
  [65, 0, 33, 4, 65, 136, 213, 253, 161, 2, 33, 6, 2, 64, 3, 64, 32, 4, 32, 2, 79, 13, 1, 65, 128,
    128, 4, 32, 4, 65, 192, 0, 108, 65, 252, 255, 255, 3, 113, 106, 33, 5, 32, 6, 32, 5, 40, 2, 0,
    115, 33, 6, 32, 5, 32, 6, 32, 4, 106, 54, 2, 0, 32, 4, 65, 1, 106, 33, 4, 12, 0, 11, 11, 32, 6,
    11]

def probeBytes : List UInt8 := probeStart ++ probeEnd

/-- The wasm crates, as they are on this module. -/
def probeToolchain : Toolchain where
  wasmparser := {
    validateAll := fun bytes => bytes == probeBytes
    parseAll := fun bytes =>
      if bytes = probeBytes then
        List.replicate 3 (some .other) ++ some (.memorySection [some probeMemory]) ::
          List.replicate 4 (some .other)
      else [none] }
  compile := fun bytes =>
    if bytes = probeBytes then some SequentialProbe.sequentialProbe else none

/-- A container with Landlock; only the probe module is compiled. -/
def probeHost : Host := { streamHost with module := probeBytes, toolchain := probeToolchain }

theorem length_probeBytes : probeBytes.length = 96 + 76 := List.length_append

theorem probeHost_ships :
    Ships probeHost.toolchain probeHost.module probeMemory SequentialProbe.sequentialProbe where
  nonempty := by rw [show probeHost.module.length = _ from length_probeBytes]; decide
  size := by rw [show probeHost.module.length = _ from length_probeBytes]; decide
  valid := by simp [probeHost, probeToolchain]
  payloads := ⟨3, 4, by simp [probeHost, probeToolchain]⟩
  compiles := by simp [probeHost, probeToolchain]

/-- The default configuration with a state of two bytes. -/
def smallArgs : ServeArgs := { defaultArgs 131072 with stateBytes := 2 }

def smallPolicy : Policy := { defaultPolicy 131072 with stateBytes := 2 }

theorem serve_smallArgs : serve smallArgs = .ok smallPolicy := by
  simp [serve, releaseSlotOf, smallArgs, smallPolicy, defaultArgs, defaultPolicy, Except.map]

theorem probeHost_confines : probeHost.Confines smallPolicy where
  standardOpen := by decide
  landlock := by decide
  lowerable := spawnedChild_lowerable (by decide) (by decide)
  openFiles := by decide
  seccomp := rfl
  arch := rfl

/-! ## The probe module -/

/-- The probe module, for every role, bit and number of iterations. With enough fuel `run` returns;
its accesses are inside the memory, those of the work behind the first page; and it leaves the
state flipped. Through `execute` it is an involution on states, and with any fuel the role and the
bit are of no matter. -/
theorem probe_fixture (state : List UInt8) (hstate : state.length ≤ 65536)
    (role bit iterations : Value) :
    (∃ v m', (∀ fuel, SequentialProbe.runFuel iterations.toNat state.length ≤ fuel →
        SequentialProbe.run.invoke fuel [role, bit, iterations, .ofNat 32 state.length]
          (.ofBytes (129 * 65536) state) = some (v, m') ∧
        trace fuel (SequentialProbe.run.call [role, bit, iterations, .ofNat 32 state.length]
          (.ofBytes (129 * 65536) state)) =
          SequentialProbe.stateAccesses state.length ++
            SequentialProbe.workAccesses iterations.toNat) ∧
      m'.read 0 state.length = some (flipAll state)) ∧
    (∀ access ∈ SequentialProbe.stateAccesses state.length ++
        SequentialProbe.workAccesses iterations.toNat,
      access.address + access.bytes ≤ 129 * 65536) ∧
    (∀ access ∈ SequentialProbe.workAccesses iterations.toNat, 65536 ≤ access.address) ∧
    ∀ (t : Toolchain) (bytes : List UInt8) (pages : Nat),
      Ships t bytes probeMemory SequentialProbe.sequentialProbe → 129 ≤ pages → ∀ fuel,
      (SequentialProbe.runFuel iterations.toNat state.length ≤ fuel →
        execute t bytes state role.toInt bit.toInt iterations.toInt fuel pages =
          .ok (flipAll state) ∧
        execute t bytes (flipAll state) role.toInt bit.toInt iterations.toInt fuel pages =
          .ok state) ∧
      ∀ role' bit' : Int,
        execute t bytes state role' bit' iterations.toInt fuel pages =
          execute t bytes state role.toInt bit.toInt iterations.toInt fuel pages := by
  have hlen : (BitVec.ofNat 32 state.length).toNat = state.length :=
    Nat.mod_eq_of_lt (Nat.lt_of_le_of_lt hstate (by decide))
  have hfits : ∀ s : List UInt8, s.length = state.length →
      (BitVec.ofNat 32 s.length).toNat ≤ (Memory.ofBytes (129 * 65536) s).size := by
    intro s hs
    show _ ≤ 129 * 65536
    rw [hs, hlen]
    omega
  -- neither the role nor the bit is in what `run` returns or in its steps
  have hexecute : ∀ (t : Toolchain) (bytes s : List UInt8) (pages fuel : Nat) (role bit : Int),
      Ships t bytes probeMemory SequentialProbe.sequentialProbe → 129 ≤ pages →
      s.length = state.length →
      execute t bytes s role bit iterations.toInt fuel pages =
        if SequentialProbe.runFuel iterations.toNat state.length ≤ fuel then .ok (flipAll s)
        else .error .call := by
    intro t bytes s pages fuel role bit hship hpages hs
    rw [execute_eq_invoke hship hpages (hs ▸ hstate), BitVec.ofInt_toInt,
      SequentialProbe.run_invoke_eq rfl (hfits s hs), hs, hlen]
    split
    · rfl
    · rfl
  refine ⟨⟨SequentialProbe.result (.ofBytes (129 * 65536) state) iterations.toNat state.length,
    SequentialProbe.memoryAfter (.ofBytes (129 * 65536) state) iterations.toNat state.length,
    fun fuel hfuel => ⟨?_, ?_⟩, ?_⟩, ?_, ?_, ?_⟩
  · rw [SequentialProbe.run_invoke_eq rfl (hfits state rfl), hlen, if_pos hfuel]
  · have htakes : Takes _ (SequentialProbe.run.call [role, bit, iterations,
        .ofNat 32 state.length] (.ofBytes (129 * 65536) state)) _ _ :=
      SequentialProbe.run_takes rfl (hfits state rfl)
    rw [hlen] at htakes
    exact htakes.trace_of_le hfuel
  · exact read_flipped (by decide) hstate (SequentialProbe.sameState_workState _ _)
  · intro access haccess
    rcases List.mem_append.mp haccess with hstateAccess | hworkAccess
    · exact Nat.le_trans (SequentialProbe.mem_stateAccesses hstateAccess) (by omega)
    · exact (SequentialProbe.mem_workAccesses hworkAccess).2
  · intro access haccess
    exact (SequentialProbe.mem_workAccesses haccess).1
  · intro t bytes pages hship hpages fuel
    refine ⟨fun hfuel => ⟨?_, ?_⟩, fun role' bit' => ?_⟩
    · rw [hexecute t bytes state pages fuel _ _ hship hpages rfl, if_pos hfuel]
    · rw [hexecute t bytes _ pages fuel _ _ hship hpages (length_flipAll state), if_pos hfuel,
        flipAll_flipAll]
    · rw [hexecute t bytes state pages fuel _ _ hship hpages rfl,
        hexecute t bytes state pages fuel _ _ hship hpages rfl]

theorem probe_fixture_two_bytes :
    execute probeToolchain probeBytes [17, 34] 1 0 100 3000 129 = .ok [75, 120] ∧
      execute probeToolchain probeBytes [75, 120] 1 0 100 3000 129 = .ok [17, 34] := by
  obtain ⟨-, -, -, hexecute⟩ := probe_fixture [17, 34] (by decide) 1 0 100
  exact (hexecute probeToolchain probeBytes 129 probeHost_ships (by decide) 3000).1 (by decide)

end Lab
