import IshtarOxide.Lib.Wasm

/-!
# The probe guest

`fixtures/sequential_probe.wat`, and what its `run` does to the state: every byte
of it is xored with 90, whatever the role, the bit and the number of iterations
are. The work of the iterations stays behind the first page.
-/

open Wasm

namespace Guest

/-- What a turn makes of a byte of state. -/
def flip (b : UInt8) : UInt8 := b ^^^ 90

theorem flip_flip (b : UInt8) : flip (flip b) = b := by
  rw [flip, flip, UInt8.xor_assoc, UInt8.xor_self, UInt8.xor_zero]

namespace SequentialProbe

/-! ## The module -/

-- locals: 0 role, 1 bit, 2 iterations, 3 state_len, 4 i, 5 address, 6 acc

/-- The body of `$state_loop`. -/
def stateBody : List Op :=
  [.localGet 4, .localGet 4, .load8U 0, .const 90, .binop .xor, .store8 0,
    .localGet 4, .const 1, .binop .add, .localSet 4]

/-- `$state_loop`. -/
def stateLoop : Instr := whileLoop [.localGet 4, .localGet 3, .binop .geU] stateBody

/-- The parts of the body of `$work_loop`: the address, the load, the store and the counter. -/
def addressOps : List Op :=
  [.const 65536, .localGet 4, .const 64, .binop .mul, .const 0x007ffffc, .binop .and, .binop .add,
    .localSet 5]

def loadOps : List Op := [.localGet 6, .localGet 5, .load 0, .binop .xor, .localSet 6]

def storeOps : List Op := [.localGet 5, .localGet 6, .localGet 4, .binop .add, .store 0]

def nextOps : List Op := [.localGet 4, .const 1, .binop .add, .localSet 4]

/-- The body of `$work_loop`. -/
def workBody : List Op := addressOps ++ (loadOps ++ (storeOps ++ nextOps))

/-- `$work_loop`. -/
def workLoop : Instr := whileLoop [.localGet 4, .localGet 2, .binop .geU] workBody

/-- `run`. -/
def runBody : List Instr :=
  [Op.const 0, .localSet 4].map .op ++
  stateLoop ::
  ([Op.const 0, .localSet 4, .const 0x243f6a88, .localSet 6].map .op ++
  workLoop ::
  [.op (.localGet 6)])

def run : Func := ⟨4, 1, 3, runBody⟩

/-- `sequential_probe.wat`. -/
def sequentialProbe : Module := ⟨129, some 129, [("memory", .memory), ("run", .func run)]⟩

/-! ## The state loop -/

/-- The memory with its first `stop` bytes flipped. -/
def flipUpTo (m : Memory) (stop : Nat) : Memory :=
  { m with byte := fun a => if a < stop then flip (m.byte a) else m.byte a }

variable {role bit iterations len i address acc : Value} {m : Memory} {fuel : Nat}

theorem flipUpTo_zero : flipUpTo m 0 = m := by simp [flipUpTo]

/-- One more byte. -/
theorem flipUpTo_succ (stop : Nat) :
    flipUpTo m (stop + 1) = (flipUpTo m stop).set stop (flip (m.byte stop)) := by
  simp only [flipUpTo, Memory.set, Memory.mk.injEq, true_and]
  funext a
  by_cases ha : a = stop
  · subst ha
    simp
  · have hiff : a < stop + 1 ↔ a < stop := by omega
    simp only [ha, if_false, hiff]

theorem flip_eq (b : UInt8) :
    (⟨(b.toBitVec.setWidth 32 ^^^ (90 : Value)).setWidth 8⟩ : UInt8) = flip b := by
  apply UInt8.toBitVec_inj.mp
  show BitVec.setWidth 8 (BitVec.setWidth 32 b.toBitVec ^^^ 90) = b.toBitVec ^^^ 90
  rw [BitVec.setWidth_xor, BitVec.setWidth_setWidth_of_le _ (by decide), BitVec.setWidth_eq]
  rfl

/-- The counter of a loop goes up without wrapping. -/
theorem toNat_succ {stop : Value} (h : i.toNat < stop.toNat) : (i + 1).toNat = i.toNat + 1 := by
  have := stop.isLt
  rw [BitVec.toNat_add]
  exact Nat.mod_eq_of_lt (Nat.lt_of_le_of_lt h this)

/-- At the head of the state loop: the bytes up to `i` are done. -/
def AtState (role bit iterations len address acc : Value) (m : Memory) (f : Frame) : Prop :=
  ∃ i, f = ⟨[], [role, bit, iterations, len, i, address, acc], flipUpTo m i.toNat⟩ ∧
    i.toNat ≤ len.toNat

/-- One byte of the state. -/
theorem state_ops (hi : i.toNat < m.size) :
    execOps stateBody ⟨[], [role, bit, iterations, len, i, address, acc], m⟩ =
    some ⟨[], [role, bit, iterations, len, i + 1, address, acc],
      m.set i.toNat (flip (m.byte i.toNat))⟩ := by
  simp [stateBody, execOps, Op.exec, hi, BinOp.eval, ← flip_eq]

/-- The tests of both loops. -/
theorem truth_of_le {a b : Value} : (truth (a ≤ b) ≠ 0 → a.toNat ≤ b.toNat) ∧
    (truth (a ≤ b) = 0 → b.toNat < a.toNat) := by
  by_cases h : a ≤ b
  · exact ⟨fun _ => BitVec.le_def.mp h, fun h0 => by simp [truth, h] at h0⟩
  · exact ⟨fun h0 => absurd (by simp [truth, h]) h0,
      fun _ => Nat.lt_of_not_le fun hle => h (BitVec.le_def.mpr hle)⟩

/-- The state loop flips the state. -/
theorem stateLoop_terminates {rest : List Instr} {Q : Frame → Prop} (hlen : len.toNat ≤ m.size)
    (h : Terminates fuel ⟨⟨[], [role, bit, iterations, len, len, address, acc],
      flipUpTo m len.toNat⟩, rest, []⟩ Q) :
    Terminates (16 * len.toNat + fuel + 6)
      ⟨⟨[], [role, bit, iterations, len, 0, address, acc], m⟩, stateLoop :: rest, []⟩ Q := by
  rw [stateLoop]
  refine .mono ?_ (.whileLoop (n := fuel) (I := AtState role bit iterations len address acc m)
    (fun f => len.toNat - (f.locals.getD 4 0).toNat) ?_ ?_ ?_)
  · show (3 + 10 + 3) * (len.toNat - 0) + 3 + fuel + 3 ≤ _
    omega
  · rintro f ⟨i, rfl, _⟩
    rfl
  · rintro f ⟨i, rfl, hi⟩
    refine ⟨truth (len ≤ i), rfl, fun hv => ?_, fun hv => ?_⟩
    · obtain rfl : i = len := BitVec.eq_of_toNat_eq (Nat.le_antisymm hi (truth_of_le.1 hv))
      exact h
    · have hlt := truth_of_le.2 hv
      have hsucc := toNat_succ hlt
      have hbyte : (flipUpTo m i.toNat).byte i.toNat = m.byte i.toNat := by simp [flipUpTo]
      refine ⟨_, state_ops (Nat.lt_of_lt_of_le hlt hlen), ⟨i + 1, ?_, by omega⟩, ?_⟩
      · rw [hbyte, hsucc, flipUpTo_succ]
      · show len.toNat - (i + 1).toNat < len.toNat - i.toNat
        omega
  · exact ⟨0, congrArg (Frame.mk [] _) flipUpTo_zero.symm, Nat.zero_le _⟩

/-! ## The work loop -/

/-- The work does not touch the first page. -/
structure SameState (m m' : Memory) : Prop where
  size : m'.size = m.size
  byte : ∀ a < 65536, m'.byte a = m.byte a

theorem SameState.refl (m : Memory) : SameState m m := ⟨rfl, fun _ _ => rfl⟩

theorem SameState.setWord {m' : Memory} {a : Nat} {v : Value} (h : SameState m m')
    (ha : 65536 ≤ a) : SameState m (m'.setWord a v) where
  size := h.size
  byte := by
    intro b hb
    rw [← h.byte b hb]
    simp only [Memory.setWord, Memory.set]
    rw [if_neg (by omega), if_neg (by omega), if_neg (by omega), if_neg (by omega)]

/-- The address of a round. -/
def workAddress (i : Value) : Value := 65536 + ((i * 64) &&& 0x007ffffc)

/-- The addresses are those of the 128 pages behind the first one. -/
theorem workAddress_bounds (i : Value) :
    65536 ≤ (workAddress i).toNat ∧ (workAddress i).toNat + 4 ≤ 129 * 65536 := by
  have hand : ((i * 64) &&& (0x007ffffc : Value)).toNat ≤ 0x007ffffc := by
    rw [BitVec.toNat_and]
    exact Nat.and_le_right
  have hadd : (workAddress i).toNat = 65536 + ((i * 64) &&& (0x007ffffc : Value)).toNat := by
    rw [workAddress, BitVec.toNat_add]
    exact Nat.mod_eq_of_lt (by
      show 65536 + _ < _
      omega)
  omega

/-- At the head of the work loop. -/
def AtWork (role bit iterations len : Value) (m : Memory) (f : Frame) : Prop :=
  ∃ i address acc m', f = ⟨[], [role, bit, iterations, len, i, address, acc], m'⟩ ∧
    SameState m m' ∧ i.toNat ≤ iterations.toNat

/-- The word at the address goes into the accumulator. -/
theorem load_ops (hsize : address.toNat + 4 ≤ m.size) :
    execOps loadOps ⟨[], [role, bit, iterations, len, i, address, acc], m⟩ =
    some ⟨[], [role, bit, iterations, len, i, address, acc ^^^ m.word address.toNat], m⟩ := by
  simp [loadOps, execOps, Op.exec, BinOp.eval, hsize]

/-- The accumulator and the counter go to the address. -/
theorem store_ops (hsize : address.toNat + 4 ≤ m.size) :
    execOps storeOps ⟨[], [role, bit, iterations, len, i, address, acc], m⟩ =
    some ⟨[], [role, bit, iterations, len, i, address, acc], m.setWord address.toNat (acc + i)⟩ := by
  simp [storeOps, execOps, Op.exec, BinOp.eval, hsize]

/-- One round of the work. -/
theorem work_ops (hsize : (workAddress i).toNat + 4 ≤ m.size) :
    execOps workBody ⟨[], [role, bit, iterations, len, i, address, acc], m⟩ =
    some ⟨[], [role, bit, iterations, len, i + 1, workAddress i,
        acc ^^^ m.word (workAddress i).toNat],
      m.setWord (workAddress i).toNat ((acc ^^^ m.word (workAddress i).toNat) + i)⟩ := by
  have haddress : execOps addressOps ⟨[], [role, bit, iterations, len, i, address, acc], m⟩ =
      some ⟨[], [role, bit, iterations, len, i, workAddress i, acc], m⟩ := rfl
  rw [workBody, execOps_append haddress, execOps_append (load_ops hsize),
    execOps_append (store_ops hsize)]
  rfl

/-- The work loop leaves the state as it is. -/
theorem workLoop_terminates {rest : List Instr} {Q : Frame → Prop} (hsize : m.size = 129 * 65536)
    (h : ∀ address acc m', SameState m m' → Terminates fuel
      ⟨⟨[], [role, bit, iterations, len, iterations, address, acc], m'⟩, rest, []⟩ Q) :
    Terminates (28 * iterations.toNat + fuel + 6)
      ⟨⟨[], [role, bit, iterations, len, 0, address, acc], m⟩, workLoop :: rest, []⟩ Q := by
  rw [workLoop]
  refine .mono ?_ (.whileLoop (n := fuel) (I := AtWork role bit iterations len m)
    (fun f => iterations.toNat - (f.locals.getD 4 0).toNat) ?_ ?_ ?_)
  · show (3 + 22 + 3) * (iterations.toNat - 0) + 3 + fuel + 3 ≤ _
    omega
  · rintro f ⟨i, address, acc, m', rfl, _⟩
    rfl
  · rintro f ⟨i, address, acc, m', rfl, hm, hi⟩
    refine ⟨truth (iterations ≤ i), rfl, fun hv => ?_, fun hv => ?_⟩
    · obtain rfl : i = iterations := BitVec.eq_of_toNat_eq (Nat.le_antisymm hi (truth_of_le.1 hv))
      exact h address acc m' hm
    · have hlt := truth_of_le.2 hv
      have hsucc := toNat_succ hlt
      obtain ⟨hlow, hhigh⟩ := workAddress_bounds i
      refine ⟨_, work_ops (by rw [hm.size, hsize]; exact hhigh),
        ⟨i + 1, _, _, _, rfl, hm.setWord hlow, by omega⟩, ?_⟩
      show iterations.toNat - (i + 1).toNat < iterations.toNat - i.toNat
      omega
  · exact ⟨0, address, acc, m, rfl, .refl m, Nat.zero_le _⟩

/-! ## `run` -/

/-- The end of `run`: something is returned, and the state is flipped. -/
def Done (m : Memory) (len : Nat) (f : Frame) : Prop :=
  f.stack.length = 1 ∧ SameState (flipUpTo m len) f.memory

/-- The steps of `run`. -/
def runFuel (iterations len : Nat) : Nat := 16 * len + 28 * iterations + 20

theorem run_terminates (hsize : m.size = 129 * 65536) (hlen : len.toNat ≤ m.size) :
    Terminates (runFuel iterations.toNat len.toNat) (run.call [role, bit, iterations, len] m)
      (Done m len.toNat) := by
  refine .mono (n := 16 * len.toNat + (28 * iterations.toNat + (0 + 1 + 1) + 6 + 4) + 6 + 2)
    (by unfold runFuel; omega) ?_
  refine .ops [.const 0, .localSet 4] _ rfl ?_
  refine stateLoop_terminates hlen ?_
  refine .ops [.const 0, .localSet 4, .const 0x243f6a88, .localSet 6] _ rfl ?_
  refine workLoop_terminates hsize fun address acc m' hm => ?_
  refine .ops [.localGet 6] [] rfl ?_
  exact .halt rfl ⟨rfl, hm⟩

/-- With any fuel, if `run` returns, the state is flipped. -/
theorem eq_of_run_invoke {v : Value} {m' : Memory} (hsize : m.size = 129 * 65536)
    (hlen : len.toNat ≤ m.size)
    (h : run.invoke fuel [role, bit, iterations, len] m = some (v, m')) :
    SameState (flipUpTo m len.toNat) m' := by
  unfold Func.invoke at h
  split at h
  · next f hf =>
    obtain ⟨_, hstate⟩ := (run_terminates hsize hlen).of_done hf
    obtain ⟨_, _, h⟩ := Option.map_eq_some_iff.mp h
    cases h
    exact hstate
  · cases h
  · cases h

/-- With enough fuel, `run` returns. -/
theorem run_invoke (hsize : m.size = 129 * 65536) (hlen : len.toNat ≤ m.size)
    (hfuel : runFuel iterations.toNat len.toNat ≤ fuel) :
    ∃ v m', run.invoke fuel [role, bit, iterations, len] m = some (v, m') := by
  have hterm : Terminates fuel (run.call [role, bit, iterations, len] m) (Done m len.toNat) :=
    .mono hfuel (run_terminates hsize hlen)
  obtain ⟨f, hf, hstack, _⟩ := hterm
  obtain ⟨v, hv⟩ := List.length_eq_one_iff.mp hstack
  exact ⟨v, f.memory, by simp [Func.invoke, hf, hv]⟩

end SequentialProbe

end Guest
