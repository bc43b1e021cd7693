import IshtarOxide.Lib.WasmTrace
import IshtarOxide.Guest.SequentialProbe

/-!
# The accesses of the probe guest

`run` of `fixtures/sequential_probe.wat` once more, with its loads and stores: which they
are depends on the length of the state and on the number of iterations only.

* `run_takes`: the steps of `run` and its accesses.
* `run_invoke_eq`: its result and the memory it leaves, with any fuel.
-/

open Wasm

namespace Guest

namespace SequentialProbe

/-! ## The accesses -/

/-- The accesses of the state loop: every byte is loaded and stored. -/
def stateAccesses (len : Nat) : List Access :=
  (List.range len).flatMap fun k => [⟨false, k, 1⟩, ⟨true, k, 1⟩]

/-- The accesses of a round of the work loop. -/
def workAccess (i : Value) : List Access :=
  [⟨false, (workAddress i).toNat, 4⟩, ⟨true, (workAddress i).toNat, 4⟩]

/-- The accesses of the work loop: a word is loaded and stored in every round. -/
def workAccesses (iterations : Nat) : List Access :=
  (List.range iterations).flatMap fun k => workAccess (.ofNat 32 k)

theorem mem_stateAccesses {len : Nat} {access : Access} (h : access ∈ stateAccesses len) :
    access.address + access.bytes ≤ len := by
  obtain ⟨k, hk, haccess⟩ := List.mem_flatMap.mp h
  rw [List.mem_range] at hk
  simp only [List.mem_cons, List.not_mem_nil, or_false] at haccess
  rcases haccess with rfl | rfl
  · exact hk
  · exact hk

theorem mem_workAccesses {iterations : Nat} {access : Access}
    (h : access ∈ workAccesses iterations) :
    65536 ≤ access.address ∧ access.address + access.bytes ≤ 129 * 65536 := by
  obtain ⟨k, -, haccess⟩ := List.mem_flatMap.mp h
  simp only [workAccess, List.mem_cons, List.not_mem_nil, or_false] at haccess
  rcases haccess with rfl | rfl
  · exact workAddress_bounds _
  · exact workAddress_bounds _

/-! ## The loops -/

variable {role bit iterations len : Value} {m : Memory} {k : Nat}

/-- A round of the work: the accumulator and the memory. -/
def workRound (i : Value) (x : Value × Memory) : Value × Memory :=
  let acc := x.1 ^^^ x.2.word (workAddress i).toNat
  (acc, x.2.setWord (workAddress i).toNat (acc + i))

/-- The work after so many rounds. -/
def workState (m : Memory) : Nat → Value × Memory
  | 0 => (0x243f6a88, m)
  | k + 1 => workRound (.ofNat 32 k) (workState m k)

/-- `$address` after so many rounds. -/
def lastAddress : Nat → Value
  | 0 => 0
  | k + 1 => workAddress (.ofNat 32 k)

/-- The work stays behind the first page. -/
theorem sameState_workState (m : Memory) (k : Nat) : SameState m (workState m k).2 := by
  induction k with
  | zero => exact .refl m
  | succ k ih => exact ih.setWord (workAddress_bounds _).1

/-- At the head of the state loop, after `k` rounds. -/
def stateFrame (role bit iterations len : Value) (m : Memory) (k : Nat) : Frame :=
  ⟨[], [role, bit, iterations, len, .ofNat 32 k, 0, 0], flipUpTo m k⟩

/-- At the head of the work loop, after `k` rounds. -/
def workFrame (role bit iterations len : Value) (m : Memory) (k : Nat) : Frame :=
  ⟨[], [role, bit, iterations, len, .ofNat 32 k, lastAddress k, (workState m k).1],
    (workState m k).2⟩

theorem toNat_ofNat_of_le (h : k ≤ len.toNat) : (BitVec.ofNat 32 k).toNat = k :=
  Nat.mod_eq_of_lt (Nat.lt_of_le_of_lt h len.isLt)

theorem ofNat_succ (k : Nat) : BitVec.ofNat 32 k + 1 = BitVec.ofNat 32 (k + 1) :=
  (BitVec.ofNat_add k 1).symm

/-- The test of a loop that has rounds to go, and of one that has not. -/
theorem truth_le_of_lt (h : k < len.toNat) : truth (len ≤ BitVec.ofNat 32 k) = 0 := by
  have hnot : ¬ len ≤ BitVec.ofNat 32 k := by
    rw [BitVec.le_def, toNat_ofNat_of_le (Nat.le_of_lt h)]
    omega
  simp [truth, hnot]

theorem truth_le_self (len : Value) : truth (len ≤ BitVec.ofNat 32 len.toNat) = 1 := by
  rw [BitVec.ofNat_toNat, BitVec.setWidth_eq]
  simp [truth]

section Bodies

variable {i address acc : Value}

theorem state_accesses (hi : i.toNat < m.size) :
    accessOps stateBody ⟨[], [role, bit, iterations, len, i, address, acc], m⟩ =
      [⟨false, i.toNat, 1⟩, ⟨true, i.toNat, 1⟩] := by
  have hload : Op.exec (.load8U 0) ⟨[i, i], [role, bit, iterations, len, i, address, acc], m⟩ =
      some ⟨[(m.byte i.toNat).toBitVec.setWidth 32, i],
        [role, bit, iterations, len, i, address, acc], m⟩ := if_pos hi
  have hstore : ∀ v : Value, Op.exec (.store8 0)
      ⟨[v, i], [role, bit, iterations, len, i, address, acc], m⟩ =
      some ⟨[], [role, bit, iterations, len, i, address, acc], m.set i.toNat ⟨v.setWidth 8⟩⟩ :=
    fun v => if_pos hi
  show ([⟨false, i.toNat, 1⟩] : List Access) ++ (Op.exec (.load8U 0) _).elim [] _ = _
  rw [hload]
  show ([⟨false, i.toNat, 1⟩] : List Access) ++
    ([⟨true, i.toNat, 1⟩] ++ (Op.exec (.store8 0) _).elim [] _) = _
  rw [hstore]
  rfl

/-- The accumulator takes the word at the address. -/
theorem load_accesses (hsize : address.toNat + 4 ≤ m.size) :
    accessOps loadOps
      ⟨[], [role, bit, iterations, len, i, address, acc], m⟩ = [⟨false, address.toNat, 4⟩] := by
  have hload : Op.exec (.load 0) ⟨[address, acc], [role, bit, iterations, len, i, address, acc], m⟩ =
      some ⟨[m.word address.toNat, acc], [role, bit, iterations, len, i, address, acc], m⟩ :=
    if_pos hsize
  show ([⟨false, address.toNat, 4⟩] : List Access) ++ (Op.exec (.load 0) _).elim [] _ = _
  rw [hload]
  rfl

theorem store_accesses (hsize : address.toNat + 4 ≤ m.size) :
    accessOps storeOps
      ⟨[], [role, bit, iterations, len, i, address, acc], m⟩ = [⟨true, address.toNat, 4⟩] := by
  have hstore : ∀ v : Value, Op.exec (.store 0)
      ⟨[v, address], [role, bit, iterations, len, i, address, acc], m⟩ =
      some ⟨[], [role, bit, iterations, len, i, address, acc], m.setWord address.toNat v⟩ :=
    fun v => if_pos hsize
  show ([⟨true, address.toNat, 4⟩] : List Access) ++ (Op.exec (.store 0) _).elim [] _ = _
  rw [hstore]
  rfl

theorem work_accesses (hsize : (workAddress i).toNat + 4 ≤ m.size) :
    accessOps workBody ⟨[], [role, bit, iterations, len, i, address, acc], m⟩ =
      workAccess i := by
  have haddress : execOps addressOps ⟨[], [role, bit, iterations, len, i, address, acc], m⟩ =
      some ⟨[], [role, bit, iterations, len, i, workAddress i, acc], m⟩ := rfl
  rw [workBody, accessOps_append haddress, accessOps_append (load_ops hsize),
    accessOps_append (store_ops hsize), load_accesses hsize, store_accesses hsize]
  rfl

end Bodies

theorem stateLoop_takes {n : Nat} {rest : List Instr} {log : List Access} {f : Frame}
    (hlen : len.toNat ≤ m.size)
    (ht : Takes n ⟨stateFrame role bit iterations len m len.toNat, rest, []⟩ log f) :
    Takes (16 * len.toNat + n + 6)
      ⟨stateFrame role bit iterations len m 0, stateLoop :: rest, []⟩
      (stateAccesses len.toNat ++ log) f := by
  have hfuel : 16 * len.toNat + n + 6 = (3 + stateBody.length + 3) * len.toNat + 3 + n + 3 := by
    show _ = (3 + 10 + 3) * len.toNat + 3 + n + 3
    omega
  rw [hfuel, stateLoop]
  refine Takes.forLoop [.localGet 4, .localGet 3, .binop .geU] stateBody
    (stateFrame role bit iterations len m)
    (fun k => [⟨false, k, 1⟩, ⟨true, k, 1⟩]) (fun _ _ => rfl) (fun _ _ => rfl) ?_ ?_
    (by decide : (1 : Value) ≠ 0) ht
  · intro k hk
    have hnat := toNat_ofNat_of_le (Nat.le_of_lt hk)
    have hsize : (BitVec.ofNat 32 k).toNat < (flipUpTo m k).size := by
      rw [hnat]
      exact Nat.lt_of_lt_of_le hk hlen
    have hbyte : (flipUpTo m k).byte k = m.byte k := by simp [flipUpTo]
    refine ⟨?_, ?_, ?_⟩
    · rw [← truth_le_of_lt hk]
      rfl
    · rw [stateFrame, state_ops hsize, hnat, hbyte, ← flipUpTo_succ, ofNat_succ]
      rfl
    · rw [stateFrame, state_accesses hsize, hnat]
  · rw [← truth_le_self len]
    rfl

theorem workLoop_takes {n : Nat} {rest : List Instr} {log : List Access} {f : Frame}
    (hsize : m.size = 129 * 65536)
    (ht : Takes n ⟨workFrame role bit iterations len m iterations.toNat, rest, []⟩ log f) :
    Takes (28 * iterations.toNat + n + 6)
      ⟨workFrame role bit iterations len m 0, workLoop :: rest, []⟩
      (workAccesses iterations.toNat ++ log) f := by
  have hfuel : 28 * iterations.toNat + n + 6 =
      (3 + workBody.length + 3) * iterations.toNat + 3 + n + 3 := by
    show _ = (3 + 22 + 3) * iterations.toNat + 3 + n + 3
    omega
  rw [hfuel, workLoop]
  refine Takes.forLoop [.localGet 4, .localGet 2, .binop .geU] workBody
    (workFrame role bit iterations len m)
    (fun k => workAccess (.ofNat 32 k)) (fun _ _ => rfl) (fun _ _ => rfl) ?_ ?_
    (by decide : (1 : Value) ≠ 0) ht
  · intro k hk
    have hbounds : (workAddress (.ofNat 32 k)).toNat + 4 ≤ (workState m k).2.size := by
      rw [(sameState_workState m k).size, hsize]
      exact (workAddress_bounds _).2
    refine ⟨?_, ?_, ?_⟩
    · rw [← truth_le_of_lt hk]
      rfl
    · rw [workFrame, work_ops hbounds, ofNat_succ]
      rfl
    · rw [workFrame, work_accesses hbounds]
  · rw [← truth_le_self iterations]
    rfl

/-! ## `run` -/

/-- What `run` returns. -/
def result (m : Memory) (iterations len : Nat) : Value := (workState (flipUpTo m len) iterations).1

/-- The memory that `run` leaves behind. -/
def memoryAfter (m : Memory) (iterations len : Nat) : Memory :=
  (workState (flipUpTo m len) iterations).2

/-- At the end of `run`. -/
def endFrame (role bit iterations len : Value) (m : Memory) : Frame :=
  { workFrame role bit iterations len (flipUpTo m len.toNat) iterations.toNat with
    stack := [result m iterations.toNat len.toNat] }

/-- The steps of `run` and its accesses. Neither the role nor the bit is in them. -/
theorem run_takes (hsize : m.size = 129 * 65536) (hlen : len.toNat ≤ m.size) :
    Takes (runFuel iterations.toNat len.toNat) (run.call [role, bit, iterations, len] m)
      (stateAccesses len.toNat ++ workAccesses iterations.toNat)
      (endFrame role bit iterations len m) := by
  have hend : Takes (1 + 1) ⟨workFrame role bit iterations len (flipUpTo m len.toNat)
      iterations.toNat, [.op (.localGet 6)], []⟩ [] (endFrame role bit iterations len m) :=
    Takes.ops [.localGet 6] [] rfl (Takes.halt rfl)
  have hwork := workLoop_takes (m := flipUpTo m len.toNat) hsize hend
  have hbetween : execOps [.const 0, .localSet 4, .const 0x243f6a88, .localSet 6]
      (stateFrame role bit iterations len m len.toNat) =
      some (workFrame role bit iterations len (flipUpTo m len.toNat) 0) := rfl
  have hstate := stateLoop_takes hlen (.ops _ _ hbetween hwork)
  have hbegin : execOps [.const 0, .localSet 4] ⟨[], [role, bit, iterations, len, 0, 0, 0], m⟩ =
      some (stateFrame role bit iterations len m 0) := by
    rw [stateFrame, flipUpTo_zero]
    rfl
  have hall : Takes (16 * len.toNat + (28 * iterations.toNat + (1 + 1) + 6 + 4) + 6 + 2)
      (run.call [role, bit, iterations, len] m)
      (stateAccesses len.toNat ++ (workAccesses iterations.toNat ++ []))
      (endFrame role bit iterations len m) := Takes.ops [.const 0, .localSet 4] _ hbegin hstate
  have hfuel : runFuel iterations.toNat len.toNat =
      16 * len.toNat + (28 * iterations.toNat + (1 + 1) + 6 + 4) + 6 + 2 := by
    unfold runFuel
    omega
  rw [hfuel]
  rw [List.append_nil] at hall
  exact hall

/-- With so many steps of fuel `run` returns, and with fewer it does not; the result and the
memory do not depend on the role or on the bit. -/
theorem run_invoke_eq (hsize : m.size = 129 * 65536) (hlen : len.toNat ≤ m.size) (fuel : Nat) :
    run.invoke fuel [role, bit, iterations, len] m =
      if runFuel iterations.toNat len.toNat ≤ fuel then
        some (result m iterations.toNat len.toNat, memoryAfter m iterations.toNat len.toNat)
      else none := by
  have htakes : Takes _ (run.call [role, bit, iterations, len] m) _ _ := run_takes hsize hlen
  unfold Func.invoke
  split_ifs with hfuel
  · rw [htakes.run_of_le hfuel]
    rfl
  · rw [htakes.exact fuel (Nat.lt_of_not_le hfuel)]

end SequentialProbe

end Guest
