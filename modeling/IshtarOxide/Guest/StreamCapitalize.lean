import IshtarOxide.Lib.Wasm

/-!
# The stream guest

`fixtures/stream_capitalize.wat`, and what its `process` does: it uppercases the
chunk behind the accumulated state in place and returns the new length.
-/

open Wasm

namespace Guest

/-- ASCII uppercase of a byte. -/
def asciiUpper (b : UInt8) : UInt8 := if 97 ≤ b ∧ b ≤ 122 then b - 32 else b

namespace StreamCapitalize

/-! ## The module -/

/-- Straight-line code. -/
def ops (os : List Op) : List Instr := os.map .op

-- locals: 0 previous_len, 1 chunk_len, 2 capacity, 3 i, 4 end, 5 byte

/-- The bytes of the chunk are uppercased one by one. -/
def loopBody : List Instr :=
  ops [.localGet 3, .localGet 4, .binop .geU] ++
  .brIf 1 ::
  (ops [.localGet 3, .load8U 0, .localSet 5, .localGet 5, .const 97, .binop .geU, .localGet 5,
    .const 122, .binop .leU, .binop .and] ++
  .ite (ops [.localGet 3, .localGet 5, .const 32, .binop .sub, .store8 0]) [] ::
  (ops [.localGet 3, .const 1, .binop .add, .localSet 3] ++
  [.br 0]))

/-- `process`. -/
def processBody : List Instr :=
  ops [.localGet 0, .localGet 1, .binop .add, .localSet 4, .localGet 4, .localGet 0, .binop .ltU,
    .localGet 4, .localGet 2, .binop .gtU, .binop .or] ++
  .ite (ops [.const (-1)] ++ [.ret]) [] ::
  (ops [.localGet 0, .localSet 3] ++
  .block [.loop loopBody] ::
  ops [.localGet 4])

def process : Func := ⟨3, 1, 3, processBody⟩

/-- `stream_capitalize.wat`. -/
def streamCapitalize : Module := ⟨16, some 16, [("memory", .memory), ("process", .func process)]⟩

/-! ## The byte loop -/

/-- The memory with the bytes from `start` up to `stop` uppercased. -/
def upperUpTo (m : Memory) (start stop : Nat) : Memory :=
  { m with byte := fun a => if start ≤ a ∧ a < stop then asciiUpper (m.byte a) else m.byte a }

variable {p n c i e b : Value} {m : Memory} {fuel : Nat}

theorem upperUpTo_self (start : Nat) : upperUpTo m start start = m := by
  have : ∀ a, ¬ (start ≤ a ∧ a < start) := by omega
  simp [upperUpTo, this]

/-- One more byte. -/
theorem upperUpTo_succ {start stop : Nat} (h : start ≤ stop) :
    upperUpTo m start (stop + 1) = (upperUpTo m start stop).set stop (asciiUpper (m.byte stop)) := by
  simp only [upperUpTo, Memory.set, Memory.mk.injEq, true_and]
  funext a
  by_cases ha : a = stop
  · subst ha
    simp [h]
  · have hiff : (start ≤ a ∧ a < stop + 1) ↔ (start ≤ a ∧ a < stop) := by omega
    simp only [ha, if_false, hiff]

theorem truth_and (x y : Bool) : (truth x &&& truth y) = truth (x && y) := by
  cases x <;> cases y <;> rfl

theorem truth_ne_zero (x : Bool) : truth x ≠ 0 ↔ x = true := by
  cases x <;> simp [truth]

/-- The test of the loop is that for a lower case letter. -/
theorem lowercase_iff (b : UInt8) :
    (truth ((97 : Value) ≤ b.toBitVec.setWidth 32) &&&
      truth (b.toBitVec.setWidth 32 ≤ (122 : Value))) ≠ 0 ↔ 97 ≤ b ∧ b ≤ 122 := by
  rw [truth_and, truth_ne_zero, Bool.and_eq_true, decide_eq_true_eq, decide_eq_true_eq,
    UInt8.le_iff_toNat_le, UInt8.le_iff_toNat_le, BitVec.le_def, BitVec.le_def,
    BitVec.toNat_setWidth, UInt8.toNat_toBitVec,
    Nat.mod_eq_of_lt (Nat.lt_trans b.toNat_lt (by decide))]
  rfl

theorem uppercase_eq (b : UInt8) :
    (⟨(b.toBitVec.setWidth 32 - (32 : Value)).setWidth 8⟩ : UInt8) = b - 32 := by
  apply UInt8.toBitVec_inj.mp
  show BitVec.setWidth 8 (BitVec.setWidth 32 b.toBitVec - 32) = b.toBitVec - 32
  bv_omega

/-- The state at the head of the loop: the bytes up to `i` are done. -/
def AtHead (m : Memory) (p n c e : Value) (f : Frame) : Prop :=
  ∃ i b, f = ⟨[], [p, n, c, i, e, b], upperUpTo m p.toNat i.toNat⟩ ∧ p.toNat ≤ i.toNat ∧
    i.toNat ≤ e.toNat

/-- The bytes that are left. -/
def left (e : Value) (f : Frame) : Nat := e.toNat - (f.locals.getD 3 0).toNat

/-- The steps of the loop for a number of bytes. -/
def loopFuel (bytes : Nat) : Nat := 27 * bytes + 7

/-- The end of `process`: the new length is returned and the chunk is in upper case. -/
def Done (m : Memory) (p e : Value) (f : Frame) : Prop :=
  f.stack = [e] ∧ f.memory = upperUpTo m p.toNat e.toNat

/-- What encloses the loop. -/
def outer : List Label := [⟨ops [.localGet 4], [], ops [.localGet 4]⟩]

/-- What follows the case distinction of the loop. -/
def loopTail : List Instr :=
  ops [.localGet 3, .const 1, .binop .add, .localSet 3] ++ [.br 0]

/-- After the case distinction, `i` goes up and the loop comes round. -/
theorem loop_tail {Q : Frame → Prop}
    (h : Terminates fuel ⟨⟨[], [p, n, c, i + 1, e, b], m⟩, [.loop loopBody], outer⟩ Q) :
    Terminates (fuel + 6) ⟨⟨[], [p, n, c, i, e, b], m⟩, [],
      ⟨loopTail, [], loopTail⟩ :: ⟨[.loop loopBody], [], []⟩ :: outer⟩ Q := by
  refine .next rfl ?_
  refine .ops [.localGet 3, .const 1, .binop .add, .localSet 3] _ rfl ?_
  exact .next rfl h

/-- The byte at `i` is loaded and tested. -/
theorem load_ops (hi : i.toNat < m.size) :
    execOps [.localGet 3, .load8U 0, .localSet 5, .localGet 5, .const 97, .binop .geU, .localGet 5,
      .const 122, .binop .leU, .binop .and] ⟨[], [p, n, c, i, e, b], m⟩ =
    some ⟨[truth ((97 : Value) ≤ (m.byte i.toNat).toBitVec.setWidth 32) &&&
        truth ((m.byte i.toNat).toBitVec.setWidth 32 ≤ (122 : Value))],
      [p, n, c, i, e, (m.byte i.toNat).toBitVec.setWidth 32], m⟩ := by
  simp [execOps, Op.exec, hi, BinOp.eval]

/-- The byte at `i` is replaced by its upper case. -/
theorem store_ops {x : UInt8} (hi : i.toNat < m.size) :
    execOps [.localGet 3, .localGet 5, .const 32, .binop .sub, .store8 0]
      ⟨[], [p, n, c, i, e, x.toBitVec.setWidth 32], m⟩ =
    some ⟨[], [p, n, c, i, e, x.toBitVec.setWidth 32], m.set i.toNat (x - 32)⟩ := by
  simp [execOps, Op.exec, hi, BinOp.eval, ← uppercase_eq]

/-- One round of the loop. -/
theorem loop_round {f : Frame} (hsize : e.toNat ≤ m.size) (hf : AtHead m p n c e f)
    (hnext : ∀ g, AtHead m p n c e g → left e g < left e f →
      Terminates (loopFuel (left e g)) ⟨g, [.loop loopBody], outer⟩ (Done m p e)) :
    Terminates (loopFuel (left e f)) ⟨f, [.loop loopBody], outer⟩ (Done m p e) := by
  obtain ⟨i, b, rfl, hpi, hie⟩ := hf
  show Terminates (loopFuel (e.toNat - i.toNat)) _ _
  by_cases hend : e ≤ i
  · -- all bytes are done: `br_if` leaves both blocks
    have hi : i.toNat = e.toNat := Nat.le_antisymm hie (BitVec.le_def.mp hend)
    refine .mono (n := 0 + 1 + 1 + 1 + 3 + 1) (by unfold loopFuel; omega) ?_
    refine .next rfl ?_
    refine .ops [.localGet 3, .localGet 4, .binop .geU] _ rfl ?_
    show Terminates _ ⟨⟨[truth (e ≤ i)], _, _⟩, _, _⟩ _
    rw [show truth (e ≤ i) = 1 by simp [truth, hend]]
    refine .next rfl ?_
    refine .ops [.localGet 4] [] rfl ?_
    exact .halt rfl ⟨rfl, by rw [hi]⟩
  · have hlt : i.toNat < e.toNat := Nat.lt_of_not_le fun h => hend (BitVec.le_def.mpr h)
    have hbound : i.toNat < (upperUpTo m p.toNat i.toNat).size := Nat.lt_of_lt_of_le hlt hsize
    have hbyte : (upperUpTo m p.toNat i.toNat).byte i.toNat = m.byte i.toNat := by
      simp [upperUpTo]
    have hsucc : (i + 1).toNat = i.toNat + 1 := by
      have := e.isLt
      rw [BitVec.toNat_add]
      exact Nat.mod_eq_of_lt (Nat.lt_of_le_of_lt hlt this)
    -- the next round finds one more byte in upper case
    have hround : ∀ b', Terminates (loopFuel (e.toNat - (i.toNat + 1)))
        ⟨⟨[], [p, n, c, i + 1, e, b'],
          (upperUpTo m p.toNat i.toNat).set i.toNat (asciiUpper (m.byte i.toNat))⟩,
        [.loop loopBody], outer⟩ (Done m p e) := by
      intro b'
      rw [← hsucc]
      refine hnext ⟨[], [p, n, c, i + 1, e, b'], _⟩ ⟨i + 1, b', ?_, by omega, by omega⟩ ?_
      · rw [hsucc, upperUpTo_succ hpi]
      · show e.toNat - (i + 1).toNat < e.toNat - i.toNat
        omega
    refine .mono (n := loopFuel (e.toNat - (i.toNat + 1)) + 6 + 5 + 1 + 10 + 1 + 3 + 1)
      (by unfold loopFuel; omega) ?_
    refine .next rfl ?_
    refine .ops [.localGet 3, .localGet 4, .binop .geU] _ rfl ?_
    show Terminates _ ⟨⟨[truth (e ≤ i)], _, _⟩, _, _⟩ _
    rw [show truth (e ≤ i) = 0 by simp [truth, hend]]
    refine .next rfl ?_
    refine .ops _ _ (load_ops hbound) ?_
    rw [hbyte]
    by_cases hlow : 97 ≤ m.byte i.toNat ∧ m.byte i.toNat ≤ 122
    · have hupper : asciiUpper (m.byte i.toNat) = m.byte i.toNat - 32 := if_pos hlow
      refine .next (d := ⟨⟨[], [p, n, c, i, e, (m.byte i.toNat).toBitVec.setWidth 32],
        upperUpTo m p.toNat i.toNat⟩, ops [.localGet 3, .localGet 5, .const 32, .binop .sub,
        .store8 0], ⟨loopTail, [], loopTail⟩ :: ⟨[.loop loopBody], [], []⟩ :: outer⟩) ?_ ?_
      · show enter _ (if _ ≠ 0 then _ else _) _ _ _ = _
        rw [if_pos ((lowercase_iff _).mpr hlow)]
        rfl
      · refine .ops _ [] (store_ops hbound) (loop_tail ?_)
        rw [← hupper]
        exact hround _
    · have hupper : asciiUpper (m.byte i.toNat) = m.byte i.toNat := if_neg hlow
      refine .next (d := ⟨⟨[], [p, n, c, i, e, (m.byte i.toNat).toBitVec.setWidth 32],
        upperUpTo m p.toNat i.toNat⟩, [],
        ⟨loopTail, [], loopTail⟩ :: ⟨[.loop loopBody], [], []⟩ :: outer⟩) ?_ ?_
      · show enter _ (if _ ≠ 0 then _ else _) _ _ _ = _
        rw [if_neg fun h => hlow ((lowercase_iff _).mp h)]
        rfl
      · have hsame : (upperUpTo m p.toNat i.toNat).set i.toNat (asciiUpper (m.byte i.toNat)) =
            upperUpTo m p.toNat i.toNat := by
          rw [hupper, ← hbyte, Memory.set_self]
        have hagain := hround ((m.byte i.toNat).toBitVec.setWidth 32)
        rw [hsame] at hagain
        exact .mono (by omega) (loop_tail hagain)

/-- The steps of `process` for a chunk. -/
def processFuel (bytes : Nat) : Nat := 27 * bytes + 23

/-- `process` uppercases the chunk in place and returns the new length. -/
theorem process_terminates (hsum : p.toNat + n.toNat ≤ c.toNat) (hcap : c.toNat ≤ m.size) :
    Terminates (processFuel n.toNat) (process.call [p, n, c] m) (Done m p (p + n)) := by
  have hadd : (p + n).toNat = p.toNat + n.toNat := by
    rw [BitVec.toNat_add]
    exact Nat.mod_eq_of_lt (Nat.lt_of_le_of_lt hsum c.isLt)
  refine .mono (n := loopFuel (left (p + n) ⟨[], [p, n, c, p, p + n, 0], m⟩) + 1 + 2 + 1 + 1 + 11)
    ?_ ?_
  · show 27 * ((p + n).toNat - p.toNat) + 7 + 1 + 2 + 1 + 1 + 11 ≤ 27 * n.toNat + 23
    omega
  refine .ops [.localGet 0, .localGet 1, .binop .add, .localSet 4, .localGet 4, .localGet 0,
    .binop .ltU, .localGet 4, .localGet 2, .binop .gtU, .binop .or] _ rfl ?_
  show Terminates _ ⟨⟨[truth (p + n < p) ||| truth (c < p + n)], [p, n, c, 0, p + n, 0], m⟩, _, _⟩ _
  -- neither the addition wraps nor the capacity is exceeded
  have hwrap : ¬ p + n < p := fun h => by
    have := BitVec.lt_def.mp h
    omega
  have hfull : ¬ c < p + n := fun h => by
    have := BitVec.lt_def.mp h
    omega
  rw [show truth (p + n < p) ||| truth (c < p + n) = 0 by simp [truth, hwrap, hfull]]
  refine .next rfl ?_
  refine .next rfl ?_
  refine .ops [.localGet 0, .localSet 3] _ rfl ?_
  refine .next rfl ?_
  refine Terminates.loop (I := AtHead m p n c (p + n)) (left (p + n)) loopFuel ?_ ?_
  · intro f hf hnext
    exact loop_round (by omega) hf hnext
  · refine ⟨p, 0, ?_, Nat.le_refl _, by omega⟩
    rw [upperUpTo_self]

/-- The call of `process`, with enough fuel. -/
theorem process_invoke (hsum : p.toNat + n.toNat ≤ c.toNat) (hcap : c.toNat ≤ m.size)
    (hfuel : processFuel n.toNat ≤ fuel) :
    process.invoke fuel [p, n, c] m = some (p + n, upperUpTo m p.toNat (p + n).toNat) := by
  obtain ⟨f, hf, hstack, hmemory⟩ := Terminates.mono hfuel (process_terminates hsum hcap)
  simp [Func.invoke, hf, hstack, hmemory]

/-- With any fuel, `process` returns nothing else. -/
theorem eq_of_process_invoke {v : Value} {m' : Memory} (hsum : p.toNat + n.toNat ≤ c.toNat)
    (hcap : c.toNat ≤ m.size) (h : process.invoke fuel [p, n, c] m = some (v, m')) :
    v = p + n ∧ m' = upperUpTo m p.toNat (p + n).toNat := by
  unfold Func.invoke at h
  split at h
  · next f hf =>
    obtain ⟨hstack, hmemory⟩ := (process_terminates hsum hcap).of_done hf
    rw [hstack, hmemory] at h
    cases h
    exact ⟨rfl, rfl⟩
  · cases h
  · cases h

end StreamCapitalize

end Guest
