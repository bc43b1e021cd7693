import Mathlib.Data.Nat.ModEq
import Mathlib.Logic.Function.Basic
import Mathlib.Order.Basic
import Mathlib.Data.List.Nodup

/-!
# The benchmark guest

`turn` of crates/bench-wasm. What it does to its memory is set by the role, the bit and the
profile word alone: it goes through the words in rounds of 256, from one word to the next by
a stride. The memory and the words of the trial only decide about the result.

* `touchMemory_eq`: the accesses of the loops, and which words stay.
* `planned_lt`, `nodup_round`: they are in bounds, and those of a round are of different words.
* `turn_planned`: all this for a turn, and what it returns.
-/

namespace Guest.BenchWasm

/-! ## The model -/

/-- `WORDS`. -/
def words : Nat := 16 * 1024

/-- `MEMORY`, with the indexes of its words that were read and written, in their order. -/
structure Memory where
  word : Nat → UInt32
  accesses : List Nat

/-- `rotate_left`. -/
def rotateLeft (x : UInt32) (n : Nat) : UInt32 := ⟨x.toBitVec.rotateLeft n⟩

/-- The variables of `touch_memory`. -/
structure Touch where
  acc : UInt32
  index : Nat
  memory : Memory

/-- The body of the inner loop of `touch_memory`. -/
def touch (stride : Nat) (t : Touch) : Touch :=
  let value := t.memory.word t.index + (t.acc ^^^ UInt32.ofNat t.index)
  { acc := rotateLeft t.acc 5 ^^^ value
    index := (t.index + stride) % words
    memory := ⟨Function.update t.memory.word t.index value, t.memory.accesses ++ [t.index]⟩ }

/-- The body of the outer loop. -/
def touchRound (stride : Nat) (x : UInt32 × Memory) (round : Nat) : UInt32 × Memory :=
  let t := (touch stride)^[256] ⟨x.1, round % words, x.2⟩
  (t.acc, t.memory)

/-- `touch_memory`. -/
def touchMemory (rounds : UInt32) (stride : Nat) (memory : Memory) : UInt32 × Memory :=
  (List.range rounds.toNat).foldl (touchRound stride) (0x9e3779b9, memory)

/-- `saturating_mul`. -/
def saturatingMul (a b : UInt32) : UInt32 := UInt32.ofNat (min (a.toNat * b.toNat) (2 ^ 32 - 1))

/-- `spin`. -/
def spin (rounds : UInt32) : UInt32 :=
  (List.range (saturatingMul rounds 128).toNat).foldl (fun value i =>
    rotateLeft (value + (UInt32.ofNat i ^^^ 0x85ebca6b)) 7 * 0xc2b2ae35) 0x243f6a88

/-- `iteration_count`. -/
def iterationCount (profileWord default : UInt32) : UInt32 :=
  let requested := profileWord &&& 0x000fffff
  if requested = 0 then default else min requested 100000

/-- `sender`. -/
def sender (bit profileWord : UInt32) (memory : Memory) : UInt32 × Memory :=
  let rounds := iterationCount profileWord (if bit = 1 then 64 else 2)
  let (acc, memory) := touchMemory rounds (if bit = 1 then 17 else 1021) memory
  (acc ^^^ spin (rounds / 2 + 1), memory)

/-- `probe`. -/
def probe (profileWord : UInt32) (memory : Memory) : UInt32 × Memory :=
  let rounds := iterationCount profileWord 24
  let (acc, memory) := touchMemory rounds 31 memory
  (acc ^^^ spin rounds, memory)

/-- `background`. -/
def background (profileWord : UInt32) (memory : Memory) : UInt32 × Memory :=
  touchMemory (iterationCount profileWord 12) 127 memory

/-- `control`. -/
def control (profileWord : UInt32) (memory : Memory) : UInt32 × Memory :=
  (spin (iterationCount profileWord 8), memory)

/-- The work of a turn, if there is such a role and such a bit. -/
def work (role bit profileWord : UInt32) (memory : Memory) : Option (UInt32 × Memory) :=
  if role = 0 ∧ (bit = 0 ∨ bit = 1) then some (sender bit profileWord memory)
  else if role = 1 then some (probe profileWord memory)
  else if role = 2 then some (background profileWord memory)
  else if role = 3 then some (control profileWord memory)
  else none

/-- `turn`. All arguments are the bits of an `i32`. -/
def turn (role bit trialLow trialHigh profileWord : UInt32) (memory : Memory) : UInt32 × Memory :=
  let salt := trialLow ^^^ rotateLeft trialHigh 13
  match work role bit profileWord memory with
  | none => (1, memory)
  | some (result, memory) => (if result = salt + 0xfeedbeef then 2 else 0, memory)

/-! ## The accesses -/

/-- The words of a round. -/
def roundWords (stride round : Nat) : List Nat :=
  (List.range 256).map fun i => (round + i * stride) % words

/-- The words of so many rounds. -/
def plannedWords (rounds stride : Nat) : List Nat :=
  (List.range rounds).flatMap (roundWords stride)

/-- The memory `m'` is `m` after the accesses `l`. -/
structure Memory.After (m : Memory) (l : List Nat) (m' : Memory) : Prop where
  accesses : m'.accesses = m.accesses ++ l
  unchanged : ∀ i, i ∉ l → m'.word i = m.word i

variable {m m' m'' : Memory} {l l' : List Nat}

theorem Memory.After.refl (m : Memory) : m.After [] m := ⟨(List.append_nil _).symm, fun _ _ => rfl⟩

theorem Memory.After.trans (h : m.After l m') (h' : m'.After l' m'') : m.After (l ++ l') m'' where
  accesses := by rw [h'.accesses, h.accesses, List.append_assoc]
  unchanged i hi := by
    rw [List.mem_append, not_or] at hi
    rw [h'.unchanged i hi.2, h.unchanged i hi.1]

theorem touch_after (stride : Nat) (t : Touch) :
    t.memory.After [t.index] (touch stride t).memory where
  accesses := rfl
  unchanged _ hi := Function.update_of_ne (mt List.mem_singleton.mpr hi) ..

/-- The inner loop after `n` words. -/
theorem touch_iterate (stride round : Nat) (acc : UInt32) (m : Memory) (n : Nat) :
    ((touch stride)^[n] ⟨acc, round % words, m⟩).index = (round + n * stride) % words ∧
    m.After ((List.range n).map fun i => (round + i * stride) % words)
      ((touch stride)^[n] ⟨acc, round % words, m⟩).memory := by
  induction n with
  | zero => exact ⟨by rw [Nat.zero_mul]; rfl, .refl m⟩
  | succ n ih =>
    obtain ⟨hindex, hafter⟩ := ih
    rw [Function.iterate_succ_apply']
    constructor
    · show (((touch stride)^[n] _).index + stride) % words = _
      rw [hindex, Nat.mod_add_mod, Nat.succ_mul, Nat.add_assoc]
    · have hstep := touch_after stride ((touch stride)^[n] ⟨acc, round % words, m⟩)
      rw [hindex] at hstep
      rw [List.range_succ, List.map_append]
      exact hafter.trans hstep

theorem touchMemory_after (rounds : UInt32) (stride : Nat) (m : Memory) :
    m.After (plannedWords rounds.toNat stride) (touchMemory rounds stride m).2 := by
  have hrounds : ∀ n acc, m.After (plannedWords n stride)
      ((List.range n).foldl (touchRound stride) (acc, m)).2 := by
    intro n acc
    induction n with
    | zero => exact .refl m
    | succ n ih =>
      rw [List.range_succ, List.foldl_append, plannedWords, List.range_succ, List.flatMap_append,
        List.flatMap_singleton]
      exact ih.trans (touch_iterate stride n _ _ 256).2
  exact hrounds _ _

theorem planned_lt {rounds stride i : Nat} (h : i ∈ plannedWords rounds stride) : i < words := by
  obtain ⟨r, -, h⟩ := List.mem_flatMap.mp h
  obtain ⟨j, -, rfl⟩ := List.mem_map.mp h
  exact Nat.mod_lt _ (by decide)

theorem length_planned (rounds stride : Nat) :
    (plannedWords rounds stride).length = 256 * rounds := by
  simp [plannedWords, roundWords, List.length_flatMap, Nat.mul_comm]

/-- By an odd stride a round does not come back to a word. -/
theorem nodup_round {stride : Nat} (hodd : Nat.Coprime words stride) (round : Nat) :
    (roundWords stride round).Nodup := by
  refine List.Nodup.map_on (fun i hi j hj hij => ?_) List.nodup_range
  have hmul : i * stride ≡ j * stride [MOD words] := Nat.ModEq.add_left_cancel' round hij
  have hmod : i ≡ j [MOD words] := Nat.ModEq.cancel_right_of_coprime hodd hmul
  have hlt : ∀ k ∈ List.range 256, k < words := fun k hk =>
    Nat.lt_trans (List.mem_range.mp hk) (by decide)
  exact Nat.ModEq.eq_of_lt_of_lt hmod (hlt i hi) (hlt j hj)

/-! ## A turn -/

/-- The arguments of `turn`. -/
structure Turn where
  role : UInt32
  bit : UInt32
  trialLow : UInt32
  trialHigh : UInt32
  profileWord : UInt32

def Turn.run (t : Turn) (m : Memory) : UInt32 × Memory :=
  turn t.role t.bit t.trialLow t.trialHigh t.profileWord m

/-- There is such a role, and such a bit. -/
def Turn.Valid (t : Turn) : Prop :=
  t.role = 0 ∧ (t.bit = 0 ∨ t.bit = 1) ∨ t.role = 1 ∨ t.role = 2 ∨ t.role = 3

/-- How many rounds a turn takes. -/
def Turn.rounds (t : Turn) : Nat :=
  if t.role = 0 ∧ (t.bit = 0 ∨ t.bit = 1) then
    (iterationCount t.profileWord (if t.bit = 1 then 64 else 2)).toNat
  else if t.role = 1 then (iterationCount t.profileWord 24).toNat
  else if t.role = 2 then (iterationCount t.profileWord 12).toNat
  else 0

/-- And by which stride. -/
def Turn.stride (t : Turn) : Nat :=
  if t.role = 0 then if t.bit = 1 then 17 else 1021 else if t.role = 1 then 31 else 127

/-- The words that it goes through. -/
def Turn.words (t : Turn) : List Nat := plannedWords t.rounds t.stride

variable (t : Turn)

theorem iterationCount_le {profileWord default : UInt32} (h : default.toNat ≤ 100000) :
    (iterationCount profileWord default).toNat ≤ 100000 := by
  unfold iterationCount
  dsimp only
  split
  · exact h
  · show (if _ then _ else (100000 : UInt32)).toNat ≤ _
    split
    · next hle => exact UInt32.le_iff_toNat_le.mp hle
    · exact Nat.le_refl _

theorem Turn.rounds_le : t.rounds ≤ 100000 := by
  unfold Turn.rounds
  split
  · exact iterationCount_le (by split <;> decide)
  · split
    · exact iterationCount_le (by decide)
    · split
      · exact iterationCount_le (by decide)
      · decide

theorem Turn.coprime_stride : Nat.Coprime BenchWasm.words t.stride := by
  unfold Turn.stride
  split
  · split <;> decide
  · split <;> decide

theorem work_none : work t.role t.bit t.profileWord m = none ↔ ¬ t.Valid := by
  unfold work Turn.Valid
  grind

theorem work_after {x : UInt32 × Memory} (h : work t.role t.bit t.profileWord m = some x) :
    m.After t.words x.2 := by
  unfold work at h
  unfold Turn.words Turn.rounds Turn.stride
  split at h
  · next hsender =>
    cases h
    rw [if_pos hsender, if_pos hsender.1]
    exact touchMemory_after _ _ m
  · next hsender =>
    rw [if_neg hsender]
    split at h
    · next hprobe =>
      cases h
      rw [hprobe]
      exact touchMemory_after _ _ m
    · next hprobe =>
      split at h
      · next hbackground =>
        cases h
        rw [hbackground]
        exact touchMemory_after _ _ m
      · next hbackground =>
        split at h
        · cases h
          rw [if_neg hprobe, if_neg hbackground]
          exact .refl m
        · cases h

theorem Turn.run_refused (h : ¬ t.Valid) (m : Memory) : t.run m = (1, m) := by
  rw [Turn.run, turn, (work_none t).mpr h]

theorem Turn.exists_work (h : t.Valid) (m : Memory) :
    ∃ x, work t.role t.bit t.profileWord m = some x :=
  Option.ne_none_iff_exists'.mp fun hnone => (work_none t).mp hnone h

theorem Turn.run_after (m : Memory) : m.After t.words (t.run m).2 := by
  cases h : work t.role t.bit t.profileWord m with
  | none =>
    have hwords : t.words = [] := by
      have hinvalid := (work_none t).mp h
      unfold Turn.Valid at hinvalid
      unfold Turn.words Turn.rounds
      rw [if_neg (by tauto), if_neg (by tauto), if_neg (by tauto)]
      rfl
    rw [Turn.run_refused t ((work_none t).mp h), hwords]
    exact .refl m
  | some x =>
    have hafter := work_after t h
    rw [Turn.run, turn, h]
    exact hafter

/-- The result is met by one low word of the trial. -/
theorem salt_iff (result low high : UInt32) :
    result = (low ^^^ high) + 0xfeedbeef ↔ low = (result - 0xfeedbeef) ^^^ high := by
  constructor
  · rintro rfl
    rw [UInt32.add_sub_cancel, UInt32.xor_assoc, UInt32.xor_self, UInt32.xor_zero]
  · rintro rfl
    rw [UInt32.xor_assoc, UInt32.xor_self, UInt32.xor_zero, UInt32.sub_add_cancel]

/-- What a turn does, before it is known in which memory and for which trial: so many
accesses, all in bounds, to different words in a round; as many for both bits when a number
of rounds is asked for. An invalid turn does nothing, and a valid one is answered by 2 for
one low word of the trial and by 0 for the others. -/
structure Turn.Planned (t : Turn) : Prop where
  rounds : t.rounds ≤ 100000
  length : t.words.length = 256 * t.rounds
  inBounds : ∀ i ∈ t.words, i < BenchWasm.words
  distinct : ∀ round, (roundWords t.stride round).Nodup
  bits : t.role = 0 → t.profileWord &&& 0x000fffff ≠ 0 →
    { t with bit := 0 : Turn }.rounds = { t with bit := 1 : Turn }.rounds
  refused : ¬ t.Valid → ∀ m, t.run m = (1, m)
  answered : t.Valid → ∀ m, ∃ low, ∀ trialLow,
    ({ t with trialLow } : Turn).run m = (if trialLow = low then 2 else 0, (t.run m).2)

theorem Turn.planned : t.Planned where
  rounds := t.rounds_le
  length := length_planned _ _
  inBounds _ hi := planned_lt hi
  distinct := nodup_round t.coprime_stride
  bits hrole hrequested := by simp [Turn.rounds, iterationCount, hrole, hrequested]
  refused := t.run_refused
  answered h m := by
    obtain ⟨x, hx⟩ := t.exists_work h m
    refine ⟨(x.1 - 0xfeedbeef) ^^^ rotateLeft t.trialHigh 13, fun trialLow => ?_⟩
    simp only [Turn.run, turn, hx, salt_iff]

theorem Turn.code (m : Memory) : ((t.run m).1 = 1 ↔ ¬ t.Valid) ∧ (t.run m).1 ≤ 2 := by
  by_cases h : t.Valid
  · obtain ⟨low, hlow⟩ := t.planned.answered h m
    have hrun : (t.run m).1 = if t.trialLow = low then 2 else 0 :=
      congrArg Prod.fst (hlow t.trialLow)
    rw [hrun]
    split
    · exact ⟨⟨nofun, fun hinvalid => absurd h hinvalid⟩, by decide⟩
    · exact ⟨⟨nofun, fun hinvalid => absurd h hinvalid⟩, by decide⟩
  · rw [t.run_refused h]
    exact ⟨⟨fun _ => h, fun _ => rfl⟩, show (1 : UInt32) ≤ 2 by decide⟩

/-! ## The turns of an instance -/

/-- Turns one after the other, and what they return. -/
def turns : List Turn → Memory → List UInt32 × Memory
  | [], m => ([], m)
  | t :: ts, m =>
    let (code, m) := t.run m
    let (codes, m) := turns ts m
    (code :: codes, m)

/-- Over the whole life of an instance: its accesses are those of the plan of its turns, in
their order, and a turn returns 1 exactly if it is invalid. -/
theorem turns_planned (ts : List Turn) (m : Memory) :
    (∀ t ∈ ts, t.Planned) ∧ m.After (ts.flatMap Turn.words) (turns ts m).2 ∧
      List.Forall₂ (fun t code => (code = 1 ↔ ¬ t.Valid) ∧ code ≤ 2) ts (turns ts m).1 := by
  refine ⟨fun t _ => t.planned, ?_⟩
  induction ts generalizing m with
  | nil => exact ⟨.refl m, .nil⟩
  | cons t ts ih =>
    obtain ⟨hafter, hcodes⟩ := ih (t.run m).2
    exact ⟨(t.run_after m).trans hafter, .cons (t.code m) hcodes⟩

end Guest.BenchWasm
