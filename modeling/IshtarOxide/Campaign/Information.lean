import Mathlib.Data.Fin.Rev
import Mathlib.Algebra.BigOperators.Fin
import IshtarOxide.Lib.Information
import IshtarOxide.Campaign.Permutation

/-!
# The mutual information of bits

`mutual_information` of crates/bench-client and of `benchmark` in crates/sequential-lab, with
real numbers for `f64`. Both count how often an expected and a decoded bit come together and
add up a term for every pair of bits that was seen. Before the last step, which clamps it,
the sum already is the mutual information of the two bits.

* `BenchClient.joint`, `Lab.joint`: the loops over the pairs.
* `Joint.sum`: the loops over the counts.
* `mutual_information_informative`: what both functions return.
-/

namespace Campaign

/-! ## The counts -/

/-- `joint[a][b] += 1`. There is no place for bytes that are not bits. -/
def Joint.increment (joint : Joint) (a b : UInt8) : Option Joint :=
  if a = 0 ∧ b = 0 then some { joint with zeroZero := joint.zeroZero + 1 }
  else if a = 0 ∧ b = 1 then some { joint with zeroOne := joint.zeroOne + 1 }
  else if a = 1 ∧ b = 0 then some { joint with oneZero := joint.oneZero + 1 }
  else if a = 1 ∧ b = 1 then some { joint with oneOne := joint.oneOne + 1 }
  else none

/-- `joint[a][b]`. -/
def Joint.cell (joint : Joint) : Fin 2 → Fin 2 → Nat
  | 0, 0 => joint.zeroZero
  | 0, 1 => joint.zeroOne
  | 1, 0 => joint.oneZero
  | 1, 1 => joint.oneOne

/-- `rows`. -/
def Joint.rows (joint : Joint) (a : Fin 2) : Nat := joint.cell a 0 + joint.cell a 1

/-- `cols`. -/
def Joint.cols (joint : Joint) (b : Fin 2) : Nat := joint.cell 0 b + joint.cell 1 b

/-- The body of the loops over the counts. -/
noncomputable def Joint.add (n : Nat) (joint : Joint) (sum : ℝ) (a b : Fin 2) : ℝ :=
  if 0 < joint.cell a b then
    sum + joint.cell a b / n *
      Real.logb 2 (joint.cell a b * n / (joint.rows a * joint.cols b))
  else sum

/-- The loops over the counts. -/
noncomputable def Joint.sum (n : Nat) (joint : Joint) : ℝ :=
  (List.finRange 2).foldl (fun sum a => (List.finRange 2).foldl (joint.add n · a ·) sum) 0

/-- `mutual_information`, from the counts. -/
noncomputable def information (n : Nat) (joint : Joint) : ℝ :=
  if n = 0 then 0 else max (joint.sum n) 0

end Campaign

namespace BenchClient

/-- `joint` of `mutual_information`. Pairs with other bytes are passed over. -/
def joint (pairs : List (UInt8 × UInt8)) : Option Campaign.Joint :=
  pairs.foldlM (fun joint pair =>
    if pair.1 ≤ 1 ∧ pair.2 ≤ 1 then joint.increment pair.1 pair.2 else some joint) ⟨0, 0, 0, 0⟩

/-- `mi` of `mutual_information`, before it is clamped. -/
noncomputable def informationSum (pairs : List (UInt8 × UInt8)) : Option ℝ :=
  (joint pairs).map (·.sum pairs.length)

end BenchClient

namespace Lab

/-- `joint` of `mutual_information`. -/
def joint (pairs : List (UInt8 × UInt8)) : Option Campaign.Joint :=
  pairs.foldlM (fun joint pair => joint.increment pair.1 pair.2) ⟨0, 0, 0, 0⟩

/-- `information` of `mutual_information`, before it is clamped. -/
noncomputable def informationSum (pairs : List (UInt8 × UInt8)) : Option ℝ :=
  (joint pairs).map (·.sum pairs.length)

end Lab

namespace Campaign

variable {pairs l : List (UInt8 × UInt8)} {joint : Joint} {n : Nat}

/-! ## What is counted -/

theorem le_one_iff {b : UInt8} : b ≤ 1 ↔ b = 0 ∨ b = 1 := by
  constructor
  · intro h
    have hle : b.toNat ≤ 1 := h
    rcases Nat.le_one_iff_eq_zero_or_eq_one.mp hle with h0 | h1
    · exact .inl (UInt8.toNat_inj.mp h0)
    · exact .inr (UInt8.toNat_inj.mp h1)
  · rintro (rfl | rfl)
    · decide
    · decide

/-- The counts of two lists together. -/
def Joint.append (joint joint' : Joint) : Joint :=
  ⟨joint.zeroZero + joint'.zeroZero, joint.zeroOne + joint'.zeroOne,
    joint.oneZero + joint'.oneZero, joint.oneOne + joint'.oneOne⟩

theorem increment_eq {a b : UInt8} (ha : a ≤ 1) (hb : b ≤ 1) :
    joint.increment a b = some (joint.append (jointOf [(a, b)])) := by
  rcases le_one_iff.mp ha with rfl | rfl <;> rcases le_one_iff.mp hb with rfl | rfl <;> rfl

theorem append_jointOf (x : UInt8 × UInt8) (l : List (UInt8 × UInt8)) :
    (joint.append (jointOf [x])).append (jointOf l) = joint.append (jointOf (x :: l)) := by
  simp only [Joint.append, jointOf, List.count_cons, List.count_nil]
  refine Joint.mk.injEq .. |>.mpr ⟨?_, ?_, ?_, ?_⟩ <;> omega

theorem jointOf_other {x : UInt8 × UInt8} (h : ¬ (x.1 ≤ 1 ∧ x.2 ≤ 1)) :
    jointOf [x] = ⟨0, 0, 0, 0⟩ := by
  have hne : ∀ a b : UInt8, a ≤ 1 → b ≤ 1 → [x].count (a, b) = 0 := by
    intro a b ha hb
    rw [List.count_eq_zero, List.mem_singleton]
    rintro rfl
    exact h ⟨ha, hb⟩
  rw [jointOf, hne 0 0 (by decide) (by decide), hne 0 1 (by decide) (by decide),
    hne 1 0 (by decide) (by decide), hne 1 1 (by decide) (by decide)]

theorem benchJoint_eq (pairs : List (UInt8 × UInt8)) :
    BenchClient.joint pairs = some (jointOf pairs) := by
  suffices h : ∀ joint : Joint, pairs.foldlM (fun joint pair =>
      if pair.1 ≤ 1 ∧ pair.2 ≤ 1 then joint.increment pair.1 pair.2 else some joint) joint =
      some (joint.append (jointOf pairs)) by
    refine (h ⟨0, 0, 0, 0⟩).trans ?_
    simp [Joint.append]
  induction pairs with
  | nil => exact fun _ => rfl
  | cons x pairs ih =>
    intro joint
    have hround : (if x.1 ≤ 1 ∧ x.2 ≤ 1 then joint.increment x.1 x.2 else some joint) =
        some (joint.append (jointOf [x])) := by
      split
      · next h => exact increment_eq h.1 h.2
      · next h =>
        rw [jointOf_other h]
        rfl
    rw [List.foldlM_cons, hround, Option.bind_eq_bind, Option.bind_some, ih, append_jointOf]

theorem labJoint_eq (hbits : ∀ x ∈ pairs, x.1 ≤ 1 ∧ x.2 ≤ 1) :
    Lab.joint pairs = some (jointOf pairs) := by
  suffices h : ∀ joint : Joint,
      pairs.foldlM (fun joint pair => joint.increment pair.1 pair.2) joint =
      some (joint.append (jointOf pairs)) by
    refine (h ⟨0, 0, 0, 0⟩).trans ?_
    simp [Joint.append]
  induction pairs with
  | nil => exact fun _ => rfl
  | cons x pairs ih =>
    intro joint
    obtain ⟨hx, hpairs⟩ := List.forall_mem_cons.mp hbits
    rw [List.foldlM_cons, increment_eq hx.1 hx.2, Option.bind_eq_bind, Option.bind_some, ih hpairs,
      append_jointOf]

/-- A bit as an index. -/
def bit : Fin 2 → UInt8
  | 0 => 0
  | 1 => 1

theorem bit_zero : bit 0 = 0 := rfl

theorem bit_one : bit 1 = 1 := rfl

theorem cell_eq (pairs : List (UInt8 × UInt8)) (a b : Fin 2) :
    (jointOf pairs).cell a b = pairs.count (bit a, bit b) := by
  match a, b with
  | 0, 0 => rfl
  | 0, 1 => rfl
  | 1, 0 => rfl
  | 1, 1 => rfl

theorem rows_eq (hbits : ∀ x ∈ pairs, x.1 ≤ 1 ∧ x.2 ≤ 1) (a : Fin 2) :
    (jointOf pairs).rows a = pairs.countP (·.1 = bit a) := by
  rw [Joint.rows, cell_eq, cell_eq, bit_zero, bit_one]
  induction pairs with
  | nil => rfl
  | cons x pairs ih =>
    obtain ⟨⟨-, hx⟩, hpairs⟩ := List.forall_mem_cons.mp hbits
    obtain ⟨x, y⟩ := x
    rw [List.countP_cons, ← ih hpairs, List.count_cons, List.count_cons]
    rcases le_one_iff.mp hx with hy | hy
    · rw [show y = 0 from hy]
      by_cases hxa : x = bit a
      · simp [hxa]
        omega
      · simp [hxa]
    · rw [show y = 1 from hy]
      by_cases hxa : x = bit a
      · simp [hxa]
        omega
      · simp [hxa]

/-! ## Other lists of pairs -/

theorem count_map {f : UInt8 × UInt8 → UInt8 × UInt8} (hf : Function.Involutive f)
    (pairs : List (UInt8 × UInt8)) (x : UInt8 × UInt8) :
    (pairs.map f).count x = pairs.count (f x) := by
  rw [← hf x, List.count_map_of_injective pairs f hf.injective, hf x]

/-- The expected bit of a pair the other way round. -/
def flipExpected (x : UInt8 × UInt8) : UInt8 × UInt8 := (1 - x.1, x.2)

/-- The decoded bit of a pair the other way round. -/
def flipDecoded (x : UInt8 × UInt8) : UInt8 × UInt8 := (x.1, 1 - x.2)

theorem one_sub_one_sub (b : UInt8) : 1 - (1 - b) = b := by grind

theorem one_sub_bit (a : Fin 2) : 1 - bit a = bit a.rev := by
  match a with
  | 0 => decide
  | 1 => decide

theorem flipExpected_involutive : Function.Involutive flipExpected :=
  fun x => Prod.ext (one_sub_one_sub x.1) rfl

theorem flipDecoded_involutive : Function.Involutive flipDecoded :=
  fun x => Prod.ext rfl (one_sub_one_sub x.2)

theorem cell_flipExpected (pairs : List (UInt8 × UInt8)) (a b : Fin 2) :
    (jointOf (pairs.map flipExpected)).cell a b = (jointOf pairs).cell a.rev b := by
  rw [cell_eq, cell_eq, count_map flipExpected_involutive, flipExpected, one_sub_bit]

theorem cell_flipDecoded (pairs : List (UInt8 × UInt8)) (a b : Fin 2) :
    (jointOf (pairs.map flipDecoded)).cell a b = (jointOf pairs).cell a b.rev := by
  rw [cell_eq, cell_eq, count_map flipDecoded_involutive, flipDecoded, one_sub_bit]

theorem cell_swap (pairs : List (UInt8 × UInt8)) (a b : Fin 2) :
    (jointOf (pairs.map Prod.swap)).cell a b = (jointOf pairs).cell b a := by
  rw [cell_eq, cell_eq, count_map Prod.swap_swap]
  rfl

theorem cols_eq (hbits : ∀ x ∈ pairs, x.1 ≤ 1 ∧ x.2 ≤ 1) (b : Fin 2) :
    (jointOf pairs).cols b = pairs.countP (·.2 = bit b) := by
  have hswap : ∀ x ∈ pairs.map Prod.swap, x.1 ≤ 1 ∧ x.2 ≤ 1 := by
    intro x hx
    obtain ⟨y, hy, rfl⟩ := List.mem_map.mp hx
    exact (hbits y hy).symm
  have hrows := rows_eq hswap b
  rw [Joint.rows, cell_swap, cell_swap, List.countP_map] at hrows
  exact hrows

/-! ## The table of the counts -/

/-- The number of pairs of bits. -/
def Joint.size (joint : Joint) : Nat := ∑ a, ∑ b, joint.cell a b

theorem size_eq (hbits : ∀ x ∈ pairs, x.1 ≤ 1 ∧ x.2 ≤ 1) : (jointOf pairs).size = pairs.length := by
  have hrows : (jointOf pairs).size = (jointOf pairs).rows 0 + (jointOf pairs).rows 1 := by
    simp only [Joint.size, Fin.sum_univ_two, Joint.rows]
  have hnot : pairs.countP (·.1 = bit 1) = pairs.countP fun x => ¬ decide (x.1 = bit 0) := by
    refine List.countP_congr fun x hx => ?_
    rcases le_one_iff.mp (hbits x hx).1 with h | h <;> simp [h, bit]
  rw [hrows, rows_eq hbits, rows_eq hbits, hnot]
  exact (List.length_eq_countP_add_countP _).symm

/-- The counts as a table of weights. -/
def Joint.table (joint : Joint) (h : 0 < joint.size) : Information.Table (Fin 2) (Fin 2) where
  weight a b := joint.cell a b
  nonneg _ _ := Nat.cast_nonneg _
  pos := by exact_mod_cast h

theorem Joint.table_weight (h : 0 < joint.size) (a b : Fin 2) :
    (joint.table h).weight a b = joint.cell a b := rfl

theorem Joint.table_total (h : 0 < joint.size) : (joint.table h).total = joint.size := by
  simp [Joint.size, Information.Table.total, Information.Table.row, Joint.table]

theorem Joint.table_row (h : 0 < joint.size) (a : Fin 2) :
    (joint.table h).row a = joint.rows a := by
  simp [Information.Table.row, Joint.table, Joint.rows]

theorem Joint.table_col (h : 0 < joint.size) (b : Fin 2) :
    (joint.table h).col b = joint.cols b := by
  simp [Information.Table.col, Joint.table, Joint.cols]

theorem Joint.add_eq (sum : ℝ) (a b : Fin 2) :
    joint.add n sum a b = sum + joint.cell a b / n *
      Real.logb 2 (joint.cell a b * n / (joint.rows a * joint.cols b)) := by
  unfold Joint.add
  split
  · rfl
  · next h =>
    rw [Nat.eq_zero_of_not_pos h, Nat.cast_zero, zero_div, zero_mul, add_zero]

/-- The sum that is added up is the mutual information of the table. -/
theorem Joint.sum_eq (h : 0 < joint.size) :
    joint.sum joint.size = (joint.table h).information 2 := by
  have hfold : List.finRange 2 = [0, 1] := rfl
  simp only [Joint.sum, hfold, List.foldl_cons, List.foldl_nil, Joint.add_eq, zero_add,
    Information.Table.information, table_total, table_row, table_col, Fin.sum_univ_two, add_assoc]
  rfl

/-- Other names for the bits do not change the sum. -/
theorem Joint.sum_reindex {joint' : Joint} {e f : Equiv.Perm (Fin 2)}
    (h : ∀ a b, joint'.cell a b = joint.cell (e a) (f b)) (hpos : 0 < joint.size) :
    joint'.sum joint.size = joint.sum joint.size := by
  have hsize : joint'.size = joint.size := by
    simp only [Joint.size, h]
    rw [Equiv.sum_comp e fun a => ∑ b, joint.cell a (f b)]
    exact Finset.sum_congr rfl fun a _ => Equiv.sum_comp f (joint.cell a)
  have hpos' : 0 < joint'.size := hsize ▸ hpos
  have htable : joint'.table hpos' = (joint.table hpos).reindex e f :=
    Information.Table.ext (funext fun a => funext fun b => congrArg Nat.cast (h a b))
  rw [joint.sum_eq hpos, ← Information.Table.information_reindex _ e f, ← htable,
    ← joint'.sum_eq hpos', hsize]

theorem Joint.sum_transpose {joint' : Joint} (h : ∀ a b, joint'.cell a b = joint.cell b a)
    (hpos : 0 < joint.size) : joint'.sum joint.size = joint.sum joint.size := by
  have hsize : joint'.size = joint.size := by
    simp only [Joint.size, h]
    exact Finset.sum_comm
  have hpos' : 0 < joint'.size := hsize ▸ hpos
  have htable : joint'.table hpos' = (joint.table hpos).transpose :=
    Information.Table.ext (funext fun a => funext fun b => congrArg Nat.cast (h a b))
  rw [joint.sum_eq hpos, ← Information.Table.information_transpose, ← htable,
    ← joint'.sum_eq hpos', hsize]

/-! ## Both functions -/

/-- What the estimate `mi` of the information in a list of pairs of bits is to be. `sum` is
the function that makes the estimates, before it clamps them. -/
structure Informative (sum : List (UInt8 × UInt8) → Option ℝ) (pairs : List (UInt8 × UInt8))
    (mi : ℝ) : Prop where
  value : sum pairs = some mi
  nonneg : 0 ≤ mi
  le_one : mi ≤ 1
  zero_iff : mi = 0 ↔ ∀ a b : Fin 2, pairs.count (bit a, bit b) * pairs.length =
    pairs.countP (·.1 = bit a) * pairs.countP (·.2 = bit b)
  reordered : ∀ l, l.Perm pairs → sum l = some mi
  expectedFlipped : sum (pairs.map flipExpected) = some mi
  decodedFlipped : sum (pairs.map flipDecoded) = some mi
  exchanged : sum (pairs.map Prod.swap) = some mi

theorem one_sub_le_one {b : UInt8} (h : b ≤ 1) : 1 - b ≤ 1 := by
  rcases le_one_iff.mp h with rfl | rfl
  · decide
  · decide

theorem informative {sum : List (UInt8 × UInt8) → Option ℝ}
    (hsum : ∀ l : List (UInt8 × UInt8), (∀ x ∈ l, x.1 ≤ 1 ∧ x.2 ≤ 1) →
      sum l = some ((jointOf l).sum l.length))
    (hne : pairs ≠ []) (hbits : ∀ x ∈ pairs, x.1 ≤ 1 ∧ x.2 ≤ 1) :
    Informative sum pairs ((jointOf pairs).sum pairs.length) := by
  have hsize := size_eq hbits
  have hpos : 0 < (jointOf pairs).size := hsize ▸ List.length_pos_iff.mpr hne
  -- a map that keeps bits keeps the number of pairs as well
  have hmap : ∀ f : UInt8 × UInt8 → UInt8 × UInt8,
      (∀ x : UInt8 × UInt8, x.1 ≤ 1 ∧ x.2 ≤ 1 → (f x).1 ≤ 1 ∧ (f x).2 ≤ 1) →
      sum (pairs.map f) = some ((jointOf (pairs.map f)).sum (jointOf pairs).size) := by
    intro f hf
    rw [hsum _ fun x hx => ?_, List.length_map, hsize]
    obtain ⟨y, hy, rfl⟩ := List.mem_map.mp hx
    exact hf y (hbits y hy)
  have hvalue : (jointOf pairs).sum pairs.length = ((jointOf pairs).table hpos).information 2 := by
    rw [← hsize, Joint.sum_eq]
  refine ⟨hsum pairs hbits, ?_, ?_, ?_, fun l hl => ?_, ?_, ?_, ?_⟩
  · rw [hvalue]
    exact Information.Table.information_nonneg _ one_lt_two
  · have hle := ((jointOf pairs).table hpos).information_le one_lt_two
    rw [← hvalue, Fintype.card_fin] at hle
    exact hle.trans_eq (Real.logb_self_eq_one one_lt_two)
  · rw [hvalue, Information.Table.information_eq_zero_iff _ one_lt_two]
    refine forall_congr' fun a => forall_congr' fun b => ?_
    rw [Joint.table_weight, Joint.table_total, Joint.table_row, Joint.table_col, hsize, ← cell_eq,
      ← rows_eq hbits, ← cols_eq hbits]
    exact_mod_cast Iff.rfl
  · rw [hsum l fun x hx => hbits x (hl.mem_iff.mp hx), hl.length_eq, jointOf_perm hl]
  · rw [hmap flipExpected fun x hx => ⟨one_sub_le_one hx.1, hx.2⟩, ← hsize]
    exact congrArg some (Joint.sum_reindex (e := Fin.revPerm) (f := .refl _)
      (cell_flipExpected pairs) hpos)
  · rw [hmap flipDecoded fun x hx => ⟨hx.1, one_sub_le_one hx.2⟩, ← hsize]
    exact congrArg some (Joint.sum_reindex (e := .refl _) (f := Fin.revPerm)
      (cell_flipDecoded pairs) hpos)
  · rw [hmap Prod.swap fun x hx => hx.symm, ← hsize]
    exact congrArg some (Joint.sum_transpose (cell_swap pairs) hpos)

theorem benchSum_eq (pairs : List (UInt8 × UInt8)) :
    BenchClient.informationSum pairs = some ((jointOf pairs).sum pairs.length) := by
  rw [BenchClient.informationSum, benchJoint_eq, Option.map_some]

theorem labSum_eq (hbits : ∀ x ∈ pairs, x.1 ≤ 1 ∧ x.2 ≤ 1) :
    Lab.informationSum pairs = some ((jointOf pairs).sum pairs.length) := by
  rw [Lab.informationSum, labJoint_eq hbits, Option.map_some]

/-- Both `mutual_information`, for pairs of bits: the sums are the same, they are what they
are to be, and clamping them changes nothing. -/
theorem mutual_information_informative (hne : pairs ≠ [])
    (hbits : ∀ x ∈ pairs, x.1 ≤ 1 ∧ x.2 ≤ 1) :
    ∃ mi, Informative BenchClient.informationSum pairs mi ∧
      Informative Lab.informationSum pairs mi ∧
      BenchClient.mutualInformation information pairs = some mi ∧
      Lab.mutualInformation information pairs = some mi := by
  have hbench := informative (fun l _ => benchSum_eq l) hne hbits
  have hlab := informative (fun _ => labSum_eq) hne hbits
  have hclamp : information pairs.length (jointOf pairs) = (jointOf pairs).sum pairs.length := by
    rw [information, if_neg (List.length_eq_zero_iff.not.mpr hne), max_eq_left hbench.nonneg]
  refine ⟨_, hbench, hlab, ?_, ?_⟩
  · rw [BenchClient.mutualInformation, hclamp]
  · rw [Lab.mutualInformation_eq _ hbits, hclamp]

/-- One cell of the table is empty. -/
theorem mutual_information_informative_sample :
    ([(0, 0), (0, 1), (1, 1)] : List (UInt8 × UInt8)) ≠ [] ∧
    ∃ mi, Informative BenchClient.informationSum [(0, 0), (0, 1), (1, 1)] mi ∧
      Informative Lab.informationSum [(0, 0), (0, 1), (1, 1)] mi ∧
      BenchClient.mutualInformation information [(0, 0), (0, 1), (1, 1)] = some mi ∧
      Lab.mutualInformation information [(0, 0), (0, 1), (1, 1)] = some mi :=
  ⟨by decide, mutual_information_informative (by decide) (by simp)⟩

end Campaign
