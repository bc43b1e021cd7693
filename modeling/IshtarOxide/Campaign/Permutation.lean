import Mathlib.Algebra.Order.Group.Int
import Mathlib.Algebra.Field.Rat
import IshtarOxide.Lib.Strata
import IshtarOxide.Lib.Xorshift
import IshtarOxide.BenchClient.Plan
import IshtarOxide.Lab.TurnBench

/-!
# Permutation tests

`permutation_test` of crates/bench-client and of `benchmark` in crates/sequential-lab. Both
shuffle the expected bits within the groups of pairs with one offset or gap, again and
again without going back to the observed ones, and count how often the estimate comes up to
the observed one. What is estimated from the joint counts is a parameter, and so are the
numbers: `mutual_information` and `f64::EPSILON` in the source. The mean and the percentile
of the estimates are left out.

* `Stratified`: what a test is to do.
* `permutation_test_stratified`: both tests do it.
-/

namespace Campaign

/-! ## The test -/

/-- `joint`: how often an expected and a decoded bit come together. -/
structure Joint where
  zeroZero : Nat
  zeroOne : Nat
  oneZero : Nat
  oneOne : Nat
deriving DecidableEq, Repr

def jointOf (pairs : List (UInt8 × UInt8)) : Joint :=
  ⟨pairs.count (0, 0), pairs.count (0, 1), pairs.count (1, 0), pairs.count (1, 1)⟩

/-- What a test returns, with the estimates that its statistics are of. -/
structure PermutationResult (κ : Type) where
  pValue : ℚ
  estimates : List κ
deriving DecidableEq, Repr

/-- The first state of the generator of a test. -/
def permutationState (seed : UInt64) : UInt64 := max seed 1 ^^^ 0x7065726d75746521

section Test

variable {β κ : Type} (expected decoded : β → UInt8) (key : β → UInt64)

/-- `groups`: the positions of the pairs with each key, in the order of the keys. -/
def groupsBy (pairs : List β) : List (List Nat) :=
  (pairs.map key).sortDedup.map (Shuffle.positions key pairs)

/-- The pairs with other labels. -/
def permuted (pairs : List β) (labels : List UInt8) : Option (List (UInt8 × UInt8)) :=
  pairs.zipIdx.mapM fun (pair, index) => (labels[index]?).map (·, decoded pair)

variable [LE κ] [DecidableLE κ] [Sub κ] (information : List (UInt8 × UInt8) → Option κ)
  (epsilon : κ)

/-- The test after `n` iterations. -/
def progress (pairs : List β) (seed : UInt64) (n : Nat) :
    Option (Shuffle.Progress UInt8 κ UInt64) := do
  let observed ← information (pairs.map fun pair => (expected pair, decoded pair))
  Shuffle.iterations .xorshift (groupsBy key pairs)
    (fun labels => (permuted decoded pairs labels).bind information)
    (fun estimate => observed - epsilon ≤ estimate)
    ⟨pairs.map expected, permutationState seed, [], 0⟩ n

def testOf (pairs : List β) (seed : UInt64) (iterations : Nat) : Option (PermutationResult κ) :=
  (progress expected decoded key information epsilon pairs seed iterations).map fun x =>
    ⟨(x.atLeast + 1) / (iterations + 1), x.estimates⟩

end Test

end Campaign

namespace BenchClient

open Campaign

/-- `ScoredPair`. -/
structure ScoredPair where
  expected : UInt8
  decoded : UInt8
  targetOverlapUs : UInt64
deriving DecidableEq, Repr

variable {κ : Type} (information : Nat → Joint → κ)

/-- `mutual_information`, as some function of the number of pairs and the joint counts.
Pairs with other bits are not in these. -/
def mutualInformation (pairs : List (UInt8 × UInt8)) : Option κ :=
  some (information pairs.length (jointOf pairs))

variable [LE κ] [DecidableLE κ] [Sub κ] (epsilon : κ)

/-- `permutation_test`. -/
def permutationTest (pairs : List ScoredPair) (seed : UInt64) (iterations : Nat) :
    Option (PermutationResult κ) :=
  if pairs.isEmpty ∨ iterations = 0 then some ⟨1, []⟩
  else
    testOf ScoredPair.expected ScoredPair.decoded ScoredPair.targetOverlapUs
      (mutualInformation information) epsilon pairs seed iterations

end BenchClient

namespace Lab

open Campaign

variable {κ : Type} (information : Nat → Joint → κ)

/-- `mutual_information`, as some function of the number of pairs and the joint counts. There
is no place in `joint` for other bits. -/
def mutualInformation (pairs : List (UInt8 × UInt8)) : Option κ :=
  if pairs.all fun pair => pair.1 ≤ 1 && pair.2 ≤ 1 then
    some (information pairs.length (jointOf pairs))
  else none

theorem mutualInformation_eq {pairs : List (UInt8 × UInt8)} (h : ∀ x ∈ pairs, x.1 ≤ 1 ∧ x.2 ≤ 1) :
    mutualInformation information pairs = some (information pairs.length (jointOf pairs)) := by
  unfold mutualInformation
  exact if_pos (by simpa using h)

variable [LE κ] [DecidableLE κ] [Sub κ] (epsilon : κ)

/-- `permutation_test`. -/
def permutationTest (pairs : List Scored) (seed : UInt64) (iterations : Nat) :
    Option (PermutationResult κ) :=
  if pairs.isEmpty then some ⟨1, []⟩
  else
    testOf Scored.expected Scored.decoded Scored.gapUs (mutualInformation information) epsilon
      pairs seed iterations

end Lab

namespace Campaign

/-! ## What a test does -/

section Stratified

variable {β κ : Type} {expected decoded : β → UInt8} {key : β → UInt64} {pairs : List β}
  {v : UInt64}

theorem groupsBy_perm (key : β → UInt64) (pairs : List β) :
    (groupsBy key pairs).flatten.Perm (List.range pairs.length) :=
  Shuffle.positions_perm (List.nodup_sortDedup _) fun pair hpair => by
    rw [List.mem_sortDedup]
    exact List.mem_map_of_mem hpair

theorem mem_groupsBy {group : List Nat} (h : group ∈ groupsBy key pairs) :
    ∃ k, ∀ i ∈ group, (pairs.map key)[i]? = some k := by
  obtain ⟨k, -, rfl⟩ := List.mem_map.mp h
  refine ⟨k, fun i hi => ?_⟩
  rw [List.getElem?_map]
  exact Shuffle.mem_positions.mp hi

theorem permuted_eq {labels : List UInt8} (h : labels.length = pairs.length) :
    permuted decoded pairs labels = some (labels.zip (pairs.map decoded)) := by
  have hlookup : ∀ x ∈ pairs.zipIdx, (labels[x.2]?).map (·, decoded x.1) =
      some (labels.getD x.2 0, decoded x.1) := by
    intro x hx
    have hlt : x.2 < labels.length := h ▸ List.snd_lt_of_mem_zipIdx hx
    rw [List.getD_eq_getElem?_getD, List.getElem?_eq_getElem hlt]
    rfl
  rw [permuted, List.mapM_eq_some_map hlookup]
  refine congrArg some (List.ext_getElem (by simp [h]) fun i hi hi' => ?_)
  have hlt : i < labels.length := by simp at hi; omega
  simp [hlt]

/-- What a test of the pairs is to do: its groups are a partition of the positions; `n`
iterations make `n` estimates, and after them the labels are the expected bits, moved within
the groups; it returns what its iterations have counted and estimated, unless there is nothing
to test; and where in every group the expected or the decoded bits are all the same, every
estimate is extreme. -/
structure Stratified (expected decoded : β → UInt8) (key : β → UInt64) (pairs : List β)
    (after : Nat → Option (Shuffle.Progress UInt8 κ UInt64))
    (result : Option (PermutationResult κ)) (iterations : Nat) : Prop where
  partition : (groupsBy key pairs).flatten.Perm (List.range pairs.length)
  moved : ∀ n, ∃ x, after n = some x ∧ x.estimates.length = n ∧
    Shuffle.Rearranges (fun i => (pairs.map key)[i]?) (pairs.map expected) x.labels ∧
    (x.labels.zip (pairs.map key)).Perm ((pairs.map expected).zip (pairs.map key))
  returns : ∃ k ≤ iterations, ∃ r, result = some r ∧ r.pValue = (k + 1) / (iterations + 1) ∧
    (pairs ≠ [] → ∃ x, after iterations = some x ∧ k = x.atLeast ∧ r.estimates = x.estimates) ∧
    ((∀ v, (∀ p ∈ pairs, ∀ q ∈ pairs, key p = v → key q = v → expected p = expected q) ∨
      ∀ p ∈ pairs, ∀ q ∈ pairs, key p = v → key q = v → decoded p = decoded q) →
      k = iterations ∧ r.pValue = 1)

variable [AddCommGroup κ] [LinearOrder κ] [IsOrderedAddMonoid κ]
  {information : List (UInt8 × UInt8) → Option κ} {g : Nat → Joint → κ} {epsilon : κ}

theorem getElem?_map_eq {f : β → UInt8}
    (h : ∀ p ∈ pairs, ∀ q ∈ pairs, key p = v → key q = v → f p = f q) (i j : Nat)
    (hi : (pairs.map key)[i]? = some v) (hj : (pairs.map key)[j]? = some v) :
    (pairs.map f)[i]? = (pairs.map f)[j]? := by
  rw [List.getElem?_map, Option.map_eq_some_iff] at hi hj
  obtain ⟨p, hp, hpv⟩ := hi
  obtain ⟨q, hq, hqv⟩ := hj
  rw [List.getElem?_map, List.getElem?_map, hp, hq, Option.map_some, Option.map_some,
    h p (List.mem_of_getElem? hp) q (List.mem_of_getElem? hq) hpv hqv]

/-- The pairs of bits after a rearrangement, when in every group one side is constant. -/
theorem pairs_perm {labels : List UInt8}
    (h : Shuffle.Rearranges (fun i => (pairs.map key)[i]?) (pairs.map expected) labels)
    (hconst : ∀ v, (∀ p ∈ pairs, ∀ q ∈ pairs, key p = v → key q = v → expected p = expected q) ∨
      ∀ p ∈ pairs, ∀ q ∈ pairs, key p = v → key q = v → decoded p = decoded q) :
    (labels.zip (pairs.map decoded)).Perm ((pairs.map expected).zip (pairs.map decoded)) := by
  refine h.zip_perm (by simp) fun k => ?_
  cases k with
  | none =>
    left
    intro i j hi hj
    rw [List.getElem?_map, Option.map_eq_none_iff] at hi hj
    rw [List.getElem?_map, List.getElem?_map, hi, hj]
  | some v =>
    exact (hconst v).imp getElem?_map_eq getElem?_map_eq

theorem jointOf_perm {l l' : List (UInt8 × UInt8)} (h : l.Perm l') : jointOf l = jointOf l' := by
  simp only [jointOf, h.count_eq]

theorem testOf_stratified (hbits : ∀ p ∈ pairs, expected p ≤ 1 ∧ decoded p ≤ 1)
    (hinfo : ∀ l : List (UInt8 × UInt8), (∀ x ∈ l, x.1 ≤ 1 ∧ x.2 ≤ 1) →
      information l = some (g l.length (jointOf l)))
    (hepsilon : 0 ≤ epsilon) (seed : UInt64) (iterations : Nat) :
    Stratified expected decoded key pairs
      (progress expected decoded key information epsilon pairs seed)
      (testOf expected decoded key information epsilon pairs seed iterations) iterations := by
  have hobserved : (pairs.map fun pair => (expected pair, decoded pair)) =
      (pairs.map expected).zip (pairs.map decoded) := (List.zip_map' ..).symm
  have hinfo' : ∀ labels : List UInt8, (∀ b ∈ labels, b ≤ 1) →
      information (labels.zip (pairs.map decoded)) =
        some (g (labels.zip (pairs.map decoded)).length
          (jointOf (labels.zip (pairs.map decoded)))) := by
    intro labels hlabels
    refine hinfo _ fun x hx => ⟨hlabels _ (List.of_mem_zip hx).1, ?_⟩
    obtain ⟨p, hp, heq⟩ := List.mem_map.mp (List.of_mem_zip hx).2
    exact heq ▸ (hbits p hp).2
  have hexpected : ∀ b ∈ pairs.map expected, b ≤ 1 := by
    intro b hb
    obtain ⟨p, hp, rfl⟩ := List.mem_map.mp hb
    exact (hbits p hp).1
  have hprogress : ∀ n, progress expected decoded key information epsilon pairs seed n = _ :=
    fun n => by rw [progress, hobserved, hinfo' _ hexpected, Option.bind_eq_bind, Option.bind_some]
  -- rearranged labels are still bits, so every estimate is that of a joint count
  have hestimate : ∀ labels,
      Shuffle.Rearranges (fun i => (pairs.map key)[i]?) (pairs.map expected) labels →
      (permuted decoded pairs labels).bind information = some (g pairs.length
        (jointOf (labels.zip (pairs.map decoded)))) := by
    intro labels hlabels
    have hlen : labels.length = pairs.length := by rw [hlabels.length, List.length_map]
    rw [permuted_eq hlen, Option.bind_some,
      hinfo' labels fun b hb => hexpected b (hlabels.mem hb)]
    simp [hlen]
  have hrange : ∀ group ∈ groupsBy key pairs, ∀ k ∈ group, k < (pairs.map expected).length := by
    intro group hgroup k hk
    have hmem := (groupsBy_perm key pairs).mem_iff.mp (List.mem_flatten.mpr ⟨group, hgroup, hk⟩)
    rw [List.length_map]
    exact List.mem_range.mp hmem
  have hkey : ∀ group ∈ groupsBy key pairs, ∀ k ∈ group, ∀ k' ∈ group,
      (pairs.map key)[k]? = (pairs.map key)[k']? := by
    intro group hgroup k hk k' hk'
    obtain ⟨v, hv⟩ := mem_groupsBy hgroup
    rw [hv k hk, hv k' hk']
  let observed := g ((pairs.map expected).zip (pairs.map decoded)).length
    (jointOf ((pairs.map expected).zip (pairs.map decoded)))
  have hspec := Shuffle.iterations_spec .xorshift (fun estimate => observed - epsilon ≤ estimate)
    (x := ⟨pairs.map expected, permutationState seed, [], 0⟩) hrange hkey
    fun labels h => ⟨_, hestimate labels h⟩
  refine ⟨groupsBy_perm key pairs, fun n => ?_, ?_⟩
  · obtain ⟨y, hy, hmoved, hlen, -⟩ := hspec n
    exact ⟨y, (hprogress n).trans hy, hlen.trans (Nat.zero_add n), hmoved,
      hmoved.zip_keys_perm (by simp)⟩
  · obtain ⟨y, hy, -, -, -, hle, hall⟩ := hspec iterations
    have hresult : testOf expected decoded key information epsilon pairs seed iterations =
        some ⟨(y.atLeast + 1) / (iterations + 1), y.estimates⟩ := by
      rw [testOf, hprogress, hy, Option.map_some]
    rw [Nat.zero_add] at hle
    refine ⟨y.atLeast, hle, _, hresult, rfl,
      fun _ => ⟨y, (hprogress iterations).trans hy, rfl, rfl⟩, fun hconst => ?_⟩
    -- with one value on every group the pairs are the same, whatever the order
    have hk : y.atLeast = iterations := by
      rw [hall, Nat.zero_add]
      intro labels e hlabels he
      rw [hestimate labels hlabels] at he
      cases he
      have hlen : ((pairs.map expected).zip (pairs.map decoded)).length = pairs.length := by simp
      rw [jointOf_perm (pairs_perm hlabels hconst), ← hlen]
      exact decide_eq_true (sub_le_self observed hepsilon)
    refine ⟨hk, ?_⟩
    rw [hk]
    exact div_self (Nat.cast_add_one_ne_zero iterations)

end Stratified

/-- Without pairs a test returns at once. -/
theorem Stratified.of_empty {β κ : Type} {expected decoded : β → UInt8} {key : β → UInt64}
    {after : Nat → Option (Shuffle.Progress UInt8 κ UInt64)}
    {result : Option (PermutationResult κ)} {iterations : Nat}
    (h : Stratified expected decoded key [] after result iterations) :
    Stratified expected decoded key [] after (some ⟨1, []⟩) iterations where
  partition := h.partition
  moved := h.moved
  returns := by
    refine ⟨iterations, Nat.le_refl _, _, rfl, ?_, fun hne => absurd rfl hne, fun _ => ⟨rfl, rfl⟩⟩
    exact (div_self (Nat.cast_add_one_ne_zero iterations)).symm

/-- Without iterations there is nothing to count. -/
theorem benchTest_eq {κ : Type} [LE κ] [DecidableLE κ] [Sub κ] (information : Nat → Joint → κ)
    (epsilon : κ) {pairs : List BenchClient.ScoredPair} (hne : pairs ≠ []) (seed : UInt64)
    (iterations : Nat) :
    BenchClient.permutationTest information epsilon pairs seed iterations =
      testOf (·.expected) (·.decoded) (·.targetOverlapUs)
        (BenchClient.mutualInformation information) epsilon pairs seed iterations := by
  unfold BenchClient.permutationTest
  split
  · next h =>
    obtain rfl : iterations = 0 := h.resolve_left (by simpa using hne)
    simp [testOf, progress, BenchClient.mutualInformation, Shuffle.iterations]
  · rfl

section Both

variable {κ : Type} [AddCommGroup κ] [LinearOrder κ] [IsOrderedAddMonoid κ] {epsilon : κ}

/-- The tests of the bench client and of the lab, for every function of the joint counts. -/
theorem permutation_test_stratified (information : Nat → Joint → κ) (hepsilon : 0 ≤ epsilon)
    (seed : UInt64) (iterations : Nat) :
    (∀ pairs : List BenchClient.ScoredPair, (∀ p ∈ pairs, p.expected ≤ 1 ∧ p.decoded ≤ 1) →
      Stratified (·.expected) (·.decoded) (·.targetOverlapUs) pairs
        (progress (·.expected) (·.decoded) (·.targetOverlapUs)
          (BenchClient.mutualInformation information) epsilon pairs seed)
        (BenchClient.permutationTest information epsilon pairs seed iterations) iterations) ∧
    ∀ pairs : List Lab.Scored, (∀ p ∈ pairs, p.expected ≤ 1 ∧ p.decoded ≤ 1) →
      Stratified (·.expected) (·.decoded) (·.gapUs) pairs
        (progress (·.expected) (·.decoded) (·.gapUs) (Lab.mutualInformation information) epsilon
          pairs seed)
        (Lab.permutationTest information epsilon pairs seed iterations) iterations := by
  constructor
  · intro pairs hbits
    have htest : Stratified (·.expected) (·.decoded) (·.targetOverlapUs) pairs
        (progress _ _ _ (BenchClient.mutualInformation information) epsilon pairs seed) _
        iterations :=
      testOf_stratified hbits (fun _ _ => rfl) hepsilon seed iterations
    rcases eq_or_ne pairs [] with rfl | hne
    · exact htest.of_empty
    · rw [benchTest_eq information epsilon hne]
      exact htest
  · intro pairs hbits
    unfold Lab.permutationTest
    have htest : Stratified (·.expected) (·.decoded) (·.gapUs) pairs _ _ iterations :=
      testOf_stratified hbits (fun _ => Lab.mutualInformation_eq information) hepsilon seed
        iterations
    rcases eq_or_ne pairs [] with rfl | hne
    · exact htest.of_empty
    · rw [if_neg (by simpa using hne)]
      exact htest

/-- One decoded bit at the first offset and one expected bit at the other. -/
def constantPairs : List BenchClient.ScoredPair := [⟨0, 0, 5⟩, ⟨1, 1, 7⟩, ⟨1, 0, 5⟩, ⟨1, 0, 7⟩]

/-- Every bit is decoded, at two offsets. -/
def signalPairs : List BenchClient.ScoredPair := [⟨0, 0, 5⟩, ⟨1, 1, 5⟩, ⟨0, 0, 7⟩, ⟨1, 1, 7⟩]

theorem groupsBy_signalPairs :
    groupsBy BenchClient.ScoredPair.targetOverlapUs signalPairs = [[0, 1], [2, 3]] := by
  rw [groupsBy, List.sortDedup, List.mergeSort_of_pairwise (by decide)]
  rfl

/-- How often a one is decoded as a one. -/
def ones (_ : Nat) (joint : Joint) : ℤ := joint.oneOne

theorem progress_signalPairs :
    progress (·.expected) (·.decoded) (·.targetOverlapUs) (BenchClient.mutualInformation ones) 0
      signalPairs 9 4 = some ⟨[1, 0, 0, 1], 3805804008430570768, [1, 2, 0, 1], 1⟩ := by
  rw [progress, groupsBy_signalPairs]
  rfl

/-- Of four estimates one comes up to the observed one, and none is less where one side is
constant. -/
theorem permutation_test_stratified_sample :
    (∀ p ∈ constantPairs, p.expected ≤ 1 ∧ p.decoded ≤ 1) ∧
    (∃ r, BenchClient.permutationTest ones 0 constantPairs 9 20 = some r ∧ r.pValue = 1) ∧
    ∃ r, BenchClient.permutationTest ones 0 signalPairs 9 4 = some r ∧
      r.estimates = [1, 2, 0, 1] ∧ r.pValue = (1 + 1) / (4 + 1) := by
  have hbits : ∀ p ∈ constantPairs, p.expected ≤ 1 ∧ p.decoded ≤ 1 := by decide
  refine ⟨hbits, ?_, ?_⟩
  · have h := (permutation_test_stratified ones (Int.le_refl 0) 9 20).1 constantPairs hbits
    obtain ⟨k, -, r, hr, -, -, hconst⟩ := h.returns
    refine ⟨r, hr, (hconst fun v => ?_).2⟩
    by_cases hv : v = 5
    · right
      subst hv
      decide
    · left
      have hone : ∀ p ∈ constantPairs, p.targetOverlapUs ≠ 5 → p.expected = 1 := by decide
      intro p hp q hq hpv hqv
      rw [hone p hp (hpv ▸ hv), hone q hq (hqv ▸ hv)]
  · have h := (permutation_test_stratified ones (Int.le_refl 0) 9 4).1 signalPairs (by decide)
    obtain ⟨_, -, r, hr, hvalue, hcounted, -⟩ := h.returns
    obtain ⟨x, hx, rfl, hestimates⟩ := hcounted (by decide)
    cases hx.symm.trans progress_signalPairs
    exact ⟨r, hr, hestimates, hvalue⟩

end Both

end Campaign
