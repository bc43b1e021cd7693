import Mathlib.Algebra.Order.Floor.Semiring
import IshtarOxide.Lib.Rounds
import IshtarOxide.Campaign.Orders

/-!
# The level of the permutation tests

Both `permutation_test` go on with the labels of the iteration before instead of going back to
the observed ones. Their p-values are valid all the same: when the expected bits have nothing
to do with the decoded ones, and so might as well have been shuffled within the offsets or
gaps, a p-value up to a level comes out in no greater share of the cases than the level.

The generator is taken as a source of independent choices here, which xorshift stands for.
What the choices lead to is computed by the loops of the source.

* `testFrom`: a test with any generator.
* `Level`: what it is for a test to keep every level.
* `permutation_test_level`: both tests do.
-/

namespace Campaign

open Finset Shuffle

/-! ## Tests with any generator -/

section Test

variable {β κ σ : Type} (expected decoded : β → UInt8) (key : β → UInt64) [LE κ] [DecidableLE κ]
  [Sub κ] (information : List (UInt8 × UInt8) → Option κ) (epsilon : κ) (source : Source σ)

/-- `testOf` with any generator, from any state of it. -/
def testFrom (pairs : List β) (state : σ) (iterations : Nat) : Option (PermutationResult κ) := do
  let observed ← information (pairs.map fun pair => (expected pair, decoded pair))
  let x ← Shuffle.iterations source (groupsBy key pairs)
    (fun labels => (permuted decoded pairs labels).bind information)
    (fun estimate => observed - epsilon ≤ estimate) ⟨pairs.map expected, state, [], 0⟩ iterations
  return ⟨(x.atLeast + 1) / (iterations + 1), x.estimates⟩

theorem testFrom_xorshift (pairs : List β) (seed : UInt64) (iterations : Nat) :
    testFrom expected decoded key information epsilon .xorshift pairs (permutationState seed)
      iterations = testOf expected decoded key information epsilon pairs seed iterations := by
  unfold testFrom testOf progress
  cases information (pairs.map fun pair => (expected pair, decoded pair)) with
  | none => rfl
  | some observed => exact (Option.map_eq_bind).symm

end Test

end Campaign

namespace BenchClient

open Campaign Shuffle

/-- The pair with another expected bit. -/
def ScoredPair.relabel (pair : ScoredPair) (bit : UInt8) : ScoredPair :=
  { pair with expected := bit }

variable {κ σ : Type} [LE κ] [DecidableLE κ] [Sub κ] (information : Nat → Joint → κ) (epsilon : κ)
  (source : Source σ)

/-- `permutation_test` with any generator. -/
def permutationTestFrom (pairs : List ScoredPair) (state : σ) (iterations : Nat) :
    Option (PermutationResult κ) :=
  if pairs.isEmpty ∨ iterations = 0 then some ⟨1, []⟩
  else
    testFrom ScoredPair.expected ScoredPair.decoded ScoredPair.targetOverlapUs
      (mutualInformation information) epsilon source pairs state iterations

theorem permutationTestFrom_xorshift (pairs : List ScoredPair) (seed : UInt64) (iterations : Nat) :
    permutationTestFrom information epsilon .xorshift pairs (permutationState seed) iterations =
      permutationTest information epsilon pairs seed iterations := by
  unfold permutationTestFrom permutationTest
  rw [testFrom_xorshift]

end BenchClient

namespace Lab

open Campaign Shuffle

/-- The pair with another expected bit. -/
def Scored.relabel (pair : Scored) (bit : UInt8) : Scored := { pair with expected := bit }

variable {κ σ : Type} [LE κ] [DecidableLE κ] [Sub κ] (information : Nat → Joint → κ) (epsilon : κ)
  (source : Source σ)

/-- `permutation_test` with any generator. -/
def permutationTestFrom (pairs : List Scored) (state : σ) (iterations : Nat) :
    Option (PermutationResult κ) :=
  if pairs.isEmpty then some ⟨1, []⟩
  else
    testFrom Scored.expected Scored.decoded Scored.gapUs (mutualInformation information) epsilon
      source pairs state iterations

theorem permutationTestFrom_xorshift (pairs : List Scored) (seed : UInt64) (iterations : Nat) :
    permutationTestFrom information epsilon .xorshift pairs (permutationState seed) iterations =
      permutationTest information epsilon pairs seed iterations := by
  unfold permutationTestFrom permutationTest
  rw [testFrom_xorshift]

end Lab

namespace Campaign

open Finset Shuffle

/-! ## Levels -/

section Level

variable {β κ : Type}

/-- The choices of a test with shuffled labels: a round for the labels, and then one for every
iteration. -/
abbrev Draws (key : β → UInt64) (pairs : List β) (iterations : Nat) : Type :=
  Fin (iterations + 1) → Round (groupsBy key pairs)

/-- The test of the pairs with shuffled labels. -/
def shuffledTest (expected : β → UInt8) (key : β → UInt64) (relabel : β → UInt8 → β)
    (test : List β → List Nat → Nat → Option (PermutationResult κ)) (pairs : List β)
    {iterations : Nat} (r : Draws key pairs iterations) : Option (PermutationResult κ) := do
  let (labels, _) ← permuteGroups .given (groupsBy key pairs) (pairs.map expected) (Exchange.first r).toList
  test (List.zipWith relabel pairs labels) (numbers (Fin.tail r)) iterations

/-- The share of all draws with a p-value up to the level. -/
noncomputable def rejectedShare {Ω : Type} [Fintype Ω] (outcome : Ω → Option (PermutationResult κ))
    (level : ℚ) : ℚ := by
  classical
  exact (univ.filter fun r => ∃ result, outcome r = some result ∧ result.pValue ≤ level).card /
    Fintype.card Ω

/-- A test returns, and rejects labels that were shuffled in no greater share of the cases
than the level. -/
structure Level {Ω : Type} [Fintype Ω] (outcome : Ω → Option (PermutationResult κ)) : Prop where
  returns : ∀ r, ∃ result, outcome r = some result
  share : ∀ level, 0 ≤ level → rejectedShare outcome level ≤ level

variable {Ω : Type} [Fintype Ω] {outcome : Ω → Option (PermutationResult κ)} {level : ℚ}

theorem rejectedShare_le_one (outcome : Ω → Option (PermutationResult κ)) (level : ℚ) :
    rejectedShare outcome level ≤ 1 := by
  unfold rejectedShare
  exact div_le_one_of_le₀ (Nat.cast_le.mpr (card_le_univ _)) (Nat.cast_nonneg _)

/-- A test that always returns 1 rejects at a level of 1 only. -/
theorem Level.of_one (h : ∀ r, ∃ result, outcome r = some result ∧ result.pValue = 1) :
    Level outcome where
  returns r := (h r).imp fun _ h => h.1
  share level hlevel := by
    by_cases hone : 1 ≤ level
    · exact (rejectedShare_le_one outcome level).trans hone
    · have hnone : ∀ r, ¬ ∃ result, outcome r = some result ∧ result.pValue ≤ level := by
        rintro r ⟨result, hresult, hle⟩
        obtain ⟨result', hresult', hvalue⟩ := h r
        cases hresult.symm.trans hresult'
        exact hone (hvalue ▸ hle)
      simpa [rejectedShare, hnone] using hlevel

end Level

/-! ## Shuffled labels -/

section Relabelled

variable {β : Type} {expected decoded : β → UInt8} {key : β → UInt64} {relabel : β → UInt8 → β}
  {pairs : List β} {labels : List UInt8}

/-- Only the expected bit of a pair is replaced. -/
structure Relabels (expected decoded : β → UInt8) (key : β → UInt64) (relabel : β → UInt8 → β) :
    Prop where
  expected : ∀ pair bit, expected (relabel pair bit) = bit
  decoded : ∀ pair bit, decoded (relabel pair bit) = decoded pair
  key : ∀ pair bit, key (relabel pair bit) = key pair

theorem map_zipWith_left {γ : Type} {f : β → γ} (h : ∀ pair bit, f (relabel pair bit) = f pair)
    (hlen : labels.length = pairs.length) :
    (List.zipWith relabel pairs labels).map f = pairs.map f := by
  rw [List.map_zipWith]
  simp only [h]
  refine List.ext_getElem (by simp [hlen]) fun i hi hi' => ?_
  simp

theorem Relabels.map_expected (h : Relabels expected decoded key relabel)
    (hlen : labels.length = pairs.length) :
    (List.zipWith relabel pairs labels).map expected = labels := by
  rw [List.map_zipWith]
  simp only [h.expected]
  refine List.ext_getElem (by simp [hlen]) fun i hi hi' => ?_
  simp

/-- The groups are those of the keys. -/
theorem groupsBy_congr {pairs' : List β} (h : pairs'.map key = pairs.map key) :
    groupsBy key pairs' = groupsBy key pairs := by
  have hpositions : ∀ (l : List β) (k : UInt64),
      positions key l k = positions id (l.map key) k := by
    intro l k
    simp [positions, List.zipIdx_map, List.filter_map, Function.comp_def]
  simp only [groupsBy, h]
  refine List.map_congr_left fun k _ => ?_
  rw [hpositions, hpositions, h]

theorem permuted_congr {pairs' : List β} (h : pairs'.map decoded = pairs.map decoded)
    (labels : List UInt8) : permuted decoded pairs' labels = permuted decoded pairs labels := by
  have hmap : ∀ l : List β, permuted decoded l labels =
      (l.map decoded).zipIdx.mapM fun x => (labels[x.2]?).map (·, x.1) := by
    intro l
    rw [List.zipIdx_map, List.mapM_map]
    rfl
  rw [hmap, hmap, h]

end Relabelled

/-! ## The tests -/

section Tests

variable {β κ : Type} {expected decoded : β → UInt8} {key : β → UInt64} {relabel : β → UInt8 → β}
  {pairs : List β} {information : List (UInt8 × UInt8) → Option κ} {epsilon : κ} {iterations : Nat}

/-- What is estimated from the labels. -/
def estimateOf (decoded : β → UInt8) (information : List (UInt8 × UInt8) → Option κ)
    (pairs : List β) (labels : List UInt8) : Option κ :=
  (permuted decoded pairs labels).bind information

theorem nodup_groups (key : β → UInt64) (pairs : List β) : (groupsBy key pairs).flatten.Nodup :=
  (groupsBy_perm key pairs).nodup_iff.mpr List.nodup_range

theorem lt_of_mem_groups (expected : β → UInt8) {p : Nat} (h : p ∈ (groupsBy key pairs).flatten) :
    p < (pairs.map expected).length := by
  rw [List.length_map]
  exact List.mem_range.mp ((groupsBy_perm key pairs).mem_iff.mp h)

/-- The test of shuffled labels, from the labels alone. -/
theorem testFrom_relabelled [LE κ] [DecidableLE κ] [Sub κ]
    (hrelabel : Relabels expected decoded key relabel) {labels : List UInt8}
    (hlen : labels.length = pairs.length) (numbers : List Nat) :
    testFrom expected decoded key information epsilon .given (List.zipWith relabel pairs labels)
      numbers iterations = (estimateOf decoded information pairs labels).bind fun observed =>
        (Shuffle.iterations .given (groupsBy key pairs) (estimateOf decoded information pairs)
          (fun estimate => observed - epsilon ≤ estimate) ⟨labels, numbers, [], 0⟩ iterations).map
          fun x => ⟨(x.atLeast + 1) / (iterations + 1), x.estimates⟩ := by
  have hdecoded := map_zipWith_left hrelabel.decoded hlen
  have hexpected := hrelabel.map_expected hlen
  have hobserved : (List.zipWith relabel pairs labels).map (fun pair =>
      (expected pair, decoded pair)) = labels.zip (pairs.map decoded) := by
    rw [← List.zip_map', hexpected, hdecoded]
  have hestimate : estimateOf decoded information pairs labels =
      information (labels.zip (pairs.map decoded)) := by
    rw [estimateOf, permuted_eq hlen, Option.bind_some]
  rw [testFrom, hobserved, groupsBy_congr (map_zipWith_left hrelabel.key hlen), hexpected,
    hestimate]
  simp only [permuted_congr hdecoded, Option.map_eq_bind]
  rfl

theorem eq_of_mem_group : ∀ group ∈ groupsBy key pairs, ∀ p ∈ group, ∀ q ∈ group,
    (pairs.map key)[p]? = (pairs.map key)[q]? := by
  intro group hgroup p hp q hq
  obtain ⟨k, hk⟩ := mem_groupsBy hgroup
  rw [hk p hp, hk q hq]

/-- The labels of the first round. -/
theorem exists_labels (expected : β → UInt8) (r : Draws key pairs iterations) :
    ∃ labels, permuteGroups .given (groupsBy key pairs) (pairs.map expected) (Exchange.first r).toList =
        some (labels, []) ∧ labels.length = pairs.length ∧
      Rearranges (fun i => (pairs.map key)[i]?) (pairs.map expected) labels := by
  obtain ⟨labels, hrun, harranged⟩ := permuteGroups_drawn (nodup_groups key pairs)
    (fun p hp => lt_of_mem_groups expected hp) (r 0) []
  obtain ⟨labels', state, hrun', hrearranges⟩ := permuteGroups_rearranges .given
    (fun group hgroup p hp => lt_of_mem_groups expected (List.mem_flatten.mpr ⟨group, hgroup, hp⟩))
    eq_of_mem_group (Exchange.first r).toList
  rw [List.append_nil] at hrun
  cases hrun.symm.trans hrun'
  exact ⟨labels, hrun, harranged.length.trans (List.length_map _), hrearranges⟩

theorem shuffledTest_congr {test test' : List β → List Nat → Nat → Option (PermutationResult κ)}
    (h : ∀ labels : List UInt8, labels.length = pairs.length → ∀ numbers,
      test (List.zipWith relabel pairs labels) numbers iterations =
        test' (List.zipWith relabel pairs labels) numbers iterations)
    (r : Draws key pairs iterations) :
    shuffledTest expected key relabel test pairs r =
      shuffledTest expected key relabel test' pairs r := by
  obtain ⟨labels, hrun, hlen, -⟩ := exists_labels expected r
  rw [shuffledTest, shuffledTest, hrun]
  exact h labels hlen _

theorem isEmpty_zipWith {labels : List UInt8} (hlen : labels.length = pairs.length) :
    (List.zipWith relabel pairs labels).isEmpty = pairs.isEmpty := by
  cases pairs with
  | nil => rfl
  | cons pair pairs =>
    cases labels with
    | nil => cases hlen
    | cons bit labels => rfl

/-- What a test of shuffled labels comes to, when bits have an estimate. -/
theorem exists_outcome [LE κ] [DecidableLE κ] [Sub κ]
    (hrelabel : Relabels expected decoded key relabel)
    (hbits : ∀ p ∈ pairs, expected p ≤ 1 ∧ decoded p ≤ 1)
    (hinfo : ∀ l : List (UInt8 × UInt8), (∀ x ∈ l, x.1 ≤ 1 ∧ x.2 ≤ 1) →
      ∃ e, information l = some e) (epsilon : κ) (r : Draws key pairs iterations) :
    ∃ labels observed y,
      permuteGroups .given (groupsBy key pairs) (pairs.map expected) (Exchange.first r).toList =
        some (labels, []) ∧
      estimateOf decoded information pairs labels = some observed ∧
      Shuffle.iterations .given (groupsBy key pairs) (estimateOf decoded information pairs)
        (fun estimate => observed - epsilon ≤ estimate) ⟨labels, numbers (Fin.tail r), [], 0⟩
        iterations = some y ∧
      shuffledTest expected key relabel (testFrom expected decoded key information epsilon .given)
        pairs r = some ⟨(y.atLeast + 1) / (iterations + 1), y.estimates⟩ := by
  have hestimate : ∀ labels,
      Rearranges (fun i => (pairs.map key)[i]?) (pairs.map expected) labels →
      ∃ e, estimateOf decoded information pairs labels = some e := by
    intro labels hlabels
    rw [estimateOf, permuted_eq (hlabels.length.trans (List.length_map _)), Option.bind_some]
    refine hinfo _ fun x hx => ⟨?_, ?_⟩
    · obtain ⟨p, hp, heq⟩ := List.mem_map.mp (hlabels.mem (List.of_mem_zip hx).1)
      exact heq ▸ (hbits p hp).1
    · obtain ⟨p, hp, heq⟩ := List.mem_map.mp (List.of_mem_zip hx).2
      exact heq ▸ (hbits p hp).2
  obtain ⟨labels, hrun, hlen, hlabels⟩ := exists_labels expected r
  obtain ⟨observed, hobserved⟩ := hestimate labels hlabels
  obtain ⟨y, hy, -⟩ := iterations_spec .given (fun estimate => observed - epsilon ≤ estimate)
    (x := ⟨labels, numbers (Fin.tail r), [], 0⟩)
    (fun group hgroup p hp => hlen ▸ lt_of_mem_group hgroup hp) eq_of_mem_group
    (fun l hl => hestimate l (hlabels.trans hl)) iterations
  refine ⟨labels, observed, y, hrun, hobserved, hy, ?_⟩
  rw [shuffledTest, hrun]
  refine (testFrom_relabelled hrelabel hlen _).trans ?_
  rw [hobserved, Option.bind_some, hy, Option.map_some]

/-- A test may return at once in some cases, which shuffled labels do not change. -/
theorem level_guarded [LE κ] [DecidableLE κ] [Sub κ] (guard : List β → Nat → Prop)
    [∀ pairs n, Decidable (guard pairs n)]
    (hguard : ∀ labels : List UInt8, labels.length = pairs.length →
      (guard (List.zipWith relabel pairs labels) iterations ↔ guard pairs iterations))
    (h : Level (Ω := Draws key pairs iterations) (shuffledTest expected key relabel
      (testFrom expected decoded key information epsilon .given) pairs)) :
    Level (Ω := Draws key pairs iterations) (shuffledTest expected key relabel
      (fun pairs numbers n => if guard pairs n then some ⟨1, []⟩ else
        testFrom expected decoded key information epsilon .given pairs numbers n) pairs) := by
  by_cases hpairs : guard pairs iterations
  · refine .of_one fun r => ⟨⟨1, []⟩, ?_, rfl⟩
    obtain ⟨labels, hrun, hlen, -⟩ := exists_labels expected r
    rw [shuffledTest, hrun]
    exact if_pos ((hguard labels hlen).mpr hpairs)
  · rw [funext (shuffledTest_congr fun labels hlen numbers =>
      if_neg fun hlabels => hpairs ((hguard labels hlen).mp hlabels))]
    exact h

variable [AddCommGroup κ] [LinearOrder κ] [IsOrderedAddMonoid κ]

/-- Where bits have an estimate, a test keeps every level. -/
theorem level_testFrom (hrelabel : Relabels expected decoded key relabel)
    (hbits : ∀ p ∈ pairs, expected p ≤ 1 ∧ decoded p ≤ 1)
    (hinfo : ∀ l : List (UInt8 × UInt8), (∀ x ∈ l, x.1 ≤ 1 ∧ x.2 ≤ 1) →
      ∃ e, information l = some e) (hepsilon : 0 ≤ epsilon) (iterations : Nat) :
    Level (Ω := Draws key pairs iterations) (shuffledTest expected key relabel
      (testFrom expected decoded key information epsilon .given) pairs) := by
  classical
  have houtcome := fun r : Draws key pairs iterations =>
    exists_outcome hrelabel hbits hinfo epsilon r
  refine ⟨fun r => ?_, fun level hlevel => ?_⟩
  · obtain ⟨labels, observed, y, -, -, -, h⟩ := houtcome r
    exact ⟨_, h⟩
  have hpositive : (0 : ℚ) < iterations + 1 := Nat.cast_add_one_pos iterations
  let k := ⌊level * (iterations + 1)⌋₊
  let rejected := Rejected (groupsBy key pairs) (pairs.map expected)
    (estimateOf decoded information pairs) (fun o e => o - epsilon ≤ e) iterations k
  -- a p-value up to the level is a count up to the whole part of its share of the estimates
  have hrejected : ∀ r ∈ univ, (∃ result, shuffledTest expected key relabel
      (testFrom expected decoded key information epsilon .given) pairs r = some result ∧
      result.pValue ≤ level) → rejected r := by
    rintro r - ⟨result, hresult, hle⟩
    obtain ⟨labels, observed, y, hrun, hobserved, hy, h⟩ := houtcome r
    cases h.symm.trans hresult
    refine ⟨labels, observed, y, hrun, hobserved, hy, Nat.le_floor ?_⟩
    rw [Nat.cast_add_one]
    exact (div_le_iff₀ hpositive).mp hle
  have hcard : ((iterations + 1) * (univ.filter rejected).card : ℚ) ≤
      k * Fintype.card (Draws key pairs iterations) := by
    exact_mod_cast card_rejected_le (nodup_groups key pairs)
      (fun p hp => lt_of_mem_groups expected hp)
      (fun o e h => decide_eq_true ((sub_le_self o hepsilon).trans h)) iterations k
  have hfloor : (k : ℚ) ≤ level * (iterations + 1) :=
    Nat.floor_le (mul_nonneg hlevel hpositive.le)
  refine div_le_of_le_mul₀ (Nat.cast_nonneg _) hlevel (le_of_mul_le_mul_left ?_ hpositive)
  calc (iterations + 1 : ℚ) * (univ.filter _).card
      ≤ (iterations + 1) * (univ.filter rejected).card :=
        mul_le_mul_of_nonneg_left
          (Nat.cast_le.mpr (card_le_card (monotone_filter_right univ hrejected))) hpositive.le
    _ ≤ k * Fintype.card (Draws key pairs iterations) := hcard
    _ ≤ level * (iterations + 1) * Fintype.card (Draws key pairs iterations) :=
        mul_le_mul_of_nonneg_right hfloor (Nat.cast_nonneg _)
    _ = (iterations + 1) * (level * Fintype.card (Draws key pairs iterations)) := by ring

end Tests

section Both

variable {κ : Type} [AddCommGroup κ] [LinearOrder κ] [IsOrderedAddMonoid κ] {epsilon : κ}

/-- With the expected bits shuffled and independent choices, the tests of the bench client and
of the lab keep every level, for every function of the joint counts. These tests are the ones
of the source, once their choices come of xorshift. -/
theorem permutation_test_level (information : Nat → Joint → κ) (hepsilon : 0 ≤ epsilon)
    (iterations : Nat) :
    (∀ pairs : List BenchClient.ScoredPair, (∀ p ∈ pairs, p.expected ≤ 1 ∧ p.decoded ≤ 1) →
      (∀ seed, BenchClient.permutationTestFrom information epsilon .xorshift pairs
          (permutationState seed) iterations =
        BenchClient.permutationTest information epsilon pairs seed iterations) ∧
      Level (Ω := Draws (·.targetOverlapUs) pairs iterations)
        (shuffledTest (·.expected) (·.targetOverlapUs) BenchClient.ScoredPair.relabel
          (BenchClient.permutationTestFrom information epsilon .given) pairs)) ∧
    ∀ pairs : List Lab.Scored, (∀ p ∈ pairs, p.expected ≤ 1 ∧ p.decoded ≤ 1) →
      (∀ seed, Lab.permutationTestFrom information epsilon .xorshift pairs
          (permutationState seed) iterations =
        Lab.permutationTest information epsilon pairs seed iterations) ∧
      Level (Ω := Draws (·.gapUs) pairs iterations)
        (shuffledTest (·.expected) (·.gapUs) Lab.Scored.relabel
          (Lab.permutationTestFrom information epsilon .given) pairs) := by
  constructor
  · intro pairs hbits
    have hrelabel : Relabels BenchClient.ScoredPair.expected BenchClient.ScoredPair.decoded
        BenchClient.ScoredPair.targetOverlapUs BenchClient.ScoredPair.relabel :=
      ⟨fun _ _ => rfl, fun _ _ => rfl, fun _ _ => rfl⟩
    refine ⟨fun seed => BenchClient.permutationTestFrom_xorshift .., level_guarded _
      (fun labels hlen => by rw [isEmpty_zipWith hlen]) ?_⟩
    exact level_testFrom hrelabel hbits (fun _ _ => ⟨_, rfl⟩) hepsilon iterations
  · intro pairs hbits
    have hrelabel : Relabels Lab.Scored.expected Lab.Scored.decoded Lab.Scored.gapUs
        Lab.Scored.relabel := ⟨fun _ _ => rfl, fun _ _ => rfl, fun _ _ => rfl⟩
    refine ⟨fun seed => Lab.permutationTestFrom_xorshift .., level_guarded
      (fun pairs _ => pairs.isEmpty) (fun labels hlen => by rw [isEmpty_zipWith hlen]) ?_⟩
    exact level_testFrom hrelabel hbits
      (fun _ hl => ⟨_, Lab.mutualInformation_eq information hl⟩) hepsilon iterations

/-- At most one in twenty of the orders of three labels at one offset, and of the choices of
19 iterations after them, has a p-value of one in twenty. -/
theorem permutation_test_level_sample :
    rejectedShare (Ω := Draws (·.targetOverlapUs)
        ([⟨0, 0, 5⟩, ⟨1, 1, 5⟩, ⟨1, 0, 5⟩] : List BenchClient.ScoredPair) 19)
      (shuffledTest (·.expected) (·.targetOverlapUs) BenchClient.ScoredPair.relabel
        (BenchClient.permutationTestFrom (fun _ joint => (joint.oneOne : ℤ)) 0 .given) _)
      (1 / 20) ≤ 1 / 20 :=
  ((permutation_test_level (fun _ joint => (joint.oneOne : ℤ)) (Int.le_refl 0) 19).1 _
    (by decide)).2.share _ (by norm_num)

end Both

end Campaign
