import IshtarOxide.BenchClient.Plan
import IshtarOxide.Lab.TurnBench

/-!
# Balance

The plans of the bench client and of the lab deal the pairs of an offset (or gap) and a bit
from shuffled blocks. At every point of the scoring part the pairs have come about equally
often, whatever the seed.

* `Balanced`: what a plan is to be.
* `trial_plans_balanced`: both `build_trial_plan` return such a plan.
-/

namespace Campaign

/-! ## Pairs -/

section Pairs

variable {α : Type} {mk : UInt8 → UInt64 → α} {offsets : List UInt64}

/-- Every pair of an offset and a bit. -/
def pairsOf (mk : UInt8 → UInt64 → α) (offsets : List UInt64) : List α :=
  offsets.flatMap fun offset => [mk 0 offset, mk 1 offset]

theorem mem_pairsOf {x : α} :
    x ∈ pairsOf mk offsets ↔ ∃ offset ∈ offsets, x = mk 0 offset ∨ x = mk 1 offset := by
  simp [pairsOf]

theorem length_pairsOf : (pairsOf mk offsets).length = 2 * offsets.length := by
  induction offsets with
  | nil => rfl
  | cons offset offsets ih =>
    rw [pairsOf, List.flatMap_cons, List.length_append, ← pairsOf, ih, List.length_cons,
      List.length_cons, List.length_cons, List.length_nil]
    omega

theorem nodup_pairsOf (hmk : ∀ {b b' o o'}, mk b o = mk b' o' → b = b' ∧ o = o')
    (h : offsets.Nodup) : (pairsOf mk offsets).Nodup := by
  rw [pairsOf, List.nodup_flatMap]
  constructor
  · intro offset _
    have hne : mk 0 offset ≠ mk 1 offset := fun he => absurd (hmk he).1 (by decide)
    simp [hne]
  · refine h.imp fun {o o'} hne => ?_
    intro x hx hx'
    simp only [List.mem_cons, List.not_mem_nil, or_false] at hx hx'
    rcases hx with rfl | rfl
    · rcases hx' with he | he
      · exact hne (hmk he).2
      · exact hne (hmk he).2
    · rcases hx' with he | he
      · exact hne (hmk he).2
      · exact hne (hmk he).2

end Pairs

/-! ## Balanced plans -/

/-- A plan of `count` trials that begins with `copies` of every pair and deals them evenly from
then on. -/
structure Balanced {α : Type} [DecidableEq α] (mk : UInt8 → UInt64 → α) (offsets : List UInt64)
    (copies count : Nat) (plan : List α) : Prop where
  length : plan.length = count
  calibration : (plan.take (copies * (2 * offsets.length))).Perm
    (List.replicate copies (pairsOf mk offsets)).flatten
  blocks : ∀ k, copies * (2 * offsets.length) + (k + 1) * (2 * offsets.length) ≤ count →
    ((plan.drop (copies * (2 * offsets.length) + k * (2 * offsets.length))).take
      (2 * offsets.length)).Perm (pairsOf mk offsets)
  prefixes : ∀ n, ∀ x ∈ pairsOf mk offsets, ∀ y ∈ pairsOf mk offsets,
    ((plan.drop (copies * (2 * offsets.length))).take n).count x ≤
      ((plan.drop (copies * (2 * offsets.length))).take n).count y + 1
  bits : ∀ offset ∈ offsets, plan.count (mk 0 offset) ≤ plan.count (mk 1 offset) + 1 ∧
    plan.count (mk 1 offset) ≤ plan.count (mk 0 offset) + 1

section Dealt

variable {α : Type} [DecidableEq α] {mk : UInt8 → UInt64 → α} {offsets : List UInt64}
  {copies count : Nat} {calibration scoring : List α}

/-- Copies of every pair, and then what was dealt from them. -/
theorem balanced_of_dealt (hmk : ∀ {b b' o o'}, mk b o = mk b' o' → b = b' ∧ o = o')
    (hoffsets : offsets.Nodup)
    (hcalibration : calibration.Perm (List.replicate copies (pairsOf mk offsets)).flatten)
    (hscoring : Shuffle.Dealt (pairsOf mk offsets) scoring)
    (hlen : (calibration ++ scoring).length = count) :
    Balanced mk offsets copies count (calibration ++ scoring) := by
  have hnodup := nodup_pairsOf hmk hoffsets
  have hlead : calibration.length = copies * (2 * offsets.length) := by
    rw [hcalibration.length_eq, List.length_flatten, List.map_replicate, List.sum_replicate_nat,
      length_pairsOf]
  have hcount : ∀ x ∈ pairsOf mk offsets, calibration.count x = copies := by
    intro x hx
    rw [hcalibration.count_eq, List.count_flatten, List.map_replicate, List.sum_replicate_nat,
      List.count_eq_one_of_mem hnodup hx, Nat.mul_one]
  refine ⟨hlen, ?_, fun k hk => ?_, fun n x hx y hy => ?_, fun offset hoffset => ?_⟩
  · rw [← hlead, List.take_left]
    exact hcalibration
  · rw [← hlead, ← hlen, List.length_append] at hk
    rw [← hlead, ← List.drop_drop, List.drop_left, ← length_pairsOf]
    refine hscoring.block_perm ?_
    rw [length_pairsOf]
    omega
  · rw [← hlead, List.drop_left]
    exact (hscoring.take n).count_le hnodup hx hy
  · have hzero : mk 0 offset ∈ pairsOf mk offsets := mem_pairsOf.mpr ⟨offset, hoffset, .inl rfl⟩
    have hone : mk 1 offset ∈ pairsOf mk offsets := mem_pairsOf.mpr ⟨offset, hoffset, .inr rfl⟩
    rw [List.count_append, List.count_append, hcount _ hzero, hcount _ hone]
    -- either is dealt at most once more than the other
    have h₁ := hscoring.count_le hnodup hzero hone
    have h₂ := hscoring.count_le hnodup hone hzero
    omega

end Dealt

/-! ## Both plans -/

variable {fuel : Nat} {seed : UInt64} {offsets : List UInt64}

theorem benchPlan_balanced {count : UInt64} {plan : List BenchClient.TrialPlan}
    (hoffsets : offsets.Nodup) (h : BenchClient.buildTrialPlan fuel seed count offsets = .ok plan) :
    Balanced BenchClient.TrialPlan.mk offsets BenchClient.calibrationSamplesPerBitAndOffset
      count.toNat plan := by
  obtain ⟨_, _, -, -, -, hlen⟩ := BenchClient.buildTrialPlan_eq_ok h
  obtain ⟨calibration, scoring, rfl, hperm, hdealt⟩ := BenchClient.buildTrialPlan_dealt h
  exact balanced_of_dealt (fun he => by cases he; exact ⟨rfl, rfl⟩) hoffsets
    (hperm.trans List.repeatEach_perm) hdealt hlen

theorem labPlan_balanced {count perBitAndGap : Nat} {plan : List Lab.TrialPlan}
    (hoffsets : offsets.Nodup) (hle : offsets.length * perBitAndGap * 2 ≤ count)
    (h : Lab.buildTrialPlan fuel seed count offsets perBitAndGap = .ok plan) :
    Balanced Lab.TrialPlan.mk offsets perBitAndGap count plan := by
  obtain ⟨_, _, -, -, -, hlen⟩ := Lab.buildTrialPlan_eq_ok h
  obtain ⟨calibration, scoring, rfl, hperm, hdealt⟩ := Lab.buildTrialPlan_dealt h
  rw [Nat.max_eq_right hle] at hlen
  exact balanced_of_dealt (fun he => by cases he; exact ⟨rfl, rfl⟩) hoffsets
    (hperm.trans List.repeatEach_perm) hdealt hlen

/-- Both `build_trial_plan`, for distinct offsets (or gaps) and a number of trials that is not
below the length of the calibration part and for which a plan has room in a vector. -/
theorem trial_plans_balanced (seed : UInt64) (hne : offsets ≠ []) (hoffsets : offsets.Nodup) :
    (∀ count : UInt64,
      offsets.length * BenchClient.calibrationSamplesPerBitAndOffset * 2 ≤ count.toNat →
      count.toNat * BenchClient.trialPlanBytes ≤ Vec.maxBytes →
      ∃ fuel plan, BenchClient.buildTrialPlan fuel seed count offsets = .ok plan ∧
        Balanced BenchClient.TrialPlan.mk offsets BenchClient.calibrationSamplesPerBitAndOffset
          count.toNat plan) ∧
    ∀ count perBitAndGap : Nat, offsets.length * perBitAndGap * 2 ≤ count →
      count * Lab.trialPlanBytes ≤ Vec.maxBytes →
      ∃ fuel plan, Lab.buildTrialPlan fuel seed count offsets perBitAndGap = .ok plan ∧
        Balanced Lab.TrialPlan.mk offsets perBitAndGap count plan := by
  constructor
  · intro count hle hroom
    rw [← BenchClient.length_calibrationEntries] at hle
    obtain ⟨fuel, plan, h⟩ := BenchClient.buildTrialPlan_terminates seed hne hle hroom
    exact ⟨fuel, plan, h, benchPlan_balanced hoffsets h⟩
  · intro count perBitAndGap hle hroom
    obtain ⟨fuel, plan, h⟩ := Lab.buildTrialPlan_terminates seed hne hle hroom
    exact ⟨fuel, plan, h, labPlan_balanced hoffsets hle h⟩

theorem trial_plans_balanced_two_offsets :
    ∃ fuel plan, BenchClient.buildTrialPlan fuel 0x1a81 27 [0, 500] = .ok plan ∧
      Balanced BenchClient.TrialPlan.mk [0, 500] 5 27 plan :=
  (trial_plans_balanced 0x1a81 (by decide : ([0, 500] : List UInt64) ≠ []) (by decide)).1 27
    (by decide) (by decide)

/-- A plan of `2 ^ 60` trials is too large for a vector: `build_trial_plan` panics. -/
theorem trial_plan_too_large :
    ([0] : List UInt64) ≠ [] ∧ ([0] : List UInt64).Nodup ∧
    ([0] : List UInt64).length * BenchClient.calibrationSamplesPerBitAndOffset * 2 ≤
      (1152921504606846976 : UInt64).toNat ∧
    ¬ ∃ fuel plan, BenchClient.buildTrialPlan fuel 1 1152921504606846976 [0] = .ok plan ∧
      Balanced BenchClient.TrialPlan.mk [0] BenchClient.calibrationSamplesPerBitAndOffset
        (1152921504606846976 : UInt64).toNat plan := by
  refine ⟨by decide, by decide, by decide, ?_⟩
  rintro ⟨fuel, plan, h, -⟩
  obtain ⟨-, hroom, -⟩ := BenchClient.buildTrialPlan_eq_ok_iff.mp h
  exact absurd hroom (by decide)

end Campaign
