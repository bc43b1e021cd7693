import IshtarOxide.BenchClient.Plan
import IshtarOxide.Lab.TurnBench

/-!
# Longer campaigns

A campaign with more trials begins with the trials of a shorter one with the same seed. In
both `build_trial_plan` the generator takes its steps for whole blocks, and only afterwards
the last block is cut.

* `benchPlan_prefix`, `labPlan_prefix`: two plans of one of them.
* `longer_plans_extend`: both, with the numbers of trials for which there are plans.
-/

namespace Campaign

variable {fuel fuel' : Nat} {seed : UInt64} {offsets : List UInt64}

theorem benchPlan_prefix {m n : UInt64} {plan plan' : List BenchClient.TrialPlan} (hle : m ≤ n)
    (h : BenchClient.buildTrialPlan fuel seed m offsets = .ok plan)
    (h' : BenchClient.buildTrialPlan fuel' seed n offsets = .ok plan') : plan <+: plan' := by
  obtain ⟨-, -, scoring, hfill, rfl⟩ := BenchClient.buildTrialPlan_eq_ok_iff.mp h
  obtain ⟨-, -, scoring', hfill', rfl⟩ := BenchClient.buildTrialPlan_eq_ok_iff.mp h'
  rw [List.prefix_append_right_inj]
  exact Shuffle.fill_prefix (Nat.sub_le_sub_right hle _) hfill hfill'

theorem labPlan_prefix {m n perBitAndGap : Nat} {plan plan' : List Lab.TrialPlan} (hle : m ≤ n)
    (h : Lab.buildTrialPlan fuel seed m offsets perBitAndGap = .ok plan)
    (h' : Lab.buildTrialPlan fuel' seed n offsets perBitAndGap = .ok plan') :
    plan <+: plan' := by
  obtain ⟨-, output, hfill, rfl⟩ := Lab.buildTrialPlan_eq_ok_iff.mp h
  obtain ⟨-, output', hfill', rfl⟩ := Lab.buildTrialPlan_eq_ok_iff.mp h'
  exact Shuffle.fill_prefix hle hfill hfill'

/-- The plan for `m` trials is the beginning of the plan for `n` trials. As long as the longer
one has room in a vector, both are returned. -/
theorem longer_plans_extend (seed : UInt64) (hne : offsets ≠ []) :
    (∀ m n : UInt64,
      offsets.length * BenchClient.calibrationSamplesPerBitAndOffset * 2 ≤ m.toNat → m ≤ n →
      (∀ fuel fuel' plan plan', BenchClient.buildTrialPlan fuel seed m offsets = .ok plan →
        BenchClient.buildTrialPlan fuel' seed n offsets = .ok plan' → plan <+: plan') ∧
      (n.toNat * BenchClient.trialPlanBytes ≤ Vec.maxBytes →
        (∃ fuel plan, BenchClient.buildTrialPlan fuel seed m offsets = .ok plan) ∧
        ∃ fuel plan, BenchClient.buildTrialPlan fuel seed n offsets = .ok plan)) ∧
    ∀ m n perBitAndGap : Nat, offsets.length * perBitAndGap * 2 ≤ m → m ≤ n →
      (∀ fuel fuel' plan plan',
        Lab.buildTrialPlan fuel seed m offsets perBitAndGap = .ok plan →
        Lab.buildTrialPlan fuel' seed n offsets perBitAndGap = .ok plan' → plan <+: plan') ∧
      (n * Lab.trialPlanBytes ≤ Vec.maxBytes →
        (∃ fuel plan, Lab.buildTrialPlan fuel seed m offsets perBitAndGap = .ok plan) ∧
        ∃ fuel plan, Lab.buildTrialPlan fuel seed n offsets perBitAndGap = .ok plan) := by
  constructor
  · intro m n hcalibration hle
    rw [← BenchClient.length_calibrationEntries] at hcalibration
    refine ⟨fun _ _ _ _ => benchPlan_prefix hle, fun hroom => ⟨?_, ?_⟩⟩
    · exact BenchClient.buildTrialPlan_terminates seed hne hcalibration
        (Nat.le_trans (Nat.mul_le_mul_right _ hle) hroom)
    · exact BenchClient.buildTrialPlan_terminates seed hne (Nat.le_trans hcalibration hle) hroom
  · intro m n perBitAndGap hcalibration hle
    refine ⟨fun _ _ _ _ => labPlan_prefix hle, fun hroom => ⟨?_, ?_⟩⟩
    · exact Lab.buildTrialPlan_terminates seed hne hcalibration
        (Nat.le_trans (Nat.mul_le_mul_right _ hle) hroom)
    · exact Lab.buildTrialPlan_terminates seed hne (Nat.le_trans hcalibration hle) hroom

/-- 23 trials cut their first block of four, 31 trials their third. -/
theorem longer_plans_extend_two_offsets :
    ∃ fuel fuel' plan plan', BenchClient.buildTrialPlan fuel 0x1a81 23 [0, 500] = .ok plan ∧
      BenchClient.buildTrialPlan fuel' 0x1a81 31 [0, 500] = .ok plan' ∧ plan <+: plan' := by
  obtain ⟨hext, hreturn⟩ := (longer_plans_extend 0x1a81
    (by decide : ([0, 500] : List UInt64) ≠ [])).1 23 31 (by decide) (by decide)
  obtain ⟨⟨fuel, plan, h⟩, fuel', plan', h'⟩ := hreturn (by decide)
  exact ⟨fuel, fuel', plan, plan', h, h', hext _ _ _ _ h h'⟩

end Campaign
