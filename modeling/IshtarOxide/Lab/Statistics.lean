import IshtarOxide.Lib.Lookup
import IshtarOxide.Campaign.Statistics
import IshtarOxide.Lab.TurnBench

/-!
# The statistics of an analysis

The part of `analyze` of `benchmark` in crates/sequential-lab/src/main.rs that is made of the
pairs that its rounds scored: error rates, information, permutation tests and rates, with
real numbers for `f64`. The percentiles of the latencies are left out.

* `Statistics.Sound`: what the numbers are to be to each other.
* `analysis_statistics`: they are so for the records of every plan.
-/

namespace Lab

open Campaign

/-! ## The model -/

/-- The statistics of `GapSummary`. -/
structure GapStatistics where
  gapUs : UInt64
  scoredTrials : Nat
  bitErrorRate : ℝ
  mutualInformationBitsPerTrial : ℝ
  correctedMutualInformationBitsPerTrial : ℝ
  permutationPValue : ℚ

/-- The statistics of `BenchmarkReport`. -/
structure Statistics where
  trialsPerHour : ℝ
  bitErrorRate : ℝ
  mutualInformationBitsPerTrial : ℝ
  correctedMutualInformationBitsPerTrial : ℝ
  permutationPValue : ℚ
  rawInformationBitsObserved : ℝ
  correctedInformationBitsObserved : ℝ
  correctedBitsPerHour : ℝ
  gapSummaries : List GapStatistics

/-- `error_rate`. -/
noncomputable def errorRate (pairs : List Scored) : ℝ :=
  if pairs.isEmpty then 0 else pairs.countP (fun p => p.expected ≠ p.decoded) / pairs.length

/-- `trials_per_hour`. -/
noncomputable def trialsPerHour (wallTimeNs trials : Nat) : ℝ :=
  let wallHours : ℝ := wallTimeNs / 1000000000 / 3600
  if wallHours = 0 then 0 else trials / wallHours

/-- The statistics of a round of `analyze`. -/
noncomputable def GapRound.statistics (round : GapRound) (seed : UInt64) : Option GapStatistics := do
  let permutation ← permutationTest information epsilon round.gapScored
    (seed ^^^ round.summary.gapUs) 2000
  let rawMi ← mutualInformation information (binary (·.expected) (·.decoded) round.gapScored)
  return ⟨round.summary.gapUs, round.gapScored.length, errorRate round.gapScored, rawMi,
    corrected rawMi permutation, permutation.pValue⟩

/-- `scored` of `analyze`. -/
def Analysis.scored (analysis : Analysis) : List Scored := analysis.rounds.flatMap (·.gapScored)

/-- The statistics of `analyze`. -/
noncomputable def Analysis.statistics (analysis : Analysis) (seed : UInt64) (wallTimeNs : Nat) :
    Option Statistics := do
  let summaries ← analysis.rounds.mapM (·.statistics seed)
  let scored := analysis.scored
  let rawMi ← mutualInformation information (binary (·.expected) (·.decoded) scored)
  let permutation ← permutationTest information epsilon scored seed 4000
  let correctedMi := corrected rawMi permutation
  let rate := Lab.trialsPerHour wallTimeNs scored.length
  return {
    trialsPerHour := rate
    bitErrorRate := errorRate scored
    mutualInformationBitsPerTrial := rawMi
    correctedMutualInformationBitsPerTrial := correctedMi
    permutationPValue := permutation.pValue
    rawInformationBitsObserved := rawMi * scored.length
    correctedInformationBitsObserved := correctedMi * scored.length
    correctedBitsPerHour := if permutation.detects then correctedMi * rate else 0
    gapSummaries := summaries }

/-! ## What the numbers are -/

/-- At every gap the expected or the decoded bits are all the same. -/
def SettledGaps (pairs : List Scored) : Prop :=
  Settled Scored.expected Scored.decoded Scored.gapUs pairs

/-- What the statistics of a gap are to be. -/
structure GapStatistics.Sound (pairs : List Scored) (g : GapStatistics) : Prop where
  information : 0 ≤ g.correctedMutualInformationBitsPerTrial ∧
    g.correctedMutualInformationBitsPerTrial ≤ g.mutualInformationBitsPerTrial ∧
    g.mutualInformationBitsPerTrial ≤ 1
  pValue : ∃ k ≤ 2000, g.permutationPValue = ((k : ℕ) + 1) / 2001
  settled : SettledGaps pairs →
    g.permutationPValue = 1 ∧ g.correctedMutualInformationBitsPerTrial = 0

/-- What the statistics of an analysis are to be: those of its rounds make up those of the
whole; correcting the information only takes away; no rate is claimed without detection,
and none above one bit a trial; and what the gaps alone give away is not detected. -/
structure Statistics.Sound (pairs : List Scored) (s : Statistics) : Prop where
  information : 0 ≤ s.correctedMutualInformationBitsPerTrial ∧
    s.correctedMutualInformationBitsPerTrial ≤ s.mutualInformationBitsPerTrial ∧
    s.mutualInformationBitsPerTrial ≤ 1
  pValue : ∃ k ≤ 4000, s.permutationPValue = ((k : ℕ) + 1) / 4001
  rates : 0 ≤ s.correctedBitsPerHour ∧ s.correctedBitsPerHour ≤ s.trialsPerHour
  undetected : 1 / 20 < s.permutationPValue → s.correctedBitsPerHour = 0
  observed : 0 ≤ s.correctedInformationBitsObserved ∧
    s.correctedInformationBitsObserved ≤ s.rawInformationBitsObserved ∧
    s.rawInformationBitsObserved ≤ pairs.length
  errors : s.bitErrorRate * pairs.length =
    (s.gapSummaries.map fun g => g.bitErrorRate * (g.scoredTrials : ℝ)).sum
  gaps : (s.gapSummaries.map (·.scoredTrials)).sum = pairs.length ∧
    ∀ g ∈ s.gapSummaries, g.Sound pairs
  settled : SettledGaps pairs →
    s.permutationPValue = 1 ∧ s.correctedMutualInformationBitsPerTrial = 0 ∧
      s.correctedBitsPerHour = 0

theorem trialsPerHour_nonneg (wallTimeNs trials : Nat) : 0 ≤ trialsPerHour wallTimeNs trials := by
  unfold trialsPerHour
  dsimp only
  split
  · exact le_refl 0
  · positivity

theorem errorRate_mul (pairs : List Scored) :
    errorRate pairs * pairs.length = pairs.countP (fun p => p.expected ≠ p.decoded) := by
  rcases eq_or_ne pairs [] with rfl | hne
  · simp [errorRate]
  · have hlen : (pairs.length : ℝ) ≠ 0 := Nat.cast_ne_zero.mpr (List.length_pos_iff.mpr hne).ne'
    rw [errorRate, if_neg (by simpa using hne), div_mul_cancel₀ _ hlen]

section Pairs

variable {pairs : List Scored}

theorem mutualInformation_binary (hbits : ∀ p ∈ pairs, p.expected ≤ 1 ∧ p.decoded ≤ 1) :
    mutualInformation information (binary (·.expected) (·.decoded) pairs) =
      some (observed Scored.expected Scored.decoded pairs) := by
  rw [mutualInformation_eq information fun x hx => mem_binary hbits hx, length_binary]
  rfl

/-- The pairs of a round are among those of the analysis. -/
theorem GapRound.statistics_sound {round : GapRound} (hround : round.gapScored ⊆ pairs)
    (hbits : ∀ p ∈ pairs, p.expected ≤ 1 ∧ p.decoded ≤ 1) (seed : UInt64) :
    ∃ g, round.statistics seed = some g ∧ (round.gapScored.length = g.scoredTrials ∧
      errorRate round.gapScored = g.bitErrorRate) ∧ g.Sound pairs := by
  have hscored : ∀ p ∈ round.gapScored, p.expected ≤ 1 ∧ p.decoded ≤ 1 :=
    fun p hp => hbits p (hround hp)
  obtain ⟨r, hr, htested⟩ := labTest_tested hscored (seed ^^^ round.summary.gapUs) 2000
  have hinfo := htested.corrected_bounds hscored
  obtain ⟨k, hk, hp⟩ := htested.exists_count
  have hone := (observed_bounds hscored).2
  refine ⟨⟨round.summary.gapUs, round.gapScored.length, errorRate round.gapScored,
      observed Scored.expected Scored.decoded round.gapScored,
      corrected (observed Scored.expected Scored.decoded round.gapScored) r, r.pValue⟩, ?_,
    ⟨rfl, rfl⟩, ⟨⟨hinfo.1, hinfo.2, hone⟩, ⟨k, hk, ?_⟩, fun hsettled => ?_⟩⟩
  · rw [GapRound.statistics, mutualInformation_binary hscored, hr]
    rfl
  · rw [hp]
    norm_num
  · exact htested.undetected (by decide) fun v => (hsettled v).imp
      (fun hc a ha b hb => hc a (hround ha) b (hround hb))
      fun hc a ha b hb => hc a (hround ha) b (hround hb)

end Pairs

theorem Analysis.statistics_sound {analysis : Analysis}
    (hbits : ∀ p ∈ analysis.scored, p.expected ≤ 1 ∧ p.decoded ≤ 1) (seed : UInt64)
    (wallTimeNs : Nat) :
    ∃ s, analysis.statistics seed wallTimeNs = some s ∧ s.Sound analysis.scored := by
  have hrounds : ∀ round ∈ analysis.rounds, round.gapScored ⊆ analysis.scored :=
    fun round hround _ hp => List.mem_flatMap.mpr ⟨round, hround, hp⟩
  obtain ⟨summaries, hsummaries, hall⟩ := List.exists_mapM fun round hround =>
    GapRound.statistics_sound (hrounds round hround) hbits seed
  obtain ⟨r, hr, htested⟩ := labTest_tested hbits seed 4000
  have hinfo := htested.corrected_bounds hbits
  have hone := (observed_bounds hbits).2
  have hscored : (0 : ℝ) ≤ analysis.scored.length := Nat.cast_nonneg _
  have hrate := trialsPerHour_nonneg wallTimeNs analysis.scored.length
  obtain ⟨k, hk, hp⟩ := htested.exists_count
  simp only [Analysis.statistics, mutualInformation_binary hbits, hr, hsummaries,
    Option.bind_eq_bind, Option.bind_some]
  refine ⟨_, rfl, ⟨⟨hinfo.1, hinfo.2, hone⟩, ⟨k, hk, ?_⟩, ?_, fun hundetected => ?_, ?_, ?_,
    ⟨?_, fun g hg => ?_⟩, fun hsettled => ?_⟩⟩
  · rw [hp]
    norm_num
  · dsimp only
    split
    · exact ⟨mul_nonneg hinfo.1 hrate, mul_le_of_le_one_left hrate (hinfo.2.trans hone)⟩
    · exact ⟨le_refl 0, hrate⟩
  · exact if_neg (by simpa [PermutationResult.detects] using hundetected)
  · exact ⟨mul_nonneg hinfo.1 hscored, mul_le_mul_of_nonneg_right hinfo.2 hscored,
      mul_le_of_le_one_left hscored hone⟩
  · rw [errorRate_mul, ← hall.map_eq
      (f := fun round => errorRate round.gapScored * (round.gapScored.length : ℝ))
      fun _ _ hs => by rw [hs.1.2, hs.1.1]]
    simp only [errorRate_mul, Analysis.scored, List.countP_flatMap, Nat.cast_list_sum, List.map_map,
      Function.comp_def]
  · rw [← hall.map_eq (f := fun round => round.gapScored.length) fun _ _ hs => hs.1.1,
      ← List.length_flatMap, Analysis.scored]
  · obtain ⟨i, hi⟩ := List.mem_iff_getElem?.mp hg
    obtain ⟨_, -, -, hs⟩ := hall.flip.getElem?_some hi
    exact hs
  · obtain ⟨hpone, hzero⟩ := htested.undetected (by decide) hsettled
    refine ⟨hpone, hzero, if_neg ?_⟩
    rw [PermutationResult.detects, hpone]
    norm_num

theorem bit_le_one (isOne : Bool) : (if isOne then 1 else 0 : UInt8) ≤ 1 := by
  cases isOne with
  | false => decide
  | true => decide

theorem analyze_expected {calibrationPerBitAndGap : Nat} {plan : List TrialPlan}
    {records : List TrialRecord} {analysis : Analysis}
    (h : analyze calibrationPerBitAndGap plan records = .ok analysis) {p : Scored}
    (hp : p ∈ analysis.scored) :
    (∃ record ∈ records, record.expectedBit = p.expected) ∧ p.decoded ≤ 1 := by
  simp only [analyze] at h
  split at h
  · cases h
  · cases h
    obtain ⟨round, hround, hp⟩ := List.mem_flatMap.mp hp
    obtain ⟨gap, -, rfl⟩ := List.mem_map.mp hround
    obtain ⟨record, hrecord, rfl⟩ := List.mem_map.mp hp
    exact ⟨⟨record, List.mem_of_mem_drop (List.mem_of_mem_filter hrecord), rfl⟩, bit_le_one _⟩

theorem bit_of_mem_plan {fuel : Nat} {seed : UInt64} {count calibrationPerBitAndGap : Nat}
    {gaps : List UInt64} {plan : List TrialPlan} {p : TrialPlan}
    (h : buildTrialPlan fuel seed count gaps calibrationPerBitAndGap = .ok plan) (hp : p ∈ plan) :
    p.bit ≤ 1 := by
  have hmem : ∀ p ∈ combinations gaps, p.bit ≤ 1 := by
    intro p hp
    obtain ⟨gap, -, hp⟩ := List.mem_flatMap.mp hp
    rcases List.mem_pair.mp hp with rfl | rfl
    · exact bit_le_one false
    · exact bit_le_one true
  obtain ⟨calibration, scoring, rfl, hperm, hscoring, -⟩ := buildTrialPlan_eq_ok h
  rcases List.mem_append.mp hp with hp | hp
  · have hentry := hperm.mem_iff.mp hp
    have hpos : calibrationPerBitAndGap ≠ 0 := by
      rintro rfl
      have hnil : calibrationEntries gaps 0 = [] :=
        List.eq_nil_of_length_eq_zero (by rw [length_calibrationEntries, Nat.mul_zero, Nat.zero_mul])
      rw [hnil] at hentry
      cases hentry
    exact hmem p ((List.mem_repeatEach hpos).mp hentry)
  · exact hmem p (hscoring p hp)

/-- For the records of a plan of `bench`, one for each of its trials. -/
theorem analysis_statistics {fuel slots : Nat} {args : BenchArgs} {plan : List TrialPlan}
    {records : List TrialRecord} (hplan : benchPlan fuel args slots = .ok plan)
    (hrecords : records.map TrialRecord.planned = plan) (wallTimeNs : Nat) :
    ∃ analysis s, analyze args.calibrationPerBitAndGap plan records = .ok analysis ∧
      analysis.statistics args.seed wallTimeNs = some s ∧ s.Sound analysis.scored := by
  have htrials := length_records hplan hrecords
  have hle := calibrationLen_le hplan
  obtain ⟨hlt, hbuild⟩ := benchPlan_eq_ok hplan
  have hanalyze : ∃ analysis, analyze args.calibrationPerBitAndGap plan records = .ok analysis :=
    ⟨_, if_neg (by omega)⟩
  obtain ⟨analysis, hanalysis⟩ := hanalyze
  have hbits : ∀ p ∈ analysis.scored, p.expected ≤ 1 ∧ p.decoded ≤ 1 := by
    intro p hp
    obtain ⟨⟨record, hrecord, hexpected⟩, hdecoded⟩ := analyze_expected hanalysis hp
    have hplanned := List.mem_map_of_mem (f := TrialRecord.planned) hrecord
    rw [hrecords] at hplanned
    exact ⟨hexpected ▸ bit_of_mem_plan hbuild hplanned, hdecoded⟩
  obtain ⟨s, hs, hsound⟩ := analysis.statistics_sound hbits args.seed wallTimeNs
  exact ⟨analysis, s, hanalysis, hs, hsound⟩

theorem analysis_statistics_two_gaps :
    ∃ plan, benchPlan 4 (sampleTrials [0, 50]) 2 = .ok plan ∧
      ∃ analysis s, analyze 1 plan (plan.map sampleRecord) = .ok analysis ∧
        analysis.statistics 1 5000000000 = some s ∧ s.Sound analysis.scored := by
  have hplan : ∃ plan, benchPlan 4 (sampleTrials [0, 50]) 2 = .ok plan := ⟨_, rfl⟩
  obtain ⟨plan, hplan⟩ := hplan
  exact ⟨plan, hplan, analysis_statistics hplan (planned_sampleRecord plan) 5000000000⟩

end Lab
