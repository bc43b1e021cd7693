import IshtarOxide.Campaign.Statistics
import IshtarOxide.BenchClient.Report

/-!
# The statistics of a report

The part of `compute_report` of crates/bench-client that is made of the pairs and the times:
the information in the pairs, what of it the permutation test leaves, the interval of the
bootstrap, and the rates. Real numbers stand for `f64`.

* `Statistics.Sound`: what the numbers are to be to each other.
* `report_statistics`: they are so in every report.
-/

namespace BenchClient.Decoding

open Campaign

/-! ## The model -/

/-- The statistics of `OffsetLeakageSummary`. -/
structure OffsetStatistics where
  targetOverlapUs : UInt64
  usableTrials : Nat
  mutualInformationBitsPerTrial : ℝ
  correctedMutualInformationBitsPerTrial : ℝ
  permutationPValue : ℚ

/-- The statistics of `LeakageReport`. -/
structure Statistics where
  mutualInformationBitsPerTrial : ℝ
  correctedMutualInformationBitsPerTrial : ℝ
  rawReliableBitsPerHour : ℝ
  correctedReliableBitsPerHour : ℝ
  reliableBitsPerHour : ℝ
  rawInformationBitsObserved : ℝ
  correctedInformationBitsObserved : ℝ
  scoredTrialsPerHour : ℝ
  permutationPValue : ℚ
  statisticallyDetected : Bool
  permutationNullMean : ℝ
  permutationNullP95 : ℝ
  confidenceLow : ℝ
  confidenceHigh : ℝ
  offsetSummaries : List OffsetStatistics

/-- `estimate_reliable_bits_per_hour`. Real numbers are finite. -/
noncomputable def estimateReliableBitsPerHour (miBitsPerTrial trialsPerHour : ℝ) : ℝ :=
  max miBitsPerTrial 0 * max trialsPerHour 0

/-- `wall_ns`. -/
def wallNs (records : List ClientTimingRecord) : Nat :=
  (records.map (·.completedAtNs)).max?.getD 0 - (records.map (·.sentAtNs)).min?.getD 0

/-- `trials_per_hour`. -/
noncomputable def trialsPerHour (records : List ClientTimingRecord) (trials : Nat) : ℝ :=
  if wallNs records = 0 then 0 else trials * 3600000000000 / wallNs records

/-- The round of `offset_summaries` for an offset. -/
noncomputable def offsetStatistic (pairs : List ScoredPair) (seed offset : UInt64) :
    Option OffsetStatistics := do
  let selected := pairs.filter (·.targetOverlapUs = offset)
  let mi ← mutualInformation information (binary (·.expected) (·.decoded) selected)
  let permutation ← permutationTest information epsilon selected (seed ^^^ offset) 1000
  return ⟨offset, selected.length, mi, corrected mi permutation, permutation.pValue⟩

/-- The statistics of `offset_summaries`. -/
noncomputable def offsetStatistics (pairs : List ScoredPair) (seed : UInt64) :
    Option (List OffsetStatistics) :=
  (pairs.map (·.targetOverlapUs)).sortDedup.mapM (offsetStatistic pairs seed)

/-- The statistics of `compute_report`. -/
noncomputable def statistics (records : List ClientTimingRecord) (pairs : List ScoredPair)
    (seed : UInt64) : Option Statistics := do
  let binaryPairs := binary (·.expected) (·.decoded) pairs
  let mi ← mutualInformation information binaryPairs
  let (rawConfidenceLow, rawConfidenceHigh) ← bootstrapMi information binaryPairs seed
  let permutation ← permutationTest information epsilon pairs seed 2000
  let nullP95 ← permutation.nullP95
  let correctedMi := corrected mi permutation
  let rate := trialsPerHour records pairs.length
  let correctedRate := estimateReliableBitsPerHour correctedMi rate
  let summaries ← offsetStatistics pairs seed
  return {
    mutualInformationBitsPerTrial := mi
    correctedMutualInformationBitsPerTrial := correctedMi
    rawReliableBitsPerHour := estimateReliableBitsPerHour mi rate
    correctedReliableBitsPerHour := correctedRate
    reliableBitsPerHour := if permutation.detects then correctedRate else 0
    rawInformationBitsObserved := mi * pairs.length
    correctedInformationBitsObserved := correctedMi * pairs.length
    scoredTrialsPerHour := rate
    permutationPValue := permutation.pValue
    statisticallyDetected := permutation.detects
    permutationNullMean := permutation.nullMean
    permutationNullP95 := nullP95
    confidenceLow := corrected rawConfidenceLow permutation
    confidenceHigh := corrected rawConfidenceHigh permutation
    offsetSummaries := summaries }

/-! ## What the numbers are -/

/-- For every offset the expected or the decoded bits are all the same. -/
def SettledOffsets (pairs : List ScoredPair) : Prop :=
  Settled ScoredPair.expected ScoredPair.decoded ScoredPair.targetOverlapUs pairs

/-- What the statistics of an offset are to be. -/
structure OffsetStatistics.Sound (pairs : List ScoredPair) (o : OffsetStatistics) : Prop where
  information : 0 ≤ o.correctedMutualInformationBitsPerTrial ∧
    o.correctedMutualInformationBitsPerTrial ≤ o.mutualInformationBitsPerTrial ∧
    o.mutualInformationBitsPerTrial ≤ 1
  pValue : ∃ k ≤ 1000, o.permutationPValue = ((k : ℕ) + 1) / 1001
  settled : SettledOffsets pairs →
    o.permutationPValue = 1 ∧ o.correctedMutualInformationBitsPerTrial = 0

/-- What the statistics of a report are to be: the information is that of bits; correcting it
only takes away; the interval is one; what is detected lies beyond the 95th percentile of
chance; rates follow the information and no rate is claimed without detection; and what the
offsets alone give away is not detected. -/
structure Statistics.Sound (pairs : List ScoredPair) (s : Statistics) : Prop where
  information : 0 ≤ s.correctedMutualInformationBitsPerTrial ∧
    s.correctedMutualInformationBitsPerTrial ≤ s.mutualInformationBitsPerTrial ∧
    s.mutualInformationBitsPerTrial ≤ 1
  interval : 0 ≤ s.confidenceLow ∧ s.confidenceLow ≤ s.confidenceHigh ∧ s.confidenceHigh ≤ 1
  pValue : ∃ k ≤ 2000, s.permutationPValue = ((k : ℕ) + 1) / 2001
  detected : s.statisticallyDetected = true →
    s.permutationPValue ≤ 1 / 20 ∧ s.permutationNullP95 < s.mutualInformationBitsPerTrial
  undetected : s.statisticallyDetected = false →
    1 / 20 < s.permutationPValue ∧ s.reliableBitsPerHour = 0
  rates : 0 ≤ s.reliableBitsPerHour ∧ s.reliableBitsPerHour ≤ s.correctedReliableBitsPerHour ∧
    s.correctedReliableBitsPerHour ≤ s.rawReliableBitsPerHour ∧
    s.rawReliableBitsPerHour ≤ s.scoredTrialsPerHour
  observed : 0 ≤ s.correctedInformationBitsObserved ∧
    s.correctedInformationBitsObserved ≤ s.rawInformationBitsObserved ∧
    s.rawInformationBitsObserved ≤ pairs.length
  offsets : (s.offsetSummaries.map (·.usableTrials)).sum = pairs.length ∧
    ∀ o ∈ s.offsetSummaries, o.Sound pairs
  settled : SettledOffsets pairs →
    s.statisticallyDetected = false ∧ s.correctedMutualInformationBitsPerTrial = 0

section Pairs

variable {pairs : List ScoredPair} (hbits : ∀ p ∈ pairs, p.expected ≤ 1 ∧ p.decoded ≤ 1)

theorem estimateReliable_mono {a b rate : ℝ} (hab : a ≤ b) :
    estimateReliableBitsPerHour a rate ≤ estimateReliableBitsPerHour b rate :=
  mul_le_mul_of_nonneg_right (max_le_max_right 0 hab) (le_max_right _ _)

theorem estimateReliable_nonneg (a rate : ℝ) : 0 ≤ estimateReliableBitsPerHour a rate :=
  mul_nonneg (le_max_right _ _) (le_max_right _ _)

theorem trialsPerHour_nonneg (records : List ClientTimingRecord) (trials : Nat) :
    0 ≤ trialsPerHour records trials := by
  unfold trialsPerHour
  split
  · exact le_refl 0
  · positivity

theorem estimateReliable_le {a rate : ℝ} (ha : a ≤ 1) (hrate : 0 ≤ rate) :
    estimateReliableBitsPerHour a rate ≤ rate := by
  rw [estimateReliableBitsPerHour, max_eq_left hrate]
  exact mul_le_of_le_one_left hrate (max_le ha zero_le_one)

theorem corrected_mono {a b : ℝ} (r : PermutationResult ℝ) (hab : a ≤ b) :
    corrected a r ≤ corrected b r :=
  max_le_max_right 0 (sub_le_sub_right hab _)

theorem settled_filter (h : SettledOffsets pairs) (p : ScoredPair → Bool) :
    SettledOffsets (pairs.filter p) := fun v =>
  (h v).imp
    (fun hc a ha b hb => hc a (List.mem_of_mem_filter ha) b (List.mem_of_mem_filter hb))
    fun hc a ha b hb => hc a (List.mem_of_mem_filter ha) b (List.mem_of_mem_filter hb)

theorem mutualInformation_binary :
    mutualInformation information (binary (·.expected) (·.decoded) pairs) =
      some (observed ScoredPair.expected ScoredPair.decoded pairs) := by
  rw [mutualInformation, length_binary]
  rfl

include hbits

theorem offsetStatistic_sound (seed offset : UInt64) :
    ∃ o, offsetStatistic pairs seed offset = some o ∧
      (pairs.filter (·.targetOverlapUs = offset)).length = o.usableTrials ∧ o.Sound pairs := by
  have hselected : ∀ p ∈ pairs.filter (·.targetOverlapUs = offset),
      p.expected ≤ 1 ∧ p.decoded ≤ 1 := fun p hp => hbits p (List.mem_of_mem_filter hp)
  obtain ⟨r, hr, htested⟩ :=
    benchTest_tested hselected (seed ^^^ offset) (show 0 < 1000 by decide)
  have hinfo := htested.corrected_bounds hselected
  obtain ⟨k, hk, hp⟩ := htested.exists_count
  refine ⟨⟨offset, _, _, corrected _ r, r.pValue⟩, ?_, rfl,
    ⟨⟨hinfo.1, hinfo.2, (observed_bounds hselected).2⟩, ⟨k, hk, ?_⟩, fun hsettled => ?_⟩⟩
  · rw [offsetStatistic, mutualInformation_binary, hr]
    rfl
  · rw [hp]
    norm_num
  · exact htested.undetected (by decide) (settled_filter hsettled _)

/-- Every pair is in the summary of its offset. -/
theorem offsetStatistics_sound (seed : UInt64) :
    ∃ summaries, offsetStatistics pairs seed = some summaries ∧
      (summaries.map (·.usableTrials)).sum = pairs.length ∧ ∀ o ∈ summaries, o.Sound pairs := by
  obtain ⟨summaries, hsummaries, hall⟩ :=
    List.exists_mapM (l := (pairs.map (·.targetOverlapUs)).sortDedup) fun offset _ =>
      offsetStatistic_sound hbits seed offset
  refine ⟨summaries, hsummaries, ?_, fun o ho => ?_⟩
  · rw [← hall.map_eq (f := fun offset => (pairs.filter (·.targetOverlapUs = offset)).length)
      fun _ _ hs => hs.1, List.sum_length_groupOn]
  · obtain ⟨i, hi⟩ := List.mem_iff_getElem?.mp ho
    obtain ⟨_, -, -, hs⟩ := hall.flip.getElem?_some hi
    exact hs

theorem statistics_sound (records : List ClientTimingRecord) (seed : UInt64) :
    ∃ s, statistics records pairs seed = some s ∧ s.Sound pairs := by
  obtain ⟨low, high, hinterval, hlow, hle, hhigh⟩ :=
    bootstrapMi_interval (fun x hx => mem_binary hbits hx) seed
  obtain ⟨r, hr, htested⟩ := benchTest_tested hbits seed (show 0 < 2000 by decide)
  obtain ⟨p95, hp95, -⟩ := htested.exists_nullP95 (by decide)
  obtain ⟨summaries, hsummaries, husable, hoffsets⟩ := offsetStatistics_sound hbits seed
  have hinfo := htested.corrected_bounds hbits
  have hone := (observed_bounds hbits).2
  have hrate := trialsPerHour_nonneg records pairs.length
  obtain ⟨k, hk, hp⟩ := htested.exists_count
  have hscored : (0 : ℝ) ≤ pairs.length := Nat.cast_nonneg _
  simp only [statistics, mutualInformation_binary, hinterval, hr, hp95, hsummaries,
    Option.bind_eq_bind, Option.bind_some]
  refine ⟨_, rfl, ⟨⟨hinfo.1, hinfo.2, hone⟩, ?_, ⟨k, hk, ?_⟩, fun hdetected => ?_,
    fun hundetected => ?_, ?_, ?_, ⟨husable, hoffsets⟩, fun hsettled => ?_⟩⟩
  · exact ⟨le_max_right _ _, corrected_mono r hle,
      max_le ((sub_le_self high htested.nullMean_bounds.1).trans hhigh) zero_le_one⟩
  · rw [hp]
    norm_num
  · exact ⟨of_decide_eq_true hdetected,
      (htested.nullP95_lt (by decide) hdetected hp95).trans_le (sub_le_self _ epsilon_nonneg)⟩
  · exact ⟨not_le.mp (of_decide_eq_false hundetected), if_neg (by simpa using hundetected)⟩
  · refine ⟨?_, ?_, estimateReliable_mono hinfo.2, estimateReliable_le hone hrate⟩
    · dsimp only
      split
      · exact estimateReliable_nonneg _ _
      · exact le_refl 0
    · dsimp only
      split
      · exact le_refl _
      · exact estimateReliable_nonneg _ _
  · exact ⟨mul_nonneg hinfo.1 hscored, mul_le_mul_of_nonneg_right hinfo.2 hscored,
      mul_le_of_le_one_left hscored hone⟩
  · obtain ⟨hpone, hzero⟩ := htested.undetected (by decide) hsettled
    refine ⟨?_, hzero⟩
    rw [PermutationResult.detects, hpone]
    norm_num

end Pairs

/-- What is planned and what is decoded are bits. -/
theorem pairsOf_bits {κ : Type} [NatCast κ] [Add κ] [Div κ] [LE κ] [DecidableLE κ]
    {fuel : Nat} {seed count : UInt64} {offsets : List UInt64} {plan : List TrialPlan}
    {model : CalibrationModel κ} {records : List ClientRecord}
    (hplan : buildTrialPlan fuel seed count offsets = .ok plan) :
    ∀ p ∈ pairsOf plan model records, p.expected ≤ 1 ∧ p.decoded ≤ 1 := by
  intro p hp
  obtain ⟨trial, -, hp⟩ := List.mem_filterMap.mp hp
  obtain ⟨planned, hplanned, hdecoded, hexpected, -⟩ := pairOf_eq_some hp
  refine ⟨le_one_iff.mpr ?_, le_one_iff.mpr (bitOf_le_one hdecoded)⟩
  rw [hexpected]
  exact (mem_plan hplan (List.mem_of_getElem? hplanned)).2

/-- In every report of a plan for distinct offsets, the statistics are sound. -/
theorem report_statistics {κ : Type} [NatCast κ] [Add κ] [Div κ] [LE κ] [DecidableLE κ]
    {fuel : Nat} {seed count : UInt64} {offsets : List UInt64} {plan : List TrialPlan}
    {model : CalibrationModel κ} {calibrated : List ClientTimingRecord}
    {records : List ClientRecord} (hplan : buildTrialPlan fuel seed count offsets = .ok plan)
    (hoffsets : offsets.Nodup) (hmodel : calibrate calibrated plan = .ok model)
    (hnone : ∀ record ∈ records, record.decodedBit = none) :
    ∃ report, scoreMatrix plan count.toNat model records = some report ∧
      ∃ s, statistics (timings report.clientRecords) report.pairs seed = some s ∧
        s.Sound report.pairs := by
  obtain ⟨report, hreport, hpairs, -⟩ := scoreMatrix_of_calibrate hplan hoffsets hmodel hnone
  refine ⟨report, hreport, statistics_sound ?_ _ seed⟩
  rw [hpairs]
  exact pairsOf_bits hplan

theorem undecoded_sampleClientRecords {trials : Nat} {record : ClientRecord}
    (h : record ∈ sampleClientRecords trials) : record.decodedBit = none := by
  obtain ⟨_, -, h⟩ := List.mem_flatMap.mp h
  rcases List.mem_pair.mp h with rfl | rfl
  · rfl
  · rfl

theorem probed_sampleClientRecords : Probed (timings (sampleClientRecords 64)) 64 := by
  intro trialId htrialId
  obtain ⟨record, hrecord, hprobe⟩ := probed_sampleRecords trialId htrialId
  have hmem : ⟨record, none⟩ ∈ sampleClientRecords 64 :=
    List.mem_flatMap.mpr ⟨record, hrecord, List.mem_cons_self⟩
  exact ⟨record, List.mem_map_of_mem hmem, hprobe⟩

theorem report_statistics_sample :
    ∃ fuel plan, buildTrialPlan fuel 1 64 [0, 500, 1000] = .ok plan ∧
      ∃ model : CalibrationModel ℚ,
        calibrate (timings (sampleClientRecords 64)) plan = .ok model ∧
        ∃ report, scoreMatrix plan 64 model (sampleClientRecords 64) = some report ∧
          ∃ s, statistics (timings report.clientRecords) report.pairs 1 = some s ∧
            s.Sound report.pairs := by
  have hoffsets : ([0, 500, 1000] : List UInt64).Nodup := by decide
  obtain ⟨fuel, plan, -, hplan, hlen⟩ :=
    sample_plan (by decide : ([0, 500, 1000] : List UInt64) ≠ []) (by decide)
  have hprobed : Probed (timings (sampleClientRecords 64)) plan.length :=
    hlen ▸ probed_sampleClientRecords
  have hmodel := calibrate_of_probed (κ := ℚ) hplan hoffsets hprobed
  exact ⟨fuel, plan, hplan, _, hmodel,
    report_statistics hplan hoffsets hmodel fun _ => undecoded_sampleClientRecords⟩

end BenchClient.Decoding
