import Mathlib.Data.List.Destutter
import IshtarOxide.Lib.Tally
import IshtarOxide.Lib.Shuffle
import IshtarOxide.Lab.Server
import IshtarOxide.Lab.TurnRunner

/-!
# The turn benchmark

`bench` of `benchmark` in crates/sequential-lab/src/main.rs: the checks of its
arguments, the plan of its trials, the requests that it sends for them and what `analyze`
makes of their records. Of the report, what depends on floating-point statistics is left
out: error rates, mutual information, permutation tests, percentiles and rates.

* `buildTrialPlan_eq_ok`: what a plan consists of.
* `calibration_excluded_iff`: when calibration and scoring share no trial.
* `control_signal_iff`: what of a plan a control campaign sends along.
-/

namespace Lab

/-! ## Planning -/

/-- `BenchArgs`, less the addresses of the server and of the report. The token is its
bytes. -/
structure BenchArgs where
  token : List UInt8
  trials : UInt64
  seed : UInt64
  control : Bool
  gapsUs : List UInt64
  calibrationPerBitAndGap : Nat
  senderSlot : UInt16
  probeSlot : UInt16
deriving DecidableEq, Repr

/-- `TrialPlan`. -/
structure TrialPlan where
  bit : UInt8
  gapUs : UInt64
deriving DecidableEq, Repr

/-- `size_of::<TrialPlan>()`. -/
def trialPlanBytes : Nat := 16

/-- Both bits at a gap. -/
def bothBits (gapUs : UInt64) : List TrialPlan := [⟨0, gapUs⟩, ⟨1, gapUs⟩]

/-- `random_index`. -/
def randomIndex (state : UInt64) (upper : Nat) : Nat × UInt64 :=
  Shuffle.Source.xorshift.draw state upper

/-- `shuffle`. -/
def shuffle {α : Type} (values : List α) (state : UInt64) : List α × UInt64 :=
  Shuffle.shuffle .xorshift values state

/-- The entries that `build_trial_plan` generates for calibration, before it shuffles
them. -/
def calibrationEntries (gaps : List UInt64) (calibrationPerBitAndGap : Nat) : List TrialPlan :=
  gaps.repeatEach calibrationPerBitAndGap bothBits

/-- `combinations` of `build_trial_plan`. -/
def combinations (gaps : List UInt64) : List TrialPlan := gaps.flatMap bothBits

/-- The first state of the generator of `build_trial_plan`. -/
def planState (seed : UInt64) : UInt64 := max seed 1 ^^^ 0x73657175656e7469

/-- The calibration entries, shuffled, and the generator after that. -/
def shuffledCalibration (seed : UInt64) (gaps : List UInt64) (calibrationPerBitAndGap : Nat) :
    List TrialPlan × UInt64 :=
  shuffle (calibrationEntries gaps calibrationPerBitAndGap) (planState seed)

/-- `build_trial_plan`, with `fuel` tests of the condition of its loop. -/
def buildTrialPlan (fuel : Nat) (seed : UInt64) (count : Nat) (gaps : List UInt64)
    (calibrationPerBitAndGap : Nat) : Except Stop (List TrialPlan) := do
  Vec.reserve trialPlanBytes (calibrationEntries gaps calibrationPerBitAndGap).length
  let (calibration, random) := shuffledCalibration seed gaps calibrationPerBitAndGap
  let some (output, _) := Shuffle.fill .xorshift (combinations gaps) count fuel calibration random
    | throw .running
  Vec.reserve trialPlanBytes output.length
  return output

/-- `calibration_len` of `bench`. -/
def BenchArgs.calibrationLen (args : BenchArgs) : Nat :=
  args.gapsUs.length * args.calibrationPerBitAndGap * 2

/-- `bench` from its arguments to the plan. `sessionSlots` is what `/health` says. A
calibration length that overflows is a panic, or without overflow checks one of a plan
that no vector has room for. -/
def benchPlan (fuel : Nat) (args : BenchArgs) (sessionSlots : Nat) : Except Stop (List TrialPlan) :=
  if args.token.length < 16 ∨ args.gapsUs.isEmpty ∨ args.senderSlot = args.probeSlot then
    .error (.error
      "valid token, at least one gap, and distinct sender/probe slots are required")
  else if 2 ^ 64 ≤ args.calibrationLen then .error .panic
  else if args.trials.toNat ≤ args.calibrationLen then
    .error (.error s!"trials must exceed the {args.calibrationLen} calibration trials")
  else if sessionSlots ≤ args.senderSlot.toNat ∨ sessionSlots ≤ args.probeSlot.toNat then
    .error (.error "requested session slot is not present on the server")
  else buildTrialPlan fuel args.seed args.trials.toNat args.gapsUs args.calibrationPerBitAndGap

/-! ## Analysis -/

/-- `TrialRecord`. -/
structure TrialRecord where
  trialId : UInt64
  gapUs : UInt64
  expectedBit : UInt8
  senderLatencyNs : UInt64
  probeLatencyNs : UInt64
deriving DecidableEq, Repr

/-- `Scored`. -/
structure Scored where
  expected : UInt8
  decoded : UInt8
  gapUs : UInt64
deriving DecidableEq, Repr

/-- `GapSummary`, less the statistics. -/
structure GapSummary where
  gapUs : UInt64
  scoredTrials : Nat
  zeroMeanUs : Float
  oneMeanUs : Float
  meanDeltaUs : Float
  thresholdUs : Float
  highLatencyIsOne : Bool

/-- `server_gaps`. -/
def serverGaps (plan : List TrialPlan) : List UInt64 :=
  ((plan.map (·.gapUs)).mergeSort (· ≤ ·)).destutter (· ≠ ·)

/-- `calibration_len` of `analyze`. -/
def calibrationLen (plan : List TrialPlan) (calibrationPerBitAndGap : Nat) : Nat :=
  (serverGaps plan).length * calibrationPerBitAndGap * 2

/-- `mean`. -/
def mean (values : List Float) : Float :=
  if values.isEmpty then 0 else values.foldl (· + ·) 0 / Float.ofNat values.length

/-- The latency of the probe in microseconds. -/
def TrialRecord.probeUs (record : TrialRecord) : Float :=
  Float.ofNat record.probeLatencyNs.toNat / 1000

/-- The calibration samples of a gap and a bit. -/
def calibrationSamples (calibration : List TrialRecord) (gap : UInt64) (bit : UInt8) : List Float :=
  (calibration.filter fun record => record.gapUs = gap ∧ record.expectedBit = bit).map (·.probeUs)

/-- One round of the loop of `analyze`: the records that it scores, its `gap_scored` and
its summary. -/
structure GapRound where
  records : List TrialRecord
  gapScored : List Scored
  summary : GapSummary

def summarize (calibration scored : List TrialRecord) (gap : UInt64) : GapRound :=
  let zeroMean := mean (calibrationSamples calibration gap 0)
  let oneMean := mean (calibrationSamples calibration gap 1)
  let threshold := (zeroMean + oneMean) / 2
  let highIsOne : Bool := zeroMean ≤ oneMean
  let records := scored.filter (·.gapUs = gap)
  let gapScored := records.map fun record =>
    let high : Bool := threshold ≤ record.probeUs
    ⟨record.expectedBit, if (if highIsOne then high else !high) then 1 else 0, gap⟩
  let summary :=
    ⟨gap, gapScored.length, zeroMean, oneMean, oneMean - zeroMean, threshold, highIsOne⟩
  ⟨records, gapScored, summary⟩

/-- What `analyze` works out, less the statistics: the records that it calibrates with
and a round for every gap. -/
structure Analysis where
  calibration : List TrialRecord
  rounds : List GapRound

/-- `gap_summaries` of the report. -/
def Analysis.gapSummaries (analysis : Analysis) : List GapSummary := analysis.rounds.map (·.summary)

/-- `analyze`. -/
def analyze (calibrationPerBitAndGap : Nat) (plan : List TrialPlan) (records : List TrialRecord) :
    Except Stop Analysis :=
  let len := calibrationLen plan calibrationPerBitAndGap
  -- `records[..calibration_len]`
  if records.length < len then .error .panic
  else .ok ⟨records.take len, (serverGaps plan).map (summarize (records.take len) (records.drop len))⟩

/-! ## What a plan consists of -/

section Plan

variable {fuel : Nat} {seed : UInt64} {count : Nat} {gaps : List UInt64}
  {calibrationPerBitAndGap : Nat} {plan : List TrialPlan} {p : TrialPlan} {gap : UInt64}

theorem gapUs_of_mem_combinations (h : p ∈ combinations gaps) : p.gapUs ∈ gaps := by
  obtain ⟨gap, hgap, hp⟩ := List.mem_flatMap.mp h
  simp only [bothBits, List.mem_cons, List.not_mem_nil, or_false] at hp
  rcases hp with rfl | rfl
  · exact hgap
  · exact hgap

@[simp] theorem length_calibrationEntries (gaps : List UInt64) (calibrationPerBitAndGap : Nat) :
    (calibrationEntries gaps calibrationPerBitAndGap).length =
      gaps.length * calibrationPerBitAndGap * 2 :=
  List.length_repeatEach fun _ => rfl

theorem shuffledCalibration_perm (seed : UInt64) (gaps : List UInt64)
    (calibrationPerBitAndGap : Nat) :
    (shuffledCalibration seed gaps calibrationPerBitAndGap).1.Perm
      (calibrationEntries gaps calibrationPerBitAndGap) := Shuffle.shuffle_perm _ _ _

/-- A plan comes about when it has room in memory and the loop comes to its end. -/
theorem buildTrialPlan_eq_ok_iff :
    buildTrialPlan fuel seed count gaps calibrationPerBitAndGap = .ok plan ↔
      max (gaps.length * calibrationPerBitAndGap * 2) count * trialPlanBytes ≤ Vec.maxBytes ∧
      ∃ output, Shuffle.fill .xorshift (combinations gaps) count fuel
          (shuffledCalibration seed gaps calibrationPerBitAndGap).1
          (shuffledCalibration seed gaps calibrationPerBitAndGap).2 = some output ∧
        output.1 = plan := by
  have hperm := shuffledCalibration_perm seed gaps calibrationPerBitAndGap
  have hlen : ∀ output, Shuffle.fill .xorshift (combinations gaps) count fuel
      (shuffledCalibration seed gaps calibrationPerBitAndGap).1
      (shuffledCalibration seed gaps calibrationPerBitAndGap).2 = some output →
      output.1.length = max (gaps.length * calibrationPerBitAndGap * 2) count := by
    intro output hfill
    obtain ⟨_, -, -, hlen⟩ := Shuffle.fill_eq_some hfill
    rw [hlen, hperm.length_eq, length_calibrationEntries]
  simp only [buildTrialPlan, Except.bind_eq_ok, Vec.reserve_eq_ok]
  constructor
  · rintro ⟨_, -, h⟩
    split at h
    · next output random hfill =>
      obtain ⟨_, hroom, h⟩ := Except.bind_eq_ok.mp h
      cases h
      rw [Vec.reserve_eq_ok, hlen _ hfill] at hroom
      exact ⟨hroom, _, hfill, rfl⟩
    · cases h
  · rintro ⟨hroom, ⟨output, random⟩, hfill, rfl⟩
    refine ⟨(), ?_, ?_⟩
    · rw [length_calibrationEntries]
      exact Nat.le_trans (Nat.mul_le_mul_right _ (Nat.le_max_left _ _)) hroom
    · simp only [hfill, Except.bind_eq_ok, Vec.reserve_eq_ok, hlen _ hfill]
      exact ⟨(), hroom, rfl⟩

/-- The shuffled calibration entries and then combinations, up to the length asked
for. -/
theorem buildTrialPlan_eq_ok
    (h : buildTrialPlan fuel seed count gaps calibrationPerBitAndGap = .ok plan) :
    ∃ calibration scoring, plan = calibration ++ scoring ∧
      calibration.Perm (calibrationEntries gaps calibrationPerBitAndGap) ∧
      (∀ p ∈ scoring, p ∈ combinations gaps) ∧
      plan.length = max (gaps.length * calibrationPerBitAndGap * 2) count := by
  have hperm := shuffledCalibration_perm seed gaps calibrationPerBitAndGap
  obtain ⟨-, output, hfill, rfl⟩ := buildTrialPlan_eq_ok_iff.mp h
  obtain ⟨added, hadded, hmem, hlen⟩ := Shuffle.fill_eq_some hfill
  rw [hperm.length_eq, length_calibrationEntries] at hlen
  exact ⟨_, added, hadded, hperm, hmem, hlen⟩

/-- The shuffled calibration entries and then what was dealt from the combinations. -/
theorem buildTrialPlan_dealt
    (h : buildTrialPlan fuel seed count gaps calibrationPerBitAndGap = .ok plan) :
    ∃ calibration scoring, plan = calibration ++ scoring ∧
      calibration.Perm (calibrationEntries gaps calibrationPerBitAndGap) ∧
      Shuffle.Dealt (combinations gaps) scoring := by
  obtain ⟨-, output, hfill, rfl⟩ := buildTrialPlan_eq_ok_iff.mp h
  obtain ⟨added, hadded, hdealt⟩ := Shuffle.fill_dealt hfill
  exact ⟨_, added, hadded, shuffledCalibration_perm seed gaps _, hdealt⟩

theorem buildTrialPlan_terminates (seed : UInt64) (hne : gaps ≠ [])
    (hle : gaps.length * calibrationPerBitAndGap * 2 ≤ count)
    (hroom : count * trialPlanBytes ≤ Vec.maxBytes) :
    ∃ fuel plan, buildTrialPlan fuel seed count gaps calibrationPerBitAndGap = .ok plan := by
  have hblock : combinations gaps ≠ [] := by
    obtain ⟨gap, hgap⟩ := List.exists_mem_of_ne_nil _ hne
    have hmem : ⟨0, gap⟩ ∈ combinations gaps :=
      List.mem_flatMap.mpr ⟨gap, hgap, List.mem_cons_self⟩
    exact List.ne_nil_of_mem hmem
  obtain ⟨fuel, output, hfill⟩ := Shuffle.fill_terminates _ hblock
  exact ⟨fuel, _, buildTrialPlan_eq_ok_iff.mpr
    ⟨by rw [Nat.max_eq_right hle]; exact hroom, output, hfill, rfl⟩⟩

theorem gapUs_of_mem_plan
    (h : buildTrialPlan fuel seed count gaps calibrationPerBitAndGap = .ok plan) (hp : p ∈ plan) :
    p.gapUs ∈ gaps := by
  obtain ⟨calibration, scoring, rfl, hperm, hscoring, -⟩ := buildTrialPlan_eq_ok h
  rcases List.mem_append.mp hp with hp | hp
  · by_cases hzero : calibrationPerBitAndGap = 0
    · have hlen := hperm.length_eq
      rw [length_calibrationEntries, hzero, Nat.mul_zero, Nat.zero_mul] at hlen
      rw [List.eq_nil_of_length_eq_zero hlen] at hp
      cases hp
    · exact gapUs_of_mem_combinations ((List.mem_repeatEach hzero).mp (hperm.mem_iff.mp hp))
  · exact gapUs_of_mem_combinations (hscoring p hp)

/-- Trials are calibrated at every gap, if at any. -/
theorem exists_gap (h : buildTrialPlan fuel seed count gaps calibrationPerBitAndGap = .ok plan)
    (hpos : calibrationPerBitAndGap ≠ 0) (hgap : gap ∈ gaps) : ∃ p ∈ plan, p.gapUs = gap := by
  obtain ⟨calibration, scoring, rfl, hperm, -, -⟩ := buildTrialPlan_eq_ok h
  have hmem : ⟨0, gap⟩ ∈ calibrationEntries gaps calibrationPerBitAndGap :=
    (List.mem_repeatEach hpos).mpr (List.mem_flatMap.mpr ⟨gap, hgap, List.mem_cons_self⟩)
  exact ⟨_, List.mem_append_left _ (hperm.mem_iff.mpr hmem), rfl⟩

theorem serverGaps_eq (plan : List TrialPlan) : serverGaps plan = (plan.map (·.gapUs)).sortDedup :=
  rfl

theorem nodup_serverGaps (plan : List TrialPlan) : (serverGaps plan).Nodup := by
  rw [serverGaps_eq]
  exact List.nodup_sortDedup _

theorem mem_serverGaps : gap ∈ serverGaps plan ↔ ∃ p ∈ plan, p.gapUs = gap := by
  rw [serverGaps_eq, List.mem_sortDedup, List.mem_map]

/-- `analyze` counts every gap once, however often it was given. -/
theorem calibrationLen_plan
    (h : buildTrialPlan fuel seed count gaps calibrationPerBitAndGap = .ok plan) :
    calibrationLen plan calibrationPerBitAndGap =
      gaps.dedup.length * calibrationPerBitAndGap * 2 := by
  unfold calibrationLen
  by_cases hzero : calibrationPerBitAndGap = 0
  · rw [hzero, Nat.mul_zero, Nat.mul_zero]
  · rw [List.length_eq_dedup (nodup_serverGaps plan) fun gap => ?_]
    rw [mem_serverGaps]
    constructor
    · rintro ⟨p, hp, rfl⟩
      exact gapUs_of_mem_plan h hp
    · exact exists_gap h hzero

end Plan

/-! ## Calibration and scoring -/

variable {fuel slots : Nat} {args : BenchArgs} {plan : List TrialPlan} {records : List TrialRecord}

/-- The trial that a record is of. -/
def TrialRecord.planned (record : TrialRecord) : TrialPlan := ⟨record.expectedBit, record.gapUs⟩

theorem benchPlan_eq_ok (h : benchPlan fuel args slots = .ok plan) :
    args.calibrationLen < args.trials.toNat ∧
      buildTrialPlan fuel args.seed args.trials.toNat args.gapsUs args.calibrationPerBitAndGap =
        .ok plan := by
  unfold benchPlan at h
  split at h
  · cases h
  · split at h
    · cases h
    · split at h
      · cases h
      · next hlt =>
        split at h
        · cases h
        · exact ⟨Nat.lt_of_not_le hlt, h⟩

/-- What `analyze` is to make of the records of a plan: it calibrates with those of the
trials that were planned for it, and every other one is scored in one round and only there. -/
def CalibrationExcluded (args : BenchArgs) (plan : List TrialPlan) (records : List TrialRecord) :
    Prop :=
  ∃ analysis, analyze args.calibrationPerBitAndGap plan records = .ok analysis ∧
    analysis.calibration = records.take args.calibrationLen ∧
    (∀ record ∈ records.drop args.calibrationLen,
      analysis.rounds.countP (record ∈ ·.records) = 1) ∧
    (analysis.rounds.flatMap (·.records)).Perm (records.drop args.calibrationLen) ∧
    (analysis.gapSummaries.map (·.scoredTrials)).sum = args.trials.toNat - args.calibrationLen

section Rounds

variable (calibration : List TrialRecord) {scored : List TrialRecord} {gaps : List UInt64}

/-- The rounds of distinct gaps that cover the records score each of them once. -/
theorem countP_summarize (hgaps : gaps.Nodup) {record : TrialRecord} (hmem : record ∈ scored)
    (hgap : record.gapUs ∈ gaps) :
    (gaps.map (summarize calibration scored)).countP (record ∈ ·.records) = 1 := by
  have hround : ((fun round : GapRound => decide (record ∈ round.records)) ∘
      summarize calibration scored) = (· == record.gapUs) := by
    funext gap
    rw [beq_eq_decide]
    simp [summarize, hmem, eq_comm (a := gap)]
  rw [List.countP_map, hround, ← List.count, List.count_eq_one_of_mem hgaps hgap]

theorem flatMap_summarize (hgaps : gaps.Nodup) (hcover : ∀ record ∈ scored, record.gapUs ∈ gaps) :
    ((gaps.map (summarize calibration scored)).flatMap (·.records)).Perm scored := by
  rw [List.flatMap_map]
  exact List.perm_flatMap_filter hgaps hcover

theorem sum_scoredTrials :
    (((gaps.map (summarize calibration scored)).map (·.summary)).map (·.scoredTrials)).sum =
      ((gaps.map (summarize calibration scored)).flatMap (·.records)).length := by
  simp [List.length_flatMap, summarize, Function.comp_def]

end Rounds

/-- `analyze` calibrates with no more records than were planned for it. -/
theorem calibrationLen_le (hplan : benchPlan fuel args slots = .ok plan) :
    calibrationLen plan args.calibrationPerBitAndGap ≤ args.calibrationLen := by
  obtain ⟨-, hbuild⟩ := benchPlan_eq_ok hplan
  rw [calibrationLen_plan hbuild]
  exact Nat.mul_le_mul_right _ (Nat.mul_le_mul_right _ (List.dedup_sublist _).length_le)

theorem length_records (hplan : benchPlan fuel args slots = .ok plan)
    (hrecords : records.map TrialRecord.planned = plan) : records.length = args.trials.toNat := by
  obtain ⟨hlt, hbuild⟩ := benchPlan_eq_ok hplan
  obtain ⟨_, _, -, -, -, hlen⟩ := buildTrialPlan_eq_ok hbuild
  rw [← hrecords, List.length_map] at hlen
  exact hlen.trans (Nat.max_eq_right (Nat.le_of_lt hlt))

/-- The same calibration in `bench` and in `analyze`. -/
theorem calibrationLen_eq_iff (hplan : benchPlan fuel args slots = .ok plan) :
    calibrationLen plan args.calibrationPerBitAndGap = args.calibrationLen ↔
      args.gapsUs.Nodup ∨ args.calibrationPerBitAndGap = 0 := by
  obtain ⟨-, hbuild⟩ := benchPlan_eq_ok hplan
  rw [calibrationLen_plan hbuild, BenchArgs.calibrationLen, ← List.length_dedup_eq_iff,
    Nat.mul_right_cancel_iff (by decide), mul_eq_mul_right_iff]

/-- A repeated gap makes `analyze` calibrate with fewer records than were planned for
it. -/
theorem calibrationLen_of_excluded (hplan : benchPlan fuel args slots = .ok plan)
    (hrecords : records.map TrialRecord.planned = plan)
    (h : CalibrationExcluded args plan records) :
    calibrationLen plan args.calibrationPerBitAndGap = args.calibrationLen := by
  obtain ⟨analysis, hanalysis, hcalibration, -, -, -⟩ := h
  simp only [analyze] at hanalysis
  split at hanalysis
  · cases hanalysis
  · next hle =>
    cases hanalysis
    have hlen := congrArg List.length hcalibration
    have htrials := length_records hplan hrecords
    have hlt := (benchPlan_eq_ok hplan).1
    simp only [List.length_take] at hlen
    omega

/-- A plan of `bench` and one record for each of its trials, in order: calibration and
scoring divide the records as planned exactly when no gap is repeated, or nothing is
calibrated. -/
theorem calibration_excluded_iff (hplan : benchPlan fuel args slots = .ok plan)
    (hrecords : records.map TrialRecord.planned = plan) :
    CalibrationExcluded args plan records ↔
      args.gapsUs.Nodup ∨ args.calibrationPerBitAndGap = 0 := by
  rw [← calibrationLen_eq_iff hplan]
  constructor
  · exact calibrationLen_of_excluded hplan hrecords
  · intro hlen
    have htrials := length_records hplan hrecords
    have hlt := (benchPlan_eq_ok hplan).1
    have hcover : ∀ record ∈ records.drop args.calibrationLen, record.gapUs ∈ serverGaps plan := by
      intro record hrecord
      have hmem := List.mem_map_of_mem (f := TrialRecord.planned) (List.mem_of_mem_drop hrecord)
      rw [hrecords] at hmem
      exact mem_serverGaps.mpr ⟨_, hmem, rfl⟩
    have hperm := flatMap_summarize (records.take args.calibrationLen) (nodup_serverGaps plan) hcover
    refine ⟨⟨records.take args.calibrationLen, (serverGaps plan).map (summarize
      (records.take args.calibrationLen) (records.drop args.calibrationLen))⟩, ?_, rfl,
      fun record hrecord => ?_, hperm, ?_⟩
    · simp only [analyze, hlen]
      exact if_neg (by omega)
    · exact countP_summarize _ (nodup_serverGaps plan) hrecord (hcover record hrecord)
    · rw [Analysis.gapSummaries, sum_scoredTrials, hperm.length_eq, List.length_drop, htrials]

/-- Eight trials, one for calibration at every gap and bit. -/
def sampleTrials (gapsUs : List UInt64) : BenchArgs where
  token := List.replicate 16 0
  trials := 8
  seed := 1
  control := false
  gapsUs := gapsUs
  calibrationPerBitAndGap := 1
  senderSlot := 0
  probeSlot := 1

/-- A record of a trial. -/
def sampleRecord (planned : TrialPlan) : TrialRecord := ⟨0, planned.gapUs, planned.bit, 0, 0⟩

theorem planned_sampleRecord (plan : List TrialPlan) :
    (plan.map sampleRecord).map TrialRecord.planned = plan := by
  simp [sampleRecord, TrialRecord.planned, Function.comp_def]

theorem calibration_excluded_two_gaps :
    ∃ plan, benchPlan 4 (sampleTrials [0, 50]) 2 = .ok plan ∧
      CalibrationExcluded (sampleTrials [0, 50]) plan (plan.map sampleRecord) := by
  have hplan : ∃ plan, benchPlan 4 (sampleTrials [0, 50]) 2 = .ok plan := ⟨_, rfl⟩
  obtain ⟨plan, hplan⟩ := hplan
  exact ⟨plan, hplan, (calibration_excluded_iff hplan (planned_sampleRecord plan)).mpr
    (.inl (by decide))⟩

/-- With the gap 0 given twice, `analyze` calibrates with two records where four were
planned for it. -/
theorem calibration_repeated_gap :
    ∃ plan, benchPlan 4 (sampleTrials [0, 0]) 2 = .ok plan ∧
      ¬ CalibrationExcluded (sampleTrials [0, 0]) plan (plan.map sampleRecord) := by
  have hplan : ∃ plan, benchPlan 4 (sampleTrials [0, 0]) 2 = .ok plan := ⟨_, rfl⟩
  obtain ⟨plan, hplan⟩ := hplan
  refine ⟨plan, hplan, fun h => ?_⟩
  have hlen := calibrationLen_of_excluded hplan (planned_sampleRecord plan) h
  exact absurd ((calibrationLen_eq_iff hplan).mp hlen) (by decide)

/-! ## Control campaigns -/

/-- The requests of one trial. -/
def trialRequests (args : BenchArgs) (trialId : UInt64) (planned : TrialPlan) : List TurnRequest :=
  [⟨args.senderSlot, trialId, if args.control then .control else .sender, planned.bit⟩,
    ⟨args.probeSlot, trialId, .probe, 0⟩]

/-- The requests of the loop of `bench`, from the trial `trialId` on. -/
def turnRequests (args : BenchArgs) : UInt64 → List TrialPlan → List TurnRequest
  | _, [] => []
  | trialId, planned :: plan =>
    trialRequests args trialId planned ++ turnRequests args (trialId + 1) plan

section Campaign

variable {policy : Policy}

/-- What `run_slot` launches for a turn. -/
def slotJob (host : Host) (states : Fin policy.sessionSlots → List UInt8) (w : ValidTurn policy) :
    Job :=
  executeProcess host policy (states w.slot) w.1.role w.1.bit (iterationsFor w.1.role w.1.bit policy)

/-- What `run_slot` makes of the slots, when its runner has returned. -/
def slotStates (states : Fin policy.sessionSlots → List UInt8) (w : ValidTurn policy) :
    ProcessResult → Fin policy.sessionSlots → List UInt8
  | .success next => Function.update states w.slot next
  | .timedOut | .failed => states

/-- The jobs of turns that are served one after the other, as the requests of `bench` are:
each is sent when the one before it was answered. `results` is what the runners return. -/
def slotJobs (host : Host) : List ProcessResult → (Fin policy.sessionSlots → List UInt8) →
    List TurnRequest → List Job
  | _, _, [] => []
  | results, states, request :: requests =>
    if h : request.valid policy then
      slotJob host states ⟨request, h⟩ :: slotJobs host results.tail
        (slotStates states ⟨request, h⟩ (results.headD .failed)) requests
    else slotJobs host results states requests

/-- The arguments and the input of a runner, and what its guest is called with. -/
def Job.invocation (job : Job) : List String × List UInt8 × Except RunnerError Invocation :=
  (job.argv, job.stdin, runnerInvocation job.argv job.stdin)

/-- The server's task does the same. -/
theorem enter_slotJob {host : Host} {s : State policy} {id receivedAt admittedAt : Nat}
    {r : Request policy} {w : ValidTurn policy} (h : r.work = .turn w) :
    s.enter host id r receivedAt admittedAt =
      s.start id r receivedAt admittedAt (slotJob host s.states w) := by
  unfold State.enter
  rw [h]
  rfl

theorem settle_slotStates {s : State policy} {id : Nat} {r : Request policy} {times : Times}
    {w : ValidTurn policy} {result : ProcessResult} (h : r.work = .turn w) :
    (s.settle id r times result).states = slotStates s.states w result := by
  unfold State.settle
  rw [h]
  cases result <;> rfl

/-- Two plans are served alike: the same requests, and for these the same runners with the same
arguments, inputs and parameters. -/
def ServedAlike (host : Host) (policy : Policy) (args : BenchArgs) (plan plan' : List TrialPlan) :
    Prop :=
  turnRequests args 0 plan = turnRequests args 0 plan' ∧
    ∀ (results : List ProcessResult) (states : Fin policy.sessionSlots → List UInt8),
      (slotJobs host results states (turnRequests args 0 plan)).map Job.invocation =
        (slotJobs host results states (turnRequests args 0 plan')).map Job.invocation

end Campaign

/-- The bits of the trials, read off the requests. -/
theorem bits_turnRequests (args : BenchArgs) (trialId : UInt64) (plan : List TrialPlan) :
    ((turnRequests args trialId plan).filter (·.role ≠ .probe)).map (·.bit) =
      plan.map (·.bit) := by
  induction plan generalizing trialId with
  | nil => rfl
  | cons planned plan ih =>
    have hrole : (if args.control then Role.control else .sender) ≠ .probe := by
      split <;> decide
    rw [turnRequests, List.filter_append, List.map_append, ih]
    simp [trialRequests, hrole]

theorem zip_plan (plan : List TrialPlan) :
    List.zipWith TrialPlan.mk (plan.map (·.bit)) (plan.map (·.gapUs)) = plan := by
  simp [List.zipWith_map, List.zipWith_self]

/-- Two plans with the same gaps: a control campaign serves them alike exactly when they
have the same bits, since it sends the bit of the trial as a signal campaign does. -/
theorem control_signal_iff (host : Host) (policy : Policy) (args : BenchArgs)
    {plan plan' : List TrialPlan} (hgaps : plan.map (·.gapUs) = plan'.map (·.gapUs)) :
    ServedAlike host policy { args with control := true } plan plan' ↔
      plan.map (·.bit) = plan'.map (·.bit) := by
  constructor
  · rintro ⟨hrequests, -⟩
    rw [← bits_turnRequests { args with control := true } 0 plan, hrequests, bits_turnRequests]
  · intro hbits
    have hplans : plan = plan' := by
      rw [← zip_plan plan, ← zip_plan plan', hbits, hgaps]
    rw [hplans]
    exact ⟨rfl, fun _ _ => rfl⟩

/-- The trial with bit 0, sent twice. -/
theorem control_signal_same_bit :
    ServedAlike probeHost smallPolicy { sampleTrials [0] with control := true } [⟨0, 0⟩] [⟨0, 0⟩] :=
  (control_signal_iff probeHost smallPolicy (sampleTrials [0]) rfl).mpr rfl

/-- A control trial with bit 0 and one with bit 1: not the same request, and not the same
parameter of the guest. -/
theorem control_sends_bit :
    ¬ ServedAlike probeHost smallPolicy { sampleTrials [0] with control := true } [⟨0, 0⟩] [⟨1, 0⟩] ∧
    ∀ bit ∈ [0, 1], ((slotJobs probeHost [] (fun _ : Fin smallPolicy.sessionSlots => [0, 0])
        (turnRequests { sampleTrials [0] with control := true } 0 [⟨bit, 0⟩])).map
      Job.invocation).head?.map (fun i => i.2.2.map (·.bit)) = some (.ok bit.toNat) := by
  refine ⟨fun h => absurd h.1 (by decide), fun bit hbit => ?_⟩
  have hcall := runnerInvocation_eq (serve_served serve_smallArgs) probeHost_ships.nonempty
    probeHost_ships.size (⟨[0, 0], rfl⟩ : SlotState smallPolicy) probeHost.executable .control bit
    smallPolicy.senderControlIterations
  rw [if_pos (by decide)] at hcall
  have hvalid : (⟨0, 0, .control, bit⟩ : TurnRequest).valid smallPolicy = true := by
    have hcases : bit = 0 ∨ bit = 1 := by simpa using hbit
    rcases hcases with rfl | rfl
    · rfl
    · rfl
  simp only [turnRequests, trialRequests, List.append_nil, slotJobs, sampleTrials, if_true,
    dif_pos hvalid, List.map_cons, List.head?_cons, Option.map_some, Job.invocation,
    slotJob, executeProcess, iterationsFor]
  rw [hcall]
  rfl

end Lab
