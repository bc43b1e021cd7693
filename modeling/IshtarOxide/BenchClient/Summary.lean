import Mathlib.Data.Prod.Lex
import Mathlib.Order.Lex
import Mathlib.Data.String.Basic
import IshtarOxide.BenchClient.Statistics

/-!
# The summary of a campaign

What scripts/run-long-bench.sh makes of its reports: scripts/compact-long-bench.jq picks fields
of each, and scripts/summarize-long-bench.jq groups them by profile and mode and puts the
numbers of each group together. Real numbers stand for those of JSON. The texts and the time of
the summary are left out.

* `compact_adds`: what is known of a report that `run_matrix` made.
* `summary_pools`: the numbers of a group are those of all its trials.
-/

namespace BenchClient.Decoding

open Campaign

/-! ## The model -/

/-- `ExperimentRunInfo`, as far as the summary looks at it. For `jq`, `null` comes before every
string. -/
@[ext] structure RunInfo where
  schedulerVersion : String
  wasmSha256Hex : String
  containerConfigSha256Hex : WithBot String
  tinfoilAttestationSha256Hex : WithBot String
deriving DecidableEq

/-- A report in the directory of the reports: what `compute_report` made, and what the run was. -/
structure RawReport where
  runId : String
  profileId : String
  seed : UInt64
  control : Bool
  runInfo : RunInfo
  wallTimeMs : ℝ
  report : LeakageReport ℝ
  statistics : Statistics

/-- An entry of `offset_summaries`, with both of its parts. -/
structure OffsetEntry where
  targetOverlapUs : UInt64
  usableTrials : Nat
  bitErrorRate : ℝ
  mutualInformationBitsPerTrial : ℝ
  correctedMutualInformationBitsPerTrial : ℝ
  permutationPValue : ℚ

/-- What compact-long-bench.jq makes of a report. -/
structure CompactReport where
  runId : String
  profileId : String
  seed : UInt64
  control : Bool
  totalTrials : Nat
  calibrationTrials : Nat
  usableTrials : Nat
  bitErrorRate : ℝ
  rawInformationBitsObserved : ℝ
  correctedInformationBitsObserved : ℝ
  permutationPValue : ℚ
  statisticallyDetected : Bool
  offsetSummaries : List OffsetEntry
  wallTimeMs : ℝ
  runInfo : RunInfo

def offsetEntry (o : OffsetLeakageSummary ℝ) (s : OffsetStatistics) : OffsetEntry :=
  ⟨o.targetOverlapUs, o.usableTrials, o.bitErrorRate, s.mutualInformationBitsPerTrial,
    s.correctedMutualInformationBitsPerTrial, s.permutationPValue⟩

/-- compact-long-bench.jq. -/
def RawReport.compact (raw : RawReport) : CompactReport where
  runId := raw.runId
  profileId := raw.profileId
  seed := raw.seed
  control := raw.control
  totalTrials := raw.report.totalTrials
  calibrationTrials := raw.report.calibrationTrials
  usableTrials := raw.report.usableTrials
  bitErrorRate := raw.report.bitErrorRate
  rawInformationBitsObserved := raw.statistics.rawInformationBitsObserved
  correctedInformationBitsObserved := raw.statistics.correctedInformationBitsObserved
  permutationPValue := raw.statistics.permutationPValue
  statisticallyDetected := raw.statistics.statisticallyDetected
  offsetSummaries :=
    List.zipWith offsetEntry raw.report.offsetSummaries raw.statistics.offsetSummaries
  wallTimeMs := raw.wallTimeMs
  runInfo := raw.runInfo

/-- `artifact_summary`. -/
structure Artifacts where
  schedulerVersions : List String
  wasmSha256 : List String
  containerConfigSha256 : List (WithBot String)
  tinfoilAttestationSha256 : List (WithBot String)
deriving DecidableEq

def Artifacts.consistent (a : Artifacts) : Bool :=
  a.schedulerVersions.length = 1 && a.wasmSha256.length = 1 &&
    a.containerConfigSha256.length = 1 && a.tinfoilAttestationSha256.length = 1

/-- `artifact_summary`; `unique` sorts. -/
def artifactSummary (runs : List CompactReport) : Artifacts where
  schedulerVersions := (runs.map (·.runInfo.schedulerVersion)).sortDedup
  wasmSha256 := (runs.map (·.runInfo.wasmSha256Hex)).sortDedup
  containerConfigSha256 := (runs.map (·.runInfo.containerConfigSha256Hex)).sortDedup
  tinfoilAttestationSha256 := (runs.map (·.runInfo.tinfoilAttestationSha256Hex)).sortDedup

/-- An entry of `offsets`. -/
structure OffsetSummary where
  targetOverlapUs : UInt64
  runs : Nat
  usableTrials : Nat
  weightedBitErrorRate : ℝ
  rawInformationBitsObserved : ℝ
  correctedInformationBitsObserved : ℝ
  detectedRuns : Nat
  minimumRunPValue : Option ℚ
  runPValues : List ℚ

/-- A round of `offset_summary`, for the entries of an offset. -/
noncomputable def offsetSummaryOf (offset : List OffsetEntry) : Option OffsetSummary := do
  let first ← offset.head?
  return {
    targetOverlapUs := first.targetOverlapUs
    runs := offset.length
    usableTrials := (offset.map (·.usableTrials)).sum
    weightedBitErrorRate :=
      offset.weightedAverage (·.bitErrorRate) fun o => (o.usableTrials : ℝ)
    rawInformationBitsObserved :=
      (offset.map fun o => o.mutualInformationBitsPerTrial * (o.usableTrials : ℝ)).sum
    correctedInformationBitsObserved :=
      (offset.map fun o =>
        o.correctedMutualInformationBitsPerTrial * (o.usableTrials : ℝ)).sum
    detectedRuns := offset.countP (·.permutationPValue ≤ 1 / 20)
    minimumRunPValue := (offset.map (·.permutationPValue)).min?
    runPValues := offset.map (·.permutationPValue) }

/-- `offset_summary`. -/
noncomputable def offsetSummary (entries : List OffsetEntry) : Option (List OffsetSummary) :=
  (entries.groupOn (·.targetOverlapUs)).mapM offsetSummaryOf

/-- A group of the summary. -/
structure GroupSummary where
  profileId : String
  mode : String
  runs : Nat
  seeds : List UInt64
  totalTrials : Nat
  calibrationTrials : Nat
  usableTrials : Nat
  completedWallHours : ℝ
  weightedBitErrorRate : ℝ
  rawInformationBitsObserved : ℝ
  correctedInformationBitsObserved : ℝ
  descriptiveRawBitsPerHour : ℝ
  descriptiveCorrectedBitsPerHour : ℝ
  detectedRuns : Nat
  minimumRunPValue : Option ℚ
  runPValues : List ℚ
  artifacts : Artifacts
  offsets : List OffsetSummary

/-- `mode`. -/
def modeOf (control : Bool) : String := if control then "control" else "signal"

/-- `group_summary`. -/
noncomputable def groupSummary (runs : List CompactReport) : Option GroupSummary := do
  let first ← runs.head?
  let hours := (runs.map (·.wallTimeMs)).sum / 3600000
  let rawInformation := (runs.map (·.rawInformationBitsObserved)).sum
  let correctedInformation := (runs.map (·.correctedInformationBitsObserved)).sum
  let offsets ← offsetSummary (runs.flatMap (·.offsetSummaries))
  return {
    profileId := first.profileId
    mode := modeOf first.control
    runs := runs.length
    seeds := (runs.map (·.seed)).mergeSort (· ≤ ·)
    totalTrials := (runs.map (·.totalTrials)).sum
    calibrationTrials := (runs.map (·.calibrationTrials)).sum
    usableTrials := (runs.map (·.usableTrials)).sum
    completedWallHours := hours
    weightedBitErrorRate :=
      runs.weightedAverage (·.bitErrorRate) fun r => (r.usableTrials : ℝ)
    rawInformationBitsObserved := rawInformation
    correctedInformationBitsObserved := correctedInformation
    descriptiveRawBitsPerHour := if hours = 0 then 0 else rawInformation / hours
    descriptiveCorrectedBitsPerHour := if hours = 0 then 0 else correctedInformation / hours
    detectedRuns := runs.countP (·.statisticallyDetected)
    minimumRunPValue := (runs.map (·.permutationPValue)).min?
    runPValues := runs.map (·.permutationPValue)
    artifacts := artifactSummary runs
    offsets }

/-- The key that the reports are sorted and grouped by. -/
def CompactReport.key (r : CompactReport) : String ×ₗ Bool := toLex (r.profileId, r.control)

structure Summary where
  reportCount : Nat
  groups : List GroupSummary

/-- summarize-long-bench.jq. -/
noncomputable def summarize (reports : List CompactReport) : Option Summary := do
  let groups ← ((reports.mergeSort fun r r' => r.key ≤ r'.key).groupOn (·.key)).mapM groupSummary
  return ⟨reports.length, groups⟩

/-! ## A report -/

/-- `run_matrix` made the report of the records of some plan for distinct offsets. -/
def RawReport.Made (raw : RawReport) : Prop :=
  ∃ (fuel : Nat) (count : UInt64) (offsets : List UInt64) (plan : List TrialPlan)
    (calibrated : List ClientTimingRecord) (model : CalibrationModel ℝ)
    (records : List ClientRecord),
    buildTrialPlan fuel raw.seed count offsets = .ok plan ∧ offsets.Nodup ∧
      calibrate calibrated plan = .ok model ∧ (∀ record ∈ records, record.decodedBit = none) ∧
      scoreMatrix plan count.toNat model records = some raw.report ∧
      Decoding.statistics (timings raw.report.clientRecords) raw.report.pairs raw.seed =
        some raw.statistics

/-- What is known of a report with these pairs. -/
structure CompactReport.Adds (r : CompactReport) (pairs : List ScoredPair) : Prop where
  usable : r.usableTrials = pairs.length
  errors : r.bitErrorRate * (r.usableTrials : ℝ) = errorCount pairs
  offsetTrials : (r.offsetSummaries.map (·.usableTrials)).sum = pairs.length
  offsetErrors :
    (r.offsetSummaries.map fun o => o.bitErrorRate * (o.usableTrials : ℝ)).sum = errorCount pairs
  information : 0 ≤ r.correctedInformationBitsObserved ∧
    r.correctedInformationBitsObserved ≤ r.rawInformationBitsObserved ∧
    r.rawInformationBitsObserved ≤ pairs.length
  detected : r.statisticallyDetected = true ↔ r.permutationPValue ≤ 1 / 20

section Report

variable {pairs : List ScoredPair} {model : CalibrationModel ℝ}

theorem ratio_mul {n d : Nat} (h : d = 0 → n = 0) : ratio n d * (d : ℝ) = n := by
  unfold ratio
  split
  · next hzero => rw [h hzero, hzero, Nat.cast_zero, zero_mul]
  · next hne => exact div_mul_cancel₀ _ (Nat.cast_ne_zero.mpr hne)

theorem errorRate_mul (pairs : List ScoredPair) :
    ratio (errorCount pairs) pairs.length * (pairs.length : ℝ) = errorCount pairs :=
  ratio_mul fun h => Nat.le_zero.mp (h ▸ List.countP_le_length)

/-- The summaries are one for each offset, and of its pairs. -/
theorem offsetSummaries_spec {summaries : List (OffsetLeakageSummary ℝ)}
    (h : offsetSummaries pairs model = some summaries) :
    List.Forall₂ (fun offset (o : OffsetLeakageSummary ℝ) =>
      (pairs.filter (·.targetOverlapUs = offset)).length = o.usableTrials ∧
        (errorCount (pairs.filter (·.targetOverlapUs = offset)) : ℝ) =
          o.bitErrorRate * (o.usableTrials : ℝ))
      (pairs.map (·.targetOverlapUs)).sortDedup summaries := by
  refine (List.forall₂_of_mapM h).imp fun offset o ho => ?_
  obtain ⟨calibration, -, ho⟩ := Option.bind_eq_some_iff.mp ho
  cases ho
  exact ⟨rfl, (errorRate_mul _).symm⟩

theorem sum_errorCount (pairs : List ScoredPair) :
    ((pairs.map (·.targetOverlapUs)).sortDedup.map fun offset =>
      (errorCount (pairs.filter (·.targetOverlapUs = offset)) : ℝ)).sum = errorCount pairs := by
  rw [← List.cast_sum_map]
  exact congrArg Nat.cast (List.sum_countP_groupOn _ ScoredPair.targetOverlapUs pairs)

theorem computeReport_eq_some {records : List ClientRecord} {expectedBits : List UInt8}
    {plan : List TrialPlan} {start : Nat} {report : LeakageReport ℝ}
    (h : computeReport records expectedBits plan model start = some report) :
    report.usableTrials = report.pairs.length ∧
      report.bitErrorRate = ratio (errorCount report.pairs) report.pairs.length ∧
      offsetSummaries report.pairs model = some report.offsetSummaries := by
  simp only [computeReport, Option.bind_eq_bind, Option.bind_eq_some_iff] at h
  obtain ⟨pairs, -, summaries, hsummaries, h⟩ := h
  cases h
  exact ⟨rfl, rfl, hsummaries⟩

theorem statistics_eq_some {records : List ClientTimingRecord} {seed : UInt64} {s : Statistics}
    (h : statistics records pairs seed = some s) :
    offsetStatistics pairs seed = some s.offsetSummaries ∧
      s.statisticallyDetected = decide (s.permutationPValue ≤ 1 / 20) := by
  simp only [statistics, Option.bind_eq_bind, Option.bind_eq_some_iff] at h
  obtain ⟨mi, -, interval, -, permutation, -, p95, -, summaries, hsummaries, h⟩ := h
  cases h
  exact ⟨hsummaries, rfl⟩

end Report

/-- What both parts of the entries of a report are. -/
theorem map_zipWith_offsetEntry {os : List (OffsetLeakageSummary ℝ)} {ss : List OffsetStatistics}
    (h : os.length = ss.length) {γ : Type} {f : OffsetEntry → γ} {g : OffsetLeakageSummary ℝ → γ}
    (hf : ∀ o s, f (offsetEntry o s) = g o) :
    (List.zipWith offsetEntry os ss).map f = os.map g := by
  induction os generalizing ss with
  | nil => rfl
  | cons o os ih =>
    cases ss with
    | nil => cases h
    | cons s ss =>
      rw [List.zipWith_cons_cons, List.map_cons, List.map_cons, hf, ih (Nat.succ.inj h)]

theorem compact_adds {raw : RawReport} (h : raw.Made) : raw.compact.Adds raw.report.pairs := by
  obtain ⟨fuel, count, offsets, plan, calibrated, model, records, hplan, hoffsets, hmodel, hnone,
    hreport, hstatistics⟩ := h
  obtain ⟨report, hscore, hpairs, -⟩ := scoreMatrix_of_calibrate hplan hoffsets hmodel hnone
  cases hscore.symm.trans hreport
  have hbits : ∀ p ∈ raw.report.pairs, p.expected ≤ 1 ∧ p.decoded ≤ 1 := by
    rw [hpairs]
    exact pairsOf_bits hplan
  obtain ⟨s, hs, hsound⟩ := statistics_sound hbits (timings raw.report.clientRecords) raw.seed
  cases hs.symm.trans hstatistics
  obtain ⟨hsummaries, hdetected⟩ := statistics_eq_some hstatistics
  obtain ⟨marked, hmarked, hcompute⟩ := Option.bind_eq_some_iff.mp hreport
  obtain ⟨husable, hrate, hoffset⟩ := computeReport_eq_some hcompute
  have hspec := offsetSummaries_spec hoffset
  have hlength : raw.report.offsetSummaries.length = raw.statistics.offsetSummaries.length :=
    (List.forall₂_of_mapM hoffset).length_eq.symm.trans (List.forall₂_of_mapM hsummaries).length_eq
  have hentries {γ : Type} {f : OffsetEntry → γ} {g : OffsetLeakageSummary ℝ → γ}
      (hf : ∀ o s, f (offsetEntry o s) = g o) :
      raw.compact.offsetSummaries.map f = raw.report.offsetSummaries.map g :=
    map_zipWith_offsetEntry hlength hf
  refine ⟨husable, ?_, ?_, ?_, hsound.observed, ?_⟩
  · show raw.report.bitErrorRate * (raw.report.usableTrials : ℝ) = _
    rw [hrate, husable, errorRate_mul]
  · rw [hentries (g := (·.usableTrials)) fun _ _ => rfl, ← hspec.map_eq fun _ _ ho => ho.1,
      List.sum_length_groupOn]
  · rw [hentries (g := fun o => o.bitErrorRate * (o.usableTrials : ℝ)) fun _ _ => rfl,
      ← hspec.map_eq fun _ _ ho => ho.2, sum_errorCount]
  · show raw.statistics.statisticallyDetected = true ↔ _
    rw [hdetected, decide_eq_true_iff]
    rfl

/-! ## The groups -/

/-- The name of a group. -/
def GroupSummary.name (g : GroupSummary) : String × String := (g.profileId, g.mode)

/-- The reports that belong to a group. -/
def GroupSummary.members (g : GroupSummary) (raws : List RawReport) : List RawReport :=
  raws.filter fun raw => raw.profileId = g.profileId ∧ modeOf raw.control = g.mode

/-- What a group is to say of its reports: all of their trials and wrong bits are counted, also
offset by offset; the information is that of bits; a run is detected when the least p-value is
small enough; and artifacts are consistent when all runs had the same. -/
structure GroupSummary.Pools (g : GroupSummary) (members : List RawReport) : Prop where
  runs : g.runs = members.length ∧ members ≠ []
  usable : g.usableTrials = (members.map (·.report.pairs.length)).sum
  errors : g.weightedBitErrorRate * (g.usableTrials : ℝ) =
    ((members.map (errorCount ·.report.pairs)).sum : ℕ)
  offsets : (g.offsets.map (·.targetOverlapUs)).Nodup ∧
    (g.offsets.map (·.usableTrials)).sum = g.usableTrials ∧
    (g.offsets.map fun o => o.weightedBitErrorRate * (o.usableTrials : ℝ)).sum =
      ((members.map (errorCount ·.report.pairs)).sum : ℕ)
  information : 0 ≤ g.correctedInformationBitsObserved ∧
    g.correctedInformationBitsObserved ≤ g.rawInformationBitsObserved ∧
    g.rawInformationBitsObserved ≤ g.usableTrials
  detected : 0 < g.detectedRuns ↔ ∃ p ∈ g.minimumRunPValue, p ≤ 1 / 20
  consistent : g.artifacts.consistent = true ↔
    ∀ raw ∈ members, ∀ raw' ∈ members, raw.runInfo = raw'.runInfo

theorem modeOf_injective : Function.Injective modeOf := by decide

theorem offsetSummary_spec (entries : List OffsetEntry) :
    ∃ summaries, offsetSummary entries = some summaries ∧
      (summaries.map (·.targetOverlapUs)).Nodup ∧
      (summaries.map (·.usableTrials)).sum = (entries.map (·.usableTrials)).sum ∧
      (summaries.map fun o => o.weightedBitErrorRate * (o.usableTrials : ℝ)).sum =
        (entries.map fun o => o.bitErrorRate * (o.usableTrials : ℝ)).sum := by
  have hstep : ∀ k ∈ entries.map (·.targetOverlapUs), ∃ o : OffsetSummary,
      offsetSummaryOf (entries.filter (·.targetOverlapUs = k)) = some o ∧
        (k = o.targetOverlapUs ∧
          ((entries.filter (·.targetOverlapUs = k)).map (·.usableTrials)).sum = o.usableTrials ∧
          ((entries.filter (·.targetOverlapUs = k)).map fun o =>
            o.bitErrorRate * (o.usableTrials : ℝ)).sum =
            o.weightedBitErrorRate * (o.usableTrials : ℝ)) := by
    intro k hk
    obtain ⟨entry, hentry, rfl⟩ := List.mem_map.mp hk
    have hmem : entry ∈ entries.filter (·.targetOverlapUs = entry.targetOverlapUs) :=
      List.mem_filter.mpr ⟨hentry, decide_eq_true rfl⟩
    obtain ⟨first, rest, hcons⟩ := List.exists_cons_of_ne_nil (List.ne_nil_of_mem hmem)
    have hfirst : first.targetOverlapUs = entry.targetOverlapUs :=
      of_decide_eq_true (List.mem_filter.mp (hcons.symm ▸ List.mem_cons_self : first ∈ _)).2
    rw [hcons]
    exact ⟨_, rfl, hfirst.symm, rfl, (List.weightedAverage_mul_count _ _ _).symm⟩
  obtain ⟨summaries, hsummaries, hall⟩ := List.exists_mapM_groupOn hstep
  refine ⟨summaries, hsummaries, ?_, ?_, ?_⟩
  · rw [← hall.map_eq (f := id) fun _ _ ho => ho.1, List.map_id]
    exact List.nodup_sortDedup _
  · rw [← hall.map_eq fun _ _ ho => ho.2.1, List.sum_groupOn]
  · rw [← hall.map_eq fun _ _ ho => ho.2.2, List.sum_groupOn]

/-- The name of the group with a key. -/
def groupName (key : String ×ₗ Bool) : String × String := Prod.map id modeOf (ofLex key)

theorem groupName_injective : Function.Injective groupName :=
  (Function.injective_id.prodMap modeOf_injective).comp ofLex.injective

section Group

variable {runs : List CompactReport} {members : List RawReport}

theorem artifactSummary_consistent (hne : runs ≠ []) :
    (artifactSummary runs).consistent = true ↔
      ∀ r ∈ runs, ∀ r' ∈ runs, r.runInfo = r'.runInfo := by
  have hfield {β : Type} [DecidableEq β] [LE β] [DecidableLE β] [Std.IsLinearOrder β]
      (f : CompactReport → β) :
      (runs.map f).sortDedup.length = 1 ↔ ∀ r ∈ runs, ∀ r' ∈ runs, f r = f r' := by
    rw [List.length_sortDedup_eq_one (mt List.map_eq_nil_iff.mp hne)]
    simp only [List.forall_mem_map]
  simp only [Artifacts.consistent, artifactSummary, Bool.and_eq_true, decide_eq_true_eq, hfield]
  constructor
  · rintro ⟨⟨⟨hversion, hwasm⟩, hcontainer⟩, hattestation⟩ r hr r' hr'
    exact RunInfo.ext (hversion r hr r' hr') (hwasm r hr r' hr') (hcontainer r hr r' hr')
      (hattestation r hr r' hr')
  · intro h
    have hinfo {β : Type} (f : RunInfo → β) : ∀ r ∈ runs, ∀ r' ∈ runs, f r.runInfo = f r'.runInfo :=
      fun r hr r' hr' => congrArg f (h r hr r' hr')
    exact ⟨⟨⟨hinfo (·.schedulerVersion), hinfo (·.wasmSha256Hex)⟩,
      hinfo (·.containerConfigSha256Hex)⟩, hinfo (·.tinfoilAttestationSha256Hex)⟩

theorem detected_iff (hdetected : ∀ r ∈ runs,
    (r.statisticallyDetected = true ↔ r.permutationPValue ≤ 1 / 20)) :
    0 < runs.countP (·.statisticallyDetected) ↔
      ∃ p ∈ (runs.map (·.permutationPValue)).min?, p ≤ 1 / 20 := by
  rw [List.countP_pos_iff]
  constructor
  · rintro ⟨r, hr, hflag⟩
    have hmem : r.permutationPValue ∈ runs.map (·.permutationPValue) := List.mem_map_of_mem hr
    obtain ⟨p, hp⟩ := Option.isSome_iff_exists.mp (List.isSome_min?_of_mem hmem)
    exact ⟨p, hp, ((List.min?_eq_some_iff.mp hp).2 _ hmem).trans ((hdetected r hr).mp hflag)⟩
  · rintro ⟨p, hp, hle⟩
    obtain ⟨r, hr, rfl⟩ := List.mem_map.mp (List.min?_eq_some_iff.mp hp).1
    exact ⟨r, hr, (hdetected r hr).mpr hle⟩

theorem groupSummary_pools (hperm : runs.Perm (members.map (·.compact))) (hne : members ≠ [])
    (hmade : ∀ raw ∈ members, raw.Made) {key : String ×ₗ Bool} (hkey : ∀ r ∈ runs, r.key = key) :
    ∃ g, groupSummary runs = some g ∧ groupName key = g.name ∧ g.Pools members := by
  have hadds (raw : RawReport) (hraw : raw ∈ members) : raw.compact.Adds raw.report.pairs :=
    compact_adds (hmade raw hraw)
  have hmem {r : CompactReport} (hr : r ∈ runs) : ∃ raw ∈ members, raw.compact = r :=
    List.mem_map.mp (hperm.mem_iff.mp hr)
  -- the order in which the reports were sorted does not matter for sums
  have hsum {M : Type} [AddCommMonoid M] {f : CompactReport → M} {f' : RawReport → M}
      (hf : ∀ raw ∈ members, f raw.compact = f' raw) :
      (runs.map f).sum = (members.map f').sum := by
    rw [(hperm.map f).sum_eq, List.map_map]
    exact congrArg List.sum (List.map_congr_left hf)
  have hruns : runs ≠ [] := fun hnil => hne (List.map_eq_nil_iff.mp (hnil ▸ hperm).nil_eq.symm)
  obtain ⟨first, rest, hcons⟩ := List.exists_cons_of_ne_nil hruns
  have hhead : runs.head? = some first := hcons ▸ rfl
  obtain ⟨summaries, hsummaries, hnodup, htrials, herrors⟩ :=
    offsetSummary_spec (runs.flatMap (·.offsetSummaries))
  have hinfo : ∀ r ∈ runs, 0 ≤ r.correctedInformationBitsObserved ∧
      r.correctedInformationBitsObserved ≤ r.rawInformationBitsObserved ∧
      r.rawInformationBitsObserved ≤ (r.usableTrials : ℝ) := by
    intro r hr
    obtain ⟨raw, hraw, rfl⟩ := hmem hr
    rw [(hadds raw hraw).usable]
    exact (hadds raw hraw).information
  simp only [groupSummary, hhead, hsummaries, Option.bind_eq_bind, Option.bind_some]
  refine ⟨_, rfl, ?_, {
    runs := ⟨hperm.length_eq.trans (List.length_map _), hne⟩
    usable := hsum fun raw hraw => (hadds raw hraw).usable
    errors := ?_
    offsets := ⟨hnodup, ?_, ?_⟩
    information := ⟨?_, List.sum_le_sum fun r hr => (hinfo r hr).2.1, ?_⟩
    detected := detected_iff fun r hr => ?_
    consistent := ?_ }⟩
  · rw [← hkey first (hcons ▸ List.mem_cons_self)]
    rfl
  · refine (List.weightedAverage_mul_count _ _ _).trans (.trans ?_ (List.cast_sum_map _ _).symm)
    exact hsum fun raw hraw => (hadds raw hraw).errors
  · rw [htrials, List.sum_map_flatMap]
    exact (hsum fun raw hraw => (hadds raw hraw).offsetTrials).trans
      (hsum fun raw hraw => (hadds raw hraw).usable).symm
  · rw [herrors, List.sum_map_flatMap, List.cast_sum_map]
    exact hsum fun raw hraw => (hadds raw hraw).offsetErrors
  · exact List.sum_nonneg (List.forall_mem_map.mpr fun r hr => (hinfo r hr).1)
  · rw [List.cast_sum_map]
    exact List.sum_le_sum fun r hr => (hinfo r hr).2.2
  · obtain ⟨raw, hraw, rfl⟩ := hmem hr
    exact (hadds raw hraw).detected
  · refine (artifactSummary_consistent hruns).trans ?_
    simp only [hperm.mem_iff, List.forall_mem_map]
    rfl

end Group

/-- Every report is in one group, and every group pools its reports. -/
theorem summary_pools {raws : List RawReport} (h : ∀ raw ∈ raws, raw.Made) :
    ∃ summary, summarize (raws.map (·.compact)) = some summary ∧
      summary.reportCount = raws.length ∧ (summary.groups.map (·.runs)).sum = raws.length ∧
      (summary.groups.map (·.name)).Nodup ∧
      ∀ g ∈ summary.groups, g.Pools (g.members raws) := by
  let sorted := (raws.map (·.compact)).mergeSort fun r r' => r.key ≤ r'.key
  have hsorted : sorted.Perm (raws.map (·.compact)) := List.mergeSort_perm _ _
  have hgroup (key : String ×ₗ Bool) : (sorted.filter (·.key = key)).Perm
      ((raws.filter (·.compact.key = key)).map (·.compact)) := by
    refine (hsorted.filter _).trans (.of_eq ?_)
    rw [List.filter_map]
    rfl
  have hstep : ∀ key ∈ sorted.map (·.key), ∃ g,
      groupSummary (sorted.filter (·.key = key)) = some g ∧
        (groupName key = g.name ∧ g.Pools (raws.filter (·.compact.key = key))) := by
    intro key hkey
    obtain ⟨r, hr, rfl⟩ := List.mem_map.mp hkey
    obtain ⟨raw, hraw, rfl⟩ := List.mem_map.mp (hsorted.mem_iff.mp hr)
    refine groupSummary_pools (hgroup _)
      (List.ne_nil_of_mem (List.mem_filter.mpr ⟨hraw, decide_eq_true rfl⟩))
      (fun raw' hraw' => h raw' (List.mem_of_mem_filter hraw'))
      fun r hr => of_decide_eq_true (List.mem_filter.mp hr).2
  obtain ⟨groups, hgroups, hall⟩ := List.exists_mapM_groupOn hstep
  refine ⟨⟨raws.length, groups⟩, ?_, rfl, ?_, ?_, fun g hg => ?_⟩
  · rw [summarize, hgroups, List.length_map]
    rfl
  · rw [← hall.map_eq (f := fun key => (sorted.filter (·.key = key)).length) fun key g hg => by
        rw [hg.2.runs.1, (hgroup key).length_eq, List.length_map],
      List.sum_length_groupOn, hsorted.length_eq, List.length_map]
  · rw [← hall.map_eq fun _ _ hg => hg.1]
    exact (List.nodup_sortDedup _).map groupName_injective
  · obtain ⟨i, hi⟩ := List.mem_iff_getElem?.mp hg
    obtain ⟨key, -, hname, hpools⟩ := hall.flip.getElem?_some hi
    have hmembers : g.members raws = raws.filter (·.compact.key = key) :=
      List.filter_congr fun raw _ => by
        rw [decide_eq_decide, ← groupName_injective.eq_iff, hname, GroupSummary.name, Prod.ext_iff]
        rfl
    exact hmembers ▸ hpools

theorem summary_pools_sample :
    ∃ raw : RawReport, raw.Made ∧
      ∃ summary, summarize ([raw, { raw with control := true }].map (·.compact)) = some summary ∧
        summary.reportCount = 2 ∧ (summary.groups.map (·.runs)).sum = 2 ∧
        (summary.groups.map (·.name)).Nodup ∧
        ∀ g ∈ summary.groups, g.Pools (g.members [raw, { raw with control := true }]) := by
  have hoffsets : ([0, 500, 1000] : List UInt64).Nodup := by decide
  obtain ⟨fuel, plan, -, hplan, hlen⟩ :=
    sample_plan (by decide : ([0, 500, 1000] : List UInt64) ≠ []) (by decide)
  have hmodel := calibrate_of_probed (κ := ℝ) hplan hoffsets (hlen ▸ probed_sampleClientRecords)
  have hnone : ∀ record ∈ sampleClientRecords 64, record.decodedBit = none :=
    fun _ => undecoded_sampleClientRecords
  obtain ⟨report, hreport, hpairs, -⟩ := scoreMatrix_of_calibrate hplan hoffsets hmodel hnone
  have hbits : ∀ p ∈ report.pairs, p.expected ≤ 1 ∧ p.decoded ≤ 1 := by
    rw [hpairs]
    exact pairsOf_bits hplan
  obtain ⟨s, hs, -⟩ := statistics_sound hbits (timings report.clientRecords) 1
  let raw : RawReport := ⟨"run-1", "realistic", 1, false, ⟨"0.1.0", "00", ⊥, ⊥⟩, 60000, report, s⟩
  have hmade : raw.Made := ⟨fuel, _, _, plan, _, _, _, hplan, hoffsets, hmodel, hnone, hreport, hs⟩
  refine ⟨raw, hmade, summary_pools fun r hr => ?_⟩
  rcases List.mem_pair.mp hr with rfl | rfl
  · exact hmade
  · exact hmade

end BenchClient.Decoding
