import Mathlib.Algebra.Order.Field.Rat
import IshtarOxide.BenchClient.Calibration

/-!
# Decoding in the bench client

`decode_bit` of crates/bench-client, and what `calibrate` makes of any records. With rationals
for numbers, nothing is rounded.

* `calibrate_eq_ok_iff`: what the calibration model consists of, and when there is one.
* `decoding_nearest_mean`: the decoded bit is that of the nearer mean, and a delay of every
  probe changes no bit.
-/

namespace BenchClient.Decoding

/-! ## The model -/

section Numbers

variable {κ : Type} [NatCast κ] [Add κ] [Div κ] [LE κ] [DecidableLE κ]

/-- `decode_bit`. -/
def decodeBit (records : List ClientTimingRecord) (targetOverlapUs : UInt64)
    (calibration : CalibrationModel κ) : Option UInt8 := do
  let latencies := (records.filter fun r => r.role = .probe && r.status = 200).map fun r =>
    durationUs r.sentAtNs r.completedAtNs
  let model ← calibration.byOffset targetOverlapUs
  if latencies.isEmpty then none
  else
    let high : Bool := model.thresholdUs ≤ latencies.mean
    return (if model.highLatencyIsOne then high else !high).toUInt8

/-- What `run_matrix` decodes the bit of a trial from. -/
def trialProbes (records : List ClientTimingRecord) (trialId : Nat) : List ClientTimingRecord :=
  records.filter fun r => r.role = .probe && r.trialId.toNat = trialId

theorem calibrate_of_le {records : List ClientTimingRecord} {plan : List TrialPlan}
    (h : calibrationTrials plan ≤ plan.length) :
    (calibrate records plan : Except Stop (CalibrationModel κ)) =
      (((plan.take (calibrationTrials plan)).map (·.targetOverlapUs)).foldlM
        (calibrateOffset (calibrationSamples records plan)) fun _ => none).map
          fun byOffset => ⟨byOffset, calibrationTrials plan⟩ := by
  simp only [calibrate, if_neg (Nat.not_lt.mpr h)]
  rfl

end Numbers

/-! ## What is calibrated -/

section Calibrated

variable {κ : Type}

/-- A list, if there is something in it. -/
def nonempty (l : List κ) : Option (List κ) := if l.isEmpty then none else some l

theorem nonempty_concat (l : List κ) (x : κ) : nonempty (l ++ [x]) = some (l ++ [x]) := by
  simp [nonempty]

theorem getD_nonempty (l : List κ) : (nonempty l).getD [] = l := by
  cases l <;> rfl

/-- The map with these latencies. -/
def samplesOf (latencies : UInt64 × UInt8 → List κ) : Samples κ :=
  fun key => nonempty (latencies key)

variable [NatCast κ] [Add κ] [Div κ] {records : List ClientTimingRecord} {plan : List TrialPlan}
  {model : CalibrationModel κ}

/-- The latencies of the trials with an offset and a bit. -/
def latenciesOf (records : List ClientTimingRecord) (trials : List (TrialPlan × Nat))
    (key : UInt64 × UInt8) : List κ :=
  trials.filterMap fun entry =>
    if entry.1.key = key then aggregateProbeLatency records entry.2 else none

/-- The latencies of the calibration trials with an offset and a bit. -/
def calibrationLatencies (records : List ClientTimingRecord) (plan : List TrialPlan) :
    UInt64 × UInt8 → List κ :=
  latenciesOf records (plan.take (calibrationTrials plan)).zipIdx

/-- The offsets of the calibration trials. -/
def calibrationOffsets (plan : List TrialPlan) : List UInt64 :=
  (plan.take (calibrationTrials plan)).map (·.targetOverlapUs)

/-- A calibration trial with a successful probe has a latency. -/
theorem calibrationLatencies_ne_nil {planned : TrialPlan} {trialId : Nat}
    (hplanned : (plan.take (calibrationTrials plan))[trialId]? = some planned)
    (hprobe : ∃ record ∈ records, record.probes trialId) :
    (calibrationLatencies records plan planned.key : List κ) ≠ [] := by
  obtain ⟨record, hrecord, hprobe⟩ := hprobe
  have hlatencies : (trialLatencies records trialId : List κ) ≠ [] := by
    rw [trialLatencies, ne_eq, List.map_eq_nil_iff]
    exact List.ne_nil_of_mem (List.mem_filter.mpr ⟨hrecord, hprobe⟩)
  have hentry : (planned, trialId) ∈ (plan.take (calibrationTrials plan)).zipIdx :=
    List.mem_zipIdx_iff_getElem?.mpr hplanned
  have hlatency : (trialLatencies records trialId : List κ).mean ∈
      calibrationLatencies records plan planned.key :=
    List.mem_filterMap.mpr ⟨_, hentry, by simp [aggregateProbeLatency, hlatencies]⟩
  exact List.ne_nil_of_mem hlatency

theorem collect_of (records : List ClientTimingRecord) (seen : UInt64 × UInt8 → List κ)
    (entry : TrialPlan × Nat) :
    Samples.collect records (samplesOf seen) entry =
      samplesOf fun key => seen key ++ latenciesOf records [entry] key := by
  funext key
  cases haggregate : (aggregateProbeLatency records entry.2 : Option κ) with
  | none => simp [Samples.collect, samplesOf, latenciesOf, haggregate]
  | some latency =>
    simp only [Samples.collect, haggregate, Samples.push, samplesOf, getD_nonempty]
    by_cases hkey : key = entry.1.key
    · simp [latenciesOf, hkey, haggregate, nonempty_concat]
    · simp [latenciesOf, hkey, Ne.symm hkey]

theorem foldl_collect (trials : List (TrialPlan × Nat)) (seen : UInt64 × UInt8 → List κ) :
    trials.foldl (Samples.collect records) (samplesOf seen) =
      samplesOf fun key => seen key ++ latenciesOf records trials key := by
  induction trials generalizing seen with
  | nil =>
    simp only [List.foldl_nil, latenciesOf, List.filterMap_nil, List.append_nil]
  | cons entry trials ih =>
    rw [List.foldl_cons, collect_of, ih]
    refine congrArg samplesOf (funext fun key => ?_)
    rw [List.append_assoc, latenciesOf, latenciesOf, ← List.filterMap_append,
      List.singleton_append]
    rfl

theorem calibrationSamples_eq (records : List ClientTimingRecord) (plan : List TrialPlan) :
    (calibrationSamples records plan : Samples κ) = samplesOf (calibrationLatencies records plan) :=
  foldl_collect _ fun _ => []

variable [LE κ] [DecidableLE κ]

/-- The model of the means of all calibration trials. -/
def modelOf (records : List ClientTimingRecord) (plan : List TrialPlan) : CalibrationModel κ where
  byOffset offset :=
    if offset ∈ calibrationOffsets plan then
      some (.of (calibrationLatencies records plan (offset, 0)).mean
        (calibrationLatencies records plan (offset, 1)).mean)
    else none
  scoringStartsAtTrial := calibrationTrials plan

/-- Every offset of the calibration trials has a latency for either bit. -/
def Observed (latencies : UInt64 × UInt8 → List κ) (offsets : List UInt64) : Prop :=
  ∀ offset ∈ offsets, latencies (offset, 0) ≠ [] ∧ latencies (offset, 1) ≠ []

theorem calibrateOffset_eq_ok {latencies : UInt64 × UInt8 → List κ} {offset : UInt64}
    {byOffset byOffset' : UInt64 → Option (OffsetCalibration κ)} :
    calibrateOffset (samplesOf latencies) byOffset offset = .ok byOffset' ↔
      (latencies (offset, 0) ≠ [] ∧ latencies (offset, 1) ≠ []) ∧
        (fun o => if o = offset then
          some (.of (latencies (offset, 0)).mean (latencies (offset, 1)).mean)
          else byOffset o) = byOffset' := by
  unfold calibrateOffset samplesOf
  cases latencies (offset, 0) with
  | nil => simp [nonempty]
  | cons _ _ =>
    cases latencies (offset, 1) with
    | nil => simp [nonempty]
    | cons _ _ => simp [nonempty]

theorem foldlM_calibrateOffset_eq_ok {latencies : UInt64 × UInt8 → List κ} {offsets : List UInt64}
    {byOffset byOffset' : UInt64 → Option (OffsetCalibration κ)} :
    offsets.foldlM (calibrateOffset (samplesOf latencies)) byOffset = .ok byOffset' ↔
      Observed latencies offsets ∧
        (fun o =>
          if o ∈ offsets then some (.of (latencies (o, 0)).mean (latencies (o, 1)).mean)
          else byOffset o) = byOffset' := by
  induction offsets generalizing byOffset with
  | nil => simp [Observed]
  | cons offset offsets ih =>
    have hlast : ∀ o, (if o ∈ offsets then some (OffsetCalibration.of (latencies (o, 0)).mean
        (latencies (o, 1)).mean) else if o = offset then
          some (.of (latencies (offset, 0)).mean (latencies (offset, 1)).mean) else byOffset o) =
        if o ∈ offset :: offsets then
          some (.of (latencies (o, 0)).mean (latencies (o, 1)).mean) else byOffset o := by
      intro o
      by_cases ho : o = offset
      · simp [ho]
      · simp [ho]
    simp only [List.foldlM_cons, Except.bind_eq_ok, calibrateOffset_eq_ok, ih]
    simp only [Observed, List.forall_mem_cons, ← hlast]
    constructor
    · rintro ⟨_, ⟨hoffset, rfl⟩, hoffsets, rfl⟩
      exact ⟨⟨hoffset, hoffsets⟩, rfl⟩
    · rintro ⟨⟨hoffset, hoffsets⟩, rfl⟩
      exact ⟨_, ⟨hoffset, rfl⟩, hoffsets, rfl⟩

/-- `calibrate` succeeds when it has seen both bits at every offset. -/
theorem calibrate_eq_ok_iff :
    calibrate records plan = .ok model ↔
      calibrationTrials plan ≤ plan.length ∧
        Observed (κ := κ) (calibrationLatencies records plan) (calibrationOffsets plan) ∧
        modelOf records plan = model := by
  by_cases hle : calibrationTrials plan ≤ plan.length
  · rw [calibrate_of_le hle, Except.map_eq_ok, calibrationSamples_eq]
    simp only [foldlM_calibrateOffset_eq_ok, hle, true_and]
    constructor
    · rintro ⟨_, ⟨hobserved, rfl⟩, rfl⟩
      exact ⟨hobserved, rfl⟩
    · rintro ⟨hobserved, rfl⟩
      exact ⟨_, ⟨hobserved, rfl⟩, rfl⟩
  · simp [calibrate, Nat.lt_of_not_le hle, hle]

/-- The bit of a trial, by its mean latency. -/
theorem decodeBit_trialProbes (records : List ClientTimingRecord) (trialId : Nat)
    (targetOverlapUs : UInt64) (model : CalibrationModel κ) :
    decodeBit (trialProbes records trialId) targetOverlapUs model =
      (model.byOffset targetOverlapUs).bind fun calibration =>
        (aggregateProbeLatency records trialId).map fun latency =>
          (if calibration.highLatencyIsOne then decide (calibration.thresholdUs ≤ latency)
            else !decide (calibration.thresholdUs ≤ latency)).toUInt8 := by
  have hprobes : (trialProbes records trialId).filter (fun r => r.role = .probe && r.status = 200) =
      records.filter (·.probes trialId) := by
    rw [trialProbes, List.filter_filter]
    refine List.filter_congr fun r _ => ?_
    simp only [ClientTimingRecord.probes]
    cases decide (r.role = .probe) <;> cases decide (r.status = 200) <;> simp
  unfold decodeBit
  rw [hprobes, ← trialLatencies, Option.bind_eq_bind]
  cases model.byOffset targetOverlapUs with
  | none => rfl
  | some calibration =>
    simp only [Option.bind_some, aggregateProbeLatency]
    split
    · rfl
    · rfl

/-- The decoded bit is a matter of the means and of the mean latency. -/
theorem decodeBit_modelOf (records : List ClientTimingRecord) (plan : List TrialPlan)
    (trialId : Nat) (offset : UInt64) :
    decodeBit (trialProbes records trialId) offset (modelOf records plan : CalibrationModel κ) =
      if offset ∈ calibrationOffsets plan then
        (aggregateProbeLatency records trialId).map fun latency : κ =>
          (Threshold.decode (calibrationLatencies records plan (offset, 0)).mean
            (calibrationLatencies records plan (offset, 1)).mean latency).toUInt8
      else none := by
  rw [decodeBit_trialProbes]
  by_cases hmem : offset ∈ calibrationOffsets plan
  · simp only [modelOf, if_pos hmem, Option.bind_some, OffsetCalibration.of, Threshold.decode,
      Threshold.between]
    rfl
  · simp only [modelOf, if_neg hmem, Option.bind_none]

end Calibrated

/-! ## Exact latencies -/

section Exact

variable {records : List ClientTimingRecord} {plan : List TrialPlan} {delta trialId : Nat}

theorem aggregateProbeLatency_perm {records' : List ClientTimingRecord}
    (h : records'.Perm records) (trialId : Nat) :
    (aggregateProbeLatency records' trialId : Option ℚ) =
      aggregateProbeLatency records trialId := by
  have hlatencies : (trialLatencies records' trialId : List ℚ).Perm
      (trialLatencies records trialId) := (h.filter _).map _
  simp only [aggregateProbeLatency, hlatencies.isEmpty_eq, List.mean_perm hlatencies]

/-- Nothing is made of the order of the records. -/
theorem calibrate_perm {records' : List ClientTimingRecord} (h : records'.Perm records)
    (plan : List TrialPlan) :
    (calibrate records' plan : Except Stop (CalibrationModel ℚ)) = calibrate records plan := by
  have hcollect : (Samples.collect records' : Samples ℚ → TrialPlan × Nat → Samples ℚ) =
      Samples.collect records := by
    funext samples entry
    rw [Samples.collect, Samples.collect, aggregateProbeLatency_perm h]
  rw [calibrate, calibrate, calibrationSamples, calibrationSamples, hcollect]

/-- A record with a probe's completion put off. -/
def delay (delta : Nat) (record : ClientTimingRecord) : ClientTimingRecord :=
  if record.role = .probe then { record with completedAtNs := record.completedAtNs + delta }
  else record

theorem probes_delay (record : ClientTimingRecord) (trialId : Nat) :
    (delay delta record).probes trialId = record.probes trialId := by
  unfold delay
  split
  · rfl
  · rfl

theorem durationUs_delay {record : ClientTimingRecord} (hprobe : record.role = .probe)
    (htimes : record.sentAtNs ≤ record.completedAtNs) :
    (durationUs (delay delta record).sentAtNs (delay delta record).completedAtNs : ℚ) =
      durationUs record.sentAtNs record.completedAtNs + (delta : ℚ) / 1000 := by
  rw [delay, if_pos hprobe, durationUs, durationUs, Nat.sub_add_comm htimes, Nat.cast_add,
    add_div, Nat.cast_ofNat]

variable (htimes : ∀ record ∈ records, record.sentAtNs ≤ record.completedAtNs)

include htimes

theorem trialLatencies_delay :
    (trialLatencies (records.map (delay delta)) trialId : List ℚ) =
      (trialLatencies records trialId).map (· + (delta : ℚ) / 1000) := by
  have hprobes : (fun record => record.probes trialId) ∘ delay delta =
      fun record : ClientTimingRecord => record.probes trialId :=
    funext fun record => probes_delay record trialId
  rw [trialLatencies, trialLatencies, List.filter_map, List.map_map, List.map_map, hprobes]
  refine List.map_congr_left fun record hrecord => ?_
  obtain ⟨hmem, hprobe⟩ := List.mem_filter.mp hrecord
  simp only [ClientTimingRecord.probes, Bool.and_eq_true, decide_eq_true_eq] at hprobe
  exact durationUs_delay hprobe.1.2 (htimes record hmem)

theorem aggregateProbeLatency_delay :
    (aggregateProbeLatency (records.map (delay delta)) trialId : Option ℚ) =
      (aggregateProbeLatency records trialId).map (· + (delta : ℚ) / 1000) := by
  unfold aggregateProbeLatency
  rw [trialLatencies_delay htimes]
  cases h : (trialLatencies records trialId : List ℚ) with
  | nil => rfl
  | cons latency latencies =>
    exact congrArg some (List.mean_map_add (List.cons_ne_nil latency latencies) _)

theorem calibrationLatencies_delay (key : UInt64 × UInt8) :
    (calibrationLatencies (records.map (delay delta)) plan key : List ℚ) =
      (calibrationLatencies records plan key).map (· + (delta : ℚ) / 1000) := by
  rw [calibrationLatencies, calibrationLatencies, latenciesOf, latenciesOf, List.map_filterMap]
  refine List.filterMap_congr fun entry _ => ?_
  split
  · exact aggregateProbeLatency_delay htimes
  · rfl

theorem observed_delay (offsets : List UInt64) :
    Observed (κ := ℚ) (calibrationLatencies (records.map (delay delta)) plan) offsets ↔
      Observed (κ := ℚ) (calibrationLatencies records plan) offsets := by
  simp only [Observed, calibrationLatencies_delay htimes, ne_eq, List.map_eq_nil_iff]

omit htimes

theorem decodeBit_delay (htimes : ∀ record ∈ records, record.sentAtNs ≤ record.completedAtNs)
    (hobserved : Observed (κ := ℚ) (calibrationLatencies records plan) (calibrationOffsets plan))
    (trialId : Nat) (offset : UInt64) :
    decodeBit (trialProbes (records.map (delay delta)) trialId) offset
        (modelOf (records.map (delay delta)) plan : CalibrationModel ℚ) =
      decodeBit (trialProbes records trialId) offset
        (modelOf records plan : CalibrationModel ℚ) := by
  rw [decodeBit_modelOf, decodeBit_modelOf]
  split
  · next hoffset =>
    obtain ⟨hzero, hone⟩ := hobserved offset hoffset
    rw [aggregateProbeLatency_delay htimes, calibrationLatencies_delay htimes,
      calibrationLatencies_delay htimes, List.mean_map_add hzero, List.mean_map_add hone,
      Option.map_map]
    refine congrArg (fun f => Option.map f _) (funext fun latency => ?_)
    simp only [Function.comp_apply, Threshold.decode_add]
  · rfl

/-- With exact latencies, the bit of a trial with a successful probe, at an offset of the model,
is that of the nearer mean; and when the completion of every probe is put off by a constant,
there is a model as before, and every bit is as before. -/
theorem decoding_nearest_mean (records : List ClientTimingRecord) (plan : List TrialPlan)
    (htimes : ∀ record ∈ records, record.sentAtNs ≤ record.completedAtNs) :
    (∀ model : CalibrationModel ℚ, calibrate records plan = .ok model →
      ∀ offset, (model.byOffset offset).isSome →
        ∀ trialId, (∃ record ∈ records, record.probes trialId) →
          ∃ isOne : Bool,
            decodeBit (trialProbes records trialId) offset model = some isOne.toUInt8 ∧
            Threshold.Nearest (K := ℚ) (calibrationLatencies records plan (offset, 0)).mean
              (calibrationLatencies records plan (offset, 1)).mean
              (trialLatencies records trialId).mean isOne) ∧
    ∀ delta,
      ((∃ model : CalibrationModel ℚ, calibrate records plan = .ok model) ↔
        ∃ model : CalibrationModel ℚ, calibrate (records.map (delay delta)) plan = .ok model) ∧
      ∀ model model' : CalibrationModel ℚ, calibrate records plan = .ok model →
        calibrate (records.map (delay delta)) plan = .ok model' →
          ∀ trialId offset,
            decodeBit (trialProbes (records.map (delay delta)) trialId) offset model' =
              decodeBit (trialProbes records trialId) offset model := by
  constructor
  · intro model hmodel offset hoffset trialId hprobe
    obtain ⟨-, -, rfl⟩ := calibrate_eq_ok_iff.mp hmodel
    have hmem : offset ∈ calibrationOffsets plan := by
      by_contra hnot
      simp [modelOf, hnot] at hoffset
    have hlatencies : (trialLatencies records trialId : List ℚ).isEmpty = false := by
      obtain ⟨record, hrecord, hprobe⟩ := hprobe
      simp only [trialLatencies, List.isEmpty_eq_false_iff, ne_eq, List.map_eq_nil_iff]
      exact List.ne_nil_of_mem (List.mem_filter.mpr ⟨hrecord, hprobe⟩)
    refine ⟨_, ?_, Threshold.nearest_decode _ _ _⟩
    rw [decodeBit_modelOf, if_pos hmem, aggregateProbeLatency, hlatencies]
    rfl
  · intro delta
    constructor
    · simp only [calibrate_eq_ok_iff, observed_delay htimes, exists_and_left, exists_eq']
    · intro model model' hmodel hmodel' trialId offset
      obtain ⟨-, hobserved, rfl⟩ := calibrate_eq_ok_iff.mp hmodel
      obtain ⟨-, -, rfl⟩ := calibrate_eq_ok_iff.mp hmodel'
      -- the latency and the threshold move by the same amount
      exact decodeBit_delay htimes hobserved trialId offset

/-- Both bits in turn at one offset. -/
def samplePlan : List TrialPlan := (List.range 6).flatMap fun _ => bothBits 7

/-- A probe of every trial, slower when its bit is 1. -/
def sampleRecords : List ClientTimingRecord :=
  samplePlan.zipIdx.map fun (planned, trialId) =>
    ⟨UInt64.ofNat trialId, .probe, 0, if planned.bit = 1 then 3000 else 1000, 200⟩

theorem decoding_nearest_mean_sample :
    ∃ model : CalibrationModel ℚ, calibrate sampleRecords samplePlan = .ok model ∧
      ∃ isOne : Bool, decodeBit (trialProbes sampleRecords 11) 7 model = some isOne.toUInt8 ∧
        Threshold.Nearest (K := ℚ) (calibrationLatencies sampleRecords samplePlan (7, 0)).mean
          (calibrationLatencies sampleRecords samplePlan (7, 1)).mean
          (trialLatencies sampleRecords 11).mean isOne := by
  have hobserved : Observed (κ := ℚ) (calibrationLatencies sampleRecords samplePlan)
      (calibrationOffsets samplePlan) := by
    intro offset hoffset
    obtain ⟨p, hp, rfl⟩ := List.mem_map.mp hoffset
    have hseven : ∀ p ∈ samplePlan, p.targetOverlapUs = 7 := by decide
    rw [hseven p (List.mem_of_mem_take hp)]
    exact ⟨calibrationLatencies_ne_nil (by decide : _ = some ⟨0, 7⟩)
        (by decide : ∃ record ∈ sampleRecords, record.probes 0 = true),
      calibrationLatencies_ne_nil (by decide : _ = some ⟨1, 7⟩)
        (by decide : ∃ record ∈ sampleRecords, record.probes 1 = true)⟩
  have hmodel : calibrate sampleRecords samplePlan =
      .ok (modelOf sampleRecords samplePlan : CalibrationModel ℚ) :=
    calibrate_eq_ok_iff.mpr ⟨by decide, hobserved, rfl⟩
  exact ⟨_, hmodel, (decoding_nearest_mean sampleRecords samplePlan (by decide)).1 _ hmodel 7
    (by decide) 11 (by decide)⟩

end Exact

end BenchClient.Decoding
