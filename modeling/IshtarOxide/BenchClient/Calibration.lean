import IshtarOxide.Lib.Mean
import IshtarOxide.BenchClient.Plan

/-!
# Calibration of the bench client

`calibrate` of crates/bench-client averages the probe latencies of the first trials,
which it takes for the calibration part of the plan. The kind of numbers is a parameter;
in the source they are `f64`.

* `calibrationTrials_plan`: how many trials it takes, for a plan of `build_trial_plan`.
* `calibration_matches_iff`: when these are the ones that were planned for it.
-/

namespace BenchClient

/-- `WorkerRole`. -/
inductive WorkerRole
  | sender
  | probe
  | background
  | control
deriving DecidableEq, Repr

/-- `ClientTimingRecord`, less the fields that calibration does not read. -/
structure ClientTimingRecord where
  trialId : UInt64
  role : WorkerRole
  sentAtNs : Nat
  completedAtNs : Nat
  status : UInt16
deriving DecidableEq, Repr

/-- A probe of the trial that was answered with 200. -/
def ClientTimingRecord.probes (record : ClientTimingRecord) (trialId : Nat) : Bool :=
  record.trialId.toNat = trialId && record.role = .probe && record.status = 200

/-- The key of a planned trial. -/
def TrialPlan.key (planned : TrialPlan) : UInt64 × UInt8 := (planned.targetOverlapUs, planned.bit)

theorem TrialPlan.key_inj {p q : TrialPlan} : p.key = q.key ↔ p = q := by
  obtain ⟨bit, offset⟩ := p
  obtain ⟨bit', offset'⟩ := q
  simp [TrialPlan.key, and_comm]

/-- `calibration_trials` of `calibrate`. -/
def calibrationTrials (plan : List TrialPlan) : Nat :=
  (plan.map (·.targetOverlapUs)).dedup.length * calibrationSamplesPerBitAndOffset * 2

instance natCastFloat : NatCast Float := ⟨Float.ofNat⟩

section Numbers

variable {κ : Type} [NatCast κ] [Add κ] [Div κ] [LE κ] [DecidableLE κ]

/-- `duration_us`. -/
def durationUs (start stop : Nat) : κ := ((stop - start : Nat) : κ) / ((1000 : Nat) : κ)

/-- The latencies of the probes of a trial that were answered with 200. -/
def trialLatencies (records : List ClientTimingRecord) (trialId : Nat) : List κ :=
  (records.filter (·.probes trialId)).map fun r => durationUs r.sentAtNs r.completedAtNs

/-- `aggregate_probe_latency`. -/
def aggregateProbeLatency (records : List ClientTimingRecord) (trialId : Nat) : Option κ :=
  let latencies := trialLatencies records trialId
  if latencies.isEmpty then none else some latencies.mean

/-- The map from an offset and a bit to the latencies that were observed. -/
def Samples (κ : Type) := UInt64 × UInt8 → Option (List κ)

def Samples.empty : Samples κ := fun _ => none

/-- `entry(key).or_default().push(latency)`. -/
def Samples.push (samples : Samples κ) (key : UInt64 × UInt8) (latency : κ) : Samples κ :=
  fun k => if k = key then some ((samples key).getD [] ++ [latency]) else samples k

def Samples.collect (records : List ClientTimingRecord) (samples : Samples κ)
    (entry : TrialPlan × Nat) : Samples κ :=
  match aggregateProbeLatency records entry.2 with
  | some latency => samples.push entry.1.key latency
  | none => samples

/-- `samples` of `calibrate`. -/
def calibrationSamples (records : List ClientTimingRecord) (plan : List TrialPlan) : Samples κ :=
  (plan.take (calibrationTrials plan)).zipIdx.foldl (Samples.collect records) .empty

/-- `OffsetCalibration`. -/
structure OffsetCalibration (κ : Type) where
  zeroMeanUs : κ
  oneMeanUs : κ
  thresholdUs : κ
  highLatencyIsOne : Bool
deriving DecidableEq, Repr

/-- `CalibrationModel`. -/
structure CalibrationModel (κ : Type) where
  byOffset : UInt64 → Option (OffsetCalibration κ)
  scoringStartsAtTrial : Nat

/-- The entry of `by_offset` for an offset with the two means. -/
def OffsetCalibration.of (zeroMean oneMean : κ) : OffsetCalibration κ :=
  ⟨zeroMean, oneMean, (zeroMean + oneMean) / ((2 : Nat) : κ), zeroMean ≤ oneMean⟩

def calibrateOffset (samples : Samples κ) (byOffset : UInt64 → Option (OffsetCalibration κ))
    (offset : UInt64) : Except Stop (UInt64 → Option (OffsetCalibration κ)) := do
  let some zero := samples (offset, 0) | throw (.error "missing bit-zero calibration")
  let some one := samples (offset, 1) | throw (.error "missing bit-one calibration")
  return fun o => if o = offset then some (.of zero.mean one.mean) else byOffset o

/-- `calibrate`. -/
def calibrate (records : List ClientTimingRecord) (plan : List TrialPlan) :
    Except Stop (CalibrationModel κ) := do
  let samples := calibrationSamples records plan
  -- `plan[..calibration_trials]`
  if plan.length < calibrationTrials plan then throw .panic
  let offsets := (plan.take (calibrationTrials plan)).map (·.targetOverlapUs)
  let byOffset ← offsets.foldlM (calibrateOffset samples) fun _ => none
  return ⟨byOffset, calibrationTrials plan⟩

end Numbers

/-! ## The samples -/

variable {κ : Type} {records : List ClientTimingRecord} {plan : List TrialPlan}
  {offsets : List UInt64} {fuel : Nat} {seed count : UInt64}

/-- How many latencies were observed. -/
def Samples.size (samples : Samples κ) (key : UInt64 × UInt8) : Nat :=
  ((samples key).getD []).length

theorem Samples.size_push (samples : Samples κ) (key k : UInt64 × UInt8) (latency : κ) :
    (samples.push key latency).size k = samples.size k + if key = k then 1 else 0 := by
  unfold Samples.size Samples.push
  split
  · next h => simp [h]
  · next h => rw [if_neg (Ne.symm h), Nat.add_zero]

theorem Samples.exists_of_size_pos {samples : Samples κ} {key : UInt64 × UInt8}
    (h : 0 < samples.size key) : ∃ l, samples key = some l ∧ l.length = samples.size key := by
  unfold Samples.size at h ⊢
  cases hs : samples key with
  | none => simp [hs] at h
  | some l => exact ⟨l, rfl, rfl⟩

/-- Records with a successful probe of every trial of the plan. -/
def Probed (records : List ClientTimingRecord) (trials : Nat) : Prop :=
  ∀ trialId < trials, ∃ record ∈ records, record.probes trialId

variable [NatCast κ] [Add κ] [Div κ]

theorem Probed.latency {trials trialId : Nat} (h : Probed records trials) (hlt : trialId < trials) :
    ∃ latency : κ, aggregateProbeLatency records trialId = some latency := by
  obtain ⟨record, hmem, hprobes⟩ := h trialId hlt
  have hne : records.filter (·.probes trialId) ≠ [] :=
    List.ne_nil_of_mem (List.mem_filter.mpr ⟨hmem, hprobes⟩)
  exact ⟨_, if_neg (by simpa [trialLatencies] using hne)⟩

/-- One latency for every trial with the key. -/
theorem size_collect {trials : Nat} (h : Probed records trials) (l : List (TrialPlan × Nat))
    (hl : ∀ e ∈ l, e.2 < trials) (samples : Samples κ) (key : UInt64 × UInt8) :
    (l.foldl (Samples.collect records) samples).size key =
      samples.size key + l.countP (·.1.key = key) := by
  induction l generalizing samples with
  | nil => rfl
  | cons e l ih =>
    obtain ⟨latency, hlatency⟩ := h.latency (κ := κ) (hl e List.mem_cons_self)
    rw [List.foldl_cons, ih fun x hx => hl x (List.mem_cons_of_mem e hx), List.countP_cons,
      Samples.collect, hlatency, Samples.size_push]
    simp only [decide_eq_true_eq]
    omega

theorem size_calibrationSamples (h : Probed records plan.length) (key : UInt64 × UInt8) :
    (calibrationSamples records plan : Samples κ).size key =
      (plan.take (calibrationTrials plan)).countP (·.key = key) := by
  unfold calibrationSamples
  have hlt : ∀ e ∈ (plan.take (calibrationTrials plan)).zipIdx, e.2 < plan.length := by
    intro e he
    have hlt := List.snd_lt_of_mem_zipIdx he
    rw [List.length_take] at hlt
    omega
  rw [size_collect h _ hlt]
  conv_rhs => rw [← List.zipIdx_map_fst 0 (plan.take (calibrationTrials plan)), List.countP_map]
  exact Nat.zero_add _

/-! ## The number of trials -/

theorem count_bothBits (offset : UInt64) {p : TrialPlan} (hbit : p.bit = 0 ∨ p.bit = 1) :
    (bothBits offset).count p = if offset = p.targetOverlapUs then 1 else 0 := by
  obtain ⟨bit, offset'⟩ := p
  rcases hbit with rfl | rfl
  · simp [bothBits, List.count_cons]
  · simp [bothBits, List.count_cons]

/-- Either bit is sampled equally often at an offset. -/
theorem count_calibrationEntries (offsets : List UInt64) {p : TrialPlan}
    (hbit : p.bit = 0 ∨ p.bit = 1) :
    (calibrationEntries offsets).count p =
      calibrationSamplesPerBitAndOffset * offsets.count p.targetOverlapUs := by
  simp only [calibrationEntries, List.count_repeatEach, count_bothBits _ hbit]
  congr 1
  induction offsets with
  | nil => rfl
  | cons offset offsets ih =>
    rw [List.map_cons, List.sum_cons, ih, List.count_cons, Nat.add_comm]
    simp only [beq_iff_eq]

/-- Every offset counts once, however often the profile has it. -/
theorem calibrationTrials_plan (h : buildTrialPlan fuel seed count offsets = .ok plan) :
    calibrationTrials plan = offsets.dedup.length * calibrationSamplesPerBitAndOffset * 2 := by
  rw [calibrationTrials, List.length_eq_dedup (List.nodup_dedup _) fun offset => ?_]
  rw [List.mem_dedup, List.mem_map]
  constructor
  · rintro ⟨p, hp, rfl⟩
    exact (mem_plan h hp).1
  · intro hoffset
    obtain ⟨calibration, scoring, rfl, hcal, -, -⟩ := buildTrialPlan_eq_ok h
    have hmem : ⟨0, offset⟩ ∈ calibrationEntries offsets :=
      mem_calibrationEntries.mpr (mem_combinations.mpr ⟨hoffset, .inl rfl⟩)
    exact ⟨_, List.mem_append_left _ (hcal.mem_iff.mpr hmem), rfl⟩

/-! ## Calibrating on a plan -/

theorem foldlM_calibrateOffset [LE κ] [DecidableLE κ] {samples : Samples κ}
    {l : List UInt64}
    (h : ∀ offset ∈ l, ∀ bit, (bit = 0 ∨ bit = 1) → ∃ x, samples (offset, bit) = some x)
    (byOffset : UInt64 → Option (OffsetCalibration κ)) :
    ∃ byOffset', l.foldlM (calibrateOffset samples) byOffset = .ok byOffset' := by
  induction l generalizing byOffset with
  | nil => exact ⟨byOffset, rfl⟩
  | cons offset l ih =>
    obtain ⟨zero, hzero⟩ := h offset List.mem_cons_self 0 (.inl rfl)
    obtain ⟨one, hone⟩ := h offset List.mem_cons_self 1 (.inr rfl)
    simp only [List.foldlM_cons, calibrateOffset, hzero, hone, Except.pure_eq_ok, Except.ok_bind]
    exact ih (fun x hx => h x (List.mem_cons_of_mem offset hx)) _

theorem calibrate_start [LE κ] [DecidableLE κ] {model : CalibrationModel κ}
    (h : calibrate records plan = .ok model) :
    model.scoringStartsAtTrial = calibrationTrials plan := by
  unfold calibrate at h
  split at h
  · cases h
  · obtain ⟨_, -, h⟩ := Except.bind_eq_ok.mp h
    cases h
    rfl

/-- What `calibrate` is to make of a plan for the offsets: it succeeds, the trials that
it does not score are the calibration entries of the plan, and at every offset of the plan it
has averaged as many zeros as ones, and some. -/
def CalibrationMatches (records : List ClientTimingRecord) (plan : List TrialPlan)
    (offsets : List UInt64) : Prop :=
  ∃ model : CalibrationModel Float, calibrate records plan = .ok model ∧
    model.scoringStartsAtTrial = (calibrationEntries offsets).length ∧
    (plan.take model.scoringStartsAtTrial).Perm (calibrationEntries offsets) ∧
    ∀ p ∈ plan, ∃ zeros ones : List Float,
      calibrationSamples records plan (p.targetOverlapUs, 0) = some zeros ∧
      calibrationSamples records plan (p.targetOverlapUs, 1) = some ones ∧
      0 < zeros.length ∧ zeros.length = ones.length

/-- The calibration part of a plan for distinct offsets is what `calibrate` takes. -/
theorem take_of_nodup (hplan : buildTrialPlan fuel seed count offsets = .ok plan)
    (hnodup : offsets.Nodup) :
    (plan.take (calibrationTrials plan)).Perm (calibrationEntries offsets) ∧
      calibrationTrials plan = (calibrationEntries offsets).length ∧
      calibrationTrials plan ≤ plan.length := by
  have htrials : calibrationTrials plan = (calibrationEntries offsets).length := by
    rw [calibrationTrials_plan hplan, List.length_dedup_eq_iff.mpr hnodup, length_calibrationEntries]
  obtain ⟨calibration, scoring, rfl, hperm, -, -⟩ := buildTrialPlan_eq_ok hplan
  rw [htrials, ← hperm.length_eq, List.take_left]
  exact ⟨hperm, rfl, by simp⟩

/-- When the offsets are distinct, five samples for either bit at every offset. -/
theorem size_of_nodup (hplan : buildTrialPlan fuel seed count offsets = .ok plan)
    (hrecords : Probed records plan.length) (hnodup : offsets.Nodup) {p : TrialPlan}
    (hp : p ∈ combinations offsets) :
    (calibrationSamples records plan : Samples κ).size p.key =
      calibrationSamplesPerBitAndOffset := by
  obtain ⟨hoffset, hbit⟩ := mem_combinations.mp hp
  obtain ⟨hperm, -, -⟩ := take_of_nodup hplan hnodup
  have hkey : (fun q : TrialPlan => decide (q.key = p.key)) = (· == p) := by
    funext q
    simp only [TrialPlan.key_inj, beq_eq_decide]
  rw [size_calibrationSamples hrecords, hkey, ← List.count, hperm.count_eq,
    count_calibrationEntries offsets hbit, List.count_eq_one_of_mem hnodup hoffset, Nat.mul_one]

/-- A repeated offset makes `calibrate` begin to score too early. -/
theorem nodup_of_matches (hplan : buildTrialPlan fuel seed count offsets = .ok plan)
    (h : CalibrationMatches records plan offsets) : offsets.Nodup := by
  obtain ⟨model, hmodel, hstart, -, -⟩ := h
  rw [calibrate_start hmodel, calibrationTrials_plan hplan, length_calibrationEntries] at hstart
  apply List.length_dedup_eq_iff.mp
  simp only [calibrationSamplesPerBitAndOffset] at hstart
  omega

/-- A plan of `run_matrix` and records with a successful probe of every trial: the
calibration is that of the plan exactly when no offset is repeated in the profile. -/
theorem calibration_matches_iff {args : RunArgs} {profile : ExperimentProfile}
    (hplan : planMatrix fuel args profile = .ok plan) (hrecords : Probed records plan.length) :
    CalibrationMatches records plan profile.targetOverlapUs ↔ profile.targetOverlapUs.Nodup := by
  have hbuild : buildTrialPlan fuel args.seed (trialCount args profile) profile.targetOverlapUs =
      .ok plan := by
    unfold planMatrix at hplan
    split at hplan
    · cases hplan
    · exact hplan
  constructor
  · exact nodup_of_matches hbuild
  · intro hnodup
    obtain ⟨hperm, htrials, hle⟩ := take_of_nodup hbuild hnodup
    -- with distinct offsets the samples of both bits have the length planned for them
    have hsample : ∀ p ∈ plan, ∀ bit, (bit = 0 ∨ bit = 1) →
        ∃ x : List Float, calibrationSamples records plan (p.targetOverlapUs, bit) = some x ∧
          x.length = calibrationSamplesPerBitAndOffset := by
      intro p hp bit hbit
      have hsize := size_of_nodup (κ := Float) hbuild hrecords hnodup
        (p := ⟨bit, p.targetOverlapUs⟩)
        (mem_combinations.mpr ⟨(mem_plan hbuild hp).1, hbit⟩)
      obtain ⟨x, hx, hlen⟩ := Samples.exists_of_size_pos (by rw [hsize]; decide)
      exact ⟨x, hx, hlen.trans hsize⟩
    have hoffsets : ∀ offset ∈ (plan.take (calibrationTrials plan)).map (·.targetOverlapUs),
        ∀ bit, (bit = 0 ∨ bit = 1) →
          ∃ x : List Float, calibrationSamples records plan (offset, bit) = some x := by
      intro offset hoffset bit hbit
      obtain ⟨p, hp, rfl⟩ := List.mem_map.mp hoffset
      obtain ⟨x, hx, -⟩ := hsample p (List.mem_of_mem_take hp) bit hbit
      exact ⟨x, hx⟩
    obtain ⟨byOffset, hfold⟩ := foldlM_calibrateOffset hoffsets fun _ => none
    refine ⟨⟨byOffset, calibrationTrials plan⟩, ?_, htrials, hperm, fun p hp => ?_⟩
    · simp only [calibrate, if_neg (Nat.not_lt.mpr hle), hfold, Except.ok_bind, Except.pure_eq_ok]
    · obtain ⟨zeros, hzeros, hz⟩ := hsample p hp 0 (.inl rfl)
      obtain ⟨ones, hones, ho⟩ := hsample p hp 1 (.inr rfl)
      exact ⟨zeros, ones, hzeros, hones, by rw [hz]; decide, hz.trans ho.symm⟩

/-- One successful probe for each of so many trials. -/
def sampleRecords (trials : Nat) : List ClientTimingRecord :=
  (List.range trials).map fun trialId => ⟨UInt64.ofNat trialId, .probe, 0, 1000, 200⟩

theorem probed_sampleRecords : Probed (sampleRecords 64) 64 := by
  unfold Probed
  decide

theorem sample_plan {l : List UInt64} (hne : l ≠ [])
    (hlen : minimumTrials (sampleProfile l) ≤ 64) :
    ∃ fuel plan, planMatrix fuel ⟨none, 1⟩ (sampleProfile l) = .ok plan ∧
      buildTrialPlan fuel 1 64 l = .ok plan ∧ plan.length = 64 := by
  have hle : (calibrationEntries l).length ≤ (64 : UInt64).toNat := by
    rw [length_calibrationEntries, Nat.mul_assoc]
    exact Nat.le_trans (Nat.le_add_right _ _) hlen
  obtain ⟨fuel, plan, h⟩ := buildTrialPlan_terminates 1 hne hle (by decide)
  obtain ⟨_, _, -, -, -, hplan⟩ := buildTrialPlan_eq_ok h
  exact ⟨fuel, plan, (planMatrix_eq hlen).trans h, h, hplan⟩

theorem calibration_matches_three_offsets :
    ∃ fuel plan, planMatrix fuel ⟨none, 1⟩ (sampleProfile [0, 500, 1000]) = .ok plan ∧
      Probed (sampleRecords 64) plan.length ∧
      CalibrationMatches (sampleRecords 64) plan [0, 500, 1000] := by
  obtain ⟨fuel, plan, hplan, -, hlen⟩ := sample_plan (l := [0, 500, 1000]) (by decide) (by decide)
  have hrecords : Probed (sampleRecords 64) plan.length := hlen ▸ probed_sampleRecords
  exact ⟨fuel, plan, hplan, hrecords, (calibration_matches_iff hplan hrecords).mpr (by decide)⟩

/-- With the offset 0 twice in the profile, `calibrate` takes 30 trials where 40 were
planned for it. -/
theorem calibration_repeated_offset :
    validateProfile (sampleProfile [0, 0, 500, 1000]) = .ok () ∧
    ∃ fuel plan, planMatrix fuel ⟨none, 1⟩ (sampleProfile [0, 0, 500, 1000]) = .ok plan ∧
      Probed (sampleRecords 64) plan.length ∧
      ¬ CalibrationMatches (sampleRecords 64) plan [0, 0, 500, 1000] := by
  obtain ⟨fuel, plan, hplan, hbuild, hlen⟩ :=
    sample_plan (l := [0, 0, 500, 1000]) (by decide) (by decide)
  refine ⟨by decide, fuel, plan, hplan, hlen ▸ probed_sampleRecords, fun h => ?_⟩
  exact absurd (nodup_of_matches hbuild h) (by decide)

end BenchClient
