import IshtarOxide.Lib.Groups
import IshtarOxide.BenchClient.Decoding
import IshtarOxide.Campaign.Permutation

/-!
# The report of the bench client

`run_matrix` of crates/bench-client gives the probe records of the trials for scoring their
decoded bits, and `compute_report` makes pairs of expected and decoded bits from them. Of
the report, what is made of the mutual information, the times and the records of the server is
left out.

* `foldlM_decodeTrial`: what the decoding loop writes.
* `scoreMatrix_eq`: what the pairs are.
* `report_scores_eligible`: the report has one pair for every trial that can be scored.
-/

namespace BenchClient.Decoding

/-! ## The model -/

/-- `ClientTimingRecord` with its `decoded_bit`. -/
structure ClientRecord extends ClientTimingRecord where
  decodedBit : Option UInt8
deriving DecidableEq, Repr

/-- What `calibrate` and `decode_bit` read of the records. -/
def timings (records : List ClientRecord) : List ClientTimingRecord :=
  records.map (·.toClientTimingRecord)

/-- A probe of the trial, however it was answered. -/
def ofProbe (trialId : Nat) (record : ClientRecord) : Bool :=
  record.role = .probe && record.trialId.toNat = trialId

/-- `OffsetLeakageSummary`, less the statistics, with the count that its rate is made of. -/
structure OffsetLeakageSummary (κ : Type) where
  targetOverlapUs : UInt64
  calibration : OffsetCalibration κ
  usableTrials : Nat
  errors : Nat
  bitErrorRate : κ
deriving DecidableEq, Repr

/-- `LeakageReport`, less the statistics, with the pairs and counts that its rates are made of. -/
structure LeakageReport (κ : Type) where
  pairs : List ScoredPair
  syntheticBits : List UInt8
  targetOverlapUsByTrial : List UInt64
  totalTrials : Nat
  calibrationTrials : Nat
  usableTrials : Nat
  errors : Nat
  falsePositives : Nat
  falseNegatives : Nat
  bitErrorRate : κ
  falsePositiveRate : κ
  falseNegativeRate : κ
  falseDiscoveryRate : κ
  offsetSummaries : List (OffsetLeakageSummary κ)
  clientRecords : List ClientRecord
deriving DecidableEq, Repr

/-- `decoded_by_trial`. -/
def decodedByTrial (records : List ClientRecord) : UInt64 → Option UInt8 :=
  (records.filter (·.role = .probe)).foldl (fun decoded record =>
    match record.decodedBit with
    -- `entry(record.trial_id).or_insert(bit)`
    | some bit => fun trial =>
      if trial = record.trialId then some ((decoded trial).getD bit) else decoded trial
    | none => decoded) fun _ => none

/-- `sender_succeeded`. -/
def senderSucceeded (records : List ClientRecord) (trial : Nat) : Bool :=
  records.any fun record => record.trialId = UInt64.ofNat trial &&
    (record.role = .sender || record.role = .control) && record.status = 200

/-- `pairs` of `compute_report`. A lookup that fails is a panic. -/
def scoredPairs (records : List ClientRecord) (expectedBits : List UInt8) (plan : List TrialPlan) :
    Option (List ScoredPair) :=
  expectedBits.zipIdx.foldlM (fun pairs (expected, trial) =>
    if senderSucceeded records trial then
      match decodedByTrial records (UInt64.ofNat trial) with
      | some decoded => do
        let planned ← plan[trial]?
        return pairs ++ [⟨expected, decoded, planned.targetOverlapUs⟩]
      | none => some pairs
    else some pairs) []

/-- `errors` of `compute_report`. -/
def errorCount (pairs : List ScoredPair) : Nat := pairs.countP fun p => p.expected ≠ p.decoded

section Numbers

variable {κ : Type} [NatCast κ] [Add κ] [Div κ] [LE κ] [DecidableLE κ]

/-- The decoding loop of `run_matrix`, for one trial. A lookup that fails is a panic. -/
def decodeTrial (plan : List TrialPlan) (model : CalibrationModel κ) (records : List ClientRecord)
    (trialId : Nat) : Option (List ClientRecord) := do
  let probeIndexes := records.indexesWhere (ofProbe trialId)
  let planned ← plan[trialId]?
  let probes ← probeIndexes.mapM fun index => records[index]?
  let decoded := decodeBit (timings probes) planned.targetOverlapUs model
  probeIndexes.foldlM (fun records index =>
    (records[index]?).map fun record => records.set index { record with decodedBit := decoded })
    records

/-- The decoding loop of `run_matrix`. -/
def decodeTrials (plan : List TrialPlan) (trialCount : Nat) (model : CalibrationModel κ)
    (records : List ClientRecord) : Option (List ClientRecord) :=
  (List.range' model.scoringStartsAtTrial (trialCount - model.scoringStartsAtTrial)).foldlM
    (decodeTrial plan model) records

/-- `ratio`. -/
def ratio (n d : Nat) : κ := if d = 0 then ((0 : Nat) : κ) else (n : κ) / (d : κ)

/-- `offset_summaries`. A lookup that fails is a panic. -/
def offsetSummaries (pairs : List ScoredPair) (model : CalibrationModel κ) :
    Option (List (OffsetLeakageSummary κ)) :=
  (pairs.map (·.targetOverlapUs)).sortDedup.mapM fun offset => do
    let selected := pairs.filter (·.targetOverlapUs = offset)
    let calibration ← model.byOffset offset
    return ⟨offset, calibration, selected.length, errorCount selected,
      ratio (errorCount selected) selected.length⟩

/-- `compute_report`. -/
def computeReport (records : List ClientRecord) (expectedBits : List UInt8) (plan : List TrialPlan)
    (model : CalibrationModel κ) (calibrationTrials : Nat) : Option (LeakageReport κ) := do
  let pairs ← scoredPairs records expectedBits plan
  let errors := errorCount pairs
  let zeros := pairs.countP (·.expected = 0)
  let ones := pairs.countP (·.expected = 1)
  let fp := pairs.countP fun p => p.expected = 0 && p.decoded = 1
  let fn := pairs.countP fun p => p.expected = 1 && p.decoded = 0
  let decodedPositive := pairs.countP (·.decoded = 1)
  let summaries ← offsetSummaries pairs model
  return {
    pairs
    syntheticBits := expectedBits
    targetOverlapUsByTrial := plan.map (·.targetOverlapUs)
    totalTrials := expectedBits.length
    calibrationTrials
    usableTrials := pairs.length
    errors
    falsePositives := fp
    falseNegatives := fn
    bitErrorRate := ratio errors pairs.length
    falsePositiveRate := ratio fp zeros
    falseNegativeRate := ratio fn ones
    falseDiscoveryRate := ratio fp decodedPositive
    offsetSummaries := summaries
    clientRecords := records }

/-- `run_matrix` from the records of a plan, whose bits it has taken for expected, to the
report. -/
def scoreMatrix (plan : List TrialPlan) (trialCount : Nat) (model : CalibrationModel κ)
    (records : List ClientRecord) : Option (LeakageReport κ) := do
  let records ← decodeTrials plan trialCount model records
  computeReport records (plan.map (·.bit)) plan model model.scoringStartsAtTrial

end Numbers

/-! ## The decoding loop -/

section Loop

variable {κ : Type} [NatCast κ] [Add κ] [Div κ] [LE κ] [DecidableLE κ] {plan : List TrialPlan}
  {model : CalibrationModel κ} {records : List ClientRecord} {trialId : Nat}

/-- The bit that the probes of a trial are given. -/
def bitOf (plan : List TrialPlan) (model : CalibrationModel κ) (records : List ClientRecord)
    (trialId : Nat) : Option UInt8 :=
  (plan[trialId]?).bind fun planned =>
    decodeBit (trialProbes (timings records) trialId) planned.targetOverlapUs model

/-- The record with the bit of its trial, if it is a probe of one of the trials. -/
def mark (trials : List Nat) (bits : Nat → Option UInt8) (record : ClientRecord) : ClientRecord :=
  if record.role = .probe ∧ record.trialId.toNat ∈ trials then
    { record with decodedBit := bits record.trialId.toNat }
  else record

@[simp] theorem mark_timing (trials : List Nat) (bits : Nat → Option UInt8)
    (record : ClientRecord) :
    (mark trials bits record).toClientTimingRecord = record.toClientTimingRecord := by
  unfold mark
  split
  · rfl
  · rfl

@[simp] theorem timings_mark (trials : List Nat) (bits : Nat → Option UInt8)
    (records : List ClientRecord) : timings (records.map (mark trials bits)) = timings records := by
  simp only [timings, List.map_map, Function.comp_def, mark_timing]

theorem timings_probes (records : List ClientRecord) (trialId : Nat) :
    timings (records.filter (ofProbe trialId)) = trialProbes (timings records) trialId := by
  rw [timings, timings, trialProbes, List.filter_map]
  rfl

theorem decodeTrial_eq (h : trialId < plan.length) :
    decodeTrial plan model records trialId =
      some (records.map (mark [trialId] (bitOf plan model records))) := by
  have hbit : bitOf plan model records trialId = decodeBit (trialProbes (timings records) trialId)
      plan[trialId].targetOverlapUs model := by
    rw [bitOf, List.getElem?_eq_getElem h, Option.bind_some]
  have hindexes : ∀ i ∈ records.indexesWhere (ofProbe trialId), i < records.length := by
    intro i hi
    obtain ⟨_, hx, -⟩ := List.mem_indexesWhere.mp hi
    exact (List.getElem?_eq_some_iff.mp hx).1
  obtain ⟨written, hwritten, hget⟩ := List.foldlM_set
    (f := fun record : ClientRecord =>
      { record with decodedBit := bitOf plan model records trialId })
    (fun _ => rfl) hindexes
  have hmark : written = records.map (mark [trialId] (bitOf plan model records)) := by
    refine List.ext_getElem? fun i => ?_
    rw [hget i, List.getElem?_map]
    cases hrecord : records[i]? with
    | none => rfl
    | some record =>
      have hmem : i ∈ records.indexesWhere (ofProbe trialId) ↔
          record.role = .probe ∧ record.trialId.toNat ∈ [trialId] := by
        simp [List.mem_indexesWhere, hrecord, ofProbe]
      simp only [Option.map_some, hmem, mark]
      split
      · next h => rw [List.mem_singleton.mp h.2]
      · rfl
  simp only [decodeTrial, List.getElem?_eq_getElem h, Option.bind_eq_bind, Option.bind_some,
    List.mapM_indexesWhere, timings_probes, ← hbit]
  rw [hwritten, hmark]

/-- The bits of a trial depend on no decoded bit. -/
theorem bitOf_congr {records' : List ClientRecord} (h : timings records' = timings records) :
    bitOf plan model records' = bitOf plan model records := by
  funext trialId
  rw [bitOf, bitOf, h]

theorem foldlM_decodeTrial {trials : List Nat} (h : ∀ t ∈ trials, t < plan.length)
    (records : List ClientRecord) :
    trials.foldlM (decodeTrial plan model) records =
      some (records.map (mark trials (bitOf plan model records))) := by
  induction trials generalizing records with
  | nil =>
    have hmark : mark [] (bitOf plan model records) = id := by
      funext record
      simp [mark]
    rw [List.foldlM_nil, hmark, List.map_id]
    rfl
  | cons t trials ih =>
    rw [List.foldlM_cons, decodeTrial_eq (h t List.mem_cons_self), Option.bind_eq_bind,
      Option.bind_some, ih fun t' ht' => h t' (List.mem_cons_of_mem t ht'),
      bitOf_congr (timings_mark _ _ records), List.map_map]
    refine congrArg some (List.map_congr_left fun record _ => ?_)
    simp only [Function.comp_apply, mark]
    by_cases hprobe : record.role = .probe
    · by_cases ht : record.trialId.toNat = t
      · simp [hprobe, ht]
      · simp [hprobe, ht]
    · simp [hprobe]

/-- There is a bit where the model has the offset and a probe of the trial succeeded. -/
theorem isSome_bitOf (records : List ClientRecord) {planned : TrialPlan}
    {calibration : OffsetCalibration κ}
    (hplanned : plan[trialId]? = some planned)
    (hmodel : model.byOffset planned.targetOverlapUs = some calibration) :
    (bitOf plan model records trialId).isSome =
      records.any fun record => record.probes trialId := by
  rw [bitOf, hplanned, Option.bind_some, decodeBit_trialProbes, hmodel, Option.bind_some,
    Option.isSome_map, aggregateProbeLatency, trialLatencies, timings, List.filter_map,
    List.map_map]
  cases hfilter : records.filter ((fun r => r.probes trialId) ∘ (·.toClientTimingRecord)) with
  | nil =>
    have hnone : records.any (fun record => record.probes trialId) = false := by
      rw [List.any_eq_false]
      exact fun record hrecord => List.filter_eq_nil_iff.mp hfilter record hrecord
    rw [hnone]
    rfl
  | cons record _ =>
    have hmem := List.mem_filter.mp (hfilter ▸ List.mem_cons_self)
    have hsome : records.any (fun record => record.probes trialId) = true :=
      List.any_eq_true.mpr ⟨record, hmem⟩
    rw [hsome]
    rfl

theorem probe_of_bitOf {bit : UInt8} (h : bitOf plan model records trialId = some bit) :
    ∃ record ∈ records, record.role = .probe ∧ record.trialId.toNat = trialId := by
  obtain ⟨planned, hplanned, h⟩ := Option.bind_eq_some_iff.mp h
  rw [decodeBit_trialProbes] at h
  obtain ⟨calibration, hmodel, -⟩ := Option.bind_eq_some_iff.mp h
  have hsome := isSome_bitOf records hplanned hmodel
  rw [bitOf, hplanned, Option.bind_some, decodeBit_trialProbes, h, Option.isSome_some] at hsome
  obtain ⟨record, hrecord, hprobe⟩ := List.any_eq_true.mp hsome.symm
  simp only [ClientTimingRecord.probes, Bool.and_eq_true, decide_eq_true_eq] at hprobe
  exact ⟨record, hrecord, hprobe.1.2, hprobe.1.1⟩

theorem bitOf_le_one {bit : UInt8} (h : bitOf plan model records trialId = some bit) :
    bit = 0 ∨ bit = 1 := by
  obtain ⟨planned, -, h⟩ := Option.bind_eq_some_iff.mp h
  rw [decodeBit_trialProbes] at h
  obtain ⟨calibration, -, h⟩ := Option.bind_eq_some_iff.mp h
  obtain ⟨latency, -, rfl⟩ := Option.map_eq_some_iff.mp h
  generalize (if calibration.highLatencyIsOne = true then _ else _) = isOne
  cases isOne with
  | false => exact .inl rfl
  | true => exact .inr rfl

end Loop

/-! ## The pairs -/

section Pairs

variable {records : List ClientRecord} {plan : List TrialPlan} {trials : List Nat}
  {bits : Nat → Option UInt8}

/-- The bit of a trial is the first that one of its probes has. -/
theorem decodedByTrial_eq (records : List ClientRecord) (trial : UInt64) :
    decodedByTrial records trial =
      (records.filter fun r => r.role = .probe && r.trialId = trial).findSome? (·.decodedBit) := by
  have hfold : ∀ (l : List ClientRecord) (decoded : UInt64 → Option UInt8),
      l.foldl (fun decoded record =>
        match record.decodedBit with
        | some bit => fun trial =>
          if trial = record.trialId then some ((decoded trial).getD bit) else decoded trial
        | none => decoded) decoded trial =
      (decoded trial).or ((l.filter (·.trialId = trial)).findSome? (·.decodedBit)) := by
    intro l
    induction l with
    | nil => intro decoded; simp
    | cons record l ih =>
      intro decoded
      rw [List.foldl_cons, ih]
      by_cases htrial : record.trialId = trial
      · cases hbit : record.decodedBit with
        | none => simp [htrial, hbit]
        | some bit => cases hd : decoded trial <;> simp [htrial, hbit, hd]
      · cases hbit : record.decodedBit with
        | none => simp [htrial]
        | some bit => simp [htrial, Ne.symm htrial]
  rw [decodedByTrial, hfold, Option.none_or, List.filter_filter]
  simp only [Bool.and_comm]

/-- After the decoding loop, the trials have their bits and no others do. -/
theorem decodedByTrial_mark (hnone : ∀ record ∈ records, record.decodedBit = none)
    (hbits : ∀ t bit, bits t = some bit →
      ∃ record ∈ records, record.role = .probe ∧ record.trialId.toNat = t) (trial : UInt64) :
    decodedByTrial (records.map (mark trials bits)) trial =
      if trial.toNat ∈ trials then bits trial.toNat else none := by
  have hconst : ∀ record ∈ records, record.role = .probe ∧ record.trialId = trial →
      (mark trials bits record).decodedBit =
        if trial.toNat ∈ trials then bits trial.toNat else none := by
    rintro record hrecord ⟨hprobe, rfl⟩
    unfold mark
    by_cases ht : record.trialId.toNat ∈ trials
    · simp [hprobe, ht]
    · simp [ht, hnone record hrecord]
  have hall : ∀ record ∈ (records.map (mark trials bits)).filter
      (fun r => r.role = .probe && r.trialId = trial),
      record.decodedBit = if trial.toNat ∈ trials then bits trial.toNat else none := by
    intro record hrecord
    obtain ⟨hmem, hprobe⟩ := List.mem_filter.mp hrecord
    obtain ⟨before, hbefore, rfl⟩ := List.mem_map.mp hmem
    simp only [mark_timing, Bool.and_eq_true, decide_eq_true_eq] at hprobe
    exact hconst before hbefore hprobe
  rw [decodedByTrial_eq]
  cases hprobes : (records.map (mark trials bits)).filter
      (fun r => r.role = .probe && r.trialId = trial) with
  | cons record rest =>
    have hbit := hall record (hprobes ▸ List.mem_cons_self)
    cases hdecoded : (if trial.toNat ∈ trials then bits trial.toNat else none) with
    | some bit => rw [List.findSome?_cons, hbit, hdecoded]
    | none =>
      rw [List.findSome?_eq_none_iff]
      intro record' hrecord'
      rw [hall record' (hprobes ▸ hrecord'), hdecoded]
  | nil =>
    -- without a probe of the trial there is no bit for it either
    symm
    rw [List.findSome?_nil, ite_eq_right_iff]
    intro _
    by_contra hne
    obtain ⟨bit, hbit⟩ := Option.ne_none_iff_exists'.mp hne
    obtain ⟨record, hrecord, hprobe, ht⟩ := hbits _ bit hbit
    have hmem : mark trials bits record ∈ (records.map (mark trials bits)).filter
        (fun r => r.role = .probe && r.trialId = trial) := by
      refine List.mem_filter.mpr ⟨List.mem_map_of_mem hrecord, ?_⟩
      simp [hprobe, UInt64.toNat_inj.mp ht]
    rw [hprobes] at hmem
    cases hmem

theorem senderSucceeded_mark (trial : Nat) :
    senderSucceeded (records.map (mark trials bits)) trial = senderSucceeded records trial := by
  simp only [senderSucceeded, List.any_map, Function.comp_def, mark_timing]

/-- The pair of a trial, if it is one for scoring. -/
def pairOf (plan : List TrialPlan) (bits : Nat → Option UInt8) (records : List ClientRecord)
    (trial : Nat) : Option ScoredPair :=
  if senderSucceeded records trial then
    (bits trial).bind fun decoded => (plan[trial]?).map fun planned =>
      ⟨planned.bit, decoded, planned.targetOverlapUs⟩
  else none

theorem scoredPairs_congr {decoded : Nat → Option UInt8}
    (hdecoded : ∀ t < plan.length, decodedByTrial records (UInt64.ofNat t) = decoded t) :
    scoredPairs records (plan.map (·.bit)) plan =
      some ((List.range plan.length).filterMap (pairOf plan decoded records)) := by
  have hentry : ∀ x ∈ (plan.map (·.bit)).zipIdx, x.2 < plan.length ∧
      (plan[x.2]?).map (·.bit) = some x.1 := by
    intro x hx
    have hget := List.mem_zipIdx_iff_getElem?.mp hx
    rw [List.getElem?_map] at hget
    have hlt := List.snd_lt_of_mem_zipIdx hx
    simp at hlt
    exact ⟨hlt, hget⟩
  -- a round appends the pair of its trial, if there is one
  have hround : ∀ x ∈ (plan.map (·.bit)).zipIdx, ∀ pairs : List ScoredPair,
      (if senderSucceeded records x.2 then
        match decodedByTrial records (UInt64.ofNat x.2) with
        | some decoded => (do
          let planned ← plan[x.2]?
          return pairs ++ [⟨x.1, decoded, planned.targetOverlapUs⟩] : Option (List ScoredPair))
        | none => some pairs
      else some pairs) = some (pairs ++ (pairOf plan decoded records x.2).toList) := by
    intro x hx pairs
    obtain ⟨hlt, hget⟩ := hentry x hx
    obtain ⟨planned, hplanned, hbit⟩ := Option.map_eq_some_iff.mp hget
    rw [hdecoded x.2 hlt, pairOf, hplanned, ← hbit]
    split
    · cases decoded x.2 with
      | none => simp
      | some bit => simp
    · simp
  have hmap : (plan.map (·.bit)).zipIdx.filterMap (fun x => pairOf plan decoded records x.2) =
      (List.range plan.length).filterMap (pairOf plan decoded records) := by
    rw [List.range_eq_range', ← List.length_map (·.bit), ← List.zipIdx_map_snd, List.filterMap_map]
    rfl
  rw [scoredPairs, List.foldlM_concat hround, List.nil_append, hmap]

/-- The pairs are those of the trials for scoring, in their order. -/
theorem scoredPairs_mark (hnone : ∀ record ∈ records, record.decodedBit = none)
    (hbits : ∀ t bit, bits t = some bit →
      ∃ record ∈ records, record.role = .probe ∧ record.trialId.toNat = t)
    (hlen : plan.length < 2 ^ 64) {start : Nat} (hstart : start ≤ plan.length) :
    scoredPairs (records.map (mark (List.range' start (plan.length - start)) bits))
        (plan.map (·.bit)) plan =
      some ((List.range' start (plan.length - start)).filterMap (pairOf plan bits records)) := by
  let trials := List.range' start (plan.length - start)
  have hdecoded : ∀ t < plan.length,
      decodedByTrial (records.map (mark trials bits)) (UInt64.ofNat t) =
        if t ∈ trials then bits t else none := by
    intro t ht
    rw [decodedByTrial_mark hnone hbits, UInt64.toNat_ofNat_of_lt' (Nat.lt_trans ht hlen)]
  have hsplit : List.range plan.length = List.range' 0 start ++ trials := by
    have happend : List.range' 0 start ++ List.range' (0 + start) (plan.length - start) =
        List.range' 0 (start + (plan.length - start)) := List.range'_append_1
    rw [Nat.zero_add, Nat.add_sub_cancel' hstart] at happend
    rw [List.range_eq_range', ← happend]
  have hbefore : (List.range' 0 start).filterMap (pairOf plan (fun t =>
      if t ∈ trials then bits t else none) (records.map (mark trials bits))) = [] := by
    rw [List.filterMap_eq_nil_iff]
    intro t ht
    have hnot : t ∉ trials := by
      simp only [List.mem_range'_1, trials] at ht ⊢
      omega
    simp [pairOf, hnot]
  rw [scoredPairs_congr hdecoded, hsplit, List.filterMap_append, hbefore, List.nil_append]
  refine congrArg some (List.filterMap_congr fun t ht => ?_)
  rw [pairOf, pairOf, senderSucceeded_mark, if_pos ht]

end Pairs

/-! ## The report -/

section Report

variable {κ : Type} [NatCast κ] [Div κ] {plan : List TrialPlan} {model : CalibrationModel κ}
  {records : List ClientRecord} {pairs : List ScoredPair}

/-- Every pair is counted in the summary of its offset. -/
theorem offsetSummaries_eq (model : CalibrationModel κ)
    (h : ∀ p ∈ pairs, (model.byOffset p.targetOverlapUs).isSome) :
    ∃ summaries, offsetSummaries pairs model = some summaries ∧
      (summaries.map (·.usableTrials)).sum = pairs.length ∧
      (summaries.map (·.errors)).sum = errorCount pairs := by
  let offsets := (pairs.map (·.targetOverlapUs)).sortDedup
  let selected := fun offset => pairs.filter (·.targetOverlapUs = offset)
  have hsummary : ∀ offset ∈ offsets, ∃ summary, (do
      let calibration ← model.byOffset offset
      return ⟨offset, calibration, (selected offset).length, errorCount (selected offset),
        ratio (errorCount (selected offset)) (selected offset).length⟩ :
          Option (OffsetLeakageSummary κ)) = some summary ∧
      summary.usableTrials = (selected offset).length ∧
      summary.errors = errorCount (selected offset) := by
    intro offset hoffset
    obtain ⟨p, hp, rfl⟩ := List.mem_map.mp (List.mem_sortDedup.mp hoffset)
    obtain ⟨calibration, hcalibration⟩ := Option.isSome_iff_exists.mp (h p hp)
    rw [hcalibration]
    exact ⟨_, rfl, rfl, rfl⟩
  obtain ⟨summaries, hsummaries, hall⟩ := List.exists_mapM hsummary
  -- every pair is selected for one offset
  refine ⟨summaries, hsummaries, ?_, ?_⟩
  · rw [← hall.map_eq (f := fun offset => (selected offset).length) fun _ _ hs => hs.1.symm]
    exact List.sum_length_groupOn _ pairs
  · rw [← hall.map_eq (f := fun offset => errorCount (selected offset)) fun _ _ hs => hs.2.symm]
    exact List.sum_countP_groupOn _ _ pairs

theorem computeReport_eq {expectedBits : List UInt8} {summaries : List (OffsetLeakageSummary κ)}
    (start : Nat)
    (hpairs : scoredPairs records expectedBits plan = some pairs)
    (hsummaries : offsetSummaries pairs model = some summaries) :
    ∃ report, computeReport records expectedBits plan model start = some report ∧
      report.pairs = pairs ∧ report.usableTrials = pairs.length ∧
      report.errors = errorCount pairs ∧
      report.falsePositives = pairs.countP (fun p => p.expected = 0 && p.decoded = 1) ∧
      report.falseNegatives = pairs.countP (fun p => p.expected = 1 && p.decoded = 0) ∧
      report.offsetSummaries = summaries := by
  simp only [computeReport, hpairs, hsummaries, Option.bind_eq_bind, Option.bind_some]
  exact ⟨_, rfl, rfl, rfl, rfl, rfl, rfl, rfl⟩

variable [Add κ] [LE κ] [DecidableLE κ]

/-- Both the sender's turn and a probe of the trial succeeded. -/
def eligible (records : List ClientRecord) (trial : Nat) : Bool :=
  senderSucceeded records trial && records.any fun record => record.probes trial

/-- What a report is to be: it has one pair for every eligible trial for scoring, in their order,
with what was planned for it and the bit that was decoded; and its counts add up. -/
structure ScoresEligible (plan : List TrialPlan) (model : CalibrationModel κ)
    (records : List ClientRecord) (report : LeakageReport κ) : Prop where
  pairs : List.Forall₂ (fun trial pair => ∃ planned, plan[trial]? = some planned ∧
      pair.expected = planned.bit ∧ pair.targetOverlapUs = planned.targetOverlapUs ∧
      decodeBit (trialProbes (timings records) trial) planned.targetOverlapUs model =
        some pair.decoded)
    ((List.range' model.scoringStartsAtTrial (plan.length - model.scoringStartsAtTrial)).filter
      (eligible records)) report.pairs
  usable : report.usableTrials = report.pairs.length ∧
    (report.offsetSummaries.map (·.usableTrials)).sum = report.usableTrials
  errors : report.errors = errorCount report.pairs ∧
    report.errors = report.falsePositives + report.falseNegatives ∧
    (report.offsetSummaries.map (·.errors)).sum = report.errors

theorem isSome_pairOf {trial : Nat} {planned : TrialPlan} {calibration : OffsetCalibration κ}
    (hplanned : plan[trial]? = some planned)
    (hmodel : model.byOffset planned.targetOverlapUs = some calibration) :
    (pairOf plan (bitOf plan model records) records trial).isSome = eligible records trial := by
  rw [pairOf, eligible, ← isSome_bitOf records hplanned hmodel, hplanned]
  cases senderSucceeded records trial with
  | false => rfl
  | true => cases bitOf plan model records trial <;> rfl

theorem pairOf_eq_some {bits : Nat → Option UInt8} {trial : Nat} {pair : ScoredPair}
    (h : pairOf plan bits records trial = some pair) :
    ∃ planned, plan[trial]? = some planned ∧ bits trial = some pair.decoded ∧
      pair.expected = planned.bit ∧ pair.targetOverlapUs = planned.targetOverlapUs := by
  unfold pairOf at h
  split at h
  · obtain ⟨decoded, hdecoded, h⟩ := Option.bind_eq_some_iff.mp h
    obtain ⟨planned, hplanned, rfl⟩ := Option.map_eq_some_iff.mp h
    exact ⟨planned, hplanned, hdecoded, rfl, rfl⟩
  · cases h

/-- The pairs of the trials for scoring. -/
def pairsOf (plan : List TrialPlan) (model : CalibrationModel κ) (records : List ClientRecord) :
    List ScoredPair :=
  (List.range' model.scoringStartsAtTrial (plan.length - model.scoringStartsAtTrial)).filterMap
    (pairOf plan (bitOf plan model records) records)

/-- A report, when the model has every offset of the plan. -/
theorem scoreMatrix_eq (hlen : plan.length < 2 ^ 64)
    (hstart : model.scoringStartsAtTrial ≤ plan.length)
    (hmodel : ∀ p ∈ plan, (model.byOffset p.targetOverlapUs).isSome)
    (hbits : ∀ p ∈ plan, p.bit = 0 ∨ p.bit = 1)
    (hnone : ∀ record ∈ records, record.decodedBit = none) :
    ∃ report, scoreMatrix plan plan.length model records = some report ∧
      report.pairs = pairsOf plan model records ∧ ScoresEligible plan model records report := by
  have htrials : ∀ t ∈ List.range' model.scoringStartsAtTrial
      (plan.length - model.scoringStartsAtTrial), t < plan.length := by
    intro t ht
    rw [List.mem_range'_1] at ht
    omega
  have hprobe : ∀ t bit, bitOf plan model records t = some bit →
      ∃ record ∈ records, record.role = .probe ∧ record.trialId.toNat = t :=
    fun _ _ h => probe_of_bitOf h
  have hpairs := scoredPairs_mark hnone hprobe hlen hstart
  have hpair : ∀ p ∈ pairsOf plan model records, (model.byOffset p.targetOverlapUs).isSome ∧
      (p.expected = 0 ∨ p.expected = 1) ∧ (p.decoded = 0 ∨ p.decoded = 1) := by
    intro p hp
    obtain ⟨t, -, ht⟩ := List.mem_filterMap.mp hp
    obtain ⟨planned, hplanned, hbit, hexpected, hoffset⟩ := pairOf_eq_some ht
    rw [hexpected, hoffset]
    have hmem := List.mem_of_getElem? hplanned
    exact ⟨hmodel planned hmem, hbits planned hmem, bitOf_le_one hbit⟩
  obtain ⟨summaries, hsummaries, husable, herrors⟩ :=
    offsetSummaries_eq model fun p hp => (hpair p hp).1
  -- both are bits, so a wrong one is wrong in one of two ways
  have hcounts : errorCount (pairsOf plan model records) =
      (pairsOf plan model records).countP (fun p => p.expected = 0 && p.decoded = 1) +
        (pairsOf plan model records).countP (fun p => p.expected = 1 && p.decoded = 0) := by
    refine List.countP_eq_add fun p hp => ?_
    obtain ⟨-, hexpected, hdecoded⟩ := hpair p hp
    rcases hexpected with he | he
    · rcases hdecoded with hd | hd
      · simp [he, hd]
      · simp [he, hd]
    · rcases hdecoded with hd | hd
      · simp [he, hd]
      · simp [he, hd]
  -- a trial has a pair exactly if it can be scored
  have hforall : List.Forall₂ (fun trial pair =>
      pairOf plan (bitOf plan model records) records trial = some pair)
      ((List.range' model.scoringStartsAtTrial
        (plan.length - model.scoringStartsAtTrial)).filter (eligible records))
      (pairsOf plan model records) := by
    refine List.forall₂_filterMap fun t ht => ?_
    have hplanned := List.getElem?_eq_getElem (htrials t ht)
    obtain ⟨calibration, hcalibration⟩ :=
      Option.isSome_iff_exists.mp (hmodel _ (List.getElem_mem (htrials t ht)))
    exact isSome_pairOf hplanned hcalibration
  obtain ⟨report, hreport, hreported, hcount, herrorCount, hfp, hfn, hsummed⟩ :=
    computeReport_eq model.scoringStartsAtTrial hpairs hsummaries
  refine ⟨report, ?_, hreported, ⟨?_, ?_, ?_⟩⟩
  · rw [scoreMatrix, decodeTrials, foldlM_decodeTrial htrials, Option.bind_eq_bind,
      Option.bind_some, hreport]
  · rw [hreported]
    refine hforall.imp fun trial pair h => ?_
    obtain ⟨planned, hplanned, hbit, hexpected, hoffset⟩ := pairOf_eq_some h
    rw [bitOf, hplanned, Option.bind_some] at hbit
    exact ⟨planned, hplanned, hexpected, hoffset, hbit⟩
  · rw [hcount, hreported, hsummed]
    exact ⟨rfl, husable⟩
  · rw [herrorCount, hreported, hfp, hfn, hsummed]
    exact ⟨rfl, hcounts, herrors⟩

end Report

/-! ## Reports of plans -/

section Plans

variable {fuel : Nat} {seed count : UInt64} {offsets : List UInt64} {plan : List TrialPlan}

/-- A model that was calibrated for a plan of distinct offsets has all of them. -/
theorem byOffset_of_calibrate {κ : Type} [NatCast κ] [Add κ] [Div κ] [LE κ] [DecidableLE κ]
    {model : CalibrationModel κ} {calibrated : List ClientTimingRecord}
    (hplan : buildTrialPlan fuel seed count offsets = .ok plan) (hoffsets : offsets.Nodup)
    (hmodel : calibrate calibrated plan = .ok model) (p : TrialPlan) (hp : p ∈ plan) :
    (model.byOffset p.targetOverlapUs).isSome := by
  obtain ⟨-, -, rfl⟩ := calibrate_eq_ok_iff.mp hmodel
  obtain ⟨hperm, -, -⟩ := take_of_nodup hplan hoffsets
  have hmem : ⟨0, p.targetOverlapUs⟩ ∈ plan.take (calibrationTrials plan) :=
    hperm.mem_iff.mpr (mem_calibrationEntries.mpr
      (mem_combinations.mpr ⟨(mem_plan hplan hp).1, .inl rfl⟩))
  have hoffset : p.targetOverlapUs ∈ calibrationOffsets plan :=
    List.mem_map.mpr ⟨_, hmem, rfl⟩
  simp [modelOf, hoffset]

/-- With a successful probe of every trial there is a model. -/
theorem calibrate_of_probed {κ : Type} [NatCast κ] [Add κ] [Div κ] [LE κ] [DecidableLE κ]
    {records : List ClientTimingRecord}
    (hplan : buildTrialPlan fuel seed count offsets = .ok plan) (hoffsets : offsets.Nodup)
    (hprobed : Probed records plan.length) :
    calibrate records plan = .ok (modelOf records plan : CalibrationModel κ) := by
  obtain ⟨hperm, -, hle⟩ := take_of_nodup hplan hoffsets
  have hobserved : ∀ p ∈ plan.take (calibrationTrials plan), ∀ bit, (bit = 0 ∨ bit = 1) →
      (calibrationLatencies records plan (p.targetOverlapUs, bit) : List κ) ≠ [] := by
    intro p hp bit hbit
    have hmem : ⟨bit, p.targetOverlapUs⟩ ∈ plan.take (calibrationTrials plan) :=
      hperm.mem_iff.mpr (mem_calibrationEntries.mpr
        (mem_combinations.mpr ⟨(mem_plan hplan (List.mem_of_mem_take hp)).1, hbit⟩))
    obtain ⟨trialId, hlt, hget⟩ := List.getElem_of_mem hmem
    have hprobe := hprobed trialId (by
      rw [List.length_take] at hlt
      omega)
    have hplanned : (plan.take (calibrationTrials plan))[trialId]? =
        some ⟨bit, p.targetOverlapUs⟩ := hget ▸ List.getElem?_eq_getElem hlt
    exact calibrationLatencies_ne_nil hplanned hprobe
  refine calibrate_eq_ok_iff.mpr ⟨hle, fun offset hoffset => ?_, rfl⟩
  obtain ⟨p, hp, rfl⟩ := List.mem_map.mp hoffset
  exact ⟨hobserved p hp 0 (.inl rfl), hobserved p hp 1 (.inr rfl)⟩

theorem scoreMatrix_of_calibrate {κ : Type} [NatCast κ] [Add κ] [Div κ] [LE κ] [DecidableLE κ]
    {model : CalibrationModel κ} {calibrated : List ClientTimingRecord}
    {records : List ClientRecord} (hplan : buildTrialPlan fuel seed count offsets = .ok plan)
    (hoffsets : offsets.Nodup) (hmodel : calibrate calibrated plan = .ok model)
    (hnone : ∀ record ∈ records, record.decodedBit = none) :
    ∃ report, scoreMatrix plan count.toNat model records = some report ∧
      report.pairs = pairsOf plan model records ∧ ScoresEligible plan model records report := by
  obtain ⟨_, _, -, -, -, hlen⟩ := buildTrialPlan_eq_ok hplan
  have hstart : model.scoringStartsAtTrial ≤ plan.length := by
    obtain ⟨hle, -, rfl⟩ := calibrate_eq_ok_iff.mp hmodel
    exact hle
  rw [← hlen]
  exact scoreMatrix_eq (hlen ▸ count.toNat_lt) hstart (byOffset_of_calibrate hplan hoffsets hmodel)
    (fun p hp => (mem_plan hplan hp).2) hnone

theorem timings_perm {records records' : List ClientRecord} (h : records'.Perm records) :
    (timings records').Perm (timings records) :=
  h.map _

theorem pairsOf_perm {records records' : List ClientRecord} (h : records'.Perm records)
    (plan : List TrialPlan) (model : CalibrationModel ℚ) :
    pairsOf plan model records' = pairsOf plan model records := by
  have hbits : bitOf plan model records' = bitOf plan model records := by
    funext trial
    simp only [bitOf, decodeBit_trialProbes, aggregateProbeLatency_perm (timings_perm h)]
  have hsender : senderSucceeded records' = senderSucceeded records :=
    funext fun trial => h.any_eq
  rw [pairsOf, pairsOf, hbits]
  refine List.filterMap_congr fun trial _ => ?_
  rw [pairOf, pairOf, hsender]

/-- The report of a plan for distinct offsets, whatever records the model was calibrated with:
no lookup fails, and it scores every eligible trial from the end of the calibration entries on,
and only these, once. With exact latencies the order of the records is of no matter. -/
theorem report_scores_eligible (hplan : buildTrialPlan fuel seed count offsets = .ok plan)
    (hoffsets : offsets.Nodup) :
    (∀ {κ : Type} [NatCast κ] [Add κ] [Div κ] [LE κ] [DecidableLE κ] (model : CalibrationModel κ)
      (calibrated : List ClientTimingRecord) (records : List ClientRecord),
      calibrate calibrated plan = .ok model →
      (∀ record ∈ records, record.decodedBit = none) →
      model.scoringStartsAtTrial = (calibrationEntries offsets).length ∧
        plan.length = count.toNat ∧
        ∃ report, scoreMatrix plan count.toNat model records = some report ∧
          ScoresEligible plan model records report) ∧
    ∀ (model : CalibrationModel ℚ) (calibrated calibrated' : List ClientTimingRecord)
      (records records' : List ClientRecord),
      calibrate calibrated plan = .ok model →
      (∀ record ∈ records, record.decodedBit = none) →
      calibrated'.Perm calibrated → records'.Perm records →
      calibrate calibrated' plan = .ok model ∧
        (scoreMatrix plan count.toNat model records').map (·.pairs) =
          (scoreMatrix plan count.toNat model records).map (·.pairs) := by
  constructor
  · intro κ _ _ _ _ _ model calibrated records hmodel hnone
    obtain ⟨_, _, -, -, -, hlen⟩ := buildTrialPlan_eq_ok hplan
    obtain ⟨report, hreport, -, hscores⟩ := scoreMatrix_of_calibrate hplan hoffsets hmodel hnone
    refine ⟨?_, hlen, report, hreport, hscores⟩
    obtain ⟨-, -, rfl⟩ := calibrate_eq_ok_iff.mp hmodel
    exact (take_of_nodup hplan hoffsets).2.1
  · intro model calibrated calibrated' records records' hmodel hnone hcalibrated hrecords
    have hnone' : ∀ record ∈ records', record.decodedBit = none :=
      fun record hrecord => hnone record (hrecords.mem_iff.mp hrecord)
    obtain ⟨report, hreport, hpairs, -⟩ := scoreMatrix_of_calibrate hplan hoffsets hmodel hnone
    obtain ⟨report', hreport', hpairs', -⟩ := scoreMatrix_of_calibrate hplan hoffsets hmodel hnone'
    refine ⟨(calibrate_perm hcalibrated plan).trans hmodel, ?_⟩
    rw [hreport, hreport', Option.map_some, Option.map_some, hpairs, hpairs',
      pairsOf_perm hrecords]

/-- A successful turn of a probe and one of the sender for each of so many trials. -/
def sampleClientRecords (trials : Nat) : List ClientRecord :=
  (BenchClient.sampleRecords trials).flatMap fun record =>
    [⟨record, none⟩, ⟨{ record with role := .sender }, none⟩]

theorem report_scores_eligible_sample :
    ∃ fuel plan, buildTrialPlan fuel 1 64 [0, 500, 1000] = .ok plan ∧
      ∃ model : CalibrationModel ℚ,
        calibrate (timings (sampleClientRecords 64)) plan = .ok model ∧
        ∃ report, scoreMatrix plan 64 model (sampleClientRecords 64) = some report ∧
          ScoresEligible plan model (sampleClientRecords 64) report := by
  have hoffsets : ([0, 500, 1000] : List UInt64).Nodup := by decide
  obtain ⟨fuel, plan, -, hplan, hlen⟩ :=
    sample_plan (by decide : ([0, 500, 1000] : List UInt64) ≠ []) (by decide)
  have hprobed : Probed (timings (sampleClientRecords 64)) plan.length := by
    rw [hlen]
    intro trialId htrialId
    obtain ⟨record, hrecord, hprobe⟩ := probed_sampleRecords trialId htrialId
    have hmem : ⟨record, none⟩ ∈ sampleClientRecords 64 :=
      List.mem_flatMap.mpr ⟨record, hrecord, List.mem_cons_self⟩
    exact ⟨record, List.mem_map.mpr ⟨_, hmem, rfl⟩, hprobe⟩
  have hmodel := calibrate_of_probed (κ := ℚ) hplan hoffsets hprobed
  have hnone : ∀ record ∈ sampleClientRecords 64, record.decodedBit = none := by
    intro record hrecord
    obtain ⟨_, -, hrecord⟩ := List.mem_flatMap.mp hrecord
    simp only [List.mem_cons, List.not_mem_nil, or_false] at hrecord
    rcases hrecord with rfl | rfl
    · rfl
    · rfl
  obtain ⟨-, -, hreport⟩ := (report_scores_eligible hplan hoffsets).1 _ _ _ hmodel hnone
  exact ⟨fuel, plan, hplan, _, hmodel, hreport⟩

end Plans

end BenchClient.Decoding
