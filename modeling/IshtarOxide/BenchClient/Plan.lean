import IshtarOxide.Lib.Result
import IshtarOxide.Lib.Tally
import IshtarOxide.Lib.Shuffle

/-!
# The trial plan of the bench client

`run_matrix` of crates/bench-client takes a profile from the server, works out how
many trials to run and plans them with `build_trial_plan`: a shuffled calibration
part, then shuffled blocks for scoring.

* `buildTrialPlan_eq_ok`: what a plan consists of.
* `planning_terminates_iff`: when there is one.
-/

namespace BenchClient

/-! ## Profiles -/

/-- `ExperimentProfile` of crates/protocol, less the fields that neither its check nor
the client's planning reads. -/
structure ExperimentProfile where
  id : String
  attackerFavorable : Bool
  maxParallelTurns : Nat
  trials : UInt64
  syntheticBits : UInt64
  turnFuel : UInt64
  wasmMemoryPages : UInt32
  fixedResponseBytes : Nat
  dispatchJitterMinUs : UInt64
  dispatchJitterMaxUs : UInt64
  releaseEpochUs : UInt64
  targetOverlapUs : List UInt64
  sessionIdleExpiryMs : UInt64
  requestTimeoutMs : UInt64
deriving DecidableEq, Repr

/-- `DEFAULT_IDLE_EXPIRY_MS`. -/
def defaultIdleExpiryMs : UInt64 := 300000

/-- `[a-z0-9-]`. -/
def idByte (b : UInt8) : Bool := (97 ≤ b && b ≤ 122) || (48 ≤ b && b ≤ 57) || b = 45

/-- `validate_profile`. -/
def validateProfile (profile : ExperimentProfile) : Except String Unit := do
  let id := profile.id.toUTF8.data.toList
  if id.isEmpty ∨ 64 < id.length ∨ id.all idByte = false then
    throw "profile id must match [a-z0-9-]\x7b1,64\x7d"
  if ¬ (1 ≤ profile.maxParallelTurns ∧ profile.maxParallelTurns ≤ 256) then
    throw "max_parallel_turns must be 1..=256"
  if ¬ (64 ≤ profile.fixedResponseBytes ∧ profile.fixedResponseBytes ≤ 4096) then
    throw "fixed_response_bytes must be 64..=4096"
  if profile.turnFuel = 0 ∨ profile.requestTimeoutMs = 0 ∨ profile.wasmMemoryPages = 0 then
    throw "fuel, timeout, and memory limits must be nonzero"
  if profile.dispatchJitterMaxUs < profile.dispatchJitterMinUs then
    throw "dispatch jitter bounds are reversed"
  if profile.targetOverlapUs.isEmpty ∨ profile.targetOverlapUs.contains 0 = false ∨
      profile.targetOverlapUs.any (fun v => 0 < v && v < 1000) = false ∨
      profile.targetOverlapUs.any (fun v => 1000 ≤ v) = false then
    throw "target_overlap_us must contain zero, sub-ms, and long-overlap values"
  if profile.attackerFavorable = false then
    if profile.releaseEpochUs = 0 then
      throw "realistic profiles require response quantization"
    if defaultIdleExpiryMs < profile.sessionIdleExpiryMs then
      throw "realistic profiles may not exceed five-minute idle expiry"

/-! ## Planning -/

/-- `CALIBRATION_SAMPLES_PER_BIT_AND_OFFSET`. -/
def calibrationSamplesPerBitAndOffset : Nat := 5

/-- `TrialPlan`. -/
structure TrialPlan where
  bit : UInt8
  targetOverlapUs : UInt64
deriving DecidableEq, Repr

/-- `size_of::<TrialPlan>()`. -/
def trialPlanBytes : Nat := 16

/-- Subtraction of lengths. Where it overflows it panics, or without overflow checks
gives a length that no vector has room for. -/
def subtract (a b : Nat) : Except Stop Nat := if b ≤ a then .ok (a - b) else .error .panic

/-- `random_index`. -/
def randomIndex (state : UInt64) (upper : Nat) : Nat × UInt64 :=
  Shuffle.Source.xorshift.draw state upper

/-- `shuffle`. -/
def shuffle {α : Type} (values : List α) (state : UInt64) : List α × UInt64 :=
  Shuffle.shuffle .xorshift values state

/-- Both bits at an offset. -/
def bothBits (offset : UInt64) : List TrialPlan := [⟨0, offset⟩, ⟨1, offset⟩]

/-- The entries that `build_trial_plan` generates for calibration, before it shuffles
them. -/
def calibrationEntries (offsets : List UInt64) : List TrialPlan :=
  offsets.repeatEach calibrationSamplesPerBitAndOffset bothBits

/-- `combinations` of `build_trial_plan`. -/
def combinations (offsets : List UInt64) : List TrialPlan := offsets.flatMap bothBits

/-- The first state of the generator of `build_trial_plan`. -/
def planState (seed : UInt64) : UInt64 := max seed 1 ^^^ 0x63616c6962726174

/-- `build_trial_plan`, with `fuel` tests of the condition of its loop. -/
def buildTrialPlan (fuel : Nat) (seed trialCount : UInt64) (offsets : List UInt64) :
    Except Stop (List TrialPlan) := do
  let calibrationLen := offsets.length * calibrationSamplesPerBitAndOffset * 2
  Vec.reserve trialPlanBytes calibrationLen
  let (calibration, state) := shuffle (calibrationEntries offsets) (planState seed)
  let scoringLen ← subtract trialCount.toNat calibrationLen
  Vec.reserve trialPlanBytes scoringLen
  let some (scoring, _) := Shuffle.fill .xorshift (combinations offsets) scoringLen fuel [] state
    | throw .running
  Vec.reserve trialPlanBytes (calibration.length + scoring.length)
  return calibration ++ scoring

/-- The arguments of `run_matrix` that its planning reads. -/
structure RunArgs where
  trials : Option UInt64
  seed : UInt64
deriving DecidableEq, Repr

/-- `trial_count` of `run_matrix`. -/
def trialCount (args : RunArgs) (profile : ExperimentProfile) : UInt64 :=
  min (args.trials.getD profile.trials) profile.syntheticBits

/-- `minimum_trials` of `run_matrix`; a `Vec<u64>` is too short for its arithmetic to
overflow. -/
def minimumTrials (profile : ExperimentProfile) : Nat :=
  profile.targetOverlapUs.length * (calibrationSamplesPerBitAndOffset * 2) + 8

/-- `run_matrix` from the profile to the plan. -/
def planMatrix (fuel : Nat) (args : RunArgs) (profile : ExperimentProfile) :
    Except Stop (List TrialPlan) := do
  if (trialCount args profile).toNat < minimumTrials profile then
    throw (.error (s!"at least {minimumTrials profile} trials are required to calibrate both bits " ++
      "at every overlap offset and retain scoring trials"))
  buildTrialPlan fuel args.seed (trialCount args profile) profile.targetOverlapUs

/-! ## What a plan consists of -/

variable {fuel : Nat} {seed count : UInt64} {offsets : List UInt64} {plan : List TrialPlan}
  {p : TrialPlan}

theorem mem_combinations :
    p ∈ combinations offsets ↔ p.targetOverlapUs ∈ offsets ∧ (p.bit = 0 ∨ p.bit = 1) := by
  obtain ⟨bit, offset⟩ := p
  simp only [combinations, bothBits, List.mem_flatMap, List.mem_cons, List.not_mem_nil, or_false,
    TrialPlan.mk.injEq]
  constructor
  · rintro ⟨x, hx, ⟨rfl, rfl⟩ | ⟨rfl, rfl⟩⟩
    · exact ⟨hx, .inl rfl⟩
    · exact ⟨hx, .inr rfl⟩
  · rintro ⟨hx, rfl | rfl⟩
    · exact ⟨offset, hx, .inl ⟨rfl, rfl⟩⟩
    · exact ⟨offset, hx, .inr ⟨rfl, rfl⟩⟩

theorem mem_calibrationEntries : p ∈ calibrationEntries offsets ↔ p ∈ combinations offsets :=
  List.mem_repeatEach (by decide)

@[simp] theorem length_calibrationEntries (offsets : List UInt64) :
    (calibrationEntries offsets).length =
      offsets.length * calibrationSamplesPerBitAndOffset * 2 :=
  List.length_repeatEach fun _ => rfl

theorem subtract_eq_ok {a b c : Nat} : subtract a b = .ok c ↔ b ≤ a ∧ a - b = c := by
  unfold subtract
  split
  · next h => simp [h]
  · next h => simp [h]

/-- The seeded generator's shuffle of the calibration entries. -/
def shuffledCalibration (seed : UInt64) (offsets : List UInt64) : List TrialPlan × UInt64 :=
  shuffle (calibrationEntries offsets) (planState seed)

theorem shuffledCalibration_perm (seed : UInt64) (offsets : List UInt64) :
    (shuffledCalibration seed offsets).1.Perm (calibrationEntries offsets) :=
  Shuffle.shuffle_perm _ _ _

/-- A plan comes about when it has room in memory and the loop comes to its end. -/
theorem buildTrialPlan_eq_ok_iff :
    buildTrialPlan fuel seed count offsets = .ok plan ↔
      (calibrationEntries offsets).length ≤ count.toNat ∧
      count.toNat * trialPlanBytes ≤ Vec.maxBytes ∧
      ∃ scoring, Shuffle.fill .xorshift (combinations offsets)
          (count.toNat - (calibrationEntries offsets).length) fuel []
          (shuffledCalibration seed offsets).2 = some scoring ∧
        (shuffledCalibration seed offsets).1 ++ scoring.1 = plan := by
  have hlen := (shuffledCalibration_perm seed offsets).length_eq
  simp only [buildTrialPlan, Except.bind_eq_ok, Vec.reserve_eq_ok, subtract_eq_ok]
  rw [← shuffledCalibration, ← length_calibrationEntries]
  constructor
  · rintro ⟨_, -, _, ⟨hle, rfl⟩, _, -, h⟩
    split at h
    · next scoring state hfill =>
      rw [Except.bind_eq_ok] at h
      obtain ⟨_, hroom, h⟩ := h
      cases h
      obtain ⟨_, -, -, hscoring⟩ := Shuffle.fill_eq_some hfill
      have hsum : (calibrationEntries offsets).length + scoring.length = count.toNat := by
        rw [hscoring, List.length_nil]
        omega
      rw [Vec.reserve_eq_ok, hlen, hsum] at hroom
      exact ⟨hle, hroom, _, hfill, rfl⟩
    · cases h
  · rintro ⟨hle, hroom, ⟨scoring, state⟩, hfill, rfl⟩
    obtain ⟨_, -, -, hscoring⟩ := Shuffle.fill_eq_some hfill
    have hsum : (calibrationEntries offsets).length + scoring.length = count.toNat := by
      rw [hscoring, List.length_nil]
      omega
    refine ⟨(), Nat.le_trans (Nat.mul_le_mul_right _ hle) hroom, _, ⟨hle, rfl⟩, (),
      Nat.le_trans (Nat.mul_le_mul_right _ (Nat.sub_le _ _)) hroom, ?_⟩
    simp only [hfill, Except.bind_eq_ok, Vec.reserve_eq_ok, hlen, hsum]
    exact ⟨(), hroom, rfl⟩

/-- The shuffled calibration entries and then combinations, as many as asked for. -/
theorem buildTrialPlan_eq_ok (h : buildTrialPlan fuel seed count offsets = .ok plan) :
    ∃ calibration scoring, plan = calibration ++ scoring ∧
      calibration.Perm (calibrationEntries offsets) ∧
      (∀ p ∈ scoring, p ∈ combinations offsets) ∧ plan.length = count.toNat := by
  obtain ⟨hle, -, scoring, hfill, rfl⟩ := buildTrialPlan_eq_ok_iff.mp h
  obtain ⟨added, hadded, hmem, hlen⟩ := Shuffle.fill_eq_some hfill
  have hperm := shuffledCalibration_perm seed offsets
  rw [List.nil_append] at hadded
  refine ⟨_, _, rfl, hperm, fun p hp => hmem p (hadded ▸ hp), ?_⟩
  rw [List.length_append, hperm.length_eq, hlen, List.length_nil]
  omega

/-- The shuffled calibration entries and then what was dealt from the combinations. -/
theorem buildTrialPlan_dealt (h : buildTrialPlan fuel seed count offsets = .ok plan) :
    ∃ calibration scoring, plan = calibration ++ scoring ∧
      calibration.Perm (calibrationEntries offsets) ∧
      Shuffle.Dealt (combinations offsets) scoring := by
  obtain ⟨-, -, scoring, hfill, rfl⟩ := buildTrialPlan_eq_ok_iff.mp h
  obtain ⟨added, hadded, hdealt⟩ := Shuffle.fill_dealt hfill
  rw [List.nil_append] at hadded
  exact ⟨_, _, rfl, shuffledCalibration_perm seed offsets, hadded ▸ hdealt⟩

theorem mem_plan (h : buildTrialPlan fuel seed count offsets = .ok plan) (hp : p ∈ plan) :
    p.targetOverlapUs ∈ offsets ∧ (p.bit = 0 ∨ p.bit = 1) := by
  obtain ⟨calibration, scoring, rfl, hperm, hscoring, -⟩ := buildTrialPlan_eq_ok h
  rw [← mem_combinations]
  rcases List.mem_append.mp hp with hp | hp
  · exact mem_calibrationEntries.mp (hperm.mem_iff.mp hp)
  · exact hscoring p hp

/-! ## Termination -/

theorem buildTrialPlan_terminates (seed : UInt64) (hne : offsets ≠ [])
    (hle : (calibrationEntries offsets).length ≤ count.toNat)
    (hroom : count.toNat * trialPlanBytes ≤ Vec.maxBytes) :
    ∃ fuel plan, buildTrialPlan fuel seed count offsets = .ok plan := by
  have hblock : combinations offsets ≠ [] := by
    obtain ⟨offset, hoffset⟩ := List.exists_mem_of_ne_nil _ hne
    have hmem : ⟨0, offset⟩ ∈ combinations offsets := mem_combinations.mpr ⟨hoffset, .inl rfl⟩
    exact List.ne_nil_of_mem hmem
  obtain ⟨fuel, scoring, hfill⟩ := Shuffle.fill_terminates [] hblock
  exact ⟨fuel, _, buildTrialPlan_eq_ok_iff.mpr ⟨hle, hroom, scoring, hfill, rfl⟩⟩

/-- Without offsets the loop adds empty blocks for ever. -/
theorem buildTrialPlan_nil (hpos : 0 < count.toNat) :
    buildTrialPlan fuel seed count [] ≠ .ok plan := by
  intro h
  obtain ⟨-, -, scoring, hfill, -⟩ := buildTrialPlan_eq_ok_iff.mp h
  rw [show combinations [] = [] from rfl, Shuffle.fill_stuck hpos] at hfill
  cases hfill

theorem planMatrix_eq {args : RunArgs} {profile : ExperimentProfile}
    (hcheck : minimumTrials profile ≤ (trialCount args profile).toNat) :
    planMatrix fuel args profile =
      buildTrialPlan fuel args.seed (trialCount args profile) profile.targetOverlapUs := by
  rw [planMatrix, if_neg (Nat.not_lt.mpr hcheck)]

/-- Once the number of trials has passed its check, `build_trial_plan` returns a plan of
that length, made of the profile's offsets and of bits, exactly when the profile has an
offset and the plan has room in a vector. -/
theorem planning_terminates_iff (args : RunArgs) (profile : ExperimentProfile)
    (hcheck : minimumTrials profile ≤ (trialCount args profile).toNat) :
    (∃ fuel plan, planMatrix fuel args profile = .ok plan ∧
      plan.length = (trialCount args profile).toNat ∧
      ∀ p ∈ plan, p.targetOverlapUs ∈ profile.targetOverlapUs ∧ (p.bit = 0 ∨ p.bit = 1)) ↔
    profile.targetOverlapUs ≠ [] ∧
      (trialCount args profile).toNat * trialPlanBytes ≤ Vec.maxBytes := by
  constructor
  · rintro ⟨fuel, plan, h, -, -⟩
    rw [planMatrix_eq hcheck] at h
    refine ⟨fun hnil => ?_, (buildTrialPlan_eq_ok_iff.mp h).2.1⟩
    rw [hnil] at h
    exact buildTrialPlan_nil (Nat.lt_of_lt_of_le (Nat.succ_pos _) hcheck) h
  · rintro ⟨hne, hroom⟩
    have hle : (calibrationEntries profile.targetOverlapUs).length ≤
        (trialCount args profile).toNat := by
      rw [length_calibrationEntries, Nat.mul_assoc]
      exact Nat.le_trans (Nat.le_add_right _ _) hcheck
    obtain ⟨fuel, plan, h⟩ := buildTrialPlan_terminates args.seed hne hle hroom
    obtain ⟨_, _, -, -, -, hlen⟩ := buildTrialPlan_eq_ok h
    exact ⟨fuel, plan, by rw [planMatrix_eq hcheck, h], hlen, fun p hp => mem_plan h hp⟩

/-- A profile with the given offsets that is otherwise in order. -/
def sampleProfile (offsets : List UInt64) : ExperimentProfile where
  id := "sample"
  attackerFavorable := true
  maxParallelTurns := 1
  trials := 64
  syntheticBits := 64
  turnFuel := 1000
  wasmMemoryPages := 1
  fixedResponseBytes := 64
  dispatchJitterMinUs := 0
  dispatchJitterMaxUs := 0
  releaseEpochUs := 0
  targetOverlapUs := offsets
  sessionIdleExpiryMs := 300000
  requestTimeoutMs := 1000

theorem planning_terminates_three_offsets :
    minimumTrials (sampleProfile [0, 500, 1000]) ≤
      (trialCount ⟨none, 1⟩ (sampleProfile [0, 500, 1000])).toNat ∧
    ∃ fuel plan, planMatrix fuel ⟨none, 1⟩ (sampleProfile [0, 500, 1000]) = .ok plan ∧
      plan.length = 64 ∧ ∀ p ∈ plan, p.targetOverlapUs ∈ ([0, 500, 1000] : List UInt64) ∧
        (p.bit = 0 ∨ p.bit = 1) := by
  have hcheck : minimumTrials (sampleProfile [0, 500, 1000]) ≤
      (trialCount ⟨none, 1⟩ (sampleProfile [0, 500, 1000])).toNat := by decide
  exact ⟨hcheck, (planning_terminates_iff _ _ hcheck).mpr ⟨by decide, by decide⟩⟩

/-- A profile without offsets passes the check of the number of trials, and the plan is
never finished. -/
theorem planning_without_offsets :
    minimumTrials (sampleProfile []) ≤ (trialCount ⟨none, 1⟩ (sampleProfile [])).toNat ∧
    ¬ ∃ fuel plan, planMatrix fuel ⟨none, 1⟩ (sampleProfile []) = .ok plan ∧
      plan.length = (trialCount ⟨none, 1⟩ (sampleProfile [])).toNat ∧
      ∀ p ∈ plan, p.targetOverlapUs ∈ (sampleProfile []).targetOverlapUs ∧
        (p.bit = 0 ∨ p.bit = 1) := by
  have hcheck : minimumTrials (sampleProfile []) ≤
      (trialCount ⟨none, 1⟩ (sampleProfile [])).toNat := by decide
  refine ⟨hcheck, ?_⟩
  rintro ⟨fuel, plan, h, -, -⟩
  rw [planMatrix_eq hcheck] at h
  exact buildTrialPlan_nil (by decide) h

end BenchClient
