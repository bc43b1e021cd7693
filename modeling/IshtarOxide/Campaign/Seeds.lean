import IshtarOxide.Campaign.Permutation

/-!
# Seeds

Where the campaigns get their random indices from. Every generator is a stream of xorshift
states, and its first state is made from the seed: the shuffles of the two
`build_trial_plan`, the two `permutation_test`, also with `seed ^ offset` and `seed ^ gap`,
and the resampling of `bootstrap_mi` and `bootstrap_confidence`. A state of zero is never
left again, and `max(1)` comes before the constants are added, so it does not keep the
streams from it.

* `benchPlan_follows` and the like, `Uses.follows`: the states are those of the streams.
* `streams_alive_iff`: the seeds with which no stream is ever zero.
* `generator_apart`: streams that begin differently never meet.
-/

namespace BenchClient

/-- The first state of the generator of `bootstrap_mi` and of `bootstrap_confidence`. -/
def bootstrapState (seed : UInt64) : UInt64 := max seed 1

/-- `sample` of `bootstrap_mi`: as many pairs as there are, each drawn from all of them. -/
def resample (pairs : List (UInt8 × UInt8)) (state : UInt64) :
    Option (List (UInt8 × UInt8) × UInt64) :=
  pairs.foldlM (fun x _ => do
    let (index, state) := randomIndex x.2 pairs.length
    let pair ← pairs[index]?
    return (x.1 ++ [pair], state)) ([], state)

/-- The estimates of `bootstrap_mi` for so many resamples. -/
def bootstrapEstimates {κ : Type} (information : List (UInt8 × UInt8) → Option κ)
    (pairs : List (UInt8 × UInt8)) (state : UInt64) : Nat → Option (List κ × UInt64)
  | 0 => some ([], state)
  | n + 1 => do
    let (estimates, state) ← bootstrapEstimates information pairs state n
    let (sample, state) ← resample pairs state
    return (estimates ++ [← information sample], state)

/-- `bootstrap_mi`. -/
def bootstrapMi {κ : Type} [Zero κ] [LE κ] [DecidableLE κ] (information : Nat → Campaign.Joint → κ)
    (pairs : List (UInt8 × UInt8)) (seed : UInt64) : Option (κ × κ) :=
  if pairs.isEmpty then some (0, 0)
  else do
    let (estimates, _) ← bootstrapEstimates (mutualInformation information) pairs
      (bootstrapState seed) 1000
    let sorted := estimates.mergeSort (· ≤ ·)
    return (← sorted[24]?, ← sorted[974]?)

/-- `sum` of `bootstrap_confidence`: of as many values as there are, each drawn from all of
them. -/
def resampledSum {κ : Type} [Zero κ] [Add κ] (values : List κ) (state : UInt64) :
    Option (κ × UInt64) :=
  values.foldlM (fun x _ => do
    let (index, state) := randomIndex x.2 values.length
    let value ← values[index]?
    return (x.1 + value, state)) (0, state)

/-- The means of `bootstrap_confidence` for so many resamples. -/
def bootstrapMeans {κ : Type} [Zero κ] [Add κ] [Div κ] [NatCast κ] (values : List κ)
    (state : UInt64) : Nat → Option (List κ × UInt64)
  | 0 => some ([], state)
  | n + 1 => do
    let (means, state) ← bootstrapMeans values state n
    let (sum, state) ← resampledSum values state
    return (means ++ [sum / (values.length : κ)], state)

/-- `bootstrap_confidence`. -/
def bootstrapConfidence {κ : Type} [Zero κ] [Add κ] [Div κ] [NatCast κ] [LE κ] [DecidableLE κ]
    (values : List κ) (seed : UInt64) : Option (κ × κ) :=
  if values.isEmpty then some (0, 0)
  else do
    let (means, _) ← bootstrapMeans values (bootstrapState seed) 1000
    let sorted := means.mergeSort (· ≤ ·)
    return (← sorted[24]?, ← sorted[974]?)

end BenchClient

namespace Campaign

open Xorshift

/-! ## The states of a stream -/

/-- `t` is the state of the stream that begins with `s` after some number of steps. -/
def Follows (s t : UInt64) : Prop := ∃ n, t = xorshiftStep^[n] s

theorem Follows.refl (s : UInt64) : Follows s s := ⟨0, rfl⟩

theorem Follows.step {s t : UInt64} (h : Follows s t) : Follows s (xorshiftStep t) := by
  obtain ⟨n, rfl⟩ := h
  exact ⟨n + 1, (Function.iterate_succ_apply' xorshiftStep n s).symm⟩

theorem Follows.draw {s t : UInt64} (h : Follows s t) (upper : Nat) :
    Follows s (Shuffle.Source.xorshift.draw t upper).2 := h.step

/-- The generator of the bench client's `build_trial_plan`, after the calibration entries and
after the blocks for scoring. -/
theorem benchPlan_follows (seed : UInt64) (offsets : List UInt64) :
    Follows (BenchClient.planState seed) (BenchClient.shuffledCalibration seed offsets).2 ∧
      ∀ target fuel scoring, Shuffle.fill .xorshift (BenchClient.combinations offsets) target fuel []
        (BenchClient.shuffledCalibration seed offsets).2 = some scoring →
        Follows (BenchClient.planState seed) scoring.2 := by
  have hcalibration : Follows (BenchClient.planState seed)
      (BenchClient.shuffledCalibration seed offsets).2 :=
    Shuffle.shuffle_state (fun _ n h => h.draw n) _ (.refl _)
  exact ⟨hcalibration, fun _ _ _ h => Shuffle.fill_state (fun _ n h => h.draw n) hcalibration h⟩

/-- The generator of the lab's `build_trial_plan`. -/
theorem labPlan_follows (seed : UInt64) (gaps : List UInt64) (perBitAndGap : Nat) :
    Follows (Lab.planState seed) (Lab.shuffledCalibration seed gaps perBitAndGap).2 ∧
      ∀ target fuel output, Shuffle.fill .xorshift (Lab.combinations gaps) target fuel
        (Lab.shuffledCalibration seed gaps perBitAndGap).1
        (Lab.shuffledCalibration seed gaps perBitAndGap).2 = some output →
        Follows (Lab.planState seed) output.2 := by
  have hcalibration : Follows (Lab.planState seed)
      (Lab.shuffledCalibration seed gaps perBitAndGap).2 :=
    Shuffle.shuffle_state (fun _ n h => h.draw n) _ (.refl _)
  exact ⟨hcalibration, fun _ _ _ h => Shuffle.fill_state (fun _ n h => h.draw n) hcalibration h⟩

/-- The generator of a `permutation_test` after any number of iterations. -/
theorem progress_follows {β κ : Type} {expected decoded : β → UInt8} {key : β → UInt64}
    [LE κ] [DecidableLE κ] [Sub κ] {information : List (UInt8 × UInt8) → Option κ} {epsilon : κ}
    {pairs : List β} {seed : UInt64} {n : Nat} {x : Shuffle.Progress UInt8 κ UInt64}
    (h : progress expected decoded key information epsilon pairs seed n = some x) :
    Follows (permutationState seed) x.state := by
  obtain ⟨_, -, h⟩ := Option.bind_eq_some_iff.mp h
  exact Shuffle.iterations_state _ (fun _ n h => h.draw n) (.refl _) h

theorem Follows.iterate {s t : UInt64} (h : Follows s t) (n : Nat) :
    Follows s (xorshiftStep^[n] t) := by
  induction n generalizing t with
  | zero => exact h
  | succ n ih => exact ih h.step

/-- Every draw of a resample finds a pair. -/
theorem resample_state (pairs : List (UInt8 × UInt8)) (s : UInt64) :
    ∃ sample, BenchClient.resample pairs s = some (sample, xorshiftStep^[pairs.length] s) := by
  refine foldlM_state (fun x s pair hpair => ?_) [] s
  obtain ⟨drawn, hdrawn⟩ := draw_get (List.ne_nil_of_mem hpair) s
  exact ⟨x ++ [drawn], by simp only [BenchClient.randomIndex, hdrawn]; rfl⟩

theorem resampledSum_state {κ : Type} [Zero κ] [Add κ] (values : List κ) (s : UInt64) :
    ∃ sum, BenchClient.resampledSum values s = some (sum, xorshiftStep^[values.length] s) := by
  refine foldlM_state (fun x s value hvalue => ?_) 0 s
  obtain ⟨drawn, hdrawn⟩ := draw_get (List.ne_nil_of_mem hvalue) s
  exact ⟨x + drawn, by simp only [BenchClient.randomIndex, hdrawn]; rfl⟩

/-- The generator of `bootstrap_mi` after any number of resamples. -/
theorem bootstrap_follows {κ : Type} {information : List (UInt8 × UInt8) → Option κ}
    {pairs : List (UInt8 × UInt8)} {s t : UInt64} {n : Nat} {estimates : List κ}
    (h : BenchClient.bootstrapEstimates information pairs s n = some (estimates, t)) :
    Follows s t := by
  induction n generalizing estimates t with
  | zero =>
    cases h
    exact .refl s
  | succ n ih =>
    simp only [BenchClient.bootstrapEstimates, Option.bind_eq_bind, Option.bind_eq_some_iff] at h
    obtain ⟨⟨before, t₁⟩, hbefore, ⟨sample, t₂⟩, hsample, _, -, h⟩ := h
    obtain ⟨sample', hstate⟩ := resample_state pairs t₁
    cases hstate.symm.trans hsample
    cases h
    exact (ih hbefore).iterate pairs.length

/-- Every round of `bootstrap_mi` draws as often as there are pairs. -/
theorem bootstrapEstimates_state {κ : Type} (information : Nat → Joint → κ)
    (pairs : List (UInt8 × UInt8)) (s : UInt64) (n : Nat) :
    ∃ estimates, BenchClient.bootstrapEstimates (BenchClient.mutualInformation information)
      pairs s n = some (estimates, (xorshiftStep^[pairs.length])^[n] s) := by
  induction n with
  | zero => exact ⟨[], rfl⟩
  | succ n ih =>
    obtain ⟨estimates, hestimates⟩ := ih
    obtain ⟨sample, hsample⟩ := resample_state pairs ((xorshiftStep^[pairs.length])^[n] s)
    rw [Function.iterate_succ_apply']
    exact ⟨_, by simp only [BenchClient.bootstrapEstimates, hestimates, Option.bind_eq_bind,
      Option.bind_some, hsample]; rfl⟩

theorem bootstrapMeans_state {κ : Type} [Zero κ] [Add κ] [Div κ] [NatCast κ] (values : List κ)
    (s : UInt64) (n : Nat) :
    ∃ means, BenchClient.bootstrapMeans values s n =
      some (means, (xorshiftStep^[values.length])^[n] s) := by
  induction n with
  | zero => exact ⟨[], rfl⟩
  | succ n ih =>
    obtain ⟨means, hmeans⟩ := ih
    obtain ⟨sum, hsum⟩ := resampledSum_state values ((xorshiftStep^[values.length])^[n] s)
    rw [Function.iterate_succ_apply']
    exact ⟨_, by simp only [BenchClient.bootstrapMeans, hmeans, Option.bind_eq_bind,
      Option.bind_some, hsum]; rfl⟩

/-! ## Seeds without a dead stream -/

/-- The first states of all streams of a campaign, with one of its offsets or gaps. -/
def streams (seed offset : UInt64) : List UInt64 :=
  [BenchClient.planState seed, Lab.planState seed, permutationState seed,
    permutationState (seed ^^^ offset), BenchClient.bootstrapState seed]

/-- The generator of a function is in this state: after the calibration or all of a plan, or
after some iterations of a test or of a resampling. -/
inductive Uses (seed offset : UInt64) : UInt64 → Prop
  | benchCalibration (offsets : List UInt64) :
      Uses seed offset (BenchClient.shuffledCalibration seed offsets).2
  | benchPlan {offsets : List UInt64} {target fuel : Nat}
      {scoring : List BenchClient.TrialPlan × UInt64}
      (h : Shuffle.fill .xorshift (BenchClient.combinations offsets) target fuel []
        (BenchClient.shuffledCalibration seed offsets).2 = some scoring) :
      Uses seed offset scoring.2
  | labCalibration (gaps : List UInt64) (perBitAndGap : Nat) :
      Uses seed offset (Lab.shuffledCalibration seed gaps perBitAndGap).2
  | labPlan {gaps : List UInt64} {perBitAndGap target fuel : Nat}
      {output : List Lab.TrialPlan × UInt64}
      (h : Shuffle.fill .xorshift (Lab.combinations gaps) target fuel
        (Lab.shuffledCalibration seed gaps perBitAndGap).1
        (Lab.shuffledCalibration seed gaps perBitAndGap).2 = some output) :
      Uses seed offset output.2
  | test {β κ : Type} {expected decoded : β → UInt8} {key : β → UInt64}
      [LE κ] [DecidableLE κ] [Sub κ] {information : List (UInt8 × UInt8) → Option κ} {epsilon : κ}
      {pairs : List β} {n : Nat} {x : Shuffle.Progress UInt8 κ UInt64} {start : UInt64}
      (hstart : start = seed ∨ start = seed ^^^ offset)
      (h : progress expected decoded key information epsilon pairs start n = some x) :
      Uses seed offset x.state
  | resampling {κ : Type} {information : List (UInt8 × UInt8) → Option κ}
      {pairs : List (UInt8 × UInt8)} {n : Nat} {estimates : List κ} {t : UInt64}
      (h : BenchClient.bootstrapEstimates information pairs (BenchClient.bootstrapState seed) n =
        some (estimates, t)) :
      Uses seed offset t

/-- The functions draw from no other stream. -/
theorem Uses.follows {seed offset t : UInt64} (h : Uses seed offset t) :
    ∃ start ∈ streams seed offset, Follows start t := by
  unfold streams
  cases h with
  | benchCalibration offsets => exact ⟨_, by simp, (benchPlan_follows seed offsets).1⟩
  | benchPlan h => exact ⟨_, by simp, (benchPlan_follows seed _).2 _ _ _ h⟩
  | labCalibration gaps perBitAndGap => exact ⟨_, by simp, (labPlan_follows seed gaps _).1⟩
  | labPlan h => exact ⟨_, by simp, (labPlan_follows seed _ _).2 _ _ _ h⟩
  | test hstart h =>
    rcases hstart with rfl | rfl
    · exact ⟨_, by simp, progress_follows h⟩
    · exact ⟨_, by simp, progress_follows h⟩
  | resampling h => exact ⟨_, by simp, bootstrap_follows h⟩

theorem max_one (seed : UInt64) : max seed 1 = if seed ≤ 1 then 1 else seed := rfl

theorem max_one_ne_zero (seed : UInt64) : max seed 1 ≠ 0 := by
  rw [max_one]
  split
  · decide
  · next h =>
    rintro rfl
    exact h (by decide)

/-- A seed that is the constant itself cancels it. -/
theorem mask_eq_zero {seed c : UInt64} (hc : 1 < c) : max seed 1 ^^^ c = 0 ↔ seed = c := by
  rw [UInt64.xor_eq_zero_iff, max_one]
  split
  · next h =>
    constructor
    · rintro rfl
      exact absurd hc (by decide)
    · rintro rfl
      exact absurd (UInt64.lt_of_lt_of_le hc h) (UInt64.lt_irrefl 1)
  · rfl

/-- The seeds and offsets with which no stream begins with zero. -/
theorem streams_ne_zero_iff (seed offset : UInt64) :
    (∀ start ∈ streams seed offset, start ≠ 0) ↔
      seed ≠ 0x63616c6962726174 ∧ seed ≠ 0x73657175656e7469 ∧ seed ≠ 0x7065726d75746521 ∧
        seed ^^^ offset ≠ 0x7065726d75746521 := by
  simp only [streams, List.forall_mem_cons, List.not_mem_nil, false_imp_iff, implies_true,
    and_true, BenchClient.planState, Lab.planState, permutationState, BenchClient.bootstrapState,
    ne_eq, max_one_ne_zero, not_false_iff]
  rw [mask_eq_zero (by decide), mask_eq_zero (by decide), mask_eq_zero (by decide),
    mask_eq_zero (by decide)]

/-- The functions draw from the streams alone; and no stream is zero, neither at first nor
after any number of steps, exactly when the seed is none of the constants and the seed with
the offset is not that of the tests. -/
theorem streams_alive_iff (seed offset : UInt64) :
    (∀ t, Uses seed offset t → ∃ start ∈ streams seed offset, Follows start t) ∧
    ((∀ start ∈ streams seed offset, ∀ n, xorshiftStep^[n] start ≠ 0) ↔
      seed ≠ 0x63616c6962726174 ∧ seed ≠ 0x73657175656e7469 ∧ seed ≠ 0x7065726d75746521 ∧
        seed ^^^ offset ≠ 0x7065726d75746521) := by
  refine ⟨fun t ht => ht.follows, ?_⟩
  rw [← streams_ne_zero_iff]
  constructor
  · intro h start hstart
    exact h start hstart 0
  · intro h start hstart n hn
    exact h start hstart (iterate_eq_zero.mp hn)

/-- The seed 0x63616c6962726174 leaves the generator of the bench client's plan at zero: it
draws the index 0 for ever. -/
theorem dead_stream :
    ¬ (∀ start ∈ streams 0x63616c6962726174 0, ∀ n, xorshiftStep^[n] start ≠ 0) ∧
    ∀ n upper, (BenchClient.randomIndex
      (xorshiftStep^[n] (BenchClient.planState 0x63616c6962726174)) upper).1 = 0 := by
  have hzero : BenchClient.planState 0x63616c6962726174 = 0 := by decide
  refine ⟨fun h => h _ List.mem_cons_self 0 hzero, fun n upper => ?_⟩
  rw [hzero, iterate_zero]
  exact congrArg Prod.fst (draw_zero upper)

/-! ## Streams that never meet -/

/-- Different states stay different, every state is reached, and zero is reached from zero
alone: with one draw of the two `random_index`, with any draws one after the other, and with
any number of rounds of the two loops that have the same steps written out. -/
theorem generator_apart :
    (∀ upper, (Apart fun s => (BenchClient.randomIndex s upper).2) ∧
      Apart fun s => (Lab.randomIndex s upper).2) ∧
    (∀ uppers : List Nat,
      Apart (fun s => uppers.foldl (fun t upper => (BenchClient.randomIndex t upper).2) s) ∧
      Apart fun s => uppers.foldl (fun t upper => (Lab.randomIndex t upper).2) s) ∧
    (∀ (κ : Type) (information : Nat → Joint → κ) (pairs : List (UInt8 × UInt8)) (n : Nat),
      ∃ update, Apart update ∧ ∀ s, ∃ estimates,
        BenchClient.bootstrapEstimates (BenchClient.mutualInformation information) pairs s n =
          some (estimates, update s)) ∧
    ∀ (κ : Type) [Zero κ] [Add κ] [Div κ] [NatCast κ] (values : List κ) (n : Nat),
      ∃ update, Apart update ∧ ∀ s, ∃ means,
        BenchClient.bootstrapMeans values s n = some (means, update s) := by
  refine ⟨fun _ => ⟨xorshiftStep_apart, xorshiftStep_apart⟩, fun uppers => ⟨?_, ?_⟩, ?_, ?_⟩
  · exact .foldl (fun _ => xorshiftStep_apart) uppers
  · exact .foldl (fun _ => xorshiftStep_apart) uppers
  · intro κ information pairs n
    exact ⟨_, (xorshiftStep_apart.iterate pairs.length).iterate n,
      fun s => bootstrapEstimates_state information pairs s n⟩
  · intro κ _ _ _ _ values n
    exact ⟨_, (xorshiftStep_apart.iterate values.length).iterate n,
      fun s => bootstrapMeans_state values s n⟩

end Campaign
