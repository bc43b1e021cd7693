import IshtarOxide.Lib.Mean
import IshtarOxide.Lib.OrderStatistic
import IshtarOxide.Campaign.Information
import IshtarOxide.Campaign.Seeds

/-!
# The statistics of a test

What both `permutation_test` and `bootstrap_mi` say of pairs of bits, with real numbers for
`f64`. The estimates are the information in the pairs with rearranged expected bits, or in
resamples of the pairs.

* `Tested`: what is known of the result of a test.
* `Tested.null_p95_lt`: a test that detects something has an estimate beyond its 95th
  percentile.
* `bootstrapMi_interval`: the interval of `bootstrap_mi` is one.
-/

namespace Campaign

/-! ## The numbers -/

/-- `f64::EPSILON`, one by the 52nd power of two. -/
noncomputable def epsilon : ℝ := 1 / 4503599627370496

/-- `percentile`, at a quantile of so many hundredths. -/
def percentile {κ : Type} [Zero κ] (sorted : List κ) (hundredths : Nat) : Option κ :=
  if sorted.isEmpty then some 0
  -- the nearest index
  else sorted[((sorted.length - 1) * hundredths + 50) / 100]?

/-- `null_mean`. Without estimates both tests return 0. -/
noncomputable def PermutationResult.nullMean (r : PermutationResult ℝ) : ℝ := r.estimates.mean

/-- `null_p95`. -/
noncomputable def PermutationResult.nullP95 (r : PermutationResult ℝ) : Option ℝ :=
  percentile (r.estimates.mergeSort (· ≤ ·)) 95

/-- What is observed, less what rearranged bits give by themselves. -/
noncomputable def corrected (observed : ℝ) (r : PermutationResult ℝ) : ℝ :=
  max (observed - r.nullMean) 0

/-- `p_value <= 0.05`. -/
def PermutationResult.detects {κ : Type} (r : PermutationResult κ) : Bool := r.pValue ≤ 1 / 20

theorem epsilon_nonneg : 0 ≤ epsilon := by
  rw [epsilon]
  positivity

theorem information_bounds {l : List (UInt8 × UInt8)} (hbits : ∀ x ∈ l, x.1 ≤ 1 ∧ x.2 ≤ 1) :
    0 ≤ information l.length (jointOf l) ∧ information l.length (jointOf l) ≤ 1 := by
  rcases eq_or_ne l [] with rfl | hne
  · rw [information, if_pos List.length_nil]
    exact ⟨le_refl 0, zero_le_one⟩
  · have h := informative (fun l _ => benchSum_eq l) hne hbits
    rw [information, if_neg (List.length_eq_zero_iff.not.mpr hne), max_eq_left h.nonneg]
    exact ⟨h.nonneg, h.le_one⟩

theorem mean_bounds {l : List ℝ} (h : ∀ x ∈ l, 0 ≤ x ∧ x ≤ 1) : 0 ≤ l.mean ∧ l.mean ≤ 1 := by
  rw [List.mean_eq_sum_div]
  have hsum : l.sum ≤ l.length := by
    have hle := List.sum_le_card_nsmul l 1 fun x hx => (h x hx).2
    rwa [nsmul_one] at hle
  exact ⟨div_nonneg (List.sum_nonneg fun x hx => (h x hx).1) (Nat.cast_nonneg _),
    div_le_one_of_le₀ hsum (Nat.cast_nonneg _)⟩

theorem mean_eq {l : List ℝ} {c : ℝ} (hne : l ≠ []) (h : ∀ x ∈ l, x = c) : l.mean = c := by
  have hlen : (l.length : ℝ) ≠ 0 := Nat.cast_ne_zero.mpr (List.length_pos_iff.mpr hne).ne'
  have hsum : l.sum = l.length • c := List.sum_eq_card_nsmul l c h
  rw [List.mean_eq_sum_div, hsum, nsmul_eq_mul, mul_div_cancel_left₀ c hlen]

/-! ## Permutation tests -/

section Test

variable {β : Type} {expected decoded : β → UInt8} {key : β → UInt64} {pairs : List β}
  {info : List (UInt8 × UInt8) → Option ℝ} {iterations : Nat} {r : PermutationResult ℝ}

/-- The pairs of bits. -/
def binary (expected decoded : β → UInt8) (pairs : List β) : List (UInt8 × UInt8) :=
  pairs.map fun pair => (expected pair, decoded pair)

/-- `mutual_information` of the pairs. -/
noncomputable def observed (expected decoded : β → UInt8) (pairs : List β) : ℝ :=
  information pairs.length (jointOf (binary expected decoded pairs))

/-- For every key the expected or the decoded bits are all the same. -/
def Settled (expected decoded : β → UInt8) (key : β → UInt64) (pairs : List β) : Prop :=
  ∀ v, (∀ p ∈ pairs, ∀ q ∈ pairs, key p = v → key q = v → expected p = expected q) ∨
    ∀ p ∈ pairs, ∀ q ∈ pairs, key p = v → key q = v → decoded p = decoded q

/-- What is known of the result of a test. -/
structure Tested (expected decoded : β → UInt8) (key : β → UInt64) (pairs : List β)
    (iterations : Nat) (r : PermutationResult ℝ) : Prop where
  bounded : ∀ e ∈ r.estimates, 0 ≤ e ∧ e ≤ 1
  empty : pairs = [] → r = ⟨1, []⟩
  length : pairs ≠ [] → r.estimates.length = iterations
  pValue : pairs ≠ [] → r.pValue =
    (r.estimates.countP (observed expected decoded pairs - epsilon ≤ ·) + 1) / (iterations + 1)
  settled : Settled expected decoded key pairs →
    ∀ e ∈ r.estimates, e = observed expected decoded pairs

theorem binary_eq (expected decoded : β → UInt8) (pairs : List β) :
    binary expected decoded pairs = (pairs.map expected).zip (pairs.map decoded) :=
  (List.zip_map' ..).symm

theorem length_binary : (binary expected decoded pairs).length = pairs.length := List.length_map _

theorem mem_binary (hbits : ∀ p ∈ pairs, expected p ≤ 1 ∧ decoded p ≤ 1) {x : UInt8 × UInt8}
    (h : x ∈ binary expected decoded pairs) : x.1 ≤ 1 ∧ x.2 ≤ 1 := by
  obtain ⟨p, hp, rfl⟩ := List.mem_map.mp h
  exact hbits p hp

theorem observed_bounds (hbits : ∀ p ∈ pairs, expected p ≤ 1 ∧ decoded p ≤ 1) :
    0 ≤ observed expected decoded pairs ∧ observed expected decoded pairs ≤ 1 := by
  have h := information_bounds fun x hx => mem_binary hbits hx
  rwa [length_binary] at h

theorem mem_group_lt {group : List Nat} {i : Nat} (hgroup : group ∈ groupsBy key pairs)
    (hi : i ∈ group) : i < pairs.length :=
  List.mem_range.mp ((groupsBy_perm key pairs).mem_iff.mp (List.mem_flatten.mpr ⟨group, hgroup, hi⟩))

/-- The estimate of rearranged labels. -/
theorem estimate_eq (hbits : ∀ p ∈ pairs, expected p ≤ 1 ∧ decoded p ≤ 1)
    (hinfo : ∀ l : List (UInt8 × UInt8), (∀ x ∈ l, x.1 ≤ 1 ∧ x.2 ≤ 1) →
      info l = some (information l.length (jointOf l))) {labels : List UInt8}
    (h : Shuffle.Rearranges (fun i => (pairs.map key)[i]?) (pairs.map expected) labels) :
    (permuted decoded pairs labels).bind info =
      some (information pairs.length (jointOf (labels.zip (pairs.map decoded)))) ∧
    ∀ x ∈ labels.zip (pairs.map decoded), x.1 ≤ 1 ∧ x.2 ≤ 1 := by
  have hlen : labels.length = pairs.length := h.length.trans (List.length_map _)
  have hzip : ∀ x ∈ labels.zip (pairs.map decoded), x.1 ≤ 1 ∧ x.2 ≤ 1 := by
    intro x hx
    obtain ⟨p, hp, hpx⟩ := List.mem_map.mp (h.mem (List.of_mem_zip hx).1)
    obtain ⟨q, hq, hqx⟩ := List.mem_map.mp (List.of_mem_zip hx).2
    exact ⟨hpx ▸ (hbits p hp).1, hqx ▸ (hbits q hq).2⟩
  refine ⟨?_, hzip⟩
  rw [permuted_eq hlen, Option.bind_some, hinfo _ hzip, List.length_zip, List.length_map, hlen,
    Nat.min_self]

theorem testOf_tested (hbits : ∀ p ∈ pairs, expected p ≤ 1 ∧ decoded p ≤ 1)
    (hinfo : ∀ l : List (UInt8 × UInt8), (∀ x ∈ l, x.1 ≤ 1 ∧ x.2 ≤ 1) →
      info l = some (information l.length (jointOf l)))
    (hne : pairs ≠ []) (seed : UInt64) (iterations : Nat) :
    ∃ r, testOf expected decoded key info epsilon pairs seed iterations = some r ∧
      Tested expected decoded key pairs iterations r := by
  have hstratified : Stratified expected decoded key pairs _ _ iterations :=
    testOf_stratified hbits hinfo epsilon_nonneg seed iterations
  obtain ⟨_, -, r, hr, -, -⟩ := hstratified.returns
  refine ⟨r, hr, ?_⟩
  obtain ⟨y, hy, rfl⟩ := Option.map_eq_some_iff.mp hr
  obtain ⟨mi, hmi, hy⟩ := Option.bind_eq_some_iff.mp hy
  have hobserved : mi = observed expected decoded pairs := by
    have h := hinfo _ fun x hx => mem_binary hbits hx
    rw [length_binary] at h
    exact Option.some.inj (hmi.symm.trans h)
  subst hobserved
  have hrange : ∀ group ∈ groupsBy key pairs, ∀ k ∈ group, k < (pairs.map expected).length := by
    intro group hgroup k hk
    rw [List.length_map]
    exact mem_group_lt hgroup hk
  have hkey : ∀ group ∈ groupsBy key pairs, ∀ k ∈ group, ∀ k' ∈ group,
      (pairs.map key)[k]? = (pairs.map key)[k']? := by
    intro group hgroup k hk k' hk'
    obtain ⟨v, hv⟩ := mem_groupsBy hgroup
    rw [hv k hk, hv k' hk']
  obtain ⟨-, new, hnew, hlen, hcount, hmem⟩ :=
    Shuffle.iterations_estimates .xorshift _ hrange hkey hy
  obtain rfl : y.estimates = new := hnew
  rw [Nat.zero_add] at hcount
  refine ⟨fun e he => ?_, fun hempty => absurd hempty hne, fun _ => hlen, fun _ => ?_,
    fun hsettled e he => ?_⟩
  · obtain ⟨labels, hlabels, hestimate⟩ := hmem e he
    obtain ⟨heq, hzip⟩ := estimate_eq hbits hinfo hlabels
    cases hestimate.symm.trans heq
    have hbounds := information_bounds hzip
    rwa [List.length_zip, List.length_map, hlabels.length, List.length_map, Nat.min_self] at hbounds
  · rw [hcount]
  · obtain ⟨labels, hlabels, hestimate⟩ := hmem e he
    cases hestimate.symm.trans (estimate_eq hbits hinfo hlabels).1
    rw [jointOf_perm (pairs_perm hlabels hsettled), ← binary_eq, observed]

theorem Tested.of_empty : Tested expected decoded key [] iterations ⟨1, []⟩ where
  bounded := nofun
  empty _ := rfl
  length h := absurd rfl h
  pValue h := absurd rfl h
  settled _ := nofun

namespace Tested

variable (h : Tested expected decoded key pairs iterations r)

include h

theorem nullMean_bounds : 0 ≤ r.nullMean ∧ r.nullMean ≤ 1 := mean_bounds h.bounded

/-- The p-value is a number of iterations and one more, over all of them and one more. -/
theorem exists_count : ∃ k ≤ iterations, r.pValue = (k + 1) / (iterations + 1) := by
  rcases eq_or_ne pairs [] with hempty | hne
  · rw [h.empty hempty]
    exact ⟨iterations, Nat.le_refl _, (div_self (Nat.cast_add_one_ne_zero iterations)).symm⟩
  · exact ⟨_, h.length hne ▸ List.countP_le_length, h.pValue hne⟩

theorem corrected_bounds (hbits : ∀ p ∈ pairs, expected p ≤ 1 ∧ decoded p ≤ 1) :
    0 ≤ corrected (observed expected decoded pairs) r ∧
      corrected (observed expected decoded pairs) r ≤ observed expected decoded pairs :=
  ⟨le_max_right _ _, max_le (sub_le_self _ h.nullMean_bounds.1) (observed_bounds hbits).1⟩

theorem exists_nullP95 (hpos : 0 < iterations) : ∃ x, r.nullP95 = some x ∧ 0 ≤ x ∧ x ≤ 1 := by
  rcases eq_or_ne pairs [] with hempty | hne
  · rw [h.empty hempty]
    exact ⟨0, by simp [PermutationResult.nullP95, percentile], le_refl 0, zero_le_one⟩
  · have hlen := h.length hne
    obtain ⟨x, hx⟩ := List.exists_orderStatistic (l := r.estimates)
      (i := ((r.estimates.length - 1) * 95 + 50) / 100) (by omega)
    refine ⟨x, ?_, h.bounded x (List.mem_of_orderStatistic hx)⟩
    rw [PermutationResult.nullP95, percentile, if_neg, List.length_mergeSort]
    · exact hx
    · rw [List.isEmpty_iff, ← List.length_eq_zero_iff, List.length_mergeSort]
      omega

/-- What is detected lies beyond the 95th percentile of the estimates. -/
theorem nullP95_lt (hpos : 0 < iterations) (hdetects : r.detects = true) {x : ℝ}
    (hx : r.nullP95 = some x) : x < observed expected decoded pairs - epsilon := by
  have hp : r.pValue ≤ 1 / 20 := of_decide_eq_true hdetects
  rcases eq_or_ne pairs [] with hempty | hne
  · rw [h.empty hempty] at hp
    norm_num at hp
  by_contra hle
  have hlen := h.length hne
  have hrank : r.estimates.orderStatistic (((iterations - 1) * 95 + 50) / 100) = some x := by
    rw [PermutationResult.nullP95, percentile, if_neg, List.length_mergeSort, hlen] at hx
    · exact hx
    · rw [List.isEmpty_iff, ← List.length_eq_zero_iff, List.length_mergeSort]
      omega
  -- the estimates from that rank on are all extreme, and too many
  have hmany := List.le_countP_ge hrank
  have hextreme : r.estimates.countP (x ≤ ·) ≤
      r.estimates.countP (observed expected decoded pairs - epsilon ≤ ·) :=
    List.countP_mono_left fun e _ he => by
      simp only [decide_eq_true_eq] at he ⊢
      exact (not_lt.mp hle).trans he
  rw [h.pValue hne, div_le_div_iff₀ (by positivity) (by norm_num)] at hp
  have hfew : (r.estimates.countP (observed expected decoded pairs - epsilon ≤ ·) + 1) * 20 ≤
      1 * (iterations + 1) := by exact_mod_cast hp
  omega

/-- Where nothing is left to the order within the keys, nothing is detected. -/
theorem undetected (hpos : 0 < iterations) (hsettled : Settled expected decoded key pairs) :
    r.pValue = 1 ∧ corrected (observed expected decoded pairs) r = 0 := by
  rcases eq_or_ne pairs [] with rfl | hne
  · rw [h.empty rfl]
    refine ⟨rfl, ?_⟩
    simp [corrected, observed, information, PermutationResult.nullMean, List.mean]
  · have hall := h.settled hsettled
    have hlen := h.length hne
    have hcount : r.estimates.countP (observed expected decoded pairs - epsilon ≤ ·) = iterations := by
      rw [← hlen, List.countP_eq_length]
      intro e he
      rw [hall e he]
      exact decide_eq_true (sub_le_self _ epsilon_nonneg)
    have hmean : r.nullMean = observed expected decoded pairs :=
      mean_eq (List.length_pos_iff.mp (hlen ▸ hpos)) hall
    rw [h.pValue hne, hcount, corrected, hmean, sub_self, max_self]
    exact ⟨div_self (Nat.cast_add_one_ne_zero iterations), rfl⟩

end Tested

end Test

/-- Both tests, with a bench report's or an analysis's pairs. -/
theorem benchTest_tested {pairs : List BenchClient.ScoredPair}
    (hbits : ∀ p ∈ pairs, p.expected ≤ 1 ∧ p.decoded ≤ 1) (seed : UInt64) {iterations : Nat}
    (hpos : 0 < iterations) :
    ∃ r, BenchClient.permutationTest information epsilon pairs seed iterations = some r ∧
      Tested (·.expected) (·.decoded) (·.targetOverlapUs) pairs iterations r := by
  unfold BenchClient.permutationTest
  rcases eq_or_ne pairs [] with rfl | hne
  · exact ⟨_, if_pos (.inl rfl), .of_empty⟩
  · rw [if_neg (by simp [hne, hpos.ne'])]
    exact testOf_tested hbits (fun _ _ => rfl) hne seed iterations

theorem labTest_tested {pairs : List Lab.Scored}
    (hbits : ∀ p ∈ pairs, p.expected ≤ 1 ∧ p.decoded ≤ 1) (seed : UInt64) (iterations : Nat) :
    ∃ r, Lab.permutationTest information epsilon pairs seed iterations = some r ∧
      Tested (·.expected) (·.decoded) (·.gapUs) pairs iterations r := by
  unfold Lab.permutationTest
  rcases eq_or_ne pairs [] with rfl | hne
  · exact ⟨_, if_pos rfl, .of_empty⟩
  · rw [if_neg (by simp [hne])]
    exact testOf_tested hbits (fun _ => Lab.mutualInformation_eq information) hne seed iterations

/-! ## Resamples -/

section Resamples

variable {pairs sample : List (UInt8 × UInt8)} {s t : UInt64}

/-- A loop that adds an entry of `pairs` in every round. -/
theorem foldlM_drawn {σ : Type}
    {f : List (UInt8 × UInt8) × σ → UInt8 × UInt8 → Option (List (UInt8 × UInt8) × σ)}
    (hf : ∀ x y z, f x y = some z → ∃ pair ∈ pairs, z.1 = x.1 ++ [pair])
    {l : List (UInt8 × UInt8)} {x z : List (UInt8 × UInt8) × σ} (h : l.foldlM f x = some z)
    (hx : ∀ pair ∈ x.1, pair ∈ pairs) :
    z.1.length = x.1.length + l.length ∧ ∀ pair ∈ z.1, pair ∈ pairs := by
  induction l generalizing x with
  | nil =>
    cases h
    exact ⟨rfl, hx⟩
  | cons y l ih =>
    rw [List.foldlM_cons, Option.bind_eq_bind, Option.bind_eq_some_iff] at h
    obtain ⟨x', hdraw, h⟩ := h
    obtain ⟨pair, hpair, hnext⟩ := hf x y x' hdraw
    obtain ⟨hlen, hmem⟩ := ih h fun drawn hdrawn => by
      rw [hnext] at hdrawn
      rcases List.mem_append.mp hdrawn with hdrawn | hdrawn
      · exact hx drawn hdrawn
      · rw [List.mem_singleton.mp hdrawn]
        exact hpair
    refine ⟨?_, hmem⟩
    rw [hlen, hnext, List.length_append, List.length_singleton, List.length_cons]
    omega

/-- A resample is as long as the list, and of its entries. -/
theorem resample_mem (h : BenchClient.resample pairs s = some (sample, t)) :
    sample.length = pairs.length ∧ ∀ x ∈ sample, x ∈ pairs := by
  unfold BenchClient.resample at h
  obtain ⟨hlen, hmem⟩ := foldlM_drawn (fun x y z hz => by
    obtain ⟨pair, hpair, hz⟩ := Option.bind_eq_some_iff.mp hz
    cases hz
    exact ⟨pair, List.mem_of_getElem? hpair, rfl⟩) h nofun
  exact ⟨hlen.trans (Nat.zero_add _), hmem⟩

theorem bootstrapEstimates_bounds (hbits : ∀ x ∈ pairs, x.1 ≤ 1 ∧ x.2 ≤ 1) {n : Nat}
    {estimates : List ℝ} (h : BenchClient.bootstrapEstimates
      (BenchClient.mutualInformation information) pairs s n = some (estimates, t)) :
    estimates.length = n ∧ ∀ e ∈ estimates, 0 ≤ e ∧ e ≤ 1 := by
  induction n generalizing estimates t with
  | zero =>
    cases h
    exact ⟨rfl, nofun⟩
  | succ n ih =>
    simp only [BenchClient.bootstrapEstimates, Option.bind_eq_bind, Option.bind_eq_some_iff] at h
    obtain ⟨⟨before, t₁⟩, hbefore, ⟨sample, t₂⟩, hsample, e, he, h⟩ := h
    cases h
    cases he
    obtain ⟨hlen, hmem⟩ := ih hbefore
    refine ⟨by rw [List.length_append, hlen, List.length_singleton], fun e he => ?_⟩
    rcases List.mem_append.mp he with he | he
    · exact hmem e he
    · rw [List.mem_singleton.mp he]
      exact information_bounds fun x hx => hbits x ((resample_mem hsample).2 x hx)

/-- `bootstrap_mi` returns an interval of possible values. -/
theorem bootstrapMi_interval (hbits : ∀ x ∈ pairs, x.1 ≤ 1 ∧ x.2 ≤ 1) (seed : UInt64) :
    ∃ low high, BenchClient.bootstrapMi information pairs seed = some (low, high) ∧
      0 ≤ low ∧ low ≤ high ∧ high ≤ 1 := by
  rcases eq_or_ne pairs [] with rfl | hne
  · exact ⟨0, 0, if_pos rfl, le_refl 0, le_refl 0, zero_le_one⟩
  · obtain ⟨estimates, hestimates⟩ :=
      bootstrapEstimates_state information pairs (BenchClient.bootstrapState seed) 1000
    obtain ⟨hlen, hbounds⟩ := bootstrapEstimates_bounds hbits hestimates
    obtain ⟨low, hlow⟩ := List.exists_orderStatistic (l := estimates) (i := 24) (by omega)
    obtain ⟨high, hhigh⟩ := List.exists_orderStatistic (l := estimates) (i := 974) (by omega)
    refine ⟨low, high, ?_, (hbounds low (List.mem_of_orderStatistic hlow)).1,
      List.orderStatistic_le hlow hhigh (by omega),
      (hbounds high (List.mem_of_orderStatistic hhigh)).2⟩
    rw [BenchClient.bootstrapMi, if_neg (by simpa using hne), hestimates]
    show (estimates.orderStatistic 24).bind (fun low =>
      (estimates.orderStatistic 974).bind fun high => some (low, high)) = _
    rw [hlow, hhigh]
    rfl

end Resamples

end Campaign
