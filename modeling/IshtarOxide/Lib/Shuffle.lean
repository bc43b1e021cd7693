import Mathlib.Algebra.Ring.Nat
import Mathlib.Data.List.Nodup
import Mathlib.Tactic.Common

/-!
# Shuffles and shuffled blocks

A source of random indices, the shuffle that swaps every position from the last one
down with one it has drawn, and the `while` loop that fills a list up with shuffled
copies of a block.

* `shuffle_perm`: a shuffle loses nothing.
* `fill_terminates`, `fill_stuck`: the filling loop comes to an end exactly when
  there is something to fill up with.
* `fill_dealt`: what it adds are copies of the block, the last one perhaps cut short.
-/

/-! ## While loops -/

namespace While

variable {σ : Type}

/-- A `while` loop, given up after `fuel` tests of its condition. -/
def run (c : σ → Bool) (f : σ → σ) : Nat → σ → Option σ
  | 0, _ => none
  | fuel + 1, s => if c s then run c f fuel (f s) else some s

variable {c : σ → Bool} {f : σ → σ} {s s' : σ} {fuel : Nat} {I : σ → Prop}

/-- What every round keeps holds at the end. -/
theorem run_invariant (hinv : ∀ s, I s → c s = true → I (f s)) (hs : I s)
    (h : run c f fuel s = some s') : I s' ∧ c s' = false := by
  induction fuel generalizing s with
  | zero => cases h
  | succ fuel ih =>
    simp only [run] at h
    split at h
    · next hc => exact ih (hinv s hs hc) h
    · next hc =>
      cases h
      exact ⟨hs, Bool.eq_false_iff.mpr hc⟩

/-- A loop whose rounds come closer to its end, comes to it. -/
theorem run_terminates (distance : σ → Nat)
    (hlt : ∀ s, c s = true → distance (f s) < distance s) :
    ∃ s', run c f (distance s + 1) s = some s' := by
  suffices h : ∀ n s, distance s ≤ n → ∃ s', run c f (n + 1) s = some s' from
    h _ s (Nat.le_refl _)
  intro n
  induction n with
  | zero =>
    intro s hd
    refine ⟨s, if_neg fun hc => ?_⟩
    have := hlt s hc
    omega
  | succ n ih =>
    intro s hd
    by_cases hc : c s = true
    · have := hlt s hc
      obtain ⟨s', h⟩ := ih (f s) (by omega)
      exact ⟨s', by rw [run, if_pos hc, h]⟩
    · exact ⟨s, if_neg hc⟩

/-- A round that changes nothing is repeated for ever. -/
theorem run_stuck (hc : c s = true) (hb : f s = s) : run c f fuel s = none := by
  induction fuel with
  | zero => rfl
  | succ fuel ih => rw [run, if_pos hc, hb, ih]

end While

namespace Shuffle

/-- A source of indices below a bound. -/
structure Source (σ : Type) where
  draw : σ → Nat → Nat × σ
  draw_lt : ∀ s n, 0 < n → (draw s n).1 < n

variable {α σ : Type} (source : Source σ)

/-! ## The shuffle -/

/-- Exchanges two entries. -/
def swap (l : List α) (i j : Nat) : List α := (l.toArray.swapIfInBounds i j).toList

/-- The rounds for the positions from `i` down to 1. -/
def shuffleFrom : Nat → List α → σ → List α × σ
  | 0, l, s => (l, s)
  | i + 1, l, s =>
    let (j, s) := source.draw s (i + 1 + 1)
    shuffleFrom i (swap l (i + 1) j) s

/-- Shuffles a list in place. -/
def shuffle (l : List α) (s : σ) : List α × σ := shuffleFrom source (l.length - 1) l s

theorem swap_perm (l : List α) (i j : Nat) : (swap l i j).Perm l := by
  unfold swap Array.swapIfInBounds
  split
  · next hi =>
    split
    · next hj => exact (Array.swap_perm hi hj).toList
    · exact .refl _
  · exact .refl _

theorem shuffleFrom_perm (i : Nat) (l : List α) (s : σ) :
    (shuffleFrom source i l s).1.Perm l := by
  induction i generalizing l s with
  | zero => exact .refl _
  | succ i ih => exact (ih _ _).trans (swap_perm l _ _)

theorem shuffle_perm (l : List α) (s : σ) : (shuffle source l s).1.Perm l :=
  shuffleFrom_perm source _ l s

@[simp] theorem shuffle_nil (s : σ) : shuffle source ([] : List α) s = ([], s) := rfl

/-! ## Filling up with shuffled blocks -/

/-- One round: a shuffled copy of the block, as much of it as there is room for. -/
def extend (block : List α) (target : Nat) (state : List α × σ) : List α × σ :=
  let (copy, s) := shuffle source block state.2
  (state.1 ++ copy.take (target - state.1.length), s)

/-- Fills `out` up to the length `target`. -/
def fill (block : List α) (target fuel : Nat) (out : List α) (s : σ) : Option (List α × σ) :=
  While.run (fun state => state.1.length < target) (extend source block target) fuel (out, s)

variable {source} {block out : List α} {target fuel : Nat} {s : σ} {state : List α × σ}

theorem length_extend (block : List α) (target : Nat) (state : List α × σ) :
    (extend source block target state).1.length =
      state.1.length + min (target - state.1.length) block.length := by
  simp [extend, (shuffle_perm source block state.2).length_eq]

/-- What has been filled up begins with what was there, ends with entries of the
block and has the length asked for. -/
theorem fill_eq_some (h : fill source block target fuel out s = some state) :
    ∃ added, state.1 = out ++ added ∧ (∀ x ∈ added, x ∈ block) ∧
      state.1.length = max out.length target := by
  have hround : ∀ state : List α × σ,
      ((∃ added, state.1 = out ++ added ∧ ∀ x ∈ added, x ∈ block) ∧
        state.1.length ≤ max out.length target) →
      decide (state.1.length < target) = true →
      (∃ added, (extend source block target state).1 = out ++ added ∧ ∀ x ∈ added, x ∈ block) ∧
        (extend source block target state).1.length ≤ max out.length target := by
    rintro state ⟨⟨added, hout, hmem⟩, hle⟩ hc
    refine ⟨⟨added ++ (shuffle source block state.2).1.take (target - state.1.length),
      by rw [← List.append_assoc, ← hout]; rfl, ?_⟩, by rw [length_extend]; omega⟩
    intro x hx
    rcases List.mem_append.mp hx with hx | hx
    · exact hmem x hx
    · exact (shuffle_perm source block state.2).mem_iff.mp (List.mem_of_mem_take hx)
  obtain ⟨⟨⟨added, hout, hmem⟩, hle⟩, hc⟩ := While.run_invariant hround
    ⟨⟨[], (List.append_nil out).symm, fun x hx => by cases hx⟩, Nat.le_max_left _ _⟩ h
  refine ⟨added, hout, hmem, ?_⟩
  have hge : ¬ state.1.length < target := of_decide_eq_false hc
  have hlen : state.1.length = out.length + added.length := by rw [hout, List.length_append]
  omega

/-- A block with something in it fills up any list. -/
theorem fill_terminates (out : List α) (hb : block ≠ []) :
    ∃ fuel state, fill source block target fuel out s = some state := by
  have hpos : 0 < block.length := List.length_pos_iff.mpr hb
  have hround : ∀ state : List α × σ, decide (state.1.length < target) = true →
      target - (extend source block target state).1.length < target - state.1.length := by
    intro state hc
    have hlt : state.1.length < target := of_decide_eq_true hc
    rw [length_extend]
    omega
  obtain ⟨state, h⟩ := While.run_terminates (s := (out, s))
    (f := extend source block target) (fun state => target - state.1.length) hround
  exact ⟨_, state, h⟩

/-- With nothing to fill up with, the loop goes on for ever. -/
theorem fill_stuck (h : out.length < target) : fill source [] target fuel out s = none :=
  While.run_stuck (decide_eq_true h) (by simp [extend])

theorem fill_succ : fill source block target (fuel + 1) out s =
    if out.length < target then
      fill source block target fuel (extend source block target (out, s)).1
        (extend source block target (out, s)).2
    else some (out, s) := by
  by_cases h : out.length < target <;> simp [fill, While.run, h]

/-- How much is asked for does not change what comes before: whole copies are shuffled, and
they are cut afterwards. -/
theorem fill_prefix {m n fuel' : Nat} {state' : List α × σ} (hle : m ≤ n)
    (h : fill source block m fuel out s = some state)
    (h' : fill source block n fuel' out s = some state') : state.1 <+: state'.1 := by
  induction fuel generalizing out s fuel' with
  | zero => cases h
  | succ fuel ih =>
    rw [fill_succ] at h
    split at h
    · next hlt =>
      cases fuel' with
      | zero => cases h'
      | succ fuel' =>
        rw [fill_succ, if_pos (Nat.lt_of_lt_of_le hlt hle)] at h'
        by_cases hroom : block.length ≤ m - out.length
        · -- both loops add the whole copy
          have hcopy := (shuffle_perm source block s).length_eq
          have hsame : extend source block m (out, s) = extend source block n (out, s) := by
            simp only [extend]
            rw [List.take_of_length_le (by omega), List.take_of_length_le (by omega)]
          rw [hsame] at h
          exact ih h h'
        · -- the shorter list is full with a part of the copy
          have hfull : (extend source block m (out, s)).1.length = m := by
            rw [length_extend]
            dsimp only
            omega
          cases fuel with
          | zero => cases h
          | succ fuel =>
            rw [fill_succ, if_neg (by omega)] at h
            cases h
            obtain ⟨added, hadded, -, -⟩ := fill_eq_some h'
            rw [hadded]
            refine List.IsPrefix.trans ?_ (List.prefix_append _ added)
            exact (List.prefix_append_right_inj out).mpr
              (List.take_prefix_take_left (Nat.sub_le_sub_right hle _))
    · cases h
      obtain ⟨added, hadded, -, -⟩ := fill_eq_some h'
      rw [hadded]
      exact List.prefix_append out added

/-! ## Dealing -/

/-- A whole number of shuffled copies of the block. -/
inductive Whole (block : List α) : List α → Prop
  | nil : Whole block []
  | cons {copy l : List α} : copy.Perm block → Whole block l → Whole block (copy ++ l)

/-- A whole number of shuffled copies of the block, and a part of another. -/
inductive Dealt (block : List α) : List α → Prop
  | cut {copy : List α} (k : Nat) : copy.Perm block → Dealt block (copy.take k)
  | cons {copy l : List α} : copy.Perm block → Dealt block l → Dealt block (copy ++ l)

namespace Dealt

variable {copy l l' : List α} {k n : Nat}

theorem append (h : Whole block l) (h' : Dealt block l') : Dealt block (l ++ l') := by
  induction h with
  | nil => exact h'
  | cons hcopy _ ih =>
    rw [List.append_assoc]
    exact .cons hcopy ih

theorem take (h : Dealt block l) (n : Nat) : Dealt block (l.take n) := by
  induction h generalizing n with
  | cut k hcopy =>
    rw [List.take_take]
    exact .cut _ hcopy
  | @cons copy l hcopy _ ih =>
    rw [List.take_append]
    by_cases hn : n ≤ copy.length
    · rw [Nat.sub_eq_zero_of_le hn, List.take_zero, List.append_nil]
      exact .cut n hcopy
    · rw [List.take_of_length_le (by omega)]
      exact .cons hcopy (ih _)

/-- Every complete block is a shuffled copy. -/
theorem block_perm (h : Dealt block l) (hk : (k + 1) * block.length ≤ l.length) :
    ((l.drop (k * block.length)).take block.length).Perm block := by
  induction h generalizing k with
  | @cut copy n hcopy =>
    have hlen := hcopy.length_eq
    rw [List.length_take, hlen] at hk
    cases k with
    | zero =>
      rw [Nat.zero_mul, List.drop_zero, List.take_take, List.take_of_length_le (by omega)]
      exact hcopy
    | succ k =>
      -- there is room for a second block only when a block has nothing in it
      have hzero : block.length = 0 := by
        rw [Nat.add_mul, Nat.add_mul, Nat.one_mul] at hk
        omega
      rw [hzero, List.take_zero, List.eq_nil_of_length_eq_zero hzero]
  | @cons copy l hcopy hl ih =>
    have hlen := hcopy.length_eq
    cases k with
    | zero =>
      rw [Nat.zero_mul, List.drop_zero, ← hlen, List.take_left]
      exact hcopy
    | succ k =>
      rw [List.length_append, hlen, Nat.add_mul (k + 1), Nat.one_mul] at hk
      rw [Nat.add_mul k, Nat.one_mul, Nat.add_comm, ← List.drop_drop, ← hlen, List.drop_left, hlen]
      exact ih (by omega)

/-- The entries of a block without repetitions come about equally often. -/
theorem count_le [DecidableEq α] (h : Dealt block l) (hblock : block.Nodup) {x y : α}
    (hx : x ∈ block) (hy : y ∈ block) : l.count x ≤ l.count y + 1 := by
  induction h with
  | cut k hcopy =>
    have hnodup := (hcopy.nodup_iff.mpr hblock).sublist (List.take_sublist k _)
    have hle := List.nodup_iff_count_le_one.mp hnodup x
    omega
  | cons hcopy _ ih =>
    rw [List.count_append, List.count_append, hcopy.count_eq, hcopy.count_eq,
      List.count_eq_one_of_mem hblock hx, List.count_eq_one_of_mem hblock hy]
    omega

end Dealt

theorem Whole.append {copy l : List α} (h : Whole block l) (hcopy : copy.Perm block) :
    Whole block (l ++ copy) := by
  induction h with
  | nil =>
    rw [List.nil_append, ← List.append_nil copy]
    exact .cons hcopy .nil
  | cons hfirst _ ih =>
    rw [List.append_assoc]
    exact .cons hfirst ih

/-- What a list has been filled up with was dealt from shuffled copies of the block. -/
theorem fill_dealt (h : fill source block target fuel out s = some state) :
    ∃ added, state.1 = out ++ added ∧ Dealt block added := by
  -- only the last round can have cut its copy, and then there is no room for another
  have hround : ∀ state : List α × σ,
      (∃ added, state.1 = out ++ added ∧
        (Whole block added ∨ Dealt block added ∧ target ≤ state.1.length)) →
      decide (state.1.length < target) = true →
      ∃ added, (extend source block target state).1 = out ++ added ∧
        (Whole block added ∨
          Dealt block added ∧ target ≤ (extend source block target state).1.length) := by
    rintro state ⟨added, hout, hadded⟩ hc
    have hlt : state.1.length < target := of_decide_eq_true hc
    have hcopy := shuffle_perm source block state.2
    have hwhole : Whole block added := hadded.resolve_right fun h => absurd hlt (by omega)
    refine ⟨added ++ (shuffle source block state.2).1.take (target - state.1.length),
      by rw [← List.append_assoc, ← hout]; rfl, ?_⟩
    by_cases hroom : block.length ≤ target - state.1.length
    · left
      rw [List.take_of_length_le (hcopy.length_eq ▸ hroom)]
      exact hwhole.append hcopy
    · right
      rw [length_extend]
      exact ⟨.append hwhole (.cut _ hcopy), by omega⟩
  obtain ⟨⟨added, hout, hadded⟩, -⟩ := While.run_invariant hround
    ⟨[], (List.append_nil out).symm, .inl .nil⟩ h
  refine ⟨added, hout, ?_⟩
  rcases hadded with hwhole | ⟨hdealt, -⟩
  · rw [← List.append_nil added]
    exact .append hwhole (.cut 0 (.refl block))
  · exact hdealt

/-! ## The states of the source -/

section States

variable {P : σ → Prop} (hdraw : ∀ s n, P s → P (source.draw s n).2)

include hdraw

theorem shuffleFrom_state (i : Nat) (l : List α) (hs : P s) :
    P (shuffleFrom source i l s).2 := by
  induction i generalizing l s with
  | zero => exact hs
  | succ i ih => exact ih _ (hdraw s _ hs)

theorem shuffle_state (l : List α) (hs : P s) : P (shuffle source l s).2 :=
  shuffleFrom_state hdraw _ l hs

theorem fill_state (hs : P s) (h : fill source block target fuel out s = some state) :
    P state.2 := by
  have hround : ∀ state : List α × σ, P state.2 → decide (state.1.length < target) = true →
      P (extend source block target state).2 :=
    fun state hstate _ => shuffle_state hdraw block hstate
  exact (While.run_invariant hround hs h).1

end States

end Shuffle

/-! ## Xorshift -/

/-- One step of the 64-bit xorshift generator with the shifts 13, 7 and 17. -/
def xorshiftStep (state : UInt64) : UInt64 :=
  let state := state ^^^ (state <<< 13)
  let state := state ^^^ (state >>> 7)
  state ^^^ (state <<< 17)

/-- The indices of the generator. -/
def Shuffle.Source.xorshift : Source UInt64 where
  draw state upper := ((xorshiftStep state).toNat % upper, xorshiftStep state)
  draw_lt _ _ h := Nat.mod_lt _ h
