import Mathlib.Logic.Function.Basic
import IshtarOxide.Lab.Basic

/-!
# The append log

What the stream sessions are for: every session is a list of accepted chunks, and
operations are applied to them one at a time. Only a chunk that comes in sequence,
fits and whose runner succeeds is appended; a reset empties the first sessions;
nothing else changes anything.

* `run_wellFormed`: in every log that operations lead to, no chunk is empty and no
  session exceeds the capacity, so there are no more chunks than bytes.
-/

namespace Lab

/-- The accepted chunks of `n` sessions over the alphabet `α`. -/
abbrev Log (n : Nat) (α : Type) : Type := Fin n → List (List α)

namespace Log

variable {n : Nat} {α : Type} {capacity : Nat} {log : Log n α}

/-- The bytes of a session. -/
def size (chunks : List (List α)) : Nat := chunks.flatten.length

/-- `runner` is how the runner of a chunk ended, if it had one. `other` is whatever uses
the lane for something else. -/
inductive Operation (n : Nat) (α : Type)
  | append (slot : Fin n) (sequence : Nat) (chunk : List α) (runner : Option Outcome)
  | reset (count : Nat)
  | other

/-- What is answered to a chunk: a refusal, or how it ended, with the chunks and
bytes of its session afterwards. -/
inductive Answer
  | conflict
  | full
  | ran (runner : Option Outcome) (chunks bytes : Nat)
  | done
deriving DecidableEq, Repr

def apply (capacity : Nat) (log : Log n α) : Operation n α → Log n α
  | .append slot sequence chunk runner =>
    if sequence = (log slot).length ∧ size (log slot) + chunk.length ≤ capacity ∧
        runner = some .complete then
      Function.update log slot (log slot ++ [chunk])
    else log
  | .reset count => fun slot => if slot.val < count then [] else log slot
  | .other => log

def answer (capacity : Nat) (log : Log n α) : Operation n α → Answer
  | .append slot sequence chunk runner =>
    if sequence ≠ (log slot).length then .conflict
    else if capacity < size (log slot) + chunk.length then .full
    else
      let after := apply capacity log (.append slot sequence chunk runner) slot
      .ran runner after.length (size after)
  | _ => .done

/-- The log after `operations`, from empty sessions. -/
def run (capacity : Nat) (operations : List (Operation n α)) : Log n α :=
  operations.foldl (apply capacity) fun _ => []

theorem run_concat (operations : List (Operation n α)) (op : Operation n α) :
    run capacity (operations ++ [op]) = apply capacity (run capacity operations) op := by
  simp only [run, List.foldl_append, List.foldl_cons, List.foldl_nil]

/-- A chunk that does not succeed changes nothing. -/
theorem apply_append_of_ne {slot : Fin n} {sequence : Nat} {chunk : List α} {runner : Option Outcome}
    (h : runner ≠ some .complete) : apply capacity log (.append slot sequence chunk runner) = log :=
  if_neg fun hc => h hc.2.2

/-! ## Well-formed logs -/

structure WellFormed (capacity : Nat) (log : Log n α) : Prop where
  nonempty : ∀ slot, ∀ chunk ∈ log slot, chunk ≠ []
  bounded : ∀ slot, size (log slot) ≤ capacity

/-- No empty chunk is offered. -/
def Operation.Proper : Operation n α → Prop
  | .append _ _ chunk _ => chunk ≠ []
  | _ => True

theorem size_concat (chunks : List (List α)) (chunk : List α) :
    size (chunks ++ [chunk]) = size chunks + chunk.length := by
  simp [size]

theorem WellFormed.apply {op : Operation n α} (h : WellFormed capacity log) (hop : op.Proper) :
    WellFormed capacity (apply capacity log op) := by
  cases op with
  | append slot sequence chunk runner =>
    simp only [Log.apply]
    split
    · next hc =>
      refine ⟨fun i => ?_, fun i => ?_⟩
      · by_cases hi : i = slot
        · subst hi
          rw [Function.update_self]
          intro c hmem
          rcases List.mem_append.mp hmem with hmem | hmem
          · exact h.nonempty i c hmem
          · exact List.mem_singleton.mp hmem ▸ hop
        · rw [Function.update_of_ne hi]
          exact h.nonempty i
      · by_cases hi : i = slot
        · subst hi
          rw [Function.update_self, size_concat]
          exact hc.2.1
        · rw [Function.update_of_ne hi]
          exact h.bounded i
    · exact h
  | reset count =>
    refine ⟨fun i c hmem => ?_, fun i => ?_⟩
    · simp only [Log.apply] at hmem
      split at hmem
      · cases hmem
      · exact h.nonempty i c hmem
    · simp only [Log.apply]
      split
      · exact Nat.zero_le _
      · exact h.bounded i
  | other => exact h

theorem WellFormed.foldl {operations : List (Operation n α)} (h0 : WellFormed capacity log)
    (h : ∀ op ∈ operations, op.Proper) :
    WellFormed capacity (operations.foldl (Log.apply capacity) log) := by
  induction operations generalizing log with
  | nil => exact h0
  | cons op operations ih =>
    exact ih (h0.apply (h op List.mem_cons_self)) fun op' hop' =>
      h op' (List.mem_cons_of_mem op hop')

theorem run_wellFormed {operations : List (Operation n α)} (h : ∀ op ∈ operations, op.Proper) :
    WellFormed capacity (run capacity operations) := by
  refine WellFormed.foldl ⟨fun _ _ hc => ?_, fun _ => Nat.zero_le _⟩ h
  cases hc

/-- There are no more chunks than bytes. -/
theorem WellFormed.length_le_size (h : WellFormed capacity log) (slot : Fin n) :
    (log slot).length ≤ size (log slot) := by
  have hne := h.nonempty slot
  revert hne
  induction log slot with
  | nil => exact fun _ => Nat.le_refl 0
  | cons c chunks ih =>
    intro hne
    have hpos := List.length_pos_iff.mpr (hne c List.mem_cons_self)
    have := ih fun c' hc' => hne c' (List.mem_cons_of_mem c hc')
    simp only [size, List.flatten_cons, List.length_append, List.length_cons] at this ⊢
    omega

end Log

end Lab
