import Mathlib.Algebra.Ring.Nat
import Mathlib.Logic.Relation
import Mathlib.Data.List.Basic
import Mathlib.Data.List.Forall2
import Mathlib.Data.List.Induction

/-!
# Guarded machines

A machine has an initial state and a partial step function: `step s a` is
`none` when the action `a` is not enabled in `s`. Interleavings are sequences
of actions, so a nondeterministic scheduler or environment is a choice of
actions.

* `Reachable`, `ReachableWhen C`: the states of the runs, and of the runs whose
  steps all meet `C`, with the invariant rules.
* `record`: a machine with a list of what its steps show.
* `attempt`: an action that is skipped when it is not enabled.
* `view_foldl`: a view that some events cannot change, and on which the others
  act, depends on those others only (the unwinding rule of noninterference).
* `run_tracks`: the same for the runs of a machine, by a simulation.
-/

/-- A machine over states `σ` and actions `α`. -/
structure Machine (σ α : Type) where
  init : σ
  step : σ → α → Option σ

namespace Machine

variable {σ α : Type} {M : Machine σ α} {C : σ → α → Prop} {s s' : σ} {a : α}

/-! ## Runs -/

/-- One enabled step whose action meets `C` in the state before it. -/
def StepWhen (M : Machine σ α) (C : σ → α → Prop) (s s' : σ) : Prop :=
  ∃ a, C s a ∧ M.step s a = some s'

/-- The states that runs reach whose steps all meet `C`. -/
def ReachableWhen (M : Machine σ α) (C : σ → α → Prop) (s : σ) : Prop :=
  Relation.ReflTransGen (M.StepWhen C) M.init s

/-- The states that runs reach. -/
def Reachable (M : Machine σ α) (s : σ) : Prop := M.ReachableWhen (fun _ _ => True) s

/-- The state after the actions `l`, when each of them is enabled in turn. -/
def run (M : Machine σ α) (s : σ) (l : List α) : Option σ := l.foldlM M.step s

/-- The machine that takes only the steps that meet `C`. -/
def restrict (M : Machine σ α) (C : σ → α → Prop) [∀ s a, Decidable (C s a)] : Machine σ α :=
  ⟨M.init, fun s a => if C s a then M.step s a else none⟩

/-- The step `a` when it is enabled, and no step otherwise. -/
def attempt (M : Machine σ α) (s : σ) (a : α) : σ := (M.step s a).getD s

theorem run_cons {l : List α} :
    M.run s (a :: l) = some s' ↔ ∃ t, M.step s a = some t ∧ M.run t l = some s' := by
  rw [run, List.foldlM_cons, Option.bind_eq_bind, Option.bind_eq_some_iff]
  rfl

theorem run_singleton : M.run s [a] = M.step s a := by
  rw [run, List.foldlM_cons]
  cases M.step s a <;> rfl

theorem run_append (l l' : List α) : M.run s (l ++ l') = (M.run s l).bind (M.run · l') := by
  rw [run, List.foldlM_append]
  rfl

theorem ReachableWhen.init : M.ReachableWhen C M.init := Relation.ReflTransGen.refl

theorem ReachableWhen.step (h : M.ReachableWhen C s) (hc : C s a) (hs : M.step s a = some s') :
    M.ReachableWhen C s' :=
  Relation.ReflTransGen.tail h ⟨a, hc, hs⟩

theorem Reachable.init : M.Reachable M.init := ReachableWhen.init

theorem Reachable.step (h : M.Reachable s) (hs : M.step s a = some s') : M.Reachable s' :=
  ReachableWhen.step h trivial hs

/-- The invariant rule for runs whose steps all meet `C`. -/
theorem ReachableWhen.invariant {P : σ → Prop} (h0 : P M.init)
    (hstep : ∀ s a s', P s → C s a → M.step s a = some s' → P s')
    (h : M.ReachableWhen C s) : P s := by
  induction h with
  | refl => exact h0
  | tail _ hs ih =>
    obtain ⟨a, hc, hs⟩ := hs
    exact hstep _ a _ ih hc hs

/-- The invariant rule. -/
theorem Reachable.invariant {P : σ → Prop} (h0 : P M.init)
    (hstep : ∀ s a s', P s → M.step s a = some s' → P s') (h : M.Reachable s) : P s :=
  ReachableWhen.invariant h0 (fun s a s' hp _ hs => hstep s a s' hp hs) h

theorem ReachableWhen.reachable (h : M.ReachableWhen C s) : M.Reachable s :=
  h.invariant (P := M.Reachable) .init fun _ _ _ hr _ hs => hr.step hs

theorem ReachableWhen.run [∀ s a, Decidable (C s a)] {l : List α} (h : M.ReachableWhen C s)
    (hr : (M.restrict C).run s l = some s') : M.ReachableWhen C s' := by
  induction l generalizing s with
  | nil =>
    simp only [Machine.run, List.foldlM_nil] at hr
    cases hr
    exact h
  | cons a l ih =>
    obtain ⟨t, ht, hr⟩ := run_cons.mp hr
    obtain ⟨hc, ht⟩ := Option.ite_none_right_eq_some.mp ht
    exact ih (h.step hc ht) hr

theorem Reachable.run {l : List α} (h : M.Reachable s) (hr : M.run s l = some s') :
    M.Reachable s' := by
  refine ReachableWhen.run (C := fun _ _ => True) (l := l) h ?_
  simpa [Machine.run, restrict] using hr

theorem Reachable.steps (h : M.Reachable s) (hs : Relation.ReflTransGen (M.StepWhen C) s s') :
    M.Reachable s' := by
  induction hs with
  | refl => exact h
  | tail _ hstep ih => exact hstep.elim fun _ hstep => ih.step hstep.2

/-- The invariant rule with the actions that were taken. -/
theorem run_invariant {P : List α → σ → Prop} (h0 : P [] M.init)
    (hstep : ∀ l s a s', P l s → M.step s a = some s' → P (l ++ [a]) s') {l : List α}
    (h : M.run M.init l = some s) : P l s := by
  induction l using List.reverseRecOn generalizing s with
  | nil =>
    cases h
    exact h0
  | append_singleton l a ih =>
    rw [run_append, Option.bind_eq_some_iff] at h
    obtain ⟨t, ht, ha⟩ := h
    rw [run_singleton] at ha
    exact hstep l t a s (ih ht) ha

/-! ## Records -/

section Record

variable {ω : Type} {observe : σ → α → Option ω} {log : List ω}

/-- The machine with the list of what its steps showed so far. -/
def record (M : Machine σ α) (observe : σ → α → Option ω) : Machine (σ × List ω) α :=
  ⟨(M.init, []), fun x a => (M.step x.1 a).map fun s' => (s', x.2 ++ (observe x.1 a).toList)⟩

/-- The invariant rule with the record. -/
theorem Reachable.record_invariant {P : σ → List ω → Prop} (h0 : P M.init [])
    (hstep : ∀ s log a s', P s log → M.step s a = some s' → P s' (log ++ (observe s a).toList))
    (h : (M.record observe).Reachable (s, log)) : P s log := by
  refine h.invariant (P := fun x => P x.1 x.2) h0 fun x a y hx hs => ?_
  obtain ⟨s', hs', rfl⟩ := Option.map_eq_some_iff.mp hs
  exact hstep x.1 x.2 a s' hx hs'

theorem Reachable.record_step (h : (M.record observe).Reachable (s, log))
    (hs : M.step s a = some s') : (M.record observe).Reachable (s', log ++ (observe s a).toList) :=
  h.step (a := a) (by simp only [record, hs, Option.map_some])

theorem Reachable.of_record (h : (M.record observe).Reachable (s, log)) : M.Reachable s :=
  h.record_invariant (P := fun s _ => M.Reachable s) .init fun _ _ _ _ hr hs => hr.step hs

/-- A run has a record. -/
theorem Reachable.exists_record (observe : σ → α → Option ω) (h : M.Reachable s) :
    ∃ log, (M.record observe).Reachable (s, log) :=
  h.invariant (P := fun s => ∃ log, (M.record observe).Reachable (s, log)) ⟨[], .init⟩
    fun _ _ _ hp hs => hp.elim fun _ hr => ⟨_, hr.record_step hs⟩

end Record

/-! ## Attempts -/

theorem attempt_of_step (h : M.step s a = some s') : M.attempt s a = s' := by
  simp [attempt, h]

theorem attempt_of_disabled (h : M.step s a = none) : M.attempt s a = s := by
  simp [attempt, h]

/-- What enabled steps preserve, attempts preserve. -/
theorem attempt_preserves {P : σ → Prop} (hp : P s)
    (hstep : ∀ s', M.step s a = some s' → P s') : P (M.attempt s a) := by
  cases hs : M.step s a with
  | none => rw [attempt_of_disabled hs]; exact hp
  | some s' => rw [attempt_of_step hs]; exact hstep s' hs

theorem Reachable.attempt (h : M.Reachable s) : M.Reachable (M.attempt s a) :=
  attempt_preserves h fun _ hs => h.step hs

/-! ## Views -/

/-- The unwinding rule. Events `ε` drive a total step function; `low e` is the
part of an event that the view may depend on, and `none` when the event must
not show. If on the states of `P` the hidden events leave the view alone and
the others act on it as `vstep` does, then the view of a run is `vstep` run
over the visible parts of its events. -/
theorem view_foldl {ε ι ω : Type} {step : σ → ε → σ} {low : ε → Option ι} {view : σ → ω}
    {vstep : ω → ι → ω} {P : σ → Prop} (hP : ∀ s e, P s → P (step s e))
    (hidden : ∀ s e, P s → low e = none → view (step s e) = view s)
    (shown : ∀ s e i, P s → low e = some i → view (step s e) = vstep (view s) i)
    (es : List ε) (hs : P s) :
    view (es.foldl step s) = (es.filterMap low).foldl vstep (view s) := by
  induction es generalizing s with
  | nil => rfl
  | cons e es ih =>
    rw [List.foldl_cons, ih (hP s e hs)]
    cases hl : low e with
    | none => rw [List.filterMap_cons_none hl, hidden s e hs hl]
    | some i => rw [List.filterMap_cons_some hl, List.foldl_cons, shown s e i hs hl]

/-! ## Simulations -/

/-- The simulation rule. A total machine `vstep` sees the part `low a` of an action. If
steps that show nothing leave the related state alone and the others move it as `vstep`
does, then a run ends in relation to the run of `vstep` over what it showed. -/
theorem run_tracks {ι ω : Type} {low : α → Option ι} {vstep : ω → ι → ω} {R : σ → ω → Prop}
    (hidden : ∀ s a s' v, R s v → low a = none → M.step s a = some s' → R s' v)
    (shown : ∀ s a s' v i, R s v → low a = some i → M.step s a = some s' → R s' (vstep v i))
    {l : List α} {v : ω} (h : R s v) (hrun : M.run s l = some s') :
    R s' ((l.filterMap low).foldl vstep v) := by
  induction l generalizing s v with
  | nil =>
    cases hrun
    exact h
  | cons a l ih =>
    obtain ⟨t, ht, hrun⟩ := run_cons.mp hrun
    cases hl : low a with
    | none =>
      rw [List.filterMap_cons_none hl]
      exact ih (hidden s a t v h hl ht) hrun
    | some i =>
      rw [List.filterMap_cons_some hl, List.foldl_cons]
      exact ih (shown s a t v i h hl ht) hrun

end Machine

/-! ## States that are lists of components -/

namespace List.Forall₂

variable {α β : Type} {R : α → β → Prop} {l : List α} {l' : List β} {a : α} {b : β} {i : Nat}

theorem set (h : Forall₂ R l l') (i : Nat) (hab : R a b) : Forall₂ R (l.set i a) (l'.set i b) := by
  induction h generalizing i with
  | nil => exact .nil
  | cons hr hl ih =>
    cases i with
    | zero => exact .cons hab hl
    | succ i => exact .cons hr (ih i)

/-- A component changes in ways that do not show. -/
theorem set_left (h : Forall₂ R l l') (hb : l'[i]? = some b) (hab : R a b) :
    Forall₂ R (l.set i a) l' := by
  induction h generalizing i with
  | nil => exact .nil
  | cons hr hl ih =>
    cases i with
    | zero =>
      cases hb
      exact .cons hab hl
    | succ i => exact .cons hr (ih hb)

theorem getElem?_some (h : Forall₂ R l l') (ha : l[i]? = some a) :
    ∃ b, l'[i]? = some b ∧ R a b := by
  induction h generalizing i with
  | nil => cases ha
  | cons hr hl ih =>
    cases i with
    | zero =>
      cases ha
      exact ⟨_, rfl, hr⟩
    | succ i => exact ih ha

theorem map_eq {γ : Type} {f : α → γ} {g : β → γ} (h : Forall₂ R l l')
    (hf : ∀ a b, R a b → f a = g b) : l.map f = l'.map g := by
  induction h with
  | nil => rfl
  | cons hr _ ih => rw [List.map_cons, List.map_cons, hf _ _ hr, ih]

theorem getElem?_none (h : Forall₂ R l l') (ha : l[i]? = none) : l'[i]? = none := by
  rw [List.getElem?_eq_none_iff] at ha ⊢
  rwa [← h.length_eq]

end List.Forall₂
