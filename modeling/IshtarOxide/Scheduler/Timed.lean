import IshtarOxide.Scheduler.Admission

/-!
# Outcomes under a clock

The scheduler with timers that fire at their deadline and computation that
takes no time: the clock ticks only when no task is ready. What the callers and
the clock do is the `Input` of a run. What the runners do, `current_exe` and
`spawn` included, is its environment. The order in which tokio runs the tasks
that are ready at one instant is a parameter, which sees everything but the
runners (`State.view`).

* `timed_reachable`: a timed run is a run of the machine of the scheduler.
* `view_timedRun`: the view of a run depends on its inputs only.
* `punctual`: permits are out for exactly one slot, and a caller that is still
  there when its slot ends is answered then.
-/

namespace Scheduler

variable {p : Policy} {s s' t : State p} {a : Action} {id j : Nat} {r r' : Request}

/-! ## Timed runs -/

/-- A task that tokio resumes. `start` includes the first poll of
`execute_process`, which launches the child without an await in between; `fire`
is the deadline of request `id`, which resolves `timeout_at` if it has not been
resolved and then `sleep_until`. -/
inductive Task
  | poll (id : Nat)
  | start (id : Nat)
  | fire (id : Nat)
  | finish (id : Nat)
  | respond (id : Nat)
deriving DecidableEq, Repr

/-- What happens outside of the process. -/
inductive Input
  | arrive
  | disconnect (id : Nat)
  | tick
deriving DecidableEq, Repr

/-- An event of a timed run. -/
inductive Event
  | input (i : Input)
  | runner (id : Nat) (event : ProcessEvent)
deriving DecidableEq, Repr

/-- The part of an event that answers and times may depend on. -/
def Event.input? : Event → Option Input
  | .input i => some i
  | .runner _ _ => none

/-- A task of the request is ready to run. -/
def Request.ready (r : Request) (now : Nat) (granted : Bool) : Bool :=
  match r.phase with
  | .rejected => false
  | .spawned | .released => true
  | .acquiring => granted
  | .executing deadline _ => deadline ≤ now
  | .finished => r.caller = .connected

/-- Some task is ready. -/
def State.busy (s : State p) : Bool :=
  s.requests.zipIdx.any fun x => x.1.ready s.now (s.holds x.2)

/-- The request without its runner. -/
def Request.view (r : Request) : Request := ⟨r.phase.outer, .absent, r.caller⟩

/-- The state without the runners. -/
def State.view (s : State p) : State p := { s with requests := s.requests.map Request.view }

/-- Which tasks tokio runs, and in which order, before an input is delivered. -/
def Tokio (p : Policy) : Type := State p → Input → List Task

/-- One task. `launches` is what `current_exe` and `spawn` give each request. -/
def Task.run (launches : Nat → Launch) (s : State p) : Task → State p
  | .poll id => (machine p).attempt s (.poll id)
  | .start id =>
    (machine p).attempt ((machine p).attempt s (.start id)) (.process id (.launch (launches id)))
  | .fire id => (machine p).attempt ((machine p).attempt s (.timeout id)) (.wake id)
  | .finish id => (machine p).attempt s (.finish id)
  | .respond id => (machine p).attempt s (.respond id)

/-- The arrival of an input. Time does not pass while a task is ready. -/
def Input.deliver (s : State p) : Input → State p
  | .arrive => (machine p).attempt s .arrive
  | .disconnect id => (machine p).attempt s (.disconnect id)
  | .tick => if s.busy then s else (machine p).attempt s (.advance 1)

/-- One event of a timed run. -/
def timedStep (tokio : Tokio p) (launches : Nat → Launch) (s : State p) : Event → State p
  | .input i => i.deliver ((tokio s.view i).foldl (Task.run launches) s)
  | .runner id event => (machine p).attempt s (.process id event)

/-- The state after a timed run. -/
def timedRun (tokio : Tokio p) (launches : Nat → Launch) (events : List Event) : State p :=
  events.foldl (timedStep tokio launches) (.initial p)

/-! ## Induction over timed runs -/

/-- What tasks, inputs and runners preserve holds after every event. -/
theorem timedStep_preserves {P : State p → Prop} {tokio : Tokio p} {launches : Nat → Launch}
    (htask : ∀ s (task : Task), P s → P (task.run launches s))
    (hinput : ∀ s (i : Input), P s → P (i.deliver s))
    (hrunner : ∀ s id event, P s → P ((machine p).attempt s (.process id event)))
    (e : Event) (h : P s) : P (timedStep tokio launches s e) := by
  cases e with
  | input i => exact hinput _ i (List.foldlRecOn _ _ h fun s hs task _ => htask s task hs)
  | runner id event => exact hrunner s id event h

/-- A timed run is a run of the machine. -/
theorem timed_reachable (tokio : Tokio p) (launches : Nat → Launch) (events : List Event) :
    (machine p).Reachable (timedRun tokio launches events) := by
  refine List.foldlRecOn _ _ Machine.Reachable.init fun s hs e _ =>
    timedStep_preserves ?_ ?_ ?_ e hs
  · intro s task hs
    cases task with
    | poll id | finish id | respond id => exact hs.attempt
    | start id | fire id => exact hs.attempt.attempt
  · intro s i hs
    cases i with
    | arrive | disconnect id => exact hs.attempt
    | tick =>
      show (machine p).Reachable (if s.busy then s else _)
      split
      · exact hs
      · exact hs.attempt
  · intro s id event hs
    exact hs.attempt

/-! ## What a view keeps -/

@[simp] theorem Phase.outer_outer (ph : Phase) : ph.outer.outer = ph.outer := by
  cases ph <;> rfl

@[simp] theorem Request.view_view (r : Request) : r.view.view = r.view := by
  simp [Request.view]

@[simp] theorem State.view_view (s : State p) : s.view.view = s.view := by
  simp [State.view, Function.comp_def]

theorem State.view_eq (hn : s.now = t.now) (hp : s.pending = t.pending) (hs : s.slots = t.slots)
    (hl : s.log = t.log) (hr : s.requests.map Request.view = t.requests.map Request.view) :
    s.view = t.view := by
  simp only [State.view, hn, hp, hs, hl, hr]

/-- Requests with the same view are put into a state and into its view. -/
theorem State.view_put (h : r.view = r'.view) :
    (s.put id r).requests.map Request.view = (s.view.put id r').requests.map Request.view := by
  simp [State.put, State.view, List.map_set, Function.comp_def, h]

theorem State.view_get : s.view.requests[id]? = s.requests[id]?.map Request.view := by
  simp [State.view]

/-- A request is replaced by one with the same view. -/
theorem State.view_put_same (hr : s.requests[id]? = some r) (h : r'.view = r.view) :
    (s.put id r').view = s.view := by
  obtain ⟨hlt, he⟩ := List.getElem?_eq_some_iff.mp hr
  refine State.view_eq rfl rfl rfl rfl ?_
  rw [State.put, List.map_set, h, ← he, ← List.getElem_map Request.view (h := by simpa using hlt)]
  exact List.set_getElem_self _

/-- The phases that a view does not change. -/
def Phase.plain : Phase → Bool
  | .executing _ _ => false
  | _ => true

theorem Request.view_phase {ph : Phase} (hp : ph.plain) : r.view.phase = ph ↔ r.phase = ph := by
  show r.phase.outer = ph ↔ _
  unfold Phase.outer
  cases hr : r.phase <;> cases ph <;> simp_all [Phase.plain]

/-- The actions of which the view depends on the view before. -/
def Action.plain : Action → Bool
  | .process _ _ | .timeout _ | .wake _ => false
  | _ => true

/-- A guarded update of one request, in a state and in its view. -/
theorem view_guarded {c c' : Request → Prop} [DecidablePred c] [DecidablePred c']
    {f g : Request → State p} (hc : ∀ r, c' r.view ↔ c r) (h : ∀ r, (f r).view = (g r.view).view) :
    (s.requests[id]?.bind fun r => if c r then some (f r) else none).map State.view =
      (s.view.requests[id]?.bind fun r => if c' r then some (g r) else none).map State.view := by
  rw [State.view_get]
  cases s.requests[id]? with
  | none => rfl
  | some r => by_cases hcr : c r <;> simp [hc r, hcr, h r]

theorem view_step (h : a.plain) :
    (step p s a).map State.view = (step p s.view a).map State.view := by
  cases a with
  | process id event | timeout id | wake id => cases h
  | arrive =>
    simp only [step, Option.map_some]
    show some _ = some (State.view (if s.pending < p.maxPendingRuns then _ else _))
    split
    · simp [State.view, State.accept, Function.comp_def]
    · simp [State.view, State.reject, State.record, Function.comp_def]
  | advance d => simp [step, State.view, Function.comp_def]
  | disconnect id =>
    refine view_guarded (fun r => Iff.rfl) fun r => ?_
    exact State.view_eq rfl rfl rfl rfl (State.view_put (by simp [Request.view]))
  | poll id =>
    refine view_guarded (fun r => Request.view_phase rfl) fun r => ?_
    exact State.view_eq rfl rfl rfl rfl (State.view_put rfl)
  | start id =>
    refine view_guarded (fun r => and_congr_left' (Request.view_phase rfl)) fun r => ?_
    exact State.view_eq rfl rfl rfl rfl (State.view_put (s := s) rfl)
  | finish id =>
    refine view_guarded (fun r => Request.view_phase rfl) fun r => ?_
    exact State.view_eq rfl rfl rfl rfl (State.view_put rfl)
  | respond id =>
    refine view_guarded (fun r => and_congr_left' (Request.view_phase rfl)) fun r => ?_
    refine State.view_eq rfl rfl rfl rfl (State.view_put (s := s) ?_)
    simp [Request.view]

/-- On a plain action the view of an attempt depends on the view before. -/
theorem view_attempt (h : a.plain) :
    ((machine p).attempt s a).view = ((machine p).attempt s.view a).view := by
  have hv : (step p s a).map State.view = (step p s.view a).map State.view := view_step h
  show ((step p s a).getD s).view = ((step p s.view a).getD s.view).view
  cases hs : step p s a with
  | none =>
    rw [hs] at hv
    rw [Option.map_eq_none_iff.mp hv.symm]
    exact s.view_view.symm
  | some t =>
    rw [hs] at hv
    obtain ⟨t', ht', he⟩ := Option.map_eq_some_iff.mp hv.symm
    rw [ht']
    exact he.symm

/-- The runner does not show. -/
theorem view_process (event : ProcessEvent) :
    ((machine p).attempt s (.process id event)).view = s.view := by
  refine Machine.attempt_preserves (P := fun t : State p => t.view = s.view) rfl fun t ht => ?_
  simp only [machine, step, Option.bind_eq_some_iff, Option.map_eq_some_iff] at ht
  obtain ⟨r, hr, r', hr', rfl⟩ := ht
  refine State.view_put_same hr ?_
  have hph := (quiet_process hr').phase
  simp only [Request.view, hph, process_caller hr']

/-! ## Launched runs -/

/-- No run stands between its deadline and its launch. -/
def Launched (s : State p) : Prop := ∀ r ∈ s.requests, ∀ d, r.phase ≠ .executing d .launching

theorem Launched.set (h : Launched s) (hreq : s'.requests = s.requests.set id r)
    (hr : ∀ d, r.phase ≠ .executing d .launching) : Launched s' := by
  intro q hq
  rw [hreq] at hq
  rcases List.mem_or_eq_of_mem_set hq with hq | rfl
  · exact h q hq
  · exact hr

theorem Launched.append (h : Launched s) (hreq : s'.requests = s.requests ++ [r])
    (hr : ∀ d, r.phase ≠ .executing d .launching) : Launched s' := by
  intro q hq
  rw [hreq] at hq
  rcases List.mem_append.mp hq with hq | hq
  · exact h q hq
  · rw [List.mem_singleton.mp hq]
    exact hr

theorem Launched.view : Launched s.view := by
  intro q hq d
  obtain ⟨r, _, rfl⟩ := List.mem_map.mp hq
  show r.phase.outer ≠ _
  cases r.phase <;> simp [Phase.outer]

/-- Only `start` leaves a run to be launched. -/
theorem Launched.attempt (h : Launched s) (ha : ∀ id, a ≠ .start id) :
    Launched ((machine p).attempt s a) := by
  refine Machine.attempt_preserves h fun t ht => ?_
  have hold : ∀ {id : Nat} {r : Request}, s.requests[id]? = some r →
      ∀ d, r.phase ≠ .executing d .launching := fun hr => h _ (List.mem_of_getElem? hr)
  cases step_effect (show step p s a = some t from ht) with
  | accept | reject => exact h.append rfl (by simp)
  | advance => exact h
  | quiet hr hq => exact h.set rfl fun d hd => hold hr d (hq.launching d hd)
  | start => exact absurd rfl (ha _)
  | poll | wake | finish => exact h.set rfl (by simp)
  | respond hr => exact h.set rfl fun d => hold hr d

/-- `current_exe` and `spawn` are not awaited: they always give a result. -/
theorem Stage.launch (c : Child) (outcome : Launch) :
    ∃ y, Stage.step (.launching, c) (.launch outcome) = some y ∧ y.1 ≠ .launching := by
  cases outcome <;> exact ⟨_, rfl, by simp⟩

/-- The first poll of `execute_process` leaves nothing to be launched. -/
theorem Launched.start (h : Launched s) (launches : Nat → Launch) :
    Launched ((Task.start id).run launches s) := by
  show Launched ((machine p).attempt ((machine p).attempt s (.start id)) _)
  cases hs : (machine p).step s (.start id) with
  | none =>
    rw [Machine.attempt_of_disabled hs]
    exact h.attempt (by simp)
  | some t =>
    rw [Machine.attempt_of_step hs]
    simp only [machine, step, Option.bind_eq_some_iff, Option.ite_none_right_eq_some,
      Option.some.injEq] at hs
    obtain ⟨r, hr, _, rfl⟩ := hs
    have hlt : id < s.requests.length := (List.getElem?_eq_some_iff.mp hr).1
    obtain ⟨⟨stage, child⟩, hy, hne⟩ := Stage.launch r.child (launches id)
    have hlaunch : (machine p).step (s.start id r) (.process id (.launch (launches id))) =
        some ((s.start id r).put id ⟨.executing (s.now + p.executionSlot) stage, child, r.caller⟩) := by
      simp [machine, step, State.start, State.record, State.put, hlt, Request.process, hy]
    rw [Machine.attempt_of_step hlaunch]
    refine h.set (List.set_set ..) fun d hd => ?_
    cases hd
    exact hne rfl

theorem Launched.run (h : Launched s) (launches : Nat → Launch) (task : Task) :
    Launched (task.run launches s) := by
  cases task with
  | poll id | finish id | respond id => exact h.attempt (by simp)
  | fire id => exact (h.attempt (by simp)).attempt (by simp)
  | start id => exact h.start launches

theorem Launched.deliver (h : Launched s) (i : Input) : Launched (i.deliver s) := by
  cases i with
  | arrive | disconnect id => exact h.attempt (by simp)
  | tick =>
    show Launched (if s.busy then s else _)
    split
    · exact h
    · exact h.attempt (by simp)

/-! ## Two runs -/

/-- Request `id` executes and has reached its deadline. -/
def State.Due (s : State p) (id : Nat) : Prop :=
  ∃ r d stage, s.requests[id]? = some r ∧ r.phase = .executing d stage ∧ d ≤ s.now

/-- Before its deadline, a request is neither timed out nor woken. -/
theorem not_due (h : ¬ s.Due id) :
    (machine p).step s (.timeout id) = none ∧ (machine p).step s (.wake id) = none := by
  simp only [machine, step]
  cases hr : s.requests[id]? with
  | none => exact ⟨rfl, rfl⟩
  | some r =>
    simp only [Option.bind_some]
    split
    · next d stage hph =>
      have hlate : ¬ d ≤ s.now := fun hd => h ⟨r, d, stage, hr, hph, hd⟩
      simp [hlate]
    · exact ⟨rfl, rfl⟩

theorem State.Due.of_view (h : s.view.Due id) : s.Due id := by
  obtain ⟨rv, d, stage, hv, hph, hd⟩ := h
  rw [State.view_get] at hv
  obtain ⟨r, hr, rfl⟩ := Option.map_eq_some_iff.mp hv
  cases hph' : r.phase with
  | executing d' stage' =>
    simp only [Request.view, hph', Phase.outer, Phase.executing.injEq] at hph
    exact ⟨r, d', stage', hr, hph', hph.1 ▸ hd⟩
  | _ => simp [Request.view, hph', Phase.outer] at hph

/-- A deadline fires alike, whatever `execute_process` is doing. -/
theorem view_fire (h : Launched s) (launches : Nat → Launch) :
    ((Task.fire id).run launches s).view = ((machine p).attempt s.view (.wake id)).view := by
  show ((machine p).attempt ((machine p).attempt s (.timeout id)) (.wake id)).view = _
  by_cases hdue : s.Due id
  · obtain ⟨r, d, stage, hr, hph, hd⟩ := hdue
    have hlt : id < s.requests.length := (List.getElem?_eq_some_iff.mp hr).1
    have hwv : (machine p).step s.view (.wake id) = some (s.view.wake id r.view) := by
      have hdv : d ≤ s.view.now := hd
      simp [machine, step, State.view_get, hr, Request.view, hph, Phase.outer, Stage.settled, hdv]
    rw [Machine.attempt_of_step hwv]
    cases hst : stage.settled with
    | true =>
      -- `execute_process` has returned, or was timed out before
      have hna : stage.awaiting = false := by cases stage <;> first | rfl | cases hst
      have ht : (machine p).step s (.timeout id) = none := by simp [machine, step, hr, hph, hna]
      have hw : (machine p).step s (.wake id) = some (s.wake id r) := by
        simp [machine, step, hr, hph, hst, hd]
      rw [Machine.attempt_of_disabled ht, Machine.attempt_of_step hw]
      exact State.view_eq rfl rfl rfl rfl (State.view_put (s := s) rfl)
    | false =>
      -- it hangs, and is dropped
      have ha : stage.awaiting = true := by
        cases stage with
        | launching => exact absurd hph (h r (List.mem_of_getElem? hr) d)
        | writing | closing | waiting => rfl
        | returned | elapsed => cases hst
      have ht : (machine p).step s (.timeout id) =
          some (s.put id ⟨.executing d .elapsed, r.child.drop, r.caller⟩) := by
        simp [machine, step, hr, hph, ha, hd]
      have hw : (machine p).step (s.put id ⟨.executing d .elapsed, r.child.drop, r.caller⟩)
          (.wake id) = some ((s.put id ⟨.executing d .elapsed, r.child.drop, r.caller⟩).wake id
            ⟨.executing d .elapsed, r.child.drop, r.caller⟩) := by
        simp [machine, step, State.put, hlt, Stage.settled, hd]
      rw [Machine.attempt_of_step ht, Machine.attempt_of_step hw]
      refine State.view_eq rfl rfl rfl rfl ?_
      show ((s.requests.set id _).set id _).map Request.view = _
      rw [List.set_set]
      exact State.view_put (s := s) rfl
  · have hv : ¬ s.view.Due id := fun hv => hdue hv.of_view
    rw [Machine.attempt_of_disabled (not_due hdue).1, Machine.attempt_of_disabled (not_due hdue).2,
      Machine.attempt_of_disabled (not_due hv).2, State.view_view]

/-- Tasks act alike on states with one view. -/
theorem view_run (hs : Launched s) (ht : Launched t) (h : s.view = t.view) (task : Task)
    (launches launches' : Nat → Launch) :
    (task.run launches s).view = (task.run launches' t).view := by
  cases task with
  | poll id | finish id | respond id =>
    exact (view_attempt rfl).trans ((congrArg (fun v => ((machine p).attempt v _).view) h).trans
      (view_attempt rfl).symm)
  | fire id => rw [view_fire hs, view_fire ht, h]
  | start id =>
    show ((machine p).attempt ((machine p).attempt s _) _).view =
      ((machine p).attempt ((machine p).attempt t _) _).view
    rw [view_process, view_process, view_attempt (s := s) rfl, view_attempt (s := t) rfl, h]

theorem view_tasks (launches launches' : Nat → Launch) (tasks : List Task) (hs : Launched s)
    (ht : Launched t) (h : s.view = t.view) :
    (tasks.foldl (Task.run launches) s).view = (tasks.foldl (Task.run launches') t).view := by
  induction tasks generalizing s t with
  | nil => exact h
  | cons task tasks ih =>
    exact ih (hs.run launches task) (ht.run launches' task) (view_run hs ht h task launches launches')

theorem Request.ready_view (r : Request) (now : Nat) (granted : Bool) :
    r.view.ready now granted = r.ready now granted := by
  unfold Request.ready Request.view
  cases r.phase <;> rfl

theorem State.busy_view (s : State p) : s.view.busy = s.busy := by
  simp only [State.busy, State.view, List.zipIdx_map, List.any_map]
  refine congrArg (List.any s.requests.zipIdx) (funext fun x => ?_)
  exact x.1.ready_view s.now (s.holds x.2)

theorem view_deliver (h : s.view = t.view) (i : Input) :
    (i.deliver s).view = (i.deliver t).view := by
  have hattempt : ∀ a : Action, a.plain →
      ((machine p).attempt s a).view = ((machine p).attempt t a).view := by
    intro a ha
    rw [view_attempt (s := s) ha, view_attempt (s := t) ha, h]
  cases i with
  | arrive => exact hattempt .arrive rfl
  | disconnect id => exact hattempt (.disconnect id) rfl
  | tick =>
    show (if s.busy then s else _).view = (if t.busy then t else _).view
    rw [← s.busy_view, h, t.busy_view]
    split
    · exact h
    · exact hattempt (.advance 1) rfl

theorem Launched.timedStep {tokio : Tokio p} {launches : Nat → Launch} (h : Launched s) (e : Event) :
    Launched (timedStep tokio launches s e) :=
  timedStep_preserves (fun _ task hs => hs.run launches task) (fun _ i hs => hs.deliver i)
    (fun _ _ _ hs => hs.attempt (by simp)) e h

/-- The view of a run depends on its inputs and on tokio, not on its runners. -/
theorem view_timedRun (tokio : Tokio p) (launches : Nat → Launch) (events : List Event) :
    (timedRun tokio launches events).view =
      ((events.filterMap Event.input?).foldl
        (fun v i => (timedStep tokio (fun _ => .spawned) v (.input i)).view)
        (State.initial p).view) := by
  refine Machine.view_foldl (P := Launched) (fun s e hs => hs.timedStep e) ?_ ?_ events ?_
  · intro s e _ he
    cases e with
    | input i => cases he
    | runner id event => exact view_process event
  · intro s e i hs he
    cases e with
    | runner id event => cases he
    | input i' =>
      cases he
      refine view_deliver ?_ i
      rw [State.view_view]
      exact view_tasks launches _ _ hs Launched.view s.view_view.symm
  · intro r hr
    cases hr

/-! ## Answers -/

/-- Who is answered, and with what. -/
structure Answered (s : State p) : Prop where
  answers : ∀ e ∈ s.log, ∀ response, e.mark = .answered response →
    (response = queueFull ∧ s.phaseOf e.id = some .rejected) ∨
    (response = normalizedResponse ∧ s.phaseOf e.id = some .finished)
  told : ∀ id r, s.requests[id]? = some r → r.caller = .answered →
    ∃ e ∈ s.log, e.id = id ∧ ∃ response, e.mark = .answered response

theorem Answered.init : Answered (.initial p) := by
  constructor <;> simp [State.initial]

theorem Answered.extend (h : Answered s) (new : List Entry) (hlog : s'.log = s.log ++ new)
    (hkeep : ∀ j ph, ph = .rejected ∨ ph = .finished → s.phaseOf j = some ph →
      s'.phaseOf j = some ph)
    (hnew : ∀ e ∈ new, ∀ response, e.mark = .answered response →
      (response = queueFull ∧ s'.phaseOf e.id = some .rejected) ∨
      (response = normalizedResponse ∧ s'.phaseOf e.id = some .finished))
    (htold : ∀ j q, s'.requests[j]? = some q → q.caller = .answered →
      (∃ q', s.requests[j]? = some q' ∧ q'.caller = .answered) ∨
      ∃ e ∈ new, e.id = j ∧ ∃ response, e.mark = .answered response) : Answered s' := by
  refine ⟨fun e he response hm => ?_, fun j q hq hcq => ?_⟩
  · rw [hlog] at he
    rcases List.mem_append.mp he with he | he
    · rcases h.answers e he response hm with ⟨h1, h2⟩ | ⟨h1, h2⟩
      · exact .inl ⟨h1, hkeep _ _ (.inl rfl) h2⟩
      · exact .inr ⟨h1, hkeep _ _ (.inr rfl) h2⟩
    · exact hnew e he response hm
  · rcases htold j q hq hcq with ⟨q', hq', hcq'⟩ | ⟨e, he, hid, hm⟩
    · obtain ⟨e, he, hid, hm⟩ := h.told j q' hq' hcq'
      exact ⟨e, by rw [hlog]; exact List.mem_append_left _ he, hid, hm⟩
    · exact ⟨e, by rw [hlog]; exact List.mem_append_right _ he, hid, hm⟩

/-- A request arrives. -/
theorem Answered.append (h : Answered s) (new : List Entry) (hlog : s'.log = s.log ++ new)
    (hreq : s'.requests = s.requests ++ [r])
    (hnew : ∀ e ∈ new, e.id = s.requests.length ∧ e.mark = .answered queueFull ∧
      r.phase = .rejected)
    (htold : r.caller = .answered → new ≠ []) : Answered s' := by
  have hphase : ∀ j, s'.phaseOf j =
      if j = s.requests.length then some r.phase.outer else s.phaseOf j := fun j => by
    rw [State.phaseOf, hreq, phaseOf_append]
  refine h.extend new hlog (fun j ph _ hj => ?_) (fun e he response hm => ?_) fun j q hq hcq => ?_
  · rw [hphase, if_neg (by rintro rfl; simp [phaseOf_length] at hj), hj]
  · obtain ⟨hid, hmark, hph⟩ := hnew e he
    rw [hmark, Mark.answered.injEq] at hm
    exact .inl ⟨hm.symm, by rw [hphase, if_pos hid, hph]; rfl⟩
  · rw [hreq] at hq
    by_cases hj : j < s.requests.length
    · rw [List.getElem?_append_left hj] at hq
      exact .inl ⟨q, hq, hcq⟩
    · rw [List.getElem?_append_right (Nat.le_of_not_lt hj)] at hq
      have hqr : q = r := by simpa using List.mem_of_getElem? hq
      have hjl : j = s.requests.length := by
        have := (List.getElem?_eq_some_iff.mp hq).1
        simp only [List.length_singleton] at this
        omega
      obtain ⟨e, he⟩ := List.exists_mem_of_ne_nil new (htold (hqr ▸ hcq))
      exact .inr ⟨e, he, (hnew e he).1.trans hjl.symm, _, (hnew e he).2.1⟩

/-- A request is replaced, without an end of its refusal or its completion. -/
theorem Answered.set (h : Answered s) (new : List Entry) (hr : s.requests[id]? = some r)
    (hreq : s'.requests = s.requests.set id r') (hlog : s'.log = s.log ++ new)
    (hnew : ∀ e ∈ new, ∀ response, e.mark = .answered response →
      response = normalizedResponse ∧ e.id = id ∧ r'.phase = .finished)
    (hc : r'.caller = .answered → r.caller = .answered ∨
      ∃ e ∈ new, e.id = id ∧ ∃ response, e.mark = .answered response)
    (hph : r'.phase.outer = r.phase.outer ∨ (r.phase ≠ .rejected ∧ r.phase ≠ .finished)) :
    Answered s' := by
  have hget : ∀ j, s'.requests[j]? = if j = id then some r' else s.requests[j]? := fun j => by
    rw [hreq]
    exact getElem?_put hr
  refine h.extend new hlog (fun j ph hp hj => ?_) (fun e he response hm => ?_) fun j q hq hcq => ?_
  · rw [State.phaseOf, hget]
    split
    · next he =>
      subst he
      rw [phaseOf_of_get hr] at hj
      rcases hph with heq | ⟨hr1, hr2⟩
      · exact (congrArg some heq).trans hj
      · -- an answered request does not leave its phase
        cases hrp : r.phase <;> rcases hp with rfl | rfl <;> simp_all [Phase.outer]
    · exact hj
  · obtain ⟨hresp, hid, hfin⟩ := hnew e he response hm
    refine .inr ⟨hresp, ?_⟩
    rw [State.phaseOf, hget, if_pos hid]
    simp [hfin, Phase.outer]
  · rw [hget] at hq
    split at hq
    · next he =>
      subst he
      cases hq
      exact (hc hcq).imp_left fun hc => ⟨r, hr, hc⟩
    · exact .inl ⟨q, hq, hcq⟩

theorem Answered.step (h : Answered s) (hs : step p s a = some s') : Answered s' := by
  cases step_effect hs with
  | advance d => exact ⟨h.answers, h.told⟩
  | accept hlt => exact h.append [] (List.append_nil _).symm rfl (by simp) (by simp)
  | reject => exact h.append _ rfl rfl (by simp) (by simp)
  | quiet hr hq hc =>
    exact h.set [] hr rfl (List.append_nil _).symm (by simp) (fun hc' => .inl (hc hc'))
      (.inl hq.phase)
  | poll hr hph => exact h.set _ hr rfl rfl (by split <;> simp) .inl (.inr (by simp [hph]))
  | start hr hph hh => exact h.set _ hr rfl rfl (by simp) .inl (.inr (by simp [hph]))
  | wake hr hph =>
    refine h.set _ hr rfl rfl (List.forall_mem_cons.mpr ⟨by simp, fun e he => ?_⟩) .inl
      (.inr (by simp [hph]))
    obtain ⟨w, _, rfl⟩ := List.mem_map.mp he
    simp
  | finish hr hph =>
    exact h.set [] hr rfl (List.append_nil _).symm (by simp) .inl (.inr (by simp [hph]))
  | respond hr hph hc =>
    exact h.set _ hr rfl rfl (by simp [hph])
      (fun _ => .inr ⟨_, List.mem_singleton.mpr rfl, rfl, _, rfl⟩) (.inl rfl)

theorem answered (h : (machine p).Reachable s) : Answered s :=
  h.invariant .init fun _ _ _ ha hs => ha.step hs

/-! ## Punctuality -/

/-- Where a request that took its permit at `t` stands at the instant `now`. -/
def OnTime (slot now t : Nat) (caller : Caller) : Phase → Prop
  | .rejected | .spawned => False
  | .acquiring => t = now
  | .executing deadline _ => deadline = t + slot ∧ now ≤ deadline
  | .released => now = t + slot
  | .finished => caller = .connected → now = t + slot

/-- The request is on time. -/
def Request.OnTime (slot now t : Nat) (r : Request) : Prop :=
  Scheduler.OnTime slot now t r.caller r.phase

/-- The marks that end a slot. -/
def Mark.closes (mark : Mark) : Prop := mark = .released ∨ mark = .answered normalizedResponse

/-- Every request that took a permit is on time, and every slot that has ended
has ended on time. -/
structure Punctual (s : State p) : Prop where
  onTime : ∀ e ∈ s.log, e.mark = .acquired →
    ∃ r, s.requests[e.id]? = some r ∧ r.OnTime p.executionSlot s.now e.time
  closed : ∀ e ∈ s.log, ∀ e' ∈ s.log, e.id = e'.id → e.mark = .acquired → e'.mark.closes →
    e'.time = e.time + p.executionSlot

theorem Punctual.init : Punctual (.initial p) := by
  constructor <;> simp [State.initial]

theorem onTime_outer {slot now time : Nat} {c : Caller} (ph : Phase) :
    OnTime slot now time c ph.outer ↔ OnTime slot now time c ph := by
  cases ph <;> rfl

theorem Quiet.onTime {slot now time : Nat} (hq : Quiet r r') (h : r.OnTime slot now time) :
    r'.OnTime slot now time := by
  unfold Request.OnTime at h ⊢
  rw [← onTime_outer, hq.phase, onTime_outer]
  cases hr : r.phase <;> rw [hr] at h <;> first | exact h | exact fun hc => h (hq.caller hc)

/-- A slot that has ended belongs to a request that has dropped its permit. -/
theorem closes_phase (hc : Counted s) (hd : Dated s) {e : Entry} (he : e ∈ s.log)
    (hm : e.mark.closes) : s.phaseOf e.id = some .released ∨ s.phaseOf e.id = some .finished := by
  rcases hm with hm | hm
  · exact hc.no_release he hm
  · exact .inr (hd.complete e he hm)

/-- New entries of this instant: whoever takes a permit waits for its start, and
a slot ends on time. -/
theorem Punctual.extend (hc : Counted s) (hd : Dated s) (h : Punctual s) (new : List Entry)
    (hlog : s'.log = s.log ++ new) (hnow : s'.now = s.now)
    (hkeep : ∀ (j : Nat) (q : Request) t, s.requests[j]? = some q → q.OnTime p.executionSlot s.now t →
      ∃ q' : Request, s'.requests[j]? = some q' ∧ q'.OnTime p.executionSlot s.now t)
    (hopen : ∀ e ∈ new, e.mark = .acquired → e.time = s.now ∧ s'.phaseOf e.id = some .acquiring ∧
      (s.phaseOf e.id = some .spawned ∨ s.phaseOf e.id = some .acquiring) ∧
      ∀ e' ∈ new, e'.id = e.id → ¬ e'.mark.closes)
    (hclose : ∀ e' ∈ new, e'.mark.closes → e'.time = s.now ∧
      ∀ (q : Request) t, s.requests[e'.id]? = some q → q.OnTime p.executionSlot s.now t →
        s.now = t + p.executionSlot) : Punctual s' := by
  refine ⟨fun e he hm => ?_, fun e he e' he' hid hm hm' => ?_⟩
  · rw [hlog] at he
    rw [hnow]
    rcases List.mem_append.mp he with he | he
    · obtain ⟨q, hq, hon⟩ := h.onTime e he hm
      exact hkeep _ q _ hq hon
    · obtain ⟨htime, hph, _⟩ := hopen e he hm
      obtain ⟨q, hq, hout⟩ := Option.map_eq_some_iff.mp hph
      refine ⟨q, hq, ?_⟩
      unfold Request.OnTime
      rw [← onTime_outer, hout]
      exact htime
  · rw [hlog] at he he'
    rcases List.mem_append.mp he with hold | hnew
    · rcases List.mem_append.mp he' with hold' | hnew'
      · exact h.closed e hold e' hold' hid hm hm'
      · -- a slot that ends now was still open, and it ends on time
        obtain ⟨htime, hall⟩ := hclose e' hnew' hm'
        obtain ⟨q, hq, hon⟩ := h.onTime e hold hm
        rw [htime]
        exact hall q e.time (hid ▸ hq) hon
    · obtain ⟨_, _, hph, hnone⟩ := hopen e hnew hm
      rcases List.mem_append.mp he' with hold' | hnew'
      · -- a request that takes a permit now has never ended a slot
        have := closes_phase hc hd hold' hm'
        rw [← hid] at this
        rcases hph with hph | hph <;> simp [hph] at this
      · exact absurd hm' (hnone e' hnew' hid.symm)

theorem onTime_set {slot now : Nat} (hr : s.requests[id]? = some r)
    (hreq : s'.requests = s.requests.set id r')
    (hon : ∀ t, r.OnTime slot now t → r'.OnTime slot now t) (j : Nat) (q : Request) (t : Nat)
    (hq : s.requests[j]? = some q) (h : q.OnTime slot now t) :
    ∃ q' : Request, s'.requests[j]? = some q' ∧ q'.OnTime slot now t := by
  have hget : s'.requests[j]? = if j = id then some r' else s.requests[j]? := by
    rw [hreq]
    exact getElem?_put hr
  rw [hget]
  split
  · next he =>
    subst he
    rw [hr] at hq
    cases hq
    exact ⟨r', rfl, hon t h⟩
  · exact ⟨q, hq, h⟩

theorem onTime_append {slot now : Nat} (hreq : s'.requests = s.requests ++ [r]) (j : Nat)
    (q : Request) (t : Nat) (hq : s.requests[j]? = some q) (h : q.OnTime slot now t) :
    ∃ q' : Request, s'.requests[j]? = some q' ∧ q'.OnTime slot now t := by
  refine ⟨q, ?_, h⟩
  rw [hreq, List.getElem?_append_left (List.getElem?_eq_some_iff.mp hq).1, hq]

/-- Whatever happens at one instant, requests stay on time. -/
theorem Punctual.step (hb : Books s) (hc : Counted s) (hd : Dated s) (h : Punctual s)
    (ha : ∀ d, a ≠ .advance d) (hs : step p s a = some s') : Punctual s' := by
  cases step_effect hs with
  | advance d => exact absurd rfl (ha d)
  | accept =>
    exact h.extend hc hd [] (List.append_nil _).symm rfl (onTime_append rfl) (by simp) (by simp)
  | reject =>
    refine h.extend hc hd [⟨s.now, s.requests.length, .answered queueFull⟩] rfl rfl
      (onTime_append rfl) (by simp) ?_
    simp [Mark.closes, queueFull, normalizedResponse]
  | quiet hr hq =>
    exact h.extend hc hd [] (List.append_nil _).symm rfl
      (onTime_set hr rfl fun _ hon => hq.onTime hon) (by simp) (by simp)
  | @poll id r hr hph =>
    refine h.extend hc hd _ rfl rfl (onTime_set hr rfl fun t hon => ?_) ?_ ?_
    · rw [Request.OnTime, hph] at hon
      exact hon.elim
    · have hid : s.phaseOf id = some .spawned := by rw [phaseOf_of_get hr, hph]; rfl
      have hid' : (s.poll id r).phaseOf id = some .acquiring := by rw [phaseOf_poll hr, if_pos rfl]
      split <;> simp [hid, hid', Mark.closes]
    · split <;> simp [Mark.closes]
  | @start id r hr hph hh =>
    refine h.extend hc hd [⟨s.now, id, .started⟩] rfl rfl (onTime_set hr rfl fun t hon => ?_)
      (by simp) (by simp [Mark.closes])
    rw [Request.OnTime, hph] at hon
    have hon : t = s.now := hon
    subst hon
    exact ⟨rfl, Nat.le_add_right _ _⟩
  | @wake id r deadline stage hr hph hst hdl =>
    -- the timer fires at the deadline: it is not overdue, and not early
    have hnow : ∀ t, r.OnTime p.executionSlot s.now t → s.now = t + p.executionSlot := by
      intro t hon
      rw [Request.OnTime, hph] at hon
      have hon : deadline = t + p.executionSlot ∧ s.now ≤ deadline := hon
      omega
    have hid : s.phaseOf id = some (.executing deadline .elapsed) := by
      rw [phaseOf_of_get hr, hph]; rfl
    have hhand : ∀ e ∈ s.handover, e.mark = .acquired ∧ e.time = s.now ∧
        s.phaseOf e.id = some .acquiring := by
      intro e he
      obtain ⟨w, hw, rfl⟩ := List.mem_map.mp he
      exact ⟨rfl, rfl, hb.waiting w (Semaphore.next_mem (Option.mem_toList.mp hw))⟩
    refine h.extend hc hd _ rfl rfl (onTime_set hr rfl hnow) ?_ ?_
    · refine List.forall_mem_cons.mpr ⟨fun hm => (by cases hm), fun e he hm => ?_⟩
      obtain ⟨_, htime, hph'⟩ := hhand e he
      have hne : e.id ≠ id := by
        intro heq
        rw [heq, hid] at hph'
        cases hph'
      refine ⟨htime, by rw [phaseOf_wake hr, if_neg hne, hph'], .inr hph', ?_⟩
      refine List.forall_mem_cons.mpr ⟨fun heq => absurd heq.symm hne, fun e' he' _ => ?_⟩
      simp [Mark.closes, (hhand e' he').1]
    · refine List.forall_mem_cons.mpr ⟨fun _ => ⟨rfl, fun q t hq hon => ?_⟩, fun e he hm => ?_⟩
      · rw [hr] at hq
        cases hq
        exact hnow t hon
      · simp [Mark.closes, (hhand e he).1] at hm
  | @finish id r hr hph =>
    refine h.extend hc hd [] (List.append_nil _).symm rfl (onTime_set hr rfl fun t hon => ?_)
      (by simp) (by simp)
    rw [Request.OnTime, hph] at hon
    exact fun _ => hon
  | @respond id r hr hph hcn =>
    refine h.extend hc hd _ rfl rfl (onTime_set hr rfl fun t hon => ?_) (by simp) ?_
    · rw [Request.OnTime, hph]
      intro hcaller
      cases hcaller
    · simp only [List.mem_singleton, forall_eq]
      refine fun _ => ⟨rfl, fun q t hq hon => ?_⟩
      rw [hr] at hq
      cases hq
      rw [Request.OnTime, hph] at hon
      exact hon hcn

/-- Time passes only when nothing is due. -/
theorem Punctual.tick (hc : Counted s) (h : Punctual s) (hbusy : s.busy = false) :
    Punctual { s with now := s.now + 1 } := by
  refine ⟨fun e he hm => ?_, h.closed⟩
  obtain ⟨r, hr, hon⟩ := h.onTime e he hm
  refine ⟨r, hr, ?_⟩
  have hidle : r.ready s.now (s.holds e.id) = false := by
    have hmem : (r, e.id) ∈ s.requests.zipIdx := List.mem_zipIdx_iff_getElem?.mpr hr
    simpa using List.any_eq_false.mp hbusy (r, e.id) hmem
  unfold Request.OnTime at hon ⊢
  unfold Request.ready at hidle
  cases hph : r.phase with
  | rejected | spawned =>
    rw [hph] at hon
    exact hon.elim
  | acquiring =>
    -- whoever took its permit and has not started is ready
    have hpos := marks_pos (s := s) he
    rw [hm, hc e.id .acquired rfl, phaseOf_of_get hr, hph] at hpos
    rw [hph] at hidle
    have hpos : 0 < (s.holds e.id).toNat := hpos
    rw [show s.holds e.id = false from hidle] at hpos
    cases hpos
  | executing d stage =>
    rw [hph] at hon hidle
    have hd : ¬ d ≤ s.now := by simpa using hidle
    exact ⟨hon.1, Nat.lt_of_not_le hd⟩
  | released =>
    rw [hph] at hidle
    cases hidle
  | finished =>
    rw [hph] at hidle
    have hcn : r.caller ≠ .connected := by simpa using hidle
    exact fun hcaller => absurd hcaller hcn

theorem Punctual.attempt (hs : (machine p).Reachable s) (h : Punctual s)
    (ha : ∀ d, a ≠ .advance d) : Punctual ((machine p).attempt s a) :=
  Machine.attempt_preserves h fun _ ht => h.step (books hs) (counted hs) (dated hs) ha ht

theorem punctual (tokio : Tokio p) (launches : Nat → Launch) (events : List Event) :
    Punctual (timedRun tokio launches events) := by
  have hboth : (machine p).Reachable (timedRun tokio launches events) ∧
      Punctual (timedRun tokio launches events) := by
    refine List.foldlRecOn (motive := fun s => (machine p).Reachable s ∧ Punctual s) _ _
      ⟨.init, .init⟩ fun s hs e _ => timedStep_preserves
        (P := fun s => (machine p).Reachable s ∧ Punctual s) ?_ ?_ ?_ e hs
    · rintro s task ⟨hr, hs⟩
      cases task with
      | poll id | finish id | respond id => exact ⟨hr.attempt, hs.attempt hr (by simp)⟩
      | start id | fire id =>
        exact ⟨hr.attempt.attempt, (hs.attempt hr (by simp)).attempt hr.attempt (by simp)⟩
    · rintro s i ⟨hr, hs⟩
      cases i with
      | arrive | disconnect id => exact ⟨hr.attempt, hs.attempt hr (by simp)⟩
      | tick =>
        show (machine p).Reachable (if s.busy then s else _) ∧ Punctual (if s.busy then s else _)
        split
        · exact ⟨hr, hs⟩
        · next hidle =>
          exact ⟨hr.attempt, hs.tick (counted hr) (by simpa using hidle)⟩
    · rintro s id event ⟨hr, hs⟩
      exact ⟨hr.attempt, hs.attempt hr (by simp)⟩
  exact hboth.2

/-! ## The outcome of a run -/

/-- What callers and permits see of a run: the answers, the slots, and that a
slot that is over has been given back and answered at its end. -/
structure Outcome (s : State p) : Prop where
  answers : ∀ e ∈ s.log, ∀ response, e.mark = .answered response →
    response = queueFull ∨ response = normalizedResponse
  release : ∀ e ∈ s.log, ∀ e' ∈ s.log, e.id = e'.id → e.mark = .acquired → e'.mark = .released →
    e'.time = e.time + p.executionSlot
  answer : ∀ e ∈ s.log, ∀ e' ∈ s.log, e.id = e'.id → e.mark = .acquired →
    e'.mark = .answered normalizedResponse → e'.time = e.time + p.executionSlot
  complete : ∀ e ∈ s.log, e.mark = .acquired → e.time + p.executionSlot < s.now →
    ⟨e.time + p.executionSlot, e.id, .released⟩ ∈ s.log ∧
    ∀ r, s.requests[e.id]? = some r → r.caller = .gone ∨
      ⟨e.time + p.executionSlot, e.id, .answered normalizedResponse⟩ ∈ s.log

theorem outcome (hr : (machine p).Reachable s) (h : Punctual s) : Outcome s where
  answers e he response hm := ((answered hr).answers e he response hm).imp And.left And.left
  release e he e' he' hid hm hm' := h.closed e he e' he' hid hm (.inl hm')
  answer e he e' he' hid hm hm' := h.closed e he e' he' hid hm (.inr hm')
  complete e he hm hlate := by
    obtain ⟨r, hget, hon⟩ := h.onTime e he hm
    -- the slot is over, so its task has ended, and its caller does not wait
    have hfin : r.phase = .finished ∧ r.caller ≠ .connected := by
      unfold Request.OnTime at hon
      cases hph : r.phase with
      | rejected | spawned => rw [hph] at hon; exact hon.elim
      | acquiring => rw [hph] at hon; have : e.time = s.now := hon; omega
      | executing d stage => rw [hph] at hon; have := hon.1; have := hon.2; omega
      | released => rw [hph] at hon; have : s.now = _ := hon; omega
      | finished =>
        rw [hph] at hon
        refine ⟨rfl, fun hcn => ?_⟩
        have : s.now = _ := hon hcn
        omega
    have hid : s.phaseOf e.id = some .finished := by rw [phaseOf_of_get hget, hfin.1]; rfl
    refine ⟨?_, fun q hq => ?_⟩
    · have hpos : 0 < s.marks e.id .released := by
        rw [counted hr e.id .released rfl, hid]
        exact Nat.one_pos
      obtain ⟨e', he', hmark⟩ := List.countP_pos_iff.mp hpos
      simp only [decide_eq_true_eq] at hmark
      rw [← h.closed e he e' he' hmark.1.symm hm (.inl hmark.2), ← hmark.1, ← hmark.2]
      exact he'
    · rw [hget] at hq
      cases hq
      cases hcaller : r.caller with
      | connected => exact absurd hcaller hfin.2
      | gone => exact .inl rfl
      | answered =>
        right
        obtain ⟨e', he', heq, response, hmark⟩ := (answered hr).told e.id r hget hcaller
        rcases (answered hr).answers e' he' response hmark with ⟨_, hrej⟩ | ⟨rfl, _⟩
        · rw [heq, hid] at hrej
          cases hrej
        · rw [← h.closed e he e' he' heq.symm hm (.inr hmark), ← heq, ← hmark]
          exact he'

/-- The outcome of a run does not depend on its runners: under every policy, for
every order in which tokio runs what is ready, two runs with the same arrivals,
disconnects and clock have the same log (who took and released a permit, who was
answered with what, and when), however their runners behave, and that log is an
`Outcome`. -/
theorem outcome_noninterference (tokio : Tokio p) (launches launches' : Nat → Launch)
    (events events' : List Event)
    (h : events.filterMap Event.input? = events'.filterMap Event.input?) :
    (timedRun tokio launches events).log = (timedRun tokio launches' events').log ∧
    (timedRun tokio launches events).now = (timedRun tokio launches' events').now ∧
    (timedRun tokio launches events).requests.map Request.caller =
      (timedRun tokio launches' events').requests.map Request.caller ∧
    Outcome (timedRun tokio launches events) := by
  have hview : (timedRun tokio launches events).view = (timedRun tokio launches' events').view := by
    rw [view_timedRun, view_timedRun, h]
  have hlog := congrArg State.log hview
  have hnow := congrArg State.now hview
  refine ⟨hlog, hnow, ?_, outcome (timed_reachable ..) (punctual ..)⟩
  have hcallers : ∀ s : State p, s.requests.map Request.caller =
      s.view.requests.map Request.caller := fun s => by
    simp [State.view, Request.view, Function.comp_def]
  rw [hcallers, hview, ← hcallers]

/-- Tokio as a single thread that first ends what is over, then starts what it can. -/
def eager (p : Policy) : Tokio p := fun v _ =>
  (List.range v.requests.length).flatMap (fun id => [.fire id, .finish id, .respond id]) ++
    (List.range v.requests.length).flatMap fun id => [.poll id, .start id]

/-- One permit, a queue of two, and a slot of two ticks. -/
def tiny : Policy :=
  { Policy.production with executionSlot := 2, maxParallelWorkers := 1, maxPendingRuns := 2 }

/-- Three callers come at once and the second one leaves. The first runner exits
in the middle of its slot and the second one is killed by a signal. -/
def politeRunners : List Event :=
  [.input .arrive, .input .arrive, .input .arrive, .input .tick, .runner 0 (.write true),
    .runner 0 (.shutdown true), .runner 0 (.exit (.code 0)), .runner 0 (.wait true),
    .input (.disconnect 1), .input .tick, .input .tick, .runner 1 (.exit (.signal 31)),
    .runner 1 (.write false), .input .tick, .input .tick]

/-- The same callers. The first runner hangs. -/
def hungRunners : List Event :=
  [.input .arrive, .input .arrive, .input .arrive, .input .tick, .runner 0 (.write true),
    .input (.disconnect 1), .input .tick, .input .tick, .input .tick, .input .tick]

theorem outcome_noninterference_three_callers :
    (timedRun (eager tiny) (fun _ => .spawned) politeRunners).log =
      (timedRun (eager tiny) (fun id => if id = 0 then .spawned else .spawnFailed) hungRunners).log ∧
    (timedRun (eager tiny) (fun _ => .spawned) politeRunners).log =
      [⟨0, 0, .acquired⟩, ⟨0, 0, .started⟩, ⟨0, 2, .answered queueFull⟩, ⟨2, 0, .released⟩,
        ⟨2, 1, .acquired⟩, ⟨2, 0, .answered normalizedResponse⟩, ⟨2, 1, .started⟩,
        ⟨4, 1, .released⟩] := by
  refine ⟨(outcome_noninterference (eager tiny) _ _ politeRunners hungRunners ?_).1, ?_⟩
  · decide
  · decide +kernel

end Scheduler
