import IshtarOxide.Lab.Slots

/-!
# Padded turns

With a release slot, `run_slot` keeps the lane until the slot has passed, however it left
`execute_process`. When the slot is longer than the cutoff and the time to reap a child,
what a runner does cannot be told from the answers to turns, whoever waits for them.

* `timed`: the lab with exact timers. Time passes only when every task waits, and what a
  runner does is a choice of events.
* `Queue`: turns as their callers see them. There is no runner in it.
* `Tracks`, `Tracks.step`: the lab follows the queue.
* `padded_turns_alike`: two runs.
-/

open Linux

namespace Lab

variable {policy : Policy} {host : Host} {token : List UInt8}

/-! ## Exact timers -/

/-- How long killing a child and waiting for it takes at most, in microseconds. -/
def reapTime : Nat := 1000

/-- How long after its admission a turn can still be at a stage. -/
def Stage.limit (policy : Policy) : Stage → Nat
  | .launching => 0
  | .writing | .reading | .waiting _ => policy.executionCutoff
  | .terminating | .returned _ => policy.executionCutoff + reapTime

theorem Stage.limit_le (policy : Policy) (stage : Stage) :
    stage.limit policy ≤ policy.executionCutoff + reapTime := by
  cases stage with
  | launching => exact Nat.zero_le _
  | writing | reading | waiting => exact Nat.le_add_right ..
  | terminating | returned => exact Nat.le_refl _

/-- The request waits for the clock or for others. `held` is whether the lane has been
assigned to it. -/
def Request.rests (now : Nat) (held : Bool) (r : Request policy) : Bool :=
  match r.phase with
  | .acquiring _ => !held
  | .executing _ _ (.returned _) => false
  | .executing times _ stage => now < times.admittedAt + stage.limit policy
  | .padding release _ => release.any (now < ·)
  | .finished _ => r.caller ≠ .connected
  | .dropped => true
  | .spawned _ | .admitted .. | .reporting .. | .released _ | .locking => false

def State.rests (s : State policy) : Bool :=
  s.requests.zipIdx.all fun (r, id) => r.rests s.now (id ∈ s.lane.holders)

theorem State.rests_at (s : State policy) (h : s.rests) {id : Nat} {r : Request policy}
    (hr : s.requests[id]? = some r) : r.rests s.now (id ∈ s.lane.holders) :=
  List.all_eq_true.mp h (r, id) (List.mem_zipIdx_iff_getElem?.mpr hr)

/-! ## Schedules -/

/-- A turn with the token that passes the checks of its handler. -/
structure TurnArrival (host : Host) (token : List UInt8) (policy : Policy) where
  header : Option (List UInt8)
  turn : ValidTurn policy
  authorized : authorize host token header = true

/-- `emit` and `exit` are of a child whose program is not known: it writes anything and ends
in any way. `drive` is an event of its driver. -/
inductive Event (host : Host) (token : List UInt8) (policy : Policy)
  | arrive (arrival : TurnArrival host token policy)
  | disconnect (id : Nat)
  | tick
  | enter (id : Nat)
  | drive (id : Nat) (event : ProcessEvent)
  | emit (id : Nat) (bytes : List UInt8)
  | exit (id : Nat) (status : ExitStatus)
  | settle (id : Nat)

/-- What schedules that differ in their runners have in common. -/
inductive Input
  | arrive (sessionSlot : UInt16)
  | disconnect (id : Nat)
  | tick
deriving DecidableEq, Repr

def Event.input? : Event host token policy → Option Input
  | .arrive arrival => some (.arrive arrival.turn.1.sessionSlot)
  | .disconnect id => some (.disconnect id)
  | .tick => some .tick
  | .enter _ | .drive .. | .emit .. | .exit .. | .settle _ => none

/-- What tokio runs outside of the runners. -/
inductive ServerTask
  | poll (id : Nat)
  | grant (id : Nat)
  | leave (id : Nat)
  | finish (id : Nat)
  | respond (id : Nat)
deriving DecidableEq, Repr

def ServerTask.id : ServerTask → Nat
  | .poll id | .grant id | .leave id | .finish id | .respond id => id

def ServerTask.action : ServerTask → Action
  | .poll id => .poll id
  | .grant id => .grant id
  | .leave id => .leave id
  | .finish id => .finish id
  | .respond id => .respond id

/-- The order in which tokio takes up tasks after the inputs so far, the last of which comes
first in the list. Tasks that are not ready are skipped. -/
def Tokio : Type := List Input → List ServerTask

/-- A state with the inputs so far. -/
structure Logged (σ : Type) where
  state : σ
  inputs : List Input

/-- What `f` makes of the child of a request, if it still runs. -/
def State.withChild (s : State policy) (id : Nat) (f : Child → Child) : Option (State policy) :=
  s.requests[id]?.bind fun r => r.child.bind fun c =>
    if c.live then some (s.put id { r with child := some (f c) }) else none

/-- An event by itself. -/
def Event.apply (s : State policy) : Event host token policy → Option (State policy)
  | .arrive arrival => step host token s (.arrive arrival.header (.turn arrival.turn.1))
  | .disconnect id => step host token s (.disconnect id)
  | .tick => if s.rests then step host token s (.advance 1) else none
  | .enter id => step host token s (.enter id)
  | .drive id event => step host token s (.process id event)
  | .emit id bytes => s.withChild id fun c => { c with stdout := c.stdout ++ bytes }
  | .exit id status => s.withChild id fun c => { c with status := some status }
  | .settle id => step host token s (.settle id)

def runTasks (host : Host) (token : List UInt8) (s : State policy) (tasks : List ServerTask) :
    State policy :=
  tasks.foldl (fun s task => (machine host token policy).attempt s task.action) s

/-- An event, and after an input the tasks that it made ready. -/
def Event.step (tokio : Tokio) (x : Logged (State policy)) (event : Event host token policy) :
    Option (Logged (State policy)) :=
  (event.apply x.state).map fun s =>
    match event.input? with
    | some i => ⟨runTasks host token s (tokio (i :: x.inputs)), i :: x.inputs⟩
    | none => ⟨s, x.inputs⟩

/-- The lab with exact timers. -/
def timed (host : Host) (token : List UInt8) (policy : Policy) (tokio : Tokio) :
    Machine (Logged (State policy)) (Event host token policy) :=
  ⟨⟨.initial policy, []⟩, Event.step tokio⟩

/-! ## The queue -/

/-- Where a turn stands for those who wait for it. `inside` is until the lane is released. -/
inductive Stand
  | spawned
  | waiting
  | inside (release : Nat)
  | released
  | finished (reply : Reply)
deriving DecidableEq, Repr

structure Place where
  stand : Stand
  caller : Caller
deriving DecidableEq, Repr

structure Queue where
  now : Nat
  pending : Nat
  lane : Semaphore 1
  places : List Place
deriving DecidableEq, Repr

namespace Queue

def initial : Queue := ⟨0, 0, .new 1, []⟩

def put (q : Queue) (id : Nat) (p : Place) : Queue := { q with places := q.places.set id p }

def arrive (q : Queue) : Queue :=
  if q.pending < maxPending then
    { q with pending := q.pending + 1, places := q.places ++ [⟨.spawned, .connected⟩] }
  else
    { q with
      places := q.places ++
        [⟨.finished (.error .tooMany), .answered q.now (.error .tooMany)⟩] }

def disconnect (q : Queue) (id : Nat) : Queue :=
  match q.places[id]? with
  | some p => q.put id { p with caller := .gone }
  | none => q

/-- A task of the turn `id`, which is at `p`. -/
def taskAt (slot : Nat) (q : Queue) (id : Nat) (p : Place) (task : ServerTask) : Queue :=
  match task, p.stand with
  | .poll _, .spawned => { q.put id { p with stand := .waiting } with lane := q.lane.acquire id }
  | .grant _, .waiting =>
    if id ∈ q.lane.holders then q.put id { p with stand := .inside (q.now + slot) } else q
  | .leave _, .inside release =>
    if release ≤ q.now then
      { q.put id { p with stand := .released } with lane := q.lane.release id }
    else q
  | .finish _, .released =>
    { q.put id { p with stand := .finished .normalized } with pending := fetchSub q.pending }
  | .respond _, .finished reply =>
    if p.caller = .connected then q.put id { p with caller := .answered q.now reply } else q
  | _, _ => q

def task (slot : Nat) (q : Queue) (task : ServerTask) : Queue :=
  match q.places[task.id]? with
  | some p => q.taskAt slot task.id p task
  | none => q

def apply (q : Queue) : Input → Queue
  | .arrive _ => q.arrive
  | .disconnect id => q.disconnect id
  | .tick => { q with now := q.now + 1 }

/-- An input, and the tasks that it made ready. -/
def step (slot : Nat) (tokio : Tokio) (x : Logged Queue) (i : Input) : Logged Queue :=
  ⟨(tokio (i :: x.inputs)).foldl (task slot) (x.state.apply i), i :: x.inputs⟩

end Queue

/-! ## The lab follows the queue -/

/-- The request `r` is at `p`. Between its admission and its padding a turn has not been there
for longer than its stage allows. -/
inductive Appears (slot now : Nat) : Request policy → Place → Prop
  | spawned {w : ValidTurn policy} {t : Nat} {child : Option Child} {caller : Caller} :
    Appears slot now ⟨.turn w, .spawned t, child, caller⟩ ⟨.spawned, caller⟩
  | acquiring {w : ValidTurn policy} {t : Nat} {child : Option Child} {caller : Caller} :
    Appears slot now ⟨.turn w, .acquiring t, child, caller⟩ ⟨.waiting, caller⟩
  | admitted {w : ValidTurn policy} {t a : Nat} {child : Option Child} {caller : Caller}
    (limit : now ≤ a) :
    Appears slot now ⟨.turn w, .admitted t a, child, caller⟩ ⟨.inside (a + slot), caller⟩
  | executing {w : ValidTurn policy} {times : Times} {job : Job} {stage : Stage}
    {child : Option Child} {caller : Caller}
    (limit : now ≤ times.admittedAt + stage.limit policy) :
    Appears slot now ⟨.turn w, .executing times job stage, child, caller⟩
      ⟨.inside (times.admittedAt + slot), caller⟩
  | padding {w : ValidTurn policy} {release : Nat} {child : Option Child} {caller : Caller} :
    Appears slot now ⟨.turn w, .padding (some release) .normalized, child, caller⟩
      ⟨.inside release, caller⟩
  | released {w : ValidTurn policy} {child : Option Child} {caller : Caller} :
    Appears slot now ⟨.turn w, .released .normalized, child, caller⟩ ⟨.released, caller⟩
  | finished {work : Work policy} {reply : Reply} {child : Option Child} {caller : Caller} :
    Appears slot now ⟨work, .finished reply, child, caller⟩ ⟨.finished reply, caller⟩

structure Tracks (slot : Nat) (s : State policy) (q : Queue) : Prop where
  now : q.now = s.now
  pending : q.pending = s.pending
  lane : q.lane = s.lane
  places : List.Forall₂ (Appears slot s.now) s.requests q.places

variable {slot id : Nat} {s s' : State policy} {q : Queue} {r r' : Request policy} {p p' : Place}
  {held : Bool}

/-- A driver never goes back to a stage with less time. -/
theorem Stage.step_limit (policy : Policy) {job : Job} {expired : Bool} {stage stage' : Stage}
    {child child' : Option Child} {event : ProcessEvent}
    (h : stage.step host job expired child event = some (stage', child')) :
    stage.limit policy ≤ stage'.limit policy := by
  unfold Stage.step at h
  split at h
  -- the launch, the write and the child leave the driver where its deadline is the same or later
  · cases h
    exact Nat.zero_le _
  · cases h
    exact Nat.zero_le _
  · cases h
    exact Nat.zero_le _
  · cases h
    exact Nat.le_refl _
  · obtain ⟨_, _, h⟩ := Option.map_eq_some_iff.mp h
    cases h
    exact Nat.le_refl _
  · obtain ⟨_, _, h⟩ := Option.map_eq_some_iff.mp h
    cases h
    exact Nat.le_refl _
  · obtain ⟨_, h⟩ := Option.ite_none_right_eq_some.mp h
    cases h
    exact Nat.le_refl _
  -- every exit, and the timeout
  · obtain ⟨_, _, h⟩ := Option.map_eq_some_iff.mp h
    cases h
    exact limit_le ..
  · cases h
    exact limit_le ..
  · cases h
    exact limit_le ..
  · obtain ⟨_, h⟩ := Option.ite_none_right_eq_some.mp h
    cases h
    exact limit_le ..
  · obtain ⟨_, h⟩ := Option.ite_none_right_eq_some.mp h
    cases h
    exact limit_le ..
  · cases h

theorem Appears.process {now : Nat} {event : ProcessEvent} (ha : Appears slot now r p)
    (h : r.process host now event = some r') : Appears slot now r' p := by
  cases ha with
  | @executing _ times _ stage _ _ limit =>
    obtain ⟨⟨stage', child'⟩, hstep, rfl⟩ := Option.map_eq_some_iff.mp h
    have hlimit := Stage.step_limit policy hstep
    exact .executing (by omega)
  | spawned | acquiring | admitted | padding | released | finished =>
    obtain ⟨c, _, rfl⟩ := Option.map_eq_some_iff.mp h
    first
      | exact .spawned
      | exact .acquiring
      | exact .admitted ‹_›
      | exact .padding
      | exact .released
      | exact .finished

theorem Appears.withChild {now : Nat} (ha : Appears slot now r p) (child : Option Child) :
    Appears slot now { r with child := child } p := by
  cases ha with
  | spawned => exact .spawned
  | acquiring => exact .acquiring
  | admitted limit => exact .admitted limit
  | executing limit => exact .executing limit
  | padding => exact .padding
  | released => exact .released
  | finished => exact .finished

theorem Appears.caller {now : Nat} (h : Appears slot now r p) : p.caller = r.caller := by
  cases h <;> rfl

namespace Tracks

theorem initial : Tracks slot (.initial policy) .initial := ⟨rfl, rfl, rfl, .nil⟩

theorem put (h : Tracks slot s q) (id : Nat) (ha : Appears slot s.now r p) :
    Tracks slot (s.put id r) (q.put id p) :=
  ⟨h.now, h.pending, h.lane, h.places.set id ha⟩

/-- A request changes in ways that do not show. -/
theorem put_same (h : Tracks slot s q) (hp : q.places[id]? = some p)
    (ha : Appears slot s.now r p) : Tracks slot (s.put id r) q :=
  ⟨h.now, h.pending, h.lane, h.places.set_left hp ha⟩

theorem acquire (h : Tracks slot s q) (id : Nat) :
    Tracks slot (s.acquire id) { q with lane := q.lane.acquire id } :=
  ⟨h.now, h.pending, by rw [h.lane]; rfl, h.places⟩

theorem release (h : Tracks slot s q) (id : Nat) :
    Tracks slot (s.release id) { q with lane := q.lane.release id } :=
  ⟨h.now, h.pending, by rw [h.lane]; rfl, h.places⟩

theorem withPending (h : Tracks slot s q) (pending : Nat) :
    Tracks slot { s with pending := pending } { q with pending := pending } :=
  ⟨h.now, rfl, h.lane, h.places⟩

/-! ### Tasks -/

theorem attempt_task {task : ServerTask} (hr : s.requests[task.id]? = some r) :
    (machine host token policy).attempt s task.action =
      (stepAt host s task.id r task.action).getD s := by
  unfold Machine.attempt
  cases task with
  | poll id | grant id | leave id | finish id | respond id =>
    simp only [machine_step, step, ServerTask.action, Action.id, ServerTask.id] at hr ⊢
    rw [hr, Option.bind_some]

theorem attempt_task_none {task : ServerTask} (hr : s.requests[task.id]? = none) :
    (machine host token policy).attempt s task.action = s := by
  unfold Machine.attempt
  cases task with
  | poll id | grant id | leave id | finish id | respond id =>
    simp only [machine_step, step, ServerTask.action, Action.id, ServerTask.id] at hr ⊢
    rw [hr, Option.bind_none, Option.getD_none]

/-- A task of the request `id`. A turn that is still with its runner does not leave: its slot
is not over. -/
theorem taskAt (hslot : policy.executionCutoff + reapTime < slot) (h : Tracks slot s q)
    (ha : Appears slot s.now r p) (task : ServerTask) :
    Tracks slot ((stepAt host s task.id r task.action).getD s) (q.taskAt slot task.id p task) := by
  cases task with
  | poll id =>
    cases ha with
    | spawned => exact (h.put id .acquiring).acquire id
    | acquiring | admitted | executing | padding | released | finished => exact h
  | grant id =>
    cases ha with
    | acquiring =>
      show Tracks slot ((if id ∈ s.lane.holders then some _ else none).getD s)
        (if id ∈ q.lane.holders then q.put id ⟨.inside (q.now + slot), _⟩ else q)
      rw [h.lane, h.now]
      by_cases hi : id ∈ s.lane.holders
      · rw [if_pos hi, if_pos hi]
        exact h.put id (.admitted (Nat.le_refl _))
      · rw [if_neg hi, if_neg hi]
        exact h
    | spawned | admitted | executing | padding | released | finished => exact h
  | leave id =>
    cases ha with
    | @admitted _ _ a _ _ limit =>
      -- its cutoff lies before the end of the slot, which has not come
      have hlate : ¬ a + slot ≤ s.now := by omega
      simp only [stepAt, ServerTask.action, ServerTask.id, Queue.taskAt, h.now, if_neg hlate]
      exact h
    | @executing _ times _ stage _ _ limit =>
      have hstage := stage.limit_le policy
      have hlate : ¬ times.admittedAt + slot ≤ s.now := by omega
      simp only [stepAt, ServerTask.action, ServerTask.id, Queue.taskAt, h.now, if_neg hlate]
      exact h
    | @padding _ release =>
      simp only [stepAt, ServerTask.action, ServerTask.id, Queue.taskAt, h.now, Option.all_some,
        decide_eq_true_eq]
      by_cases hi : release ≤ s.now
      · rw [if_pos hi, if_pos hi]
        exact (h.put id .released).release id
      · rw [if_neg hi, if_neg hi]
        exact h
    | spawned | acquiring | released | finished => exact h
  | finish id =>
    cases ha with
    | released =>
      simp only [stepAt, ServerTask.action, ServerTask.id, Queue.taskAt, h.pending]
      exact (h.put id .finished).withPending _
    | spawned | acquiring | admitted | executing | padding | finished => exact h
  | respond id =>
    cases ha with
    | @finished _ reply _ caller =>
      simp only [stepAt, ServerTask.action, ServerTask.id, Queue.taskAt, h.now]
      by_cases hc : caller = .connected
      · rw [if_pos hc, if_pos hc]
        exact h.put id .finished
      · rw [if_neg hc, if_neg hc]
        exact h
    | spawned | acquiring | admitted | executing | padding | released => exact h

theorem task (hslot : policy.executionCutoff + reapTime < slot) (h : Tracks slot s q)
    (task : ServerTask) :
    Tracks slot ((machine host token policy).attempt s task.action) (q.task slot task) := by
  unfold Queue.task
  cases hr : s.requests[task.id]? with
  | none =>
    rw [attempt_task_none hr, h.places.getElem?_none hr]
    exact h
  | some r =>
    obtain ⟨p, hp, ha⟩ := h.places.getElem?_some hr
    rw [attempt_task hr, hp]
    exact h.taskAt hslot ha task

theorem tasks (hslot : policy.executionCutoff + reapTime < slot) (h : Tracks slot s q)
    (tasks : List ServerTask) :
    Tracks slot (runTasks host token s tasks) (tasks.foldl (Queue.task slot) q) := by
  induction tasks generalizing s q with
  | nil => exact h
  | cons task tasks ih => exact ih (h.task hslot task)

/-! ### Inputs -/

theorem accept (h : Tracks slot s q) (w : ValidTurn policy) :
    Tracks slot (s.accept (.turn w)) q.arrive := by
  unfold State.accept Queue.arrive
  rw [h.pending, h.now]
  split
  · exact ⟨rfl, rfl, h.lane, List.rel_append h.places (.cons .spawned .nil)⟩
  · exact ⟨rfl, rfl, h.lane, List.rel_append h.places (.cons .finished .nil)⟩

theorem arrive (h : Tracks slot s q) (arrival : TurnArrival host token policy) :
    Tracks slot (s.arrive host token arrival.header (.turn arrival.turn.1)) q.arrive := by
  have hauth : ¬ authorize host token arrival.header = false := by
    rw [arrival.authorized]
    exact Bool.noConfusion
  unfold State.arrive
  rw [if_neg hauth]
  simp only [dif_pos arrival.turn.2]
  exact h.accept arrival.turn

theorem disconnect (h : Tracks slot s q) (hs : step host token s (.disconnect id) = some s') :
    Tracks slot s' (q.disconnect id) := by
  obtain ⟨r, hr, hs⟩ := Option.bind_eq_some_iff.mp hs
  obtain ⟨p, hp, ha⟩ := h.places.getElem?_some hr
  obtain ⟨_, hs⟩ := Option.ite_none_right_eq_some.mp hs
  cases hs
  unfold Queue.disconnect
  rw [show q.places[id]? = some p from hp]
  -- turns are not dropped with their callers
  cases ha with
  | spawned => exact h.put id .spawned
  | acquiring => exact h.put id .acquiring
  | admitted limit => exact h.put id (.admitted limit)
  | executing limit => exact h.put id (.executing limit)
  | padding => exact h.put id .padding
  | released => exact h.put id .released
  | @finished work => cases work <;> exact h.put id .finished

/-- The turns that are with their runner can rest for another microsecond. -/
theorem appears_tick (hrests : r.rests s.now held) (ha : Appears slot s.now r p) :
    Appears slot (s.now + 1) r p := by
  cases ha with
  | spawned => exact .spawned
  | acquiring => exact .acquiring
  | admitted => cases hrests
  | @executing _ times _ stage _ _ limit =>
    refine .executing ?_
    cases stage with
    | returned => cases hrests
    | launching | writing | reading | waiting | terminating => exact of_decide_eq_true hrests
  | padding => exact .padding
  | released => exact .released
  | finished => exact .finished

theorem tick (h : Tracks slot s q) (hrests : s.rests) :
    Tracks slot { s with now := s.now + 1 } { q with now := q.now + 1 } := by
  refine ⟨by rw [h.now], h.pending, h.lane, ?_⟩
  refine List.forall₂_iff_get.mpr ⟨h.places.length_eq, fun i hi hi' => ?_⟩
  exact appears_tick (s.rests_at hrests (List.getElem?_eq_getElem hi)) (h.places.get hi hi')

/-! ### Runners -/

theorem enter (h : Tracks slot s q) (hs : step host token s (.enter id) = some s') :
    Tracks slot s' q := by
  obtain ⟨r, hr, hs⟩ := Option.bind_eq_some_iff.mp hs
  obtain ⟨p, hp, ha⟩ := h.places.getElem?_some hr
  cases ha with
  | admitted limit =>
    cases hs
    exact h.put_same hp (.executing limit)
  | spawned | acquiring | executing | padding | released | finished => cases hs

theorem drive {event : ProcessEvent} (h : Tracks slot s q)
    (hs : step host token s (.process id event) = some s') : Tracks slot s' q := by
  obtain ⟨r, hr, hs⟩ := Option.bind_eq_some_iff.mp hs
  obtain ⟨p, hp, ha⟩ := h.places.getElem?_some hr
  obtain ⟨r', hr', rfl⟩ := Option.map_eq_some_iff.mp hs
  exact h.put_same hp (ha.process hr')

theorem withChild {f : Child → Child} (h : Tracks slot s q) (hs : s.withChild id f = some s') :
    Tracks slot s' q := by
  obtain ⟨r, hr, hs⟩ := Option.bind_eq_some_iff.mp hs
  obtain ⟨p, hp, ha⟩ := h.places.getElem?_some hr
  obtain ⟨c, -, hs⟩ := Option.bind_eq_some_iff.mp hs
  obtain ⟨-, hs⟩ := Option.ite_none_right_eq_some.mp hs
  cases hs
  exact h.put_same hp (ha.withChild _)

/-- The counters and the state of the session slot change, and the answer is the same. -/
theorem settle (hslot : policy.releaseSlot = some slot) (h : Tracks slot s q)
    (hs : step host token s (.settle id) = some s') : Tracks slot s' q := by
  obtain ⟨r, hr, hs⟩ := Option.bind_eq_some_iff.mp hs
  obtain ⟨p, hp, ha⟩ := h.places.getElem?_some hr
  cases ha with
  | @executing w times job stage child caller limit =>
    cases stage with
    | returned result =>
      let r : Request policy := ⟨.turn w, .executing times job (.returned result), child, caller⟩
      obtain ⟨states, counters, heq⟩ : ∃ states counters, s.settle id r times result =
          { s with states := states, counters := counters }.pad id r times .normalized :=
        settle_turn rfl
      have hpad : State.releaseDeadline policy times = some (times.admittedAt + slot) := by
        rw [State.releaseDeadline, hslot, Option.map_some]
      have hput : Tracks slot (s.put id { r with phase := .padding (some _) .normalized }) q :=
        h.put_same hp .padding
      have hs : some (s.settle id r times result) = some s' := hs
      rw [heq, State.pad, hpad] at hs
      cases hs
      exact ⟨hput.now, hput.pending, hput.lane, hput.places⟩
    | launching | writing | reading | waiting | terminating => cases hs
  | spawned | acquiring | admitted | padding | released | finished => cases hs

/-- Inputs move the queue, and what a runner does leaves it alone. -/
theorem apply (hslot : policy.releaseSlot = some slot) (h : Tracks slot s q)
    {event : Event host token policy} (hs : event.apply s = some s') :
    Tracks slot s' (event.input?.elim q q.apply) := by
  cases event with
  | arrive arrival =>
    cases hs
    exact h.arrive arrival
  | disconnect id => exact h.disconnect (show step host token s _ = _ from hs)
  | tick =>
    obtain ⟨hrests, hs⟩ := Option.ite_none_right_eq_some.mp hs
    cases hs
    exact h.tick hrests
  | enter id => exact h.enter (show step host token s _ = _ from hs)
  | drive id event => exact h.drive (show step host token s _ = _ from hs)
  | emit id bytes => exact h.withChild hs
  | exit id status => exact h.withChild hs
  | settle id => exact h.settle hslot (show step host token s _ = _ from hs)

end Tracks

/-- What a run of the lab shows is what the queue does on the inputs of the run. -/
theorem timed_tracks {tokio : Tokio} {events : List (Event host token policy)}
    {x : Logged (State policy)} (hslot : policy.releaseSlot = some slot)
    (hlong : policy.executionCutoff + reapTime < slot)
    (hrun : (timed host token policy tokio).run ⟨.initial policy, []⟩ events = some x) :
    Tracks slot x.state
      ((events.filterMap Event.input?).foldl (Queue.step slot tokio) ⟨.initial, []⟩).state := by
  refine (Machine.run_tracks (v := (⟨.initial, []⟩ : Logged Queue))
    (R := fun x y => Tracks slot x.state y.state ∧ x.inputs = y.inputs)
    ?_ ?_ ⟨Tracks.initial, rfl⟩ hrun).1
  · rintro x event x' y ⟨h, hinputs⟩ hnone hs
    obtain ⟨s', hs', rfl⟩ := Option.map_eq_some_iff.mp hs
    have happly := h.apply hslot hs'
    rw [hnone] at happly ⊢
    exact ⟨happly, hinputs⟩
  · rintro x event x' y i ⟨h, hinputs⟩ hsome hs
    obtain ⟨s', hs', rfl⟩ := Option.map_eq_some_iff.mp hs
    have happly := h.apply hslot hs'
    rw [hsome] at happly ⊢
    refine ⟨?_, by rw [hinputs]; rfl⟩
    show Tracks slot (runTasks host token s' (tokio (i :: x.inputs))) _
    rw [hinputs]
    exact happly.tasks hlong _

theorem Tracks.callers (h : Tracks slot s q) :
    s.requests.map Request.caller = q.places.map Place.caller :=
  h.places.map_eq fun _ _ ha => ha.caller.symm

/-- In exact arithmetic, the slot is longer than the cutoff and a millisecond. -/
theorem serve_padded {args : ServeArgs} (hserve : serve args = .ok policy)
    (hlong : args.executionCutoffUs.toNat + reapTime < args.releaseSlotUs.toNat) :
    policy.releaseSlot = some args.releaseSlotUs.toNat ∧
      policy.executionCutoff = args.executionCutoffUs.toNat := by
  have hlt := args.releaseSlotUs.toNat_lt
  have hsum : (args.executionCutoffUs + 1000).toNat = args.executionCutoffUs.toNat + 1000 := by
    rw [UInt64.toNat_add, show (1000 : UInt64).toNat = 1000 from rfl]
    exact Nat.mod_eq_of_lt (by simp only [reapTime] at hlong; omega)
  have hslot : releaseSlotOf args = .ok (some args.releaseSlotUs.toNat) := by
    unfold releaseSlotOf
    rw [if_neg, if_pos]
    · rw [UInt64.lt_iff_toNat_lt, hsum]
      exact hlong
    · intro h0
      rw [h0] at hlong
      exact Nat.not_lt_zero _ hlong
  unfold serve at hserve
  rw [hslot] at hserve
  split at hserve
  · cases hserve
  · split at hserve
    · cases hserve
    · split at hserve
      · cases hserve
      · cases hserve
        exact ⟨rfl, rfl⟩

/-- For every order in which tokio takes up tasks, and every two schedules of turns with the
same arrivals and session slots, disconnections and instants, whatever their roles and bits
and whatever the runners do: every caller has the same answer at the same time. -/
theorem padded_turns_alike {args : ServeArgs} (hserve : serve args = .ok policy)
    (hlong : args.executionCutoffUs.toNat + reapTime < args.releaseSlotUs.toNat) {tokio : Tokio}
    {events events' : List (Event host args.token policy)} {x x' : Logged (State policy)}
    (hinputs : events.filterMap Event.input? = events'.filterMap Event.input?)
    (hrun : (timed host args.token policy tokio).run ⟨.initial policy, []⟩ events = some x)
    (hrun' : (timed host args.token policy tokio).run ⟨.initial policy, []⟩ events' = some x') :
    x.state.now = x'.state.now ∧
      x.state.requests.map Request.caller = x'.state.requests.map Request.caller := by
  obtain ⟨hslot, hcutoff⟩ := serve_padded hserve hlong
  rw [← hcutoff] at hlong
  have h := timed_tracks hslot hlong hrun
  have h' := timed_tracks hslot hlong hrun'
  rw [hinputs] at h
  exact ⟨h.now.symm.trans h'.now, h.callers.trans h'.callers.symm⟩

/-! ## Two runs -/

/-- A cutoff of two microseconds, and the shortest slot for it. -/
def paddedArgs : ServeArgs := { smallArgs with executionCutoffUs := 2, releaseSlotUs := 1003 }

def paddedPolicy : Policy := { smallPolicy with executionCutoff := 2, releaseSlot := some 1003 }

theorem serve_paddedArgs : serve paddedArgs = .ok paddedPolicy := by
  simp [serve, releaseSlotOf, paddedArgs, paddedPolicy, smallArgs, smallPolicy, defaultArgs,
    defaultPolicy, Except.map]

/-- Tasks in a fixed order, for two turns. -/
def fixedOrder : Tokio
  | .arrive _ :: _ => [.poll 0, .poll 1, .grant 0]
  | _ => [.leave 0, .finish 0, .respond 0, .grant 1]

def paddedArrival (turn : ValidTurn paddedPolicy) :
    Event probeHost paddedArgs.token paddedPolicy :=
  .arrive ⟨some sampleToken, turn, by decide⟩

/-- A sender's turn whose runner cannot be spawned, and a turn that waits for it. -/
def failingRunner : List (Event probeHost paddedArgs.token paddedPolicy) :=
  [paddedArrival ⟨⟨0, 0, .sender, 1⟩, by decide⟩, .enter 0, .drive 0 (.launch .spawnFailed),
    .settle 0, paddedArrival ⟨⟨1, 1, .probe, 0⟩, by decide⟩]

/-- A turn with another role and bit. Its runner writes what it likes and exits with success. -/
def endingRunner : List (Event probeHost paddedArgs.token paddedPolicy) :=
  [paddedArrival ⟨⟨0, 7, .control, 0⟩, by decide⟩, .enter 0, .drive 0 (.launch .spawned),
    .drive 0 .write, .emit 0 [1, 2], .exit 0 (.code 0)]

/-- The rest of its turn, and a turn that waits for it. -/
def endedRunner : List (Event probeHost paddedArgs.token paddedPolicy) :=
  [.drive 0 (.read true), .drive 0 (.wait true), .settle 0,
    paddedArrival ⟨⟨1, 8, .sender, 1⟩, by decide⟩]

def endingJob : Job := executeProcess probeHost paddedPolicy [0, 0] .control 0 65536

def endingState : Logged (State paddedPolicy) where
  state := { State.initial paddedPolicy with
    pending := 1
    lane := (Semaphore.new 1).acquire 0
    requests := [⟨.turn ⟨⟨0, 7, .control, 0⟩, by decide⟩, .executing ⟨0, 0, 0⟩ endingJob .reading,
      some ⟨endingJob.argv, endingJob.stdin, [1, 2], false, some (.code 0)⟩, .connected⟩]
    order := [0] }
  inputs := [.arrive 0]

theorem run_endingRunner : (timed probeHost paddedArgs.token paddedPolicy fixedOrder).run
    ⟨.initial _, []⟩ endingRunner = some endingState := rfl

def slotOver : List (Event probeHost paddedArgs.token paddedPolicy) := List.replicate 1003 .tick

section Quiet

variable {t : Tokio} {tasks : List ServerTask} {l : List Input} {n : Nat}

/-- Time passes while nobody has anything to do. -/
theorem run_ticks (htokio : ∀ inputs, t (.tick :: inputs) = tasks)
    (hrests : ∀ k < n, { s with now := s.now + k }.rests)
    (hquiet : ∀ k < n, runTasks host token { s with now := s.now + (k + 1) } tasks =
      { s with now := s.now + (k + 1) }) :
    ∃ inputs', (timed host token policy t).run ⟨s, l⟩ (List.replicate n .tick) =
      some ⟨{ s with now := s.now + n }, inputs'⟩ := by
  induction n with
  | zero => exact ⟨l, rfl⟩
  | succ n ih =>
    obtain ⟨inputs', hrun⟩ := ih (fun k hk => hrests k (by omega)) fun k hk => hquiet k (by omega)
    have htick : (timed host token policy t).step ⟨{ s with now := s.now + n }, inputs'⟩ .tick =
        some ⟨{ s with now := s.now + (n + 1) }, .tick :: inputs'⟩ := by
      have happly : Event.apply { s with now := s.now + n } (.tick : Event host token policy) =
          some { s with now := s.now + (n + 1) } := if_pos (hrests n (by omega))
      simp only [timed, Event.step, happly, Option.map_some, Event.input?, htokio,
        hquiet n (by omega)]
    refine ⟨.tick :: inputs', ?_⟩
    rw [List.replicate_succ', Machine.run_append, hrun, Option.bind_some, Machine.run_singleton,
      htick]

end Quiet

/-- A turn is padded and another waits. -/
def Padded (x : Logged (State paddedPolicy)) : Prop :=
  x.state.now = 0 ∧ x.state.lane = ((Semaphore.new 1).acquire 0).acquire 1 ∧
    ∃ work work' child,
      x.state.requests = [⟨work, .padding (some 1003) .normalized, child, .connected⟩,
        ⟨work', .acquiring 0, none, .connected⟩]

/-- The first turn is answered when its slot is over. -/
theorem run_slot_over {x : Logged (State paddedPolicy)} (h : Padded x) :
    ∃ x', (timed probeHost paddedArgs.token paddedPolicy fixedOrder).run x slotOver =
        some x' ∧
      x'.state.requests.map Request.caller = [.answered 1003 .normalized, .connected] := by
  obtain ⟨s, inputs⟩ := x
  obtain ⟨hnow, hlane, work, work', child, hr⟩ := h
  simp only at hnow hlane hr
  have hholders : s.lane.holders = [0] := by
    rw [hlane]
    rfl
  have hrests : ∀ k < 1003, { s with now := s.now + k }.rests := by
    intro k hk
    simp [State.rests, Request.rests, hnow, hholders, hr, hk]
  have hquiet : ∀ k < 1002, runTasks probeHost paddedArgs.token { s with now := s.now + (k + 1) }
      [.leave 0, .finish 0, .respond 0, .grant 1] = { s with now := s.now + (k + 1) } := by
    intro k hk
    have hearly : ¬ 1003 ≤ k + 1 := by omega
    simp [runTasks, Machine.attempt, step, stepAt, ServerTask.action, Action.id, hnow, hholders,
      hr, hearly]
  obtain ⟨inputs', hrun⟩ := run_ticks (n := 1002) (s := s) (t := fixedOrder) (l := inputs)
    (fun _ => rfl) (fun k hk => hrests k (by omega)) hquiet
  refine ⟨⟨runTasks probeHost paddedArgs.token { s with now := s.now + 1003 }
    [.leave 0, .finish 0, .respond 0, .grant 1], .tick :: inputs'⟩, ?_, ?_⟩
  · rw [slotOver, List.replicate_succ', Machine.run_append, hrun, Option.bind_some,
      Machine.run_singleton]
    have happly : Event.apply { s with now := s.now + 1002 }
        (.tick : Event probeHost paddedArgs.token paddedPolicy) =
          some { s with now := s.now + 1003 } := if_pos (hrests 1002 (by omega))
    simp only [timed, Event.step, happly, Option.map_some, Event.input?, fixedOrder]
  · have hnext : 1 ∈ (s.lane.release 0).holders := by
      rw [hlane]
      decide
    simp [runTasks, Machine.attempt, step, stepAt, ServerTask.action, Action.id, hnow, hr,
      State.put, State.release, hnext]

theorem inputs_alike : failingRunner.filterMap Event.input? =
    (endingRunner ++ endedRunner).filterMap Event.input? := rfl

theorem run_failingRunner : ∃ x, (timed probeHost paddedArgs.token paddedPolicy fixedOrder).run
    ⟨.initial _, []⟩ failingRunner = some x ∧ Padded x :=
  ⟨_, rfl, rfl, rfl, _, _, _, rfl⟩

theorem run_endedRunner : ∃ x, (timed probeHost paddedArgs.token paddedPolicy fixedOrder).run
    endingState endedRunner = some x ∧ Padded x :=
  ⟨_, rfl, rfl, rfl, _, _, _, rfl⟩

theorem padded_turns_alike_sample :
    ∃ x x', (timed probeHost paddedArgs.token paddedPolicy fixedOrder).run ⟨.initial _, []⟩
        (failingRunner ++ slotOver) = some x ∧
      (timed probeHost paddedArgs.token paddedPolicy fixedOrder).run ⟨.initial _, []⟩
        (endingRunner ++ (endedRunner ++ slotOver)) = some x' ∧
      x.state.requests.map Request.caller = [.answered 1003 .normalized, .connected] ∧
      x'.state.requests.map Request.caller = [.answered 1003 .normalized, .connected] := by
  obtain ⟨y, hy, hpadded⟩ := run_failingRunner
  obtain ⟨y', hy', hpadded'⟩ := run_endedRunner
  obtain ⟨x, hx, hcallers⟩ := run_slot_over hpadded
  obtain ⟨x', hx', -⟩ := run_slot_over hpadded'
  have hrun : (timed probeHost paddedArgs.token paddedPolicy fixedOrder).run ⟨.initial _, []⟩
      (failingRunner ++ slotOver) = some x := by
    rw [Machine.run_append, hy, Option.bind_some, hx]
  have hrun' : (timed probeHost paddedArgs.token paddedPolicy fixedOrder).run ⟨.initial _, []⟩
      (endingRunner ++ (endedRunner ++ slotOver)) = some x' := by
    rw [Machine.run_append, run_endingRunner, Option.bind_some, Machine.run_append, hy',
      Option.bind_some, hx']
  have hinputs : (failingRunner ++ slotOver).filterMap Event.input? =
      (endingRunner ++ (endedRunner ++ slotOver)).filterMap Event.input? := by
    rw [← List.append_assoc, List.filterMap_append, List.filterMap_append, inputs_alike]
  have h := padded_turns_alike serve_paddedArgs (by decide) hinputs hrun hrun'
  exact ⟨x, x', hrun, hrun', hcallers, by rw [← h.2]; exact hcallers⟩

end Lab
