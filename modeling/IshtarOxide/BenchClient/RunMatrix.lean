import IshtarOxide.Lib.Machine
import IshtarOxide.BenchClient.Report

/-!
# A run of the bench client

`run_matrix` of crates/bench-client from the start of the experiment on. Its traffic, the turns
of one trial after the other, runs until it ends or Ctrl-C is pressed, whichever is first. Then
the experiment is stopped, its records are fetched and the report is written.

* `traced_run`: what has been sent and taken in, in each phase.
* `stop_sent_iff`: when an experiment that was started has been stopped at the end.
* `report_of_run`: what a report is made of.
* `run_scores_eligible`: which trials it scores.
-/

namespace BenchClient.Decoding

/-! ## The traffic -/

/-- What `run_matrix` has when it starts the experiment. -/
structure Matrix where
  plan : List TrialPlan
  trialCount : Nat
  control : Bool
  probes : Nat
  backgrounds : Nat
deriving DecidableEq, Repr

/-- `sender_role`. -/
def Matrix.senderRole (m : Matrix) : WorkerRole := if m.control then .control else .sender

/-- The tasks of a trial, by their roles. -/
def Matrix.tasks (m : Matrix) : List WorkerRole :=
  List.replicate m.probes .probe ++ List.replicate m.backgrounds .background

/-- What `send_turn` learns from a response that it can read. -/
structure TurnAnswer where
  sentAtNs : Nat
  completedAtNs : Nat
  status : UInt16
deriving DecidableEq, Repr

/-- The record that `send_turn` makes. -/
def TurnAnswer.record (answer : TurnAnswer) (trialId : Nat) (role : WorkerRole) : ClientRecord :=
  ⟨⟨UInt64.ofNat trialId, role, answer.sentAtNs, answer.completedAtNs, answer.status⟩, none⟩

/-- What `run_trial_group` awaits: its sender first, and then the tasks that are left. -/
inductive Group
  | sender
  | tasks (records : List ClientRecord) (left : List WorkerRole)
deriving DecidableEq, Repr

/-- The state of `traffic`. The trial that goes on is the first of `rest`. -/
structure Traffic where
  trial : Nat
  rest : List TrialPlan
  clientRecords : List ClientRecord
  expectedBits : List UInt8
  group : Group
deriving DecidableEq, Repr

/-- The end of a turn. The tasks are joined in the order in which they end, and a task may
panic. -/
inductive TurnEvent
  | sender (result : Except String TurnAnswer)
  | joined (task : Nat) (result : Except String TurnAnswer)
  | panicked (task : Nat)

def Traffic.init (m : Matrix) : Traffic := ⟨0, m.plan, [], [], .sender⟩

/-- The next trial when all tasks of this one have been joined. -/
def Traffic.settle (t : Traffic) : Traffic :=
  match t.group, t.rest with
  | .tasks records [], planned :: rest =>
    ⟨t.trial + 1, rest, t.clientRecords ++ records, t.expectedBits ++ [planned.bit], .sender⟩
  | _, _ => t

/-- The traffic after a turn, with the error that it ends with. -/
def Traffic.turn (m : Matrix) (t : Traffic) : TurnEvent → Option (Except String Traffic)
  | .sender result =>
    match t.group, t.rest with
    | .sender, _ :: _ =>
      some <| result.map fun answer =>
        { t with group := .tasks [answer.record t.trial m.senderRole] m.tasks }.settle
    | _, _ => none
  | .joined task result =>
    match t.group with
    | .tasks records left => (left[task]?).map fun role => result.map fun answer =>
        { t with
          group := .tasks (records ++ [answer.record t.trial role]) (left.eraseIdx task) }.settle
    | .sender => none
  | .panicked task =>
    match t.group with
    | .tasks _ left => (left[task]?).map fun _ => .error "traffic task panicked"
    | .sender => none

/-! ## The run -/

/-- The requests that `run_matrix` itself sends from the start on. -/
inductive Request
  | start
  | stop (runId : String)
  | records (runId : String)
deriving DecidableEq, Repr

/-- Where `run_matrix` is: it awaits the answer to its start, races the traffic against Ctrl-C,
awaits the answer to its stop, and that to its request for the records, or writes the report. -/
inductive Phase (κ : Type)
  | starting
  | racing (runId : String) (traffic : Traffic)
  | stopping (trafficResult : Except String (List ClientRecord × List UInt8))
  | fetching (clientRecords : List ClientRecord) (expectedBits : List UInt8)
  | writing (report : LeakageReport κ)
  | returned (result : Except Stop Unit)

/-- `run_matrix`, with the `run_id` that it received and the requests that it sent. -/
structure Run (κ : Type) where
  phase : Phase κ
  started : Option String
  requests : List Request

/-- What `run_matrix` waits for. An answer that is not a success, or cannot be read, is an error;
of an `ExperimentRunInfo` only the `run_id` is looked at. -/
inductive RunEvent
  | started (answer : Except String String)
  | turn (event : TurnEvent)
  | finished
  | interrupt (result : Except String Unit)
  | stopped (answer : Except String String)
  | records (answer : Except String Unit)
  | written (result : Except String Unit)

section Numbers

variable {κ : Type} [NatCast κ] [Add κ] [Div κ] [LE κ] [DecidableLE κ]

/-- `run_matrix` from the records to the report. -/
def Matrix.report (m : Matrix) (clientRecords : List ClientRecord) (expectedBits : List UInt8) :
    Except Stop (LeakageReport κ) := do
  let model ← calibrate (timings clientRecords) m.plan
  let some decoded := decodeTrials m.plan m.trialCount model clientRecords | throw .panic
  let some report := computeReport decoded expectedBits m.plan model model.scoringStartsAtTrial
    | throw .panic
  return report

/-- The stop request after the traffic. -/
def Run.stop (s : Run κ) (runId : String)
    (trafficResult : Except String (List ClientRecord × List UInt8)) : Run κ :=
  { s with phase := .stopping trafficResult, requests := s.requests ++ [.stop runId] }

def Run.return (s : Run κ) (result : Except Stop Unit) : Run κ :=
  { s with phase := .returned result }

def Matrix.step (m : Matrix) (s : Run κ) (e : RunEvent) : Option (Run κ) :=
  match s.phase, e with
  | .starting, .started (.error message) => some (s.return (.error (.error message)))
  | .starting, .started (.ok runId) =>
    some { s with phase := .racing runId (.init m), started := some runId }
  -- `result = traffic`
  | .racing runId traffic, .turn event => (traffic.turn m event).map fun
    | .ok traffic => { s with phase := .racing runId traffic }
    | .error message => s.stop runId (.error message)
  | .racing runId traffic, .finished =>
    if traffic.rest = [] then
      some (s.stop runId (.ok (traffic.clientRecords, traffic.expectedBits)))
    else none
  -- `interrupt = tokio::signal::ctrl_c()`; the `?` of its arm returns from `run_matrix`
  | .racing _ _, .interrupt (.error _) =>
    some (s.return (.error (.error "install Ctrl-C handler")))
  | .racing runId _, .interrupt (.ok ()) => some (s.stop runId (.error "benchmark interrupted"))
  -- the error of the traffic comes before that of the stop
  | .stopping (.error message), .stopped _ => some (s.return (.error (.error message)))
  | .stopping (.ok _), .stopped (.error _) => some (s.return (.error (.error "stop experiment")))
  | .stopping (.ok (clientRecords, expectedBits)), .stopped (.ok runId) =>
    some { s with
      phase := .fetching clientRecords expectedBits, requests := s.requests ++ [.records runId] }
  | .fetching _ _, .records (.error message) => some (s.return (.error (.error message)))
  | .fetching clientRecords expectedBits, .records (.ok ()) =>
    match m.report clientRecords expectedBits with
    | .ok report => some { s with phase := .writing report }
    | .error stop => some (s.return (.error stop))
  | .writing _, .written (.error message) => some (s.return (.error (.error message)))
  | .writing _, .written (.ok ()) => some (s.return (.ok ()))
  | _, _ => none

/-- `run_matrix` from the moment at which it sends its start. -/
def Matrix.machine (m : Matrix) (κ : Type) [NatCast κ] [Add κ] [Div κ] [LE κ] [DecidableLE κ] :
    Machine (Run κ) RunEvent :=
  ⟨⟨.starting, none, [.start]⟩, m.step⟩

end Numbers

/-! ## Stopping -/

section Stopping

variable {κ : Type} {m : Matrix} {s s' : Run κ} {e : RunEvent} {events : List RunEvent}
  {runId : String}

/-- All but a failure to listen for Ctrl-C. -/
def RunEvent.handled : RunEvent → Bool
  | .interrupt (.error _) => false
  | _ => true

def Handled (events : List RunEvent) : Prop := ∀ e ∈ events, e.handled = true

theorem handled_concat : Handled (events ++ [e]) ↔ Handled events ∧ e.handled = true :=
  List.forall_mem_append.trans (and_congr_right fun _ => List.forall_mem_singleton)

theorem Handled.concat (h : Handled events) (he : e.handled = true) : Handled (events ++ [e]) :=
  handled_concat.mpr ⟨h, he⟩

/-- After the start came a stop. -/
def Run.Stopped (s : Run κ) : Prop :=
  ∃ runId rest, s.started = some runId ∧ s.requests = .start :: .stop runId :: rest

/-- What has been sent by the time of a phase, and what was taken in before it. -/
def Run.Traced (events : List RunEvent) (s : Run κ) : Prop :=
  match s.phase with
  | .starting => s.started = none ∧ s.requests = [.start] ∧ Handled events
  | .racing runId _ => s.started = some runId ∧ s.requests = [.start] ∧ Handled events
  | .returned _ =>
    s.started = none ∨ (s.Stopped ∧ Handled events) ∨ (s.requests = [.start] ∧ ¬ Handled events)
  | _ => s.Stopped ∧ Handled events

theorem traced_stop {trafficResult : Except String (List ClientRecord × List UInt8)}
    (hstarted : s.started = some runId) (hrequests : s.requests = [.start])
    (hevents : Handled events) : (s.stop runId trafficResult).Traced events :=
  ⟨⟨runId, [], hstarted, congrArg (· ++ [Request.stop runId]) hrequests⟩, hevents⟩

theorem traced_return {result : Except Stop Unit} (hs : s.Stopped) (hevents : Handled events) :
    (s.return result).Traced events :=
  .inr (.inl ⟨hs, hevents⟩)

variable [NatCast κ] [Add κ] [Div κ] [LE κ] [DecidableLE κ]

/-- One case for each phase. The early return of the race is the only step that leaves a started
run without a stop. -/
theorem traced_step (ht : s.Traced events) (h : m.step s e = some s') :
    s'.Traced (events ++ [e]) := by
  obtain ⟨phase, started, requests⟩ := s
  cases phase with
  | starting =>
    obtain ⟨hstarted, hrequests, hevents⟩ := ht
    cases e with
    | started answer =>
      have hevents' : Handled (events ++ [.started answer]) := hevents.concat rfl
      cases answer with
      | error message =>
        cases h
        -- no run was started, so none is left behind
        exact .inl hstarted
      | ok runId =>
        cases h
        exact ⟨rfl, hrequests, hevents'⟩
    | _ => cases h
  | racing runId traffic =>
    obtain ⟨hstarted, hrequests, hevents⟩ := ht
    cases e with
    | turn event =>
      have hevents' : Handled (events ++ [.turn event]) := hevents.concat rfl
      obtain ⟨result, -, rfl⟩ := Option.map_eq_some_iff.mp h
      cases result with
      | error message => exact traced_stop hstarted hrequests hevents'
      | ok traffic => exact ⟨hstarted, hrequests, hevents'⟩
    | finished =>
      have hevents' : Handled (events ++ [.finished]) := hevents.concat rfl
      obtain ⟨-, h⟩ := Option.ite_none_right_eq_some.mp h
      cases h
      exact traced_stop hstarted hrequests hevents'
    | interrupt result =>
      cases result with
      | error message =>
        cases h
        -- the early return of the race: the run goes on, and the handler is what failed
        exact .inr (.inr ⟨hrequests, fun hall => Bool.noConfusion (handled_concat.mp hall).2⟩)
      | ok =>
        have hevents' : Handled (events ++ [.interrupt (.ok ())]) := hevents.concat rfl
        cases h
        exact traced_stop hstarted hrequests hevents'
    | _ => cases h
  | stopping trafficResult =>
    obtain ⟨hs, hevents⟩ := ht
    cases e with
    | stopped answer =>
      have hevents' : Handled (events ++ [.stopped answer]) := hevents.concat rfl
      cases trafficResult with
      | error message =>
        cases h
        exact traced_return hs hevents'
      | ok result =>
        cases answer with
        | error message =>
          cases h
          exact traced_return hs hevents'
        | ok recordsId =>
          cases h
          obtain ⟨runId, rest, hstarted, hrequests⟩ := hs
          exact ⟨⟨runId, rest ++ [Request.records recordsId], hstarted,
            congrArg (· ++ [Request.records recordsId]) hrequests⟩, hevents'⟩
    | _ =>
      cases trafficResult with
      | error message => cases h
      | ok result => cases h
  | fetching clientRecords expectedBits =>
    obtain ⟨hs, hevents⟩ := ht
    cases e with
    | records answer =>
      have hevents' : Handled (events ++ [.records answer]) := hevents.concat rfl
      cases answer with
      | error message =>
        cases h
        exact traced_return hs hevents'
      | ok =>
        simp only [Matrix.step] at h
        split at h
        · cases h
          exact ⟨hs, hevents'⟩
        · cases h
          exact traced_return hs hevents'
    | _ => cases h
  | writing report =>
    obtain ⟨hs, hevents⟩ := ht
    cases e with
    | written result =>
      have hevents' : Handled (events ++ [.written result]) := hevents.concat rfl
      cases result with
      | error message =>
        cases h
        exact traced_return hs hevents'
      | ok =>
        cases h
        exact traced_return hs hevents'
    | _ => cases h
  | returned result => cases h

theorem traced_run (h : (m.machine κ).run (m.machine κ).init events = some s) :
    s.Traced events := by
  refine Machine.run_invariant (P := Run.Traced) ?_ (fun _ _ _ _ => traced_step) h
  exact ⟨rfl, rfl, List.forall_mem_nil _⟩

/-- When `run_matrix` has returned, an experiment that it started has been stopped, unless
it could not listen for Ctrl-C while its traffic was going on. -/
theorem stop_sent_iff {result : Except Stop Unit}
    (h : (m.machine κ).run (m.machine κ).init events = some s) (hphase : s.phase = .returned result)
    (hstarted : s.started = some runId) : .stop runId ∈ s.requests ↔ Handled events := by
  have ht := traced_run h
  rw [Run.Traced, hphase] at ht
  rcases ht with hnone | ⟨⟨startedId, rest, hid, hrequests⟩, hevents⟩ | ⟨hrequests, hevents⟩
  · rw [hnone] at hstarted
    cases hstarted
  · rw [hid] at hstarted
    cases hstarted
    rw [hrequests]
    exact ⟨fun _ => hevents, fun _ => List.mem_cons_of_mem _ List.mem_cons_self⟩
  · rw [hrequests]
    exact ⟨fun hmem => by simp at hmem, fun hall => absurd hall hevents⟩

/-- Two trials with a probe each. -/
def sampleMatrix : Matrix := ⟨[⟨0, 0⟩, ⟨1, 0⟩], 2, false, 1, 0⟩

theorem stop_not_sent_without_handler :
    ∃ s, (sampleMatrix.machine ℚ).run (sampleMatrix.machine ℚ).init
        [.started (.ok "run"), .interrupt (.error "no signal driver")] = some s ∧
      s.phase = .returned (.error (.error "install Ctrl-C handler")) ∧
      s.started = some "run" ∧ .stop "run" ∉ s.requests :=
  ⟨_, rfl, rfl, rfl, by decide⟩

/-- Ctrl-C while the first trial waits for its probe. -/
theorem stop_sent_after_interrupt :
    ∃ s, (sampleMatrix.machine ℚ).run (sampleMatrix.machine ℚ).init
        [.started (.ok "run"), .turn (.sender (.ok ⟨0, 5, 200⟩)), .interrupt (.ok ()),
          .stopped (.ok "run")] = some s ∧
      s.phase = .returned (.error (.error "benchmark interrupted")) ∧
      s.started = some "run" ∧
      (.stop "run" ∈ s.requests ↔
        Handled [.started (.ok "run"), .turn (.sender (.ok ⟨0, 5, 200⟩)), .interrupt (.ok ()),
          .stopped (.ok "run")]) :=
  ⟨_, rfl, rfl, rfl, stop_sent_iff (m := sampleMatrix) (κ := ℚ) rfl rfl rfl⟩

end Stopping

/-! ## The report of a run -/

section Gathering

variable {m : Matrix} {t t' : Traffic} {event : TurnEvent}

/-- What the traffic has gathered belongs to the trials that are over, and every turn that has
ended left one record. -/
structure Traffic.Follows (m : Matrix) (t : Traffic) : Prop where
  trial : t.trial + t.rest.length = m.plan.length
  bits : t.expectedBits ++ t.rest.map (·.bit) = m.plan.map (·.bit)
  count : t.clientRecords.length = t.trial * (1 + m.tasks.length)
  undecoded : ∀ record ∈ t.clientRecords, record.decodedBit = none
  group : ∀ records left, t.group = .tasks records left →
    t.rest ≠ [] ∧ records.length + left.length = 1 + m.tasks.length ∧
      ∀ record ∈ records, record.decodedBit = none

theorem follows_init (m : Matrix) : (Traffic.init m).Follows m where
  trial := Nat.zero_add _
  bits := rfl
  count := (Nat.zero_mul _).symm
  undecoded := List.forall_mem_nil _
  group _ _ h := by cases h

theorem follows_settle (h : t.Follows m) : t.settle.Follows m := by
  obtain ⟨trial, rest, clientRecords, expectedBits, group⟩ := t
  obtain ⟨htrial, hbits, hcount, hundecoded, hgroup⟩ := h
  unfold Traffic.settle
  split
  · next records planned rest' hg hr =>
    cases hg
    cases hr
    obtain ⟨-, hlen, hnone⟩ := hgroup records [] rfl
    simp only [List.length_cons, List.length_nil] at htrial hlen
    refine ⟨?_, ?_, ?_, ?_, fun _ _ hg => by cases hg⟩
    · show trial + 1 + rest'.length = _
      omega
    · simpa using hbits
    · show (clientRecords ++ records).length = _
      rw [List.length_append, hcount, Nat.add_mul, Nat.one_mul, ← hlen]
      rfl
    · exact List.forall_mem_append.mpr ⟨hundecoded, hnone⟩
  · exact ⟨htrial, hbits, hcount, hundecoded, hgroup⟩

theorem follows_turn (h : t.Follows m) (ht : t.turn m event = some (.ok t')) : t'.Follows m := by
  cases event with
  | sender result =>
    simp only [Traffic.turn] at ht
    split at ht
    · next planned rest hg hr =>
      obtain ⟨answer, -, rfl⟩ := Except.map_eq_ok.mp (Option.some.inj ht)
      refine follows_settle ⟨h.trial, h.bits, h.count, h.undecoded, ?_⟩
      intro records left hgroup
      cases hgroup
      exact ⟨by rw [hr]; exact List.cons_ne_nil _ _, rfl, List.forall_mem_singleton.mpr rfl⟩
    · cases ht
  | joined task result =>
    simp only [Traffic.turn] at ht
    split at ht
    · next records left hg =>
      obtain ⟨role, htask, hresult⟩ := Option.map_eq_some_iff.mp ht
      obtain ⟨answer, -, rfl⟩ := Except.map_eq_ok.mp hresult
      obtain ⟨hrest, hlen, hnone⟩ := h.group records left hg
      refine follows_settle ⟨h.trial, h.bits, h.count, h.undecoded, ?_⟩
      intro records' left' hgroup
      cases hgroup
      -- one task is taken from those left, and its record is added
      obtain ⟨hlt, -⟩ := List.getElem?_eq_some_iff.mp htask
      refine ⟨hrest, ?_, List.forall_mem_append.mpr ⟨hnone, List.forall_mem_singleton.mpr rfl⟩⟩
      rw [List.length_append, List.length_eraseIdx_of_lt hlt, List.length_singleton]
      omega
    · cases ht
  | panicked task =>
    simp only [Traffic.turn] at ht
    split at ht
    · obtain ⟨-, -, hresult⟩ := Option.map_eq_some_iff.mp ht
      cases hresult
    · cases ht

/-- The records and bits of all trials. -/
structure Gathered (m : Matrix) (clientRecords : List ClientRecord) (expectedBits : List UInt8) :
    Prop where
  bits : expectedBits = m.plan.map (·.bit)
  count : clientRecords.length = m.plan.length * (1 + m.tasks.length)
  undecoded : ∀ record ∈ clientRecords, record.decodedBit = none

theorem gathered_of_finished (h : t.Follows m) (hrest : t.rest = []) :
    Gathered m t.clientRecords t.expectedBits := by
  obtain ⟨htrial, hbits, hcount, hundecoded, -⟩ := h
  rw [hrest] at htrial hbits
  exact ⟨by simpa using hbits, by rw [hcount, ← htrial]; rfl, hundecoded⟩

variable {κ : Type} {s s' : Run κ} {e : RunEvent}
  [NatCast κ] [Add κ] [Div κ] [LE κ] [DecidableLE κ]

theorem report_eq_ok {clientRecords : List ClientRecord} {report : LeakageReport κ} :
    m.report clientRecords (m.plan.map (·.bit)) = .ok report ↔
      ∃ model, calibrate (timings clientRecords) m.plan = .ok model ∧
        scoreMatrix m.plan m.trialCount model clientRecords = some report := by
  unfold Matrix.report
  rw [Except.bind_eq_ok]
  refine exists_congr fun model => and_congr_right fun _ => ?_
  rw [scoreMatrix]
  cases decodeTrials m.plan m.trialCount model clientRecords with
  | none => simp
  | some decoded =>
    simp only [Option.bind_eq_bind, Option.bind_some]
    cases computeReport decoded (m.plan.map (·.bit)) m.plan model model.scoringStartsAtTrial with
    | none => simp
    | some report' => simp

/-- What the phases have gathered. -/
def Run.Follows (m : Matrix) (s : Run κ) : Prop :=
  match s.phase with
  | .racing _ traffic => traffic.Follows m
  | .stopping (.ok (clientRecords, expectedBits)) => Gathered m clientRecords expectedBits
  | .fetching clientRecords expectedBits => Gathered m clientRecords expectedBits
  | .writing report => ∃ clientRecords, Gathered m clientRecords (m.plan.map (·.bit)) ∧
      m.report clientRecords (m.plan.map (·.bit)) = .ok report
  | _ => True

theorem follows_step (hf : s.Follows m) (h : m.step s e = some s') : s'.Follows m := by
  obtain ⟨phase, started, requests⟩ := s
  simp only [Matrix.step] at h
  split at h
  · cases h
    trivial
  · cases h
    exact follows_init m
  · obtain ⟨result, hturn, rfl⟩ := Option.map_eq_some_iff.mp h
    cases result with
    | error message => trivial
    | ok traffic => exact follows_turn hf hturn
  · obtain ⟨hrest, h⟩ := Option.ite_none_right_eq_some.mp h
    cases h
    exact gathered_of_finished hf hrest
  · cases h
    trivial
  · cases h
    trivial
  · cases h
    trivial
  · cases h
    trivial
  · cases h
    exact hf
  · cases h
    trivial
  · split at h
    · -- only a report that was computed is written
      next hreport =>
      cases h
      obtain ⟨rfl, hcount, hundecoded⟩ := hf
      exact ⟨_, ⟨rfl, hcount, hundecoded⟩, hreport⟩
    · cases h
      trivial
  · cases h
    trivial
  · cases h
    trivial
  · cases h

/-- A report is made of one record for each turn of each trial of the plan. -/
theorem report_of_run {report : LeakageReport κ} (h : (m.machine κ).Reachable s)
    (hphase : s.phase = .writing report) :
    ∃ clientRecords model, Gathered m clientRecords (m.plan.map (·.bit)) ∧
      calibrate (timings clientRecords) m.plan = .ok model ∧
      scoreMatrix m.plan m.trialCount model clientRecords = some report := by
  have hf : s.Follows m :=
    h.invariant (P := fun s => s.Follows m) True.intro fun _ _ _ => follows_step
  rw [Run.Follows, hphase] at hf
  obtain ⟨clientRecords, hgathered, hreport⟩ := hf
  obtain ⟨model, hmodel, hscore⟩ := report_eq_ok.mp hreport
  exact ⟨clientRecords, model, hgathered, hmodel, hscore⟩

/-- The report of a run over a plan for distinct offsets scores the eligible trials. -/
theorem run_scores_eligible {fuel : Nat} {seed count : UInt64} {offsets : List UInt64}
    {report : LeakageReport κ} (hplan : buildTrialPlan fuel seed count offsets = .ok m.plan)
    (hoffsets : offsets.Nodup) (hcount : m.trialCount = count.toNat)
    (h : (m.machine κ).Reachable s) (hphase : s.phase = .writing report) :
    ∃ clientRecords model, Gathered m clientRecords (m.plan.map (·.bit)) ∧
      calibrate (timings clientRecords) m.plan = .ok model ∧
      ScoresEligible m.plan model clientRecords report := by
  obtain ⟨clientRecords, model, hgathered, hmodel, hscore⟩ := report_of_run h hphase
  obtain ⟨report', hreport, -, hscores⟩ :=
    scoreMatrix_of_calibrate hplan hoffsets hmodel hgathered.undecoded
  rw [hcount, hreport] at hscore
  cases hscore
  exact ⟨clientRecords, model, hgathered, hmodel, hscores⟩

end Gathering

end BenchClient.Decoding
