import IshtarOxide.Lab.Counters
import IshtarOxide.Lab.Slots
import IshtarOxide.Lab.StreamBench
import IshtarOxide.Lab.TurnBench

/-!
# A turn campaign next to the lab

`bench` of `benchmark` in crates/sequential-lab/src/main.rs, from its request for the lab's
counters to the one after its trials, as a client that runs next to the lab and to whatever
other clients it has. A run is seen through its trace: which counter went up for which request,
and when the two requests of the campaign reached the lab.

The client has a clock of its own, in nanoseconds. Writing the report is left out, and what
`analyze` leaves out.

* `Story`, `Waits`: what the trace has of the requests that were answered, and of the one that
  has not been.
* `campaign_ran_alone`: the campaign reports if and only if the lab counted nothing in between
  but its own turns, each of them once, as complete and in the order of the plan.
-/

namespace Lab

/-! ## The client -/

/-- The checks of `bench` before it sends anything. -/
def BenchArgs.checked (args : BenchArgs) : Bool :=
  16 ≤ args.token.length && !args.gapsUs.isEmpty && args.senderSlot != args.probeSlot &&
    args.calibrationLen < 2 ^ 64 && args.calibrationLen < args.trials.toNat

/-- `expected_turns`. -/
def BenchArgs.expectedTurns (args : BenchArgs) : Nat := min (args.trials.toNat * 2) (2 ^ 64 - 1)

/-- The request for the sender of a trial. -/
def BenchArgs.senderTurn (args : BenchArgs) (trialId : UInt64) (planned : TrialPlan) :
    TurnRequest :=
  ⟨args.senderSlot, trialId, if args.control then .control else .sender, planned.bit⟩

/-- The request for the probe of a trial. -/
def BenchArgs.probeTurn (args : BenchArgs) (trialId : UInt64) : TurnRequest :=
  ⟨args.probeSlot, trialId, .probe, 0⟩

/-- The variables of the loop of `bench`. `rest` is what its iterator still has. -/
structure Trials where
  server : HealthResponse
  plan : List TrialPlan
  trialId : UInt64
  rest : List TrialPlan
  records : List TrialRecord
deriving DecidableEq, Repr

/-- Where `bench` stands: asking for the counters; at the head of its loop; inside `send_turn`
for the sender or for the probe of a trial, or between them; asking again; or at its end.
A request has its name once it has reached the lab. -/
inductive TurnClient
  | opening (request : Option Nat)
  | looping (t : Trials)
  | sender (t : Trials) (planned : TrialPlan) (started : Nat) (request : Option Nat)
  | sleeping (t : Trials) (planned : TrialPlan) (senderLatencyNs : UInt64) (wake : Nat)
  | probe (t : Trials) (planned : TrialPlan) (senderLatencyNs : UInt64) (started : Nat)
      (request : Option Nat)
  | closing (t : Trials) (request : Option Nat)
  | reported (t : Trials) (final : HealthResponse) (analysis : Analysis)
  | failed

/-- After the first answer: the plan. -/
def Trials.open (fuel : Nat) (args : BenchArgs) : Reply → TurnClient
  | .health server =>
    match benchPlan fuel args server.sessionSlots with
    | .ok plan => .looping ⟨server, plan, 0, plan, []⟩
    | .error _ => .failed
  | _ => .failed

namespace Trials

variable (t : Trials) (planned : TrialPlan)

/-- After the answer to the sender's turn. The client sleeps unless the gap is 0. -/
def senderAnswered (started now : Nat) : Reply → TurnClient
  | .normalized =>
    if planned.gapUs = 0 then .probe t planned (.ofNat (now - started)) now none
    else .sleeping t planned (.ofNat (now - started)) (now + planned.gapUs.toNat * 1000)
  | _ => .failed

/-- After the answer to the probe's turn. -/
def probeAnswered (senderLatencyNs : UInt64) (started now : Nat) : Reply → TurnClient
  | .normalized => .looping { t with
      trialId := t.trialId + 1
      records := t.records ++
        [⟨t.trialId, planned.gapUs, planned.bit, senderLatencyNs, .ofNat (now - started)⟩] }
  | _ => .failed

/-- After the last answer: the counters have to have gone up by the turns of the campaign. -/
def close (args : BenchArgs) : Reply → TurnClient
  | .health final =>
    if final.successfulTurns - t.server.successfulTurns ≠ args.expectedTurns ∨
        final.timedOutTurns - t.server.timedOutTurns ≠ 0 ∨
        final.failedTurns - t.server.failedTurns ≠ 0 then .failed
    else
      match analyze args.calibrationPerBitAndGap t.plan t.records with
      | .ok analysis => .reported t final analysis
      | .error _ => .failed
  | _ => .failed

end Trials

/-- What `bench` does. A request takes its time to reach the lab, and `abort` is a check or a
connection that fails. -/
inductive TurnClientAction
  | deliver
  | receive
  | next
  | wake
  | abort
deriving DecidableEq, Repr

def TurnClient.step (host : Host) (token : List UInt8) (fuel : Nat) (args : BenchArgs)
    {policy : Policy} (s : State policy) (now : Nat) (client : TurnClient)
    (a : TurnClientAction) : Option (State policy × TurnClient) :=
  match a, client with
  | .deliver, .opening none =>
    if args.checked then
      some (s.arrive host token (some args.token) .health, .opening (some s.requests.length))
    else none
  | .receive, .opening (some id) =>
    (s.received id).map fun reply => (s, Trials.open fuel args reply)
  | .next, .looping t =>
    match t.rest with
    | planned :: rest => some (s, .sender { t with rest := rest } planned now none)
    | [] => some (s, .closing t none)
  | .deliver, .sender t planned started none =>
    some (s.arrive host token (some args.token) (.turn (args.senderTurn t.trialId planned)),
      .sender t planned started (some s.requests.length))
  | .receive, .sender t planned started (some id) =>
    (s.received id).map fun reply => (s, t.senderAnswered planned started now reply)
  | .wake, .sleeping t planned senderLatencyNs wake =>
    if wake ≤ now then some (s, .probe t planned senderLatencyNs now none) else none
  | .deliver, .probe t planned senderLatencyNs started none =>
    some (s.arrive host token (some args.token) (.turn (args.probeTurn t.trialId)),
      .probe t planned senderLatencyNs started (some s.requests.length))
  | .receive, .probe t planned senderLatencyNs started (some id) =>
    (s.received id).map fun reply => (s, t.probeAnswered planned senderLatencyNs started now reply)
  | .deliver, .closing t none =>
    some (s.arrive host token (some args.token) .health, .closing t (some s.requests.length))
  | .receive, .closing t (some id) => (s.received id).map fun reply => (s, t.close args reply)
  | .abort, .reported .. => none
  | .abort, _ => some (s, .failed)
  | _, _ => none

/-! ## The client and the lab -/

/-- A campaign next to the lab. -/
structure TurnCampaign (policy : Policy) where
  server : State policy
  now : Nat
  client : TurnClient

/-- `server` is anything that the lab, its runners and other clients do. -/
inductive TurnCampaignAction
  | server (a : Action)
  | tick (d : Nat)
  | client (a : TurnClientAction)
deriving DecidableEq, Repr

def TurnCampaign.step (host : Host) (token : List UInt8) (fuel : Nat) (args : BenchArgs)
    {policy : Policy} (b : TurnCampaign policy) :
    TurnCampaignAction → Option (TurnCampaign policy)
  | .server a => (Lab.step host token b.server a).map fun s => { b with server := s }
  | .tick d => some { b with now := b.now + d }
  | .client a =>
    (b.client.step host token fuel args b.server b.now a).map fun (s, client) =>
      { b with server := s, client := client }

/-- A campaign on a lab that has just been started. -/
def turnCampaignMachine (host : Host) (token : List UInt8) (fuel : Nat) (args : BenchArgs)
    (policy : Policy) : Machine (TurnCampaign policy) TurnCampaignAction :=
  ⟨⟨.initial policy, 0, .opening none⟩, TurnCampaign.step host token fuel args⟩

/-- What is seen of a step: the counter that goes up for a request, or the campaign's request for
the counters as it reaches the lab. -/
inductive Sight
  | counted (entry : Nat × Outcome)
  | opened
  | closed
deriving DecidableEq, Repr

def sight {policy : Policy} (b : TurnCampaign policy) : TurnCampaignAction → Option Sight
  | .server a => (increment b.server a).map .counted
  | .tick _ => none
  | .client a =>
    match a, b.client with
    | .deliver, .opening none => some .opened
    | .deliver, .closing _ none => some .closed
    | _, _ => none

variable {policy : Policy} {host : Host} {token : List UInt8} {fuel : Nat} {args : BenchArgs}
  {s s' : State policy} {id : Nat}

/-! ## The trace -/

/-- The increments of the lab, as the trace has them. -/
def increments (trace : List Sight) : List (Nat × Outcome) :=
  trace.filterMap fun
    | .counted entry => some entry
    | _ => none

@[simp] theorem increments_append (l l' : List Sight) :
    increments (l ++ l') = increments l ++ increments l' := List.filterMap_append

@[simp] theorem increments_counted (log : List (Nat × Outcome)) :
    increments (log.map .counted) = log := by
  rw [increments, List.filterMap_map]
  exact List.filterMap_some

@[simp] theorem increments_opened (l : List Sight) : increments (.opened :: l) = increments l := rfl

@[simp] theorem increments_closed (l : List Sight) : increments (.closed :: l) = increments l := rfl

/-! ## Requests of the campaign -/

/-- Requests keep what they are, and callers what they have received. -/
def State.Grows (s s' : State policy) : Prop :=
  ∀ (id : Nat) r, s.requests[id]? = some r → ∃ r', s'.requests[id]? = some r' ∧ Keeps r r'

/-- Request `id` is the turn, unless it was refused as it came in. -/
def State.Carries (s : State policy) (request : TurnRequest) (id : Nat) : Prop :=
  ∃ r, s.requests[id]? = some r ∧ ((∃ w : ValidTurn policy, r.work = .turn w ∧ w.1 = request) ∨
    ∃ time e, r.caller = .answered time (.error e))

/-- Request `id` is the turn, and its caller has the normalized answer. -/
def State.Served (s : State policy) (request : TurnRequest) (id : Nat) : Prop :=
  ∃ r, ∃ w : ValidTurn policy, ∃ time, s.requests[id]? = some r ∧ r.work = .turn w ∧
    w.1 = request ∧ r.caller = .answered time .normalized

/-- Request `id` was answered with the counters, or else refused. -/
def State.Reads (s : State policy) (log : List (Nat × Outcome)) (id : Nat) : Prop :=
  ∃ r time reply, s.requests[id]? = some r ∧ r.caller = .answered time reply ∧
    ∀ server, reply = .health server →
      server.successfulTurns = log.countP (·.2 = .complete) ∧
      server.timedOutTurns = log.countP (·.2 = .timedOut) ∧
      server.failedTurns = log.countP (·.2 = .failed)

section Requests

variable {request : TurnRequest} {log : List (Nat × Outcome)}

theorem State.Carries.grow (h : s.Carries request id) (hg : s.Grows s') :
    s'.Carries request id := by
  obtain ⟨r, hr, hcase⟩ := h
  obtain ⟨r', hr', hk⟩ := hg id r hr
  refine ⟨r', hr', ?_⟩
  rcases hcase with ⟨w, hw, hrequest⟩ | ⟨time, e, hc⟩
  · exact .inl ⟨w, hk.work.trans hw, hrequest⟩
  · exact .inr ⟨time, e, (hk.caller (by simp [hc])).trans hc⟩

theorem State.Served.grow (h : s.Served request id) (hg : s.Grows s') : s'.Served request id := by
  obtain ⟨r, w, time, hr, hw, hrequest, hc⟩ := h
  obtain ⟨r', hr', hk⟩ := hg id r hr
  exact ⟨r', w, time, hr', hk.work.trans hw, hrequest, (hk.caller (by simp [hc])).trans hc⟩

theorem State.Reads.grow (h : s.Reads log id) (hg : s.Grows s') : s'.Reads log id := by
  obtain ⟨r, time, reply, hr, hc, hcounters⟩ := h
  obtain ⟨r', hr', hk⟩ := hg id r hr
  exact ⟨r', time, reply, hr', (hk.caller (by simp [hc])).trans hc, hcounters⟩

theorem answer_getElem (s : State policy) (reply : Reply) : ∃ r,
    (s.answer reply).requests[s.requests.length]? = some r ∧ r.caller = .answered s.now reply :=
  ⟨_, List.getElem?_concat_length, rfl⟩

/-- A turn that comes in. -/
theorem Entrance.carries (h : Entrance host s (.turn request) s') :
    s'.Carries request s.requests.length := by
  cases h with
  | refuse e =>
    obtain ⟨r, hr, hc⟩ := answer_getElem s (.error e)
    exact ⟨r, hr, .inr ⟨_, e, hc⟩⟩
  | turn w =>
    unfold State.accept
    split
    · exact ⟨_, List.getElem?_concat_length, .inl ⟨w, rfl, rfl⟩⟩
    · exact ⟨_, List.getElem?_concat_length, .inr ⟨_, .tooMany, rfl⟩⟩

/-- A request for the counters that comes in. -/
theorem Entrance.reads (ht : Tallied s log) (h : Entrance host s .health s') :
    s'.Reads log s.requests.length := by
  cases h with
  | refuse e =>
    obtain ⟨r, hr, hc⟩ := answer_getElem s (.error e)
    exact ⟨r, _, _, hr, hc, nofun⟩
  | health =>
    obtain ⟨r, hr, hc⟩ := answer_getElem s (.health (s.healthResponse host))
    refine ⟨r, _, _, hr, hc, fun server he => ?_⟩
    cases he
    exact ⟨ht.successful, ht.timedOut, ht.failed⟩

/-- A turn that was answered has been counted once. -/
theorem State.Served.counted (h : s.Served request id) (hsent : s.Sent) (ht : Tallied s log) :
    log.countP (·.1 = id) = 1 := by
  obtain ⟨r, w, time, hr, hw, -, hc⟩ := h
  have hreply := hsent id r time _ hr hc
  have hcounted : r.counted = true := by
    have haccepted := Request.accepted_of_turn hw
    unfold Request.counted
    rw [haccepted]
    cases hp : r.phase <;> simp_all [Phase.reply?, Reply.refusal]
  rw [ht.entries, hr, Option.any_some, hcounted]
  rfl

/-- The answer to a turn that was sent. -/
theorem State.Carries.served (h : s.Carries request id) (hreceived : s.received id = some .normalized) :
    s.Served request id := by
  obtain ⟨r, hr, hcase⟩ := h
  obtain ⟨r', time, hr', hc⟩ := received_eq hreceived
  cases hr.symm.trans hr'
  rcases hcase with ⟨w, hw, hrequest⟩ | ⟨time', e, hc'⟩
  · exact ⟨r, w, time, hr, hw, hrequest, hc⟩
  · rw [hc] at hc'
    cases hc'

end Requests

/-! ## What the campaign knows of the lab -/

/-- The requests that were answered so far, by the names `ids`. The lab had counted `before`
when the campaign asked for the counters, and has counted `log` and `later` since. All the
answered requests are in `log`, in the order in which they were sent. -/
structure Story (s : State policy) (trace : List Sight) (server : HealthResponse)
    (sent : List TurnRequest) (before log later : List (Nat × Outcome)) (ids : List Nat) :
    Prop where
  trace : trace = before.map .counted ++ .opened :: (log ++ later).map .counted
  successful : server.successfulTurns = before.countP (·.2 = .complete)
  timedOut : server.timedOutTurns = before.countP (·.2 = .timedOut)
  failed : server.failedTurns = before.countP (·.2 = .failed)
  served : List.Forall₂ (fun id request => s.Served request id) ids sent
  order : ids.Sublist (log.map Prod.fst)

/-- A request is on its way, and nothing was counted for it in `before` and `log`. -/
structure Waits (s : State policy) (trace : List Sight) (server : HealthResponse)
    (sent : List TurnRequest) (request : TurnRequest) (id : Nat)
    (before log later : List (Nat × Outcome)) (ids : List Nat) : Prop where
  story : Story s trace server sent before log later ids
  carries : s.Carries request id
  fresh : ∀ entry ∈ before ++ log, entry.1 ≠ id

section Stories

variable {trace : List Sight} {server : HealthResponse} {sent : List TurnRequest}
  {request : TurnRequest} {before log later : List (Nat × Outcome)} {ids : List Nat}

theorem Story.increments (h : Story s trace server sent before log later ids) :
    Lab.increments trace = before ++ (log ++ later) := by
  rw [h.trace, increments_append, increments_counted, increments_opened, increments_counted]

theorem Story.grow (h : Story s trace server sent before log later ids) (hg : s.Grows s')
    (entry : Option (Nat × Outcome)) :
    Story s' (trace ++ (entry.map Sight.counted).toList) server sent before log
      (later ++ entry.toList) ids where
  trace := by
    rw [h.trace, List.append_assoc, List.cons_append]
    cases entry <;> simp
  successful := h.successful
  timedOut := h.timedOut
  failed := h.failed
  served := h.served.imp fun _ _ hs => hs.grow hg
  order := h.order

/-- What was counted later counts as well. -/
theorem Story.settle (h : Story s trace server sent before log later ids) :
    Story s trace server sent before (log ++ later) [] ids where
  trace := by rw [List.append_nil, h.trace]
  successful := h.successful
  timedOut := h.timedOut
  failed := h.failed
  served := h.served
  order := by
    rw [List.map_append]
    exact h.order.trans (List.sublist_append_left _ _)

theorem Waits.grow (h : Waits s trace server sent request id before log later ids)
    (hg : s.Grows s') (entry : Option (Nat × Outcome)) :
    Waits s' (trace ++ (entry.map Sight.counted).toList) server sent request id before log
      (later ++ entry.toList) ids where
  story := h.story.grow hg entry
  carries := h.carries.grow hg
  fresh := h.fresh

/-- The answer comes: the request was counted after all those before it. -/
theorem Waits.receive (h : Waits s trace server sent request id before log later ids)
    (hsent : s.Sent) (ht : Tallied s (Lab.increments trace))
    (hreceived : s.received id = some .normalized) :
    Story s trace server (sent ++ [request]) before (log ++ later) [] (ids ++ [id]) where
  trace := h.story.settle.trace
  successful := h.story.successful
  timedOut := h.story.timedOut
  failed := h.story.failed
  served := List.rel_append h.story.served (.cons (h.carries.served hreceived) .nil)
  order := by
    have hcount := (h.carries.served hreceived).counted hsent ht
    rw [h.story.increments, ← List.append_assoc, List.countP_append,
      List.countP_eq_zero.mpr (by simpa using h.fresh), Nat.zero_add] at hcount
    obtain ⟨entry, hentry, hid⟩ := List.countP_pos_iff.mp (hcount ▸ Nat.one_pos)
    have hmem : id ∈ later.map Prod.fst :=
      List.mem_map.mpr ⟨entry, hentry, of_decide_eq_true hid⟩
    rw [List.map_append]
    exact h.story.order.append (List.singleton_sublist.mpr hmem)

end Stories

/-! ## The lab under a campaign -/

/-- The lab has run to this state, and the trace has its increments. -/
def Recorded (host : Host) (token : List UInt8) (s : State policy) (trace : List Sight) : Prop :=
  ((machine host token policy).record increment).Reachable (s, increments trace)

section Recorded

variable {trace : List Sight} {a : Action}

theorem Recorded.reachable (h : Recorded host token s trace) :
    (machine host token policy).Reachable s :=
  Machine.Reachable.record_invariant (P := fun s _ => (machine host token policy).Reachable s)
    .init (fun _ _ _ _ hr hs => hr.step hs) h

theorem Recorded.tallied (h : Recorded host token s trace) : Tallied s (increments trace) :=
  (reachable_booked h).2

theorem Recorded.sent (h : Recorded host token s trace) : s.Sent := reachable_sent h.reachable

theorem Recorded.step (h : Recorded host token s trace) (hs : Lab.step host token s a = some s') :
    Recorded host token s' (trace ++ ((increment s a).map Sight.counted).toList) := by
  have hstep := Machine.Reachable.record_step h hs
  rw [Recorded, increments_append]
  cases hi : increment s a <;> rw [hi] at hstep <;> exact hstep

theorem Recorded.grows (h : Recorded host token s trace) (hs : Lab.step host token s a = some s') :
    s.Grows s' :=
  fun _ _ hr => (step_move hs (reachable_laned h.reachable)).request hr

/-- A request of the campaign reaches the lab. -/
theorem Recorded.arrive (h : Recorded host token s trace) (header : Option (List UInt8))
    (call : Call) : Recorded host token (s.arrive host token header call) trace := by
  have hstep := h.step (a := .arrive header call) rfl
  rwa [show increment s (.arrive header call) = none from rfl, Option.map_none, Option.toList_none,
    List.append_nil] at hstep

theorem Recorded.arrive_grows (h : Recorded host token s trace) (header : Option (List UInt8))
    (call : Call) : s.Grows (s.arrive host token header call) :=
  h.grows (a := .arrive header call) rfl

/-- What is seen of the campaign itself is none of the lab's increments. -/
theorem Recorded.see (h : Recorded host token s trace) {seen : List Sight}
    (hseen : increments seen = []) : Recorded host token s (trace ++ seen) := by
  rwa [Recorded, increments_append, hseen, List.append_nil]

/-- Nothing has been counted for a request that has not come in. -/
theorem Recorded.fresh (h : Recorded host token s trace) :
    ∀ entry ∈ increments trace, entry.1 ≠ s.requests.length := by
  have hzero := h.tallied.entries s.requests.length
  rw [List.getElem?_eq_none (Nat.le_refl _), Option.any_none, Bool.toNat_false,
    List.countP_eq_zero] at hzero
  simpa using hzero

end Recorded

/-! ## What the client knows -/

/-- The campaign has sent these turns and has been told of each. -/
def Heard (s : State policy) (trace : List Sight) (server : HealthResponse)
    (sent : List TurnRequest) : Prop :=
  ∃ before log ids, Story s trace server sent before log [] ids

/-- The campaign waits for the answer to one more. -/
def Awaits (s : State policy) (trace : List Sight) (server : HealthResponse)
    (sent : List TurnRequest) (request : TurnRequest) (id : Nat) : Prop :=
  ∃ before log later ids, Waits s trace server sent request id before log later ids

/-- What there is to compare when the campaign has asked for the counters again. -/
structure Closed (s : State policy) (trace : List Sight) (server : HealthResponse)
    (sent : List TurnRequest) (id : Nat) (before log later : List (Nat × Outcome))
    (ids : List Nat) : Prop where
  trace : trace = before.map .counted ++ .opened :: log.map .counted ++
    .closed :: later.map .counted
  successful : server.successfulTurns = before.countP (·.2 = .complete)
  timedOut : server.timedOutTurns = before.countP (·.2 = .timedOut)
  failed : server.failedTurns = before.countP (·.2 = .failed)
  served : List.Forall₂ (fun id request => s.Served request id) ids sent
  order : ids.Sublist (log.map Prod.fst)
  reads : s.Reads (before ++ log) id

section Knows

variable {trace : List Sight} {server : HealthResponse} {sent : List TurnRequest}
  {request : TurnRequest} {entry : Option (Nat × Outcome)}

theorem Heard.grow (h : Heard s trace server sent) (hg : s.Grows s')
    (entry : Option (Nat × Outcome)) :
    Heard s' (trace ++ (entry.map Sight.counted).toList) server sent := by
  obtain ⟨before, log, ids, h⟩ := h
  exact ⟨before, _, ids, (h.grow hg entry).settle⟩

theorem Awaits.grow (h : Awaits s trace server sent request id) (hg : s.Grows s')
    (entry : Option (Nat × Outcome)) :
    Awaits s' (trace ++ (entry.map Sight.counted).toList) server sent request id := by
  obtain ⟨before, log, later, ids, h⟩ := h
  exact ⟨before, log, _, ids, h.grow hg entry⟩

theorem Closed.grow {before log later : List (Nat × Outcome)} {ids : List Nat}
    (h : Closed s trace server sent id before log later ids) (hg : s.Grows s')
    (entry : Option (Nat × Outcome)) :
    Closed s' (trace ++ (entry.map Sight.counted).toList) server sent id before log
      (later ++ entry.toList) ids where
  trace := by
    rw [h.trace, List.map_append, List.append_assoc, List.cons_append]
    cases entry <;> rfl
  successful := h.successful
  timedOut := h.timedOut
  failed := h.failed
  served := h.served.imp fun _ _ hs => hs.grow hg
  order := h.order
  reads := h.reads.grow hg

/-- The campaign sends its next turn. -/
theorem Heard.send (h : Heard s trace server sent) (hr : Recorded host token s trace)
    (request : TurnRequest) :
    Awaits (s.arrive host token (some args.token) (.turn request)) trace server sent request
      s.requests.length := by
  obtain ⟨before, log, ids, h⟩ := h
  have hgrow := h.grow (hr.arrive_grows (some args.token) (.turn request)) none
  rw [Option.map_none, Option.toList_none, List.append_nil] at hgrow
  refine ⟨before, log, _, ids, hgrow, (arrive_entrance ..).carries, fun entry hentry => ?_⟩
  refine hr.fresh entry ?_
  rwa [h.increments, List.append_nil]

/-- The campaign is told of it. -/
theorem Awaits.receive (h : Awaits s trace server sent request id)
    (hr : Recorded host token s trace) (hreceived : s.received id = some .normalized) :
    Heard s trace server (sent ++ [request]) := by
  obtain ⟨before, log, later, ids, h⟩ := h
  exact ⟨before, _, _, h.receive hr.sent hr.tallied hreceived⟩

/-- The campaign asks for the counters again. -/
theorem Heard.close (h : Heard s trace server sent) (hr : Recorded host token s trace) :
    ∃ before log later ids, Closed (s.arrive host token (some args.token) .health)
      (trace ++ [.closed]) server sent s.requests.length before log later ids := by
  obtain ⟨before, log, ids, h⟩ := h
  have hgrows := hr.arrive_grows (some args.token) .health
  refine ⟨before, log, [], ids, ?_, h.successful, h.timedOut, h.failed,
    h.served.imp fun _ _ hs => hs.grow hgrows, h.order, ?_⟩
  · rw [h.trace, List.append_nil, List.map_nil]
  · have hlog := h.increments
    rw [List.append_nil] at hlog
    exact hlog ▸ (arrive_entrance ..).reads hr.tallied

/-- The trials that are done. -/
structure Trials.Done (fuel : Nat) (args : BenchArgs) (t : Trials) (done : List TrialPlan) :
    Prop where
  planned : benchPlan fuel args t.server.sessionSlots = .ok t.plan
  records : t.records.map TrialRecord.planned = done
  trialId : t.trialId = .ofNat done.length

/-- What the campaign has got to, and what it knows then. -/
def TurnClient.Knows (fuel : Nat) (args : BenchArgs) (s : State policy) (trace : List Sight) :
    TurnClient → Prop
  | .opening none => ∃ before : List (Nat × Outcome), trace = before.map .counted
  | .opening (some id) => ∃ before log : List (Nat × Outcome),
      trace = before.map .counted ++ .opened :: log.map .counted ∧
      s.Reads before id
  | .looping t => ∃ done, t.Done fuel args done ∧ t.plan = done ++ t.rest ∧
      Heard s trace t.server (turnRequests args 0 done)
  | .sender t planned _ none => ∃ done, t.Done fuel args done ∧
      t.plan = done ++ planned :: t.rest ∧ Heard s trace t.server (turnRequests args 0 done)
  | .sender t planned _ (some id) => ∃ done, t.Done fuel args done ∧
      t.plan = done ++ planned :: t.rest ∧
      Awaits s trace t.server (turnRequests args 0 done) (args.senderTurn t.trialId planned) id
  | .sleeping t planned _ _ | .probe t planned _ _ none => ∃ done, t.Done fuel args done ∧
      t.plan = done ++ planned :: t.rest ∧
      Heard s trace t.server (turnRequests args 0 done ++ [args.senderTurn t.trialId planned])
  | .probe t planned _ _ (some id) => ∃ done, t.Done fuel args done ∧
      t.plan = done ++ planned :: t.rest ∧
      Awaits s trace t.server (turnRequests args 0 done ++ [args.senderTurn t.trialId planned])
        (args.probeTurn t.trialId) id
  | .closing t none => t.Done fuel args t.plan ∧
      Heard s trace t.server (turnRequests args 0 t.plan)
  | .closing t (some id) => t.Done fuel args t.plan ∧ ∃ before log later ids,
      Closed s trace t.server (turnRequests args 0 t.plan) id before log later ids
  | .reported .. | .failed => True

/-- The lab goes on. -/
theorem TurnClient.Knows.grow {client : TurnClient} (h : client.Knows fuel args s trace)
    (hg : s.Grows s') (entry : Option (Nat × Outcome)) :
    client.Knows fuel args s' (trace ++ (entry.map Sight.counted).toList) := by
  unfold TurnClient.Knows at h ⊢
  split at h
  · obtain ⟨before, rfl⟩ := h
    exact ⟨before ++ entry.toList, by cases entry <;> simp⟩
  · obtain ⟨before, log, rfl, hreads⟩ := h
    refine ⟨before, log ++ entry.toList, ?_, hreads.grow hg⟩
    cases entry <;> simp
  · obtain ⟨done, hdone, hplan, h⟩ := h
    exact ⟨done, hdone, hplan, h.grow hg entry⟩
  · obtain ⟨done, hdone, hplan, h⟩ := h
    exact ⟨done, hdone, hplan, h.grow hg entry⟩
  · obtain ⟨done, hdone, hplan, h⟩ := h
    exact ⟨done, hdone, hplan, h.grow hg entry⟩
  · obtain ⟨done, hdone, hplan, h⟩ := h
    exact ⟨done, hdone, hplan, h.grow hg entry⟩
  · obtain ⟨done, hdone, hplan, h⟩ := h
    exact ⟨done, hdone, hplan, h.grow hg entry⟩
  · obtain ⟨done, hdone, hplan, h⟩ := h
    exact ⟨done, hdone, hplan, h.grow hg entry⟩
  · exact ⟨h.1, h.2.grow hg entry⟩
  · obtain ⟨hdone, before, log, later, ids, h⟩ := h
    exact ⟨hdone, before, log, _, ids, h.grow hg entry⟩
  · trivial
  · trivial

theorem turnRequests_concat (args : BenchArgs) (trialId : UInt64) (done : List TrialPlan)
    (planned : TrialPlan) : turnRequests args trialId (done ++ [planned]) =
      turnRequests args trialId done ++ [args.senderTurn (trialId + .ofNat done.length) planned,
        args.probeTurn (trialId + .ofNat done.length)] := by
  induction done generalizing trialId with
  | nil =>
    show _ = [args.senderTurn (trialId + 0) planned, args.probeTurn (trialId + 0)]
    rw [UInt64.add_zero]
    rfl
  | cons first done ih =>
    have hid : trialId + 1 + .ofNat done.length = trialId + .ofNat (first :: done).length := by
      rw [List.length_cons, UInt64.ofNat_add, UInt64.add_assoc,
        UInt64.add_comm 1 (UInt64.ofNat done.length)]
      rfl
    rw [List.cons_append, turnRequests, ih, hid, turnRequests, List.append_assoc]

/-- A trial is done. -/
theorem Trials.Done.push {t : Trials} {done : List TrialPlan} (h : t.Done fuel args done)
    (planned : TrialPlan) (senderLatencyNs probeLatencyNs : UInt64) :
    ({ t with
        trialId := t.trialId + 1
        records := t.records ++
          [⟨t.trialId, planned.gapUs, planned.bit, senderLatencyNs, probeLatencyNs⟩] } :
      Trials).Done fuel args (done ++ [planned]) where
  planned := h.planned
  records := by
    rw [List.map_append, h.records]
    rfl
  trialId := by
    rw [List.length_append, UInt64.ofNat_add, ← h.trialId]
    rfl

/-- The first answer gives a plan of which nothing is done. -/
theorem knows_open {before log : List (Nat × Outcome)} {reply : Reply}
    (htrace : trace = before.map .counted ++ .opened :: log.map .counted) (hreads : s.Reads before id)
    (hreceived : s.received id = some reply) :
    (Trials.open fuel args reply).Knows fuel args s trace := by
  obtain ⟨r, time, reply', hr, hc, hcounters⟩ := hreads
  obtain ⟨r', time', hr', hc'⟩ := received_eq hreceived
  cases hr.symm.trans hr'
  cases hc.symm.trans hc'
  cases reply with
  | health server =>
    obtain ⟨hsuccessful, htimedOut, hfailed⟩ := hcounters server rfl
    simp only [Trials.open]
    split
    · next plan hplan =>
      refine ⟨[], ⟨hplan, rfl, rfl⟩, rfl, before, log, [], ?_, hsuccessful, htimedOut, hfailed,
        .nil, List.nil_sublist _⟩
      rw [List.append_nil, htrace]
    · trivial
  | _ => trivial

section Answers

variable {t : Trials} {planned : TrialPlan} {done : List TrialPlan} {started now : Nat}
  {senderLatencyNs : UInt64} {reply : Reply}

theorem knows_senderAnswered (hdone : t.Done fuel args done)
    (hplan : t.plan = done ++ planned :: t.rest)
    (h : Awaits s trace t.server (turnRequests args 0 done) (args.senderTurn t.trialId planned) id)
    (hr : Recorded host token s trace) (hreceived : s.received id = some reply) :
    (t.senderAnswered planned started now reply).Knows fuel args s trace := by
  cases reply with
  | normalized =>
    simp only [Trials.senderAnswered]
    split
    · exact ⟨done, hdone, hplan, h.receive hr hreceived⟩
    · exact ⟨done, hdone, hplan, h.receive hr hreceived⟩
  | _ => trivial

theorem knows_probeAnswered (hdone : t.Done fuel args done)
    (hplan : t.plan = done ++ planned :: t.rest)
    (h : Awaits s trace t.server (turnRequests args 0 done ++ [args.senderTurn t.trialId planned])
      (args.probeTurn t.trialId) id)
    (hr : Recorded host token s trace) (hreceived : s.received id = some reply) :
    (t.probeAnswered planned senderLatencyNs started now reply).Knows fuel args s trace := by
  cases reply with
  | normalized =>
    have hheard := h.receive hr hreceived
    have hrequests : turnRequests args 0 (done ++ [planned]) =
        turnRequests args 0 done ++ [args.senderTurn t.trialId planned] ++
          [args.probeTurn t.trialId] := by
      rw [turnRequests_concat, UInt64.zero_add, ← hdone.trialId, List.append_assoc]
      rfl
    refine ⟨done ++ [planned], hdone.push planned _ _, ?_, hrequests ▸ hheard⟩
    rw [List.append_assoc]
    exact hplan
  | _ => trivial

/-- After the last answer there is nothing left to know. -/
theorem knows_close (reply : Reply) : (t.close args reply).Knows fuel args s trace := by
  unfold Trials.close
  split
  · split
    · trivial
    · split <;> trivial
  · trivial

end Answers

/-- A step of which nothing is seen. -/
theorem knows_unseen {client : TurnClient} {seen : Option Sight} (hseen : seen = none)
    (hr : Recorded host token s trace) (h : client.Knows fuel args s trace) :
    Recorded host token s (trace ++ seen.toList) ∧
      client.Knows fuel args s (trace ++ seen.toList) := by
  rw [hseen, Option.toList_none, List.append_nil]
  exact ⟨hr, h⟩

/-- One step of the client. -/
theorem TurnClient.Knows.step {client client' : TurnClient} {a : TurnClientAction} {now : Nat}
    (h : client.Knows fuel args s trace) (hr : Recorded host token s trace)
    (hs : client.step host token fuel args s now a = some (s', client')) :
    Recorded host token s' (trace ++ (sight ⟨s, now, client⟩ (.client a)).toList) ∧
      client'.Knows fuel args s' (trace ++ (sight ⟨s, now, client⟩ (.client a)).toList) := by
  unfold TurnClient.step at hs
  split at hs
  case h_1 =>
    obtain ⟨-, he⟩ := Option.ite_none_right_eq_some.mp hs
    cases he
    obtain ⟨before, rfl⟩ := h
    have hreads := (arrive_entrance host token s (some args.token) .health).reads hr.tallied
    rw [increments_counted] at hreads
    exact ⟨(hr.arrive ..).see rfl, before, [], rfl, hreads⟩
  case h_2 =>
    obtain ⟨reply, hreceived, he⟩ := Option.map_eq_some_iff.mp hs
    cases he
    obtain ⟨before, log, htrace, hreads⟩ := h
    exact knows_unseen rfl hr (knows_open htrace hreads hreceived)
  case h_3 t =>
    obtain ⟨done, hdone, hplan, h⟩ := h
    split at hs
    · next planned rest hrest =>
      cases hs
      exact knows_unseen rfl hr ⟨done, ⟨hdone.planned, hdone.records, hdone.trialId⟩,
        hrest ▸ hplan, h⟩
    · next hrest =>
      cases hs
      rw [hrest, List.append_nil] at hplan
      rw [← hplan] at hdone h
      exact knows_unseen rfl hr ⟨hdone, h⟩
  case h_4 =>
    cases hs
    obtain ⟨done, hdone, hplan, h⟩ := h
    exact knows_unseen rfl (hr.arrive ..) ⟨done, hdone, hplan, h.send hr _⟩
  case h_5 =>
    obtain ⟨reply, hreceived, he⟩ := Option.map_eq_some_iff.mp hs
    cases he
    obtain ⟨done, hdone, hplan, h⟩ := h
    exact knows_unseen rfl hr (knows_senderAnswered hdone hplan h hr hreceived)
  case h_6 =>
    obtain ⟨-, he⟩ := Option.ite_none_right_eq_some.mp hs
    cases he
    exact knows_unseen rfl hr h
  case h_7 =>
    cases hs
    obtain ⟨done, hdone, hplan, h⟩ := h
    exact knows_unseen rfl (hr.arrive ..) ⟨done, hdone, hplan, h.send hr _⟩
  case h_8 =>
    obtain ⟨reply, hreceived, he⟩ := Option.map_eq_some_iff.mp hs
    cases he
    obtain ⟨done, hdone, hplan, h⟩ := h
    exact knows_unseen rfl hr (knows_probeAnswered hdone hplan h hr hreceived)
  case h_9 =>
    cases hs
    exact ⟨(hr.arrive ..).see rfl, h.1, h.2.close hr⟩
  case h_10 =>
    obtain ⟨reply, -, he⟩ := Option.map_eq_some_iff.mp hs
    cases he
    exact knows_unseen rfl hr (knows_close reply)
  case h_11 => cases hs
  case h_12 =>
    cases hs
    exact knows_unseen rfl hr trivial
  case h_13 => cases hs

end Knows

/-! ## Counting -/

/-- Counters that went up by these requests and no more were up for them alone. -/
theorem log_eq_iff {log : List (Nat × Outcome)} {ids : List Nat}
    (horder : ids.Sublist (log.map Prod.fst)) :
    log = ids.map (·, .complete) ↔ log.countP (·.2 = .complete) = ids.length ∧
      log.countP (·.2 = .timedOut) = 0 ∧ log.countP (·.2 = .failed) = 0 := by
  constructor
  · intro he
    rw [he, List.countP_map, List.countP_map, List.countP_map]
    exact ⟨List.countP_eq_length.mpr fun _ _ => rfl, List.countP_eq_zero.mpr fun _ _ => nofun,
      List.countP_eq_zero.mpr fun _ _ => nofun⟩
  · rintro ⟨hcomplete, htimedOut, hfailed⟩
    have hlen : log.length = ids.length := by
      rw [length_eq_outcomes, hcomplete, htimedOut, hfailed, Nat.add_zero]
    have hids : ids = log.map Prod.fst :=
      horder.eq_of_length (by rw [List.length_map, hlen])
    have hall := List.countP_eq_length.mp (hcomplete.trans hlen.symm)
    rw [hids, List.map_map]
    refine (List.map_id log).symm.trans (List.map_congr_left fun entry hentry => ?_)
    exact Prod.ext rfl (of_decide_eq_true (hall entry hentry))

/-- What the counters went up by is what was counted in between. -/
theorem sub_countP (before log : List (Nat × Outcome)) (p : Nat × Outcome → Bool) :
    (before ++ log).countP p - before.countP p = log.countP p := by
  rw [List.countP_append, Nat.add_sub_cancel_left]

@[simp] theorem length_turnRequests (args : BenchArgs) (trialId : UInt64) (plan : List TrialPlan) :
    (turnRequests args trialId plan).length = plan.length * 2 := by
  induction plan generalizing trialId with
  | nil => rfl
  | cons planned plan ih =>
    rw [turnRequests, List.length_append, ih, List.length_cons, Nat.succ_mul, Nat.add_comm]
    rfl

/-- A plan in memory is of fewer turns than `u64` counts. -/
theorem expectedTurns_eq {slots : Nat} {plan : List TrialPlan}
    (hplan : benchPlan fuel args slots = .ok plan) : args.expectedTurns = plan.length * 2 := by
  obtain ⟨hlt, hbuild⟩ := benchPlan_eq_ok hplan
  obtain ⟨_, _, -, -, -, hlen⟩ := buildTrialPlan_eq_ok hbuild
  have htrials : plan.length = args.trials.toNat :=
    hlen.trans (Nat.max_eq_right (Nat.le_of_lt hlt))
  have hroom : plan.length * 16 ≤ 2 ^ 63 - 1 := hlen ▸ (buildTrialPlan_eq_ok_iff.mp hbuild).1
  rw [BenchArgs.expectedTurns, ← htrials]
  exact Nat.min_eq_left (by omega)

/-- Records of all the trials are enough to calibrate with. -/
theorem analyze_records {slots : Nat} {plan : List TrialPlan} {records : List TrialRecord}
    (hplan : benchPlan fuel args slots = .ok plan)
    (hrecords : records.map TrialRecord.planned = plan) :
    ∃ analysis, analyze args.calibrationPerBitAndGap plan records = .ok analysis := by
  have hle := calibrationLen_le hplan
  have hlt := (benchPlan_eq_ok hplan).1
  rw [analyze, length_records hplan hrecords, if_neg (by omega)]
  exact ⟨_, rfl⟩

/-! ## Every run -/

theorem campaign_knows {b : TurnCampaign policy} {trace : List Sight}
    (h : ((turnCampaignMachine host token fuel args policy).record sight).Reachable (b, trace)) :
    Recorded host token b.server trace ∧ b.client.Knows fuel args b.server trace := by
  refine h.record_invariant (P := fun b trace => Recorded host token b.server trace ∧
    b.client.Knows fuel args b.server trace) ?_ fun b trace a b' hknows hs => ?_
  · exact ⟨Machine.Reachable.init, [], rfl⟩
  · obtain ⟨hr, hk⟩ := hknows
    cases a with
    | server a =>
      obtain ⟨s', hserver, rfl⟩ := Option.map_eq_some_iff.mp hs
      exact ⟨hr.step hserver, hk.grow (hr.grows hserver) _⟩
    | tick d =>
      cases hs
      exact knows_unseen rfl hr hk
    | client a =>
      obtain ⟨⟨s', client'⟩, hclient, rfl⟩ := Option.map_eq_some_iff.mp hs
      exact hk.step hr hclient

/-- What the campaign knows when it compares the counters. -/
theorem reported_iff {before log : List (Nat × Outcome)} {ids : List Nat} {t : Trials}
    {final : HealthResponse} (hdone : t.Done fuel args t.plan)
    (hids : ids.length = t.plan.length * 2) (horder : ids.Sublist (log.map Prod.fst))
    (hsuccessful : t.server.successfulTurns = before.countP (·.2 = .complete))
    (htimedOut : t.server.timedOutTurns = before.countP (·.2 = .timedOut))
    (hfailed : t.server.failedTurns = before.countP (·.2 = .failed))
    (hfinal : final.successfulTurns = (before ++ log).countP (·.2 = .complete) ∧
      final.timedOutTurns = (before ++ log).countP (·.2 = .timedOut) ∧
      final.failedTurns = (before ++ log).countP (·.2 = .failed)) :
    (∃ analysis, t.close args (.health final) = .reported t final analysis) ↔
      log = ids.map (·, .complete) := by
  obtain ⟨hsuccessful', htimedOut', hfailed'⟩ := hfinal
  rw [log_eq_iff horder, hids, ← expectedTurns_eq hdone.planned]
  simp only [Trials.close, hsuccessful, htimedOut, hfailed, hsuccessful', htimedOut', hfailed',
    sub_countP]
  obtain ⟨analysis, hanalysis⟩ := analyze_records hdone.planned hdone.records
  simp only [hanalysis]
  constructor
  · rintro ⟨_, h⟩
    split at h
    · cases h
    · next hnot =>
      push Not at hnot
      exact hnot
  · rintro ⟨hcomplete, hzero, hzero'⟩
    rw [if_neg (by simp [hcomplete, hzero, hzero'])]
    exact ⟨analysis, rfl⟩

/-- In every run of a campaign next to the lab, whatever the lab, its runners and its other clients
do: when the client has the counters for the second time, every trial of the plan has its record,
and every turn of the plan was sent and answered with the normalized response, in order. It reports
if and only if the lab has counted, between its two requests, those turns and nothing else, each
once, as complete and in the order in which they were sent. -/
theorem campaign_ran_alone {b b' : TurnCampaign policy} {trace : List Sight} {t : Trials}
    {final : HealthResponse}
    (h : ((turnCampaignMachine host token fuel args policy).record sight).Reachable (b, trace))
    (hclient : b.client = .closing t (some id)) (hfinal : b.server.received id = some (.health final))
    (hs : b.step host token fuel args (.client .receive) = some b') :
    benchPlan fuel args t.server.sessionSlots = .ok t.plan ∧
    t.records.map TrialRecord.planned = t.plan ∧
    ∃ (before log later : List (Nat × Outcome)) (ids : List Nat),
      trace = before.map .counted ++ .opened :: log.map .counted ++ .closed :: later.map .counted ∧
      List.Forall₂ (fun id request => b.server.Served request id) ids
        (turnRequests args 0 t.plan) ∧
      ids.Sublist (log.map Prod.fst) ∧
      ((∃ analysis, b'.client = .reported t final analysis) ↔ log = ids.map (·, .complete)) := by
  obtain ⟨-, hk⟩ := campaign_knows h
  rw [hclient] at hk
  obtain ⟨hdone, before, log, later, ids, hclosed⟩ := hk
  have hclose : b'.client = t.close args (.health final) := by
    rw [TurnCampaign.step, hclient, TurnClient.step, hfinal] at hs
    cases hs
    rfl
  have hids : ids.length = t.plan.length * 2 := by
    rw [hclosed.served.length_eq, length_turnRequests]
  obtain ⟨r, time, reply, hr, hc, hcounters⟩ := hclosed.reads
  obtain ⟨r', time', hr', hc'⟩ := received_eq hfinal
  cases hr.symm.trans hr'
  cases hc.symm.trans hc'
  refine ⟨hdone.planned, hdone.records, before, log, later, ids, hclosed.trace, hclosed.served,
    hclosed.order, ?_⟩
  rw [hclose]
  exact reported_iff hdone hids hclosed.order hclosed.successful hclosed.timedOut hclosed.failed
    (hcounters final rfl)

/-! ## A run -/

/-- One trial at the gap 0, and no calibration. -/
def soloArgs : BenchArgs :=
  { sampleTrials [0] with trials := 1, calibrationPerBitAndGap := 0, token := sampleToken }

def soloMachine : Machine (TurnCampaign smallPolicy × List Sight) TurnCampaignAction :=
  (turnCampaignMachine probeHost sampleToken 4 soloArgs smallPolicy).record sight

/-- A turn up to the output of its runner. -/
def turnStarts (id : Nat) : List TurnCampaignAction :=
  [.server (.poll id), .server (.grant id), .server (.enter id),
    .server (.process id (.launch .spawned)), .server (.process id .write),
    .server (.process id (.emit [0x5a, 0x5a]))]

/-- The turn from the exit of its runner on. -/
def turnEnds (id : Nat) : List TurnCampaignAction :=
  [.server (.process id (.read true)), .server (.process id (.wait true)), .server (.settle id),
    .server (.advance 1000000), .server (.leave id), .server (.finish id), .server (.respond id)]

def soloJob (role : Role) (bit : UInt8) : Job :=
  executeProcess probeHost smallPolicy [0, 0] role bit 131072

/-- The runner of a job, which has written its state. -/
def soloChild (job : Job) (status : Option Linux.ExitStatus) : Child :=
  ⟨job.argv, job.stdin, [0x5a, 0x5a], false, status⟩

theorem main_soloJob (role : Role) (bit : UInt8) :
    main probeHost (soloJob role bit).argv
      ((soloJob role bit).stdin.take (soloJob role bit).stdin.length) = .ok [0x5a, 0x5a] := by
  rw [List.take_length]
  exact turnMain_eq (serve_served serve_smallArgs) ⟨[0, 0], rfl⟩ probeHost_ships
    probeHost_confines (by decide) (by decide)

theorem solo_exit (id : Nat) (role : Role) (bit : UInt8) {b : TurnCampaign smallPolicy}
    {trace : List Sight} {r : Request smallPolicy} {times : Times} {stage : Stage}
    (h : soloMachine.Reachable (b, trace)) (hr : b.server.requests[id]? = some r)
    (hp : r.phase = .executing times (soloJob role bit) stage)
    (hc : r.child = some (soloChild (soloJob role bit) none)) :
    soloMachine.Reachable (⟨b.server.put id { r with
      child := some (soloChild (soloJob role bit) (some (.code 0))) }, b.now, b.client⟩, trace) := by
  have hexit : Lab.step probeHost sampleToken b.server _ = _ :=
    step_exit hr hp hc rfl (main_soloJob role bit)
  refine h.step
    (a := .server (.process id (.exit (.code 0) (soloJob role bit).stdin.length))) ?_
  show (Option.map _ (Lab.step probeHost sampleToken b.server _)).map _ = _
  rw [hexit]
  simp [sight, increment, returned, soloChild]

def soloTrace : List Sight :=
  [.opened, .counted (1, .complete), .counted (2, .complete), .closed]

/-- The campaign reports after its two turns, and there are no others between its requests. -/
theorem campaign_ran_alone_solo :
    ∃ (b b' : TurnCampaign smallPolicy) (t : Trials) (final : HealthResponse),
      soloMachine.Reachable (b, soloTrace) ∧
      b.step probeHost sampleToken 4 soloArgs (.client .receive) = some b' ∧
      (∃ analysis, b'.client = .reported t final analysis) ∧
      ∃ (before later : List (Nat × Outcome)) (ids : List Nat),
        soloTrace = before.map .counted ++ .opened :: (ids.map (·, .complete)).map .counted ++
          .closed :: later.map .counted ∧
        List.Forall₂ (fun id request => b.server.Served request id) ids
          (turnRequests soloArgs 0 t.plan) := by
  have hsender := Machine.Reachable.init.run (M := soloMachine)
    (l := [.client .deliver, .client .receive, .client .next, .client .deliver] ++ turnStarts 1) rfl
  have hprobe := (solo_exit 1 .sender 1 hsender rfl rfl rfl).run
    (l := turnEnds 1 ++ [.client .receive, .client .deliver] ++ turnStarts 2) rfl
  have hclosing := (solo_exit 2 .probe 0 hprobe rfl rfl rfl).run
    (l := turnEnds 2 ++ [.client .receive, .client .next, .client .deliver]) rfl
  obtain ⟨-, -, before, log, later, ids, htrace, hserved, -, hiff⟩ :=
    campaign_ran_alone hclosing rfl rfl rfl
  rw [hiff.mp ⟨_, rfl⟩] at htrace
  exact ⟨_, _, _, _, hclosing, rfl, ⟨_, rfl⟩, before, later, ids, htrace, hserved⟩

end Lab
