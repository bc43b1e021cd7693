import IshtarOxide.Lib.Tally
import IshtarOxide.Lab.Runners

/-!
# Admission and counters

`pending` against the tasks that are on their way, and the counters against what
became of the requests. The machine is run with a record of the increments of the
outcome counters, each with the request whose task made it.

* `stepAt_booked`, `Entrance.arrived`: what an action does to the books.
* `counters_conserved`: they balance in every reachable state.
-/

namespace Lab

variable {policy : Policy} {host : Host} {token : List UInt8} {s s' : State policy} {a : Action}
  {id : Nat} {r r' : Request policy}

/-! ## What is counted -/

/-- A turn or a chunk that was let in: its handler added one to `pending`. -/
def Request.accepted (r : Request policy) : Bool :=
  match r.work with
  | .turn _ | .chunk _ => true
  | _ => false

def Phase.finished? : Phase → Bool
  | .finished _ => true
  | _ => false

/-- The task of the request has not returned. -/
def Request.pending (r : Request policy) : Bool := r.accepted && !r.phase.finished?

/-- The answers 409 and 413. -/
def Reply.refusal : Reply → Bool
  | .error .conflict | .error .stateFull => true
  | _ => false

/-- A refusal was produced for the request. -/
def Request.refused (r : Request policy) : Bool := r.accepted && r.phase.reply?.any Reply.refusal

/-- The task of the request is past the increment of a counter. -/
def Request.counted (r : Request policy) : Bool :=
  r.accepted && match r.phase with
    | .reporting .. => true
    | phase => phase.reply?.any fun reply => !reply.refusal

/-- The answer is 429. -/
def Request.throttled (r : Request policy) : Bool := r.phase.reply? = some (.error .tooMany)

/-- The increment that an action makes, with the request that makes it. -/
def increment (s : State policy) (a : Action) : Option (Nat × Outcome) :=
  (returned s a).map fun x => (x.1, x.2.outcome)

/-! ## What an action does to the books -/

/-- The phases of a spawned task from its spawn to its return, waiting for the lane
apart. -/
def Phase.task : Phase → Bool
  | .spawned _ | .executing .. | .reporting .. | .padding .. | .released _ => true
  | _ => false

theorem Phase.task_false {p : Phase} {q : Prop} (hp : p.task = false) : p.task → q := by
  rw [hp]
  intro h
  cases h

theorem Phase.reply_none {p : Phase} {reply : Reply} {q : Prop} (hp : p.reply? = none) :
    p.reply? = some reply → q := by
  rw [hp]
  intro h
  cases h

/-- The change of one request in the books. -/
inductive Booking (s s' : State policy) (id : Nat) (r r' : Request policy) :
    Option (Nat × Outcome) → Prop
  | plain : s'.pending = s.pending → s'.counters = s.counters → r'.pending = r.pending →
      r'.counted = r.counted → Booking s s' id r r' none
  | count (outcome : Outcome) : s'.pending = s.pending →
      s'.counters = (s.count outcome).counters → r'.pending = r.pending → r.counted = false →
      r'.counted = true → Booking s s' id r r' (some (id, outcome))
  | finish : s'.pending = fetchSub s.pending → s'.counters = s.counters → r.pending = true →
      r'.pending = false → r'.counted = r.counted → Booking s s' id r r' none

structure Booked (s s' : State policy) (id : Nat) (r : Request policy)
    (entry : Option (Nat × Outcome)) (r' : Request policy) : Prop where
  requests : s'.requests = s.requests.set id r'
  work : r'.work = r.work
  task : r'.phase.task → r'.accepted
  throttled : r'.throttled = r.throttled
  turn : ∀ w reply, r.work = .turn w → r'.phase.reply? = some reply →
    r.phase.reply? = some reply ∨ reply = .normalized
  booking : Booking s s' id r r' entry

theorem Booked.same (hr : s.requests[id]? = some r) (ht : r.phase.task → r.accepted) :
    Booked s s id r none r where
  requests := by
    obtain ⟨hlt, heq⟩ := List.getElem?_eq_some_iff.mp hr
    rw [← heq, List.set_getElem_self]
  work := rfl
  task := ht
  throttled := rfl
  turn := fun w reply _ h => .inl h
  booking := .plain rfl rfl rfl rfl

theorem disconnect_booked (hr : s.requests[id]? = some r) (ht : r.phase.task → r.accepted) :
    ∃ r', Booked s (s.disconnect id r) id r none r' := by
  obtain ⟨work, phase, child, caller⟩ := r
  unfold State.disconnect
  split
  · next hw hp =>
    cases hw
    cases hp
    simp only
    split
    · exact ⟨_, rfl, rfl, Phase.task_false rfl, rfl, fun _ _ _ => Phase.reply_none rfl,
        .plain rfl rfl rfl rfl⟩
    · exact ⟨_, rfl, rfl, Phase.task_false rfl, rfl, fun _ _ _ => Phase.reply_none rfl,
        .plain rfl rfl rfl rfl⟩
  · next hw hp =>
    cases hw
    cases hp
    exact ⟨_, rfl, rfl, Phase.task_false rfl, rfl, fun _ _ _ => Phase.reply_none rfl,
      .plain rfl rfl rfl rfl⟩
  · next hw hp =>
    cases hw
    cases hp
    exact ⟨_, rfl, rfl, Phase.task_false rfl, rfl, fun _ _ _ => Phase.reply_none rfl,
      .plain rfl rfl rfl rfl⟩
  · exact ⟨_, rfl, rfl, ht, rfl, fun w reply _ h => .inl h, .plain rfl rfl rfl rfl⟩

theorem enter_booked {t₁ t₂ : Nat} (hr : s.requests[id]? = some r)
    (hp : r.phase = .admitted t₁ t₂) :
    ∃ r', Booked s (s.enter host id r t₁ t₂) id r none r' := by
  have hsame := Booked.same hr (by rw [hp]; exact Phase.task_false rfl)
  obtain ⟨work, phase, child, caller⟩ := r
  cases hp
  cases work with
  | turn w =>
    exact ⟨_, rfl, rfl, fun _ => rfl, rfl, fun _ _ _ => Phase.reply_none rfl,
      .plain rfl rfl rfl rfl⟩
  | chunk w =>
    simp only [State.enter]
    split
    · exact ⟨_, rfl, rfl, fun _ => rfl, rfl, (fun _ _ hw => by cases hw), .plain rfl rfl rfl rfl⟩
    · split
      · exact ⟨_, rfl, rfl, fun _ => rfl, rfl, (fun _ _ hw => by cases hw), .plain rfl rfl rfl rfl⟩
      · exact ⟨_, rfl, rfl, fun _ => rfl, rfl, fun _ _ _ => Phase.reply_none rfl,
          .plain rfl rfl rfl rfl⟩
  | reset count =>
    exact ⟨_, rfl, rfl, Phase.task_false rfl, rfl, (fun _ _ hw => by cases hw),
      .plain rfl rfl rfl rfl⟩
  | answered => exact ⟨_, hsame⟩
  | state slot => exact ⟨_, hsame⟩

theorem settle_booked {times : Times} {job : Job} {result : ProcessResult}
    (hp : r.phase = .executing times job (.returned result)) (ht : r.phase.task → r.accepted) :
    ∃ r', Booked s (s.settle id r times result) id r (some (id, result.outcome)) r' := by
  obtain ⟨work, phase, child, caller⟩ := r
  cases hp
  cases work with
  | turn w =>
    cases result with
    | success next =>
      exact ⟨_, rfl, rfl, fun _ => rfl, rfl, fun _ _ _ h => .inr (Option.some.inj h).symm,
        .count .complete rfl rfl rfl rfl rfl⟩
    | timedOut =>
      exact ⟨_, rfl, rfl, fun _ => rfl, rfl, fun _ _ _ h => .inr (Option.some.inj h).symm,
        .count .timedOut rfl rfl rfl rfl rfl⟩
    | failed =>
      exact ⟨_, rfl, rfl, fun _ => rfl, rfl, fun _ _ _ h => .inr (Option.some.inj h).symm,
        .count .failed rfl rfl rfl rfl rfl⟩
  | chunk w =>
    cases result with
    | success next =>
      exact ⟨_, rfl, rfl, fun _ => rfl, rfl, (fun _ _ hw => by cases hw),
        .count .complete rfl rfl rfl rfl rfl⟩
    | timedOut =>
      exact ⟨_, rfl, rfl, fun _ => rfl, rfl, (fun _ _ hw => by cases hw),
        .count .timedOut rfl rfl rfl rfl rfl⟩
    | failed =>
      exact ⟨_, rfl, rfl, fun _ => rfl, rfl, (fun _ _ hw => by cases hw),
        .count .failed rfl rfl rfl rfl rfl⟩
  | answered | reset _ | state _ => cases ht rfl

theorem process_booked {event : ProcessEvent} (ht : r.phase.task → r.accepted)
    (h : r.process host s.now event = some r') : Booked s (s.put id r') id r none r' := by
  obtain ⟨work, phase, child, caller⟩ := r
  unfold Request.process at h
  split at h
  · next hp =>
    cases hp
    obtain ⟨_, _, rfl⟩ := Option.map_eq_some_iff.mp h
    exact ⟨rfl, rfl, fun _ => ht rfl, rfl, fun _ _ _ => Phase.reply_none rfl,
      .plain rfl rfl rfl rfl⟩
  · obtain ⟨_, _, rfl⟩ := Option.map_eq_some_iff.mp h
    exact ⟨rfl, rfl, ht, rfl, fun _ _ _ h => .inl h, .plain rfl rfl rfl rfl⟩

/-- An action on one request. -/
theorem stepAt_booked (hr : s.requests[id]? = some r) (ht : r.phase.task → r.accepted)
    (hid : a.id = id) (h : stepAt host s id r a = some s') :
    ∃ r', Booked s s' id r (increment s a) r' := by
  cases stepAt_branch h with
  | disconnect hc => exact disconnect_booked hr ht
  | process hr' => exact ⟨_, process_booked ht hr'⟩
  | enter hp => exact enter_booked hr hp
  | @settle i times job result hp =>
    have hentry : increment s (.settle i) = some (id, result.outcome) := by
      have hi : i = id := hid
      simp only [increment, returned, hi, hr, Option.bind_some, hp, Option.map_some]
    rw [hentry]
    exact settle_booked hp ht
  | poll hp =>
    obtain ⟨work, phase, child, caller⟩ := r
    cases hp
    exact ⟨_, rfl, rfl, Phase.task_false rfl, rfl, fun _ _ _ => Phase.reply_none rfl,
      .plain rfl rfl rfl rfl⟩
  | grant hp hh =>
    obtain ⟨work, phase, child, caller⟩ := r
    cases hp
    exact ⟨_, rfl, rfl, Phase.task_false rfl, rfl, fun _ _ _ => Phase.reply_none rfl,
      .plain rfl rfl rfl rfl⟩
  | report hp hw =>
    obtain ⟨work, phase, child, caller⟩ := r
    cases hp
    cases hw
    exact ⟨_, rfl, rfl, fun _ => rfl, rfl, (fun _ _ hw => by cases hw), .plain rfl rfl rfl rfl⟩
  | leave hp hd =>
    obtain ⟨work, phase, child, caller⟩ := r
    cases hp
    exact ⟨_, rfl, rfl, fun _ => ht rfl, rfl, fun _ _ _ h => .inl h, .plain rfl rfl rfl rfl⟩
  | finish hp =>
    obtain ⟨work, phase, child, caller⟩ := r
    cases hp
    -- the only step of a task that takes it out of `pending`
    refine ⟨_, rfl, rfl, Phase.task_false rfl, rfl, fun _ _ _ h => .inl h,
      .finish rfl rfl ?_ ?_ rfl⟩
    · simpa [Request.pending, Phase.finished?] using ht rfl
    · simp [Request.pending, Phase.finished?]
  | read hp hw =>
    obtain ⟨work, phase, child, caller⟩ := r
    cases hp
    cases hw
    exact ⟨_, rfl, rfl, Phase.task_false rfl, rfl, (fun _ _ hw => by cases hw),
      .plain rfl rfl rfl rfl⟩
  | respond hp hc =>
    exact ⟨_, rfl, rfl, ht, rfl, fun _ _ _ h => .inl h, .plain rfl rfl rfl rfl⟩

/-- How a request enters the books. -/
inductive Arrival (s s' : State policy) (r : Request policy) : Prop
  | answered : s'.pending = s.pending → s'.counters = s.counters → r.accepted = false →
      r.throttled = false → Arrival s s' r
  | throttled : s'.pending = s.pending →
      s'.counters = { s.counters with throttled := s.counters.throttled + 1 } →
      r.accepted = false → r.throttled = true → Arrival s s' r
  | accepted : s.pending < maxPending → s'.pending = s.pending + 1 → s'.counters = s.counters →
      r.pending = true → r.counted = false → r.throttled = false → Arrival s s' r

/-- What holds of a request that has just come in. -/
structure Arrived (s s' : State policy) (r : Request policy) : Prop where
  requests : s'.requests = s.requests ++ [r]
  task : r.phase.task → r.accepted
  turn : ∀ w, r.work = .turn w → r.phase.reply? = none
  arrival : Arrival s s' r

theorem answer_arrived {reply : Reply} (h : reply ≠ .error .tooMany) :
    ∃ r, Arrived s (s.answer reply) r :=
  ⟨_, rfl, Phase.task_false rfl, (fun _ hw => by cases hw),
    .answered rfl rfl rfl (decide_eq_false fun he => h (Option.some.inj he))⟩

theorem accept_arrived {work : Work policy}
    (h : ∀ p c k, (⟨work, p, c, k⟩ : Request policy).accepted) :
    ∃ r, Arrived s (s.accept work) r := by
  unfold State.accept
  split
  · next hlt =>
    refine ⟨_, rfl, fun _ => h _ _ _, fun _ _ => rfl, .accepted hlt rfl rfl ?_ ?_ rfl⟩
    · simpa [Request.pending, Phase.finished?] using h _ _ _
    · simp [Request.counted, Phase.reply?]
  · exact ⟨_, rfl, Phase.task_false rfl, (fun _ hw => by cases hw), .throttled rfl rfl rfl rfl⟩

theorem Entrance.arrived {call : Call} (h : Entrance host s call s') : ∃ r, Arrived s s' r := by
  cases h with
  | refuse e he =>
    refine answer_arrived fun h => ?_
    cases h
    simp at he
  | health => exact answer_arrived (by intro h; cases h)
  | turn w => exact accept_arrived fun _ _ _ => rfl
  | chunk w => exact accept_arrived fun _ _ _ => rfl
  | reset count =>
    exact ⟨_, rfl, Phase.task_false rfl, (fun _ hw => by cases hw), .answered rfl rfl rfl rfl⟩
  | state hslot =>
    exact ⟨_, rfl, Phase.task_false rfl, (fun _ hw => by cases hw), .answered rfl rfl rfl rfl⟩

/-! ## The books balance -/

/-- `pending` and the 429s against the requests. -/
structure Admitted (s : State policy) : Prop where
  task : ∀ (id : Nat) r, s.requests[id]? = some r → r.phase.task → r.accepted
  turn : ∀ (id : Nat) r w reply, s.requests[id]? = some r → r.work = .turn w →
    r.phase.reply? = some reply → reply = .normalized
  pending : s.pending = s.requests.countP Request.pending
  bound : s.pending ≤ maxPending
  throttled : s.counters.throttled = s.requests.countP Request.throttled

/-- The outcome counters and the record of their increments against the requests. -/
structure Tallied (s : State policy) (log : List (Nat × Outcome)) : Prop where
  successful : s.counters.successful = log.countP (·.2 = .complete)
  timedOut : s.counters.timedOut = log.countP (·.2 = .timedOut)
  failed : s.counters.failed = log.countP (·.2 = .failed)
  increments : log.length = s.requests.countP Request.counted
  entries : ∀ id : Nat, log.countP (·.1 = id) = (s.requests[id]?.any Request.counted).toNat

theorem Admitted.initial : Admitted (.initial policy) := by
  constructor <;> simp [State.initial]

theorem Tallied.initial : Tallied (.initial policy) [] := by
  constructor <;> simp [State.initial]

/-- Nothing is counted. -/
theorem Tallied.congr {log : List (Nat × Outcome)} (h : Tallied s log)
    (hsuccessful : s'.counters.successful = s.counters.successful)
    (htimedOut : s'.counters.timedOut = s.counters.timedOut)
    (hfailed : s'.counters.failed = s.counters.failed)
    (hcounted : s'.requests.countP Request.counted = s.requests.countP Request.counted)
    (hentries : ∀ id : Nat, s'.requests[id]?.any Request.counted =
      s.requests[id]?.any Request.counted) : Tallied s' log where
  successful := hsuccessful.trans h.successful
  timedOut := htimedOut.trans h.timedOut
  failed := hfailed.trans h.failed
  increments := h.increments.trans hcounted.symm
  entries := fun id => by rw [hentries]; exact h.entries id

theorem Request.not_pending (h : r.accepted = false) : r.pending = false := by
  simp [Request.pending, h]

theorem Request.not_counted (h : r.accepted = false) : r.counted = false := by
  simp [Request.counted, h]

theorem Arrival.counted (h : Arrival s s' r) : r.counted = false := by
  cases h with
  | answered _ _ hacc _ => exact Request.not_counted hacc
  | throttled _ _ hacc _ => exact Request.not_counted hacc
  | accepted _ _ _ _ hcounted _ => exact hcounted

theorem Arrived.admitted (ha : Arrived s s' r) (h : Admitted s) : Admitted s' := by
  have htask : ∀ (id : Nat) r, s'.requests[id]? = some r → r.phase.task → r.accepted := by
    intro id r₁ hr₁
    rcases getElem?_push ha.requests hr₁ with hold | rfl
    · exact h.task id r₁ hold
    · exact ha.task
  have hturn : ∀ (id : Nat) r w reply, s'.requests[id]? = some r → r.work = .turn w →
      r.phase.reply? = some reply → reply = .normalized := by
    intro id r₁ w reply hr₁ hw hreply
    rcases getElem?_push ha.requests hr₁ with hold | rfl
    · exact h.turn id r₁ w reply hold hw hreply
    · rw [ha.turn w hw] at hreply
      cases hreply
  -- the counts change by what the new request is
  have hpending := List.countP_concat_toNat (l := s.requests) (p := Request.pending) (a := r)
  have hthrottled := List.countP_concat_toNat (l := s.requests) (p := Request.throttled) (a := r)
  rw [← ha.requests] at hpending hthrottled
  have hp₀ := h.pending
  have hb₀ := h.bound
  have ht₀ := h.throttled
  cases ha.arrival with
  | answered hp hc hacc hth =>
    rw [Request.not_pending hacc, Bool.toNat_false] at hpending
    rw [hth, Bool.toNat_false] at hthrottled
    exact ⟨htask, hturn, by omega, by omega, by rw [hc]; omega⟩
  | throttled hp hc hacc hth =>
    rw [Request.not_pending hacc, Bool.toNat_false] at hpending
    rw [hth, Bool.toNat_true] at hthrottled
    exact ⟨htask, hturn, by omega, by omega, by rw [hc]; show s.counters.throttled + 1 = _; omega⟩
  | accepted hlt hp hc hpend _ hth =>
    rw [hpend, Bool.toNat_true] at hpending
    rw [hth, Bool.toNat_false] at hthrottled
    exact ⟨htask, hturn, by omega, by omega, by rw [hc]; omega⟩

theorem Arrived.tallied {log : List (Nat × Outcome)} (ha : Arrived s s' r) (h : Tallied s log) :
    Tallied s' log := by
  have hcounted := ha.arrival.counted
  have hsame : s'.counters.successful = s.counters.successful ∧
      s'.counters.timedOut = s.counters.timedOut ∧ s'.counters.failed = s.counters.failed := by
    cases ha.arrival with
    | answered _ hc | throttled _ hc | accepted _ _ hc => rw [hc]; exact ⟨rfl, rfl, rfl⟩
  refine h.congr hsame.1 hsame.2.1 hsame.2.2 ?_ fun id => ?_
  · rw [ha.requests, List.countP_concat_toNat, hcounted]
    rfl
  · rw [ha.requests]
    rcases Nat.lt_trichotomy id s.requests.length with hlt | heq | hgt
    · rw [List.getElem?_append_left hlt]
    · rw [heq, List.getElem?_concat_length, List.getElem?_eq_none (Nat.le_refl _)]
      exact hcounted
    · rw [List.getElem?_eq_none (by rw [List.length_append, List.length_singleton]; omega),
        List.getElem?_eq_none (by omega)]

/-- A task that has not returned has its place in `pending`. -/
theorem Admitted.pending_pos (h : Admitted s) (hr : s.requests[id]? = some r)
    (hp : r.pending = true) : 0 < s.pending := by
  rw [h.pending]
  exact List.countP_pos_iff.mpr ⟨r, List.mem_of_getElem? hr, hp⟩

theorem fetchSub_of_pos {n : Nat} (h : 0 < n) : fetchSub n = n - 1 := by
  obtain ⟨m, rfl⟩ := Nat.exists_eq_succ_of_ne_zero (Nat.pos_iff_ne_zero.mp h)
  rfl

section Booked

variable {entry : Option (Nat × Outcome)} (hr : s.requests[id]? = some r)
  (hb : Booked s s' id r entry r')

include hr hb

theorem Booked.getElem? (j : Nat) :
    s'.requests[j]? = if id = j then some r' else s.requests[j]? := by
  rw [hb.requests]
  split
  · next heq => rw [← heq, List.getElem?_set_self (List.getElem?_eq_some_iff.mp hr).1]
  · next hne => rw [List.getElem?_set_ne hne]

theorem Booked.admitted (h : Admitted s) : Admitted s' := by
  have htask : ∀ (j : Nat) r, s'.requests[j]? = some r → r.phase.task → r.accepted := by
    intro j r₁ hr₁
    rw [hb.getElem? hr] at hr₁
    split at hr₁
    · cases hr₁
      exact hb.task
    · exact h.task j r₁ hr₁
  have hturn : ∀ (j : Nat) r w reply, s'.requests[j]? = some r → r.work = .turn w →
      r.phase.reply? = some reply → reply = .normalized := by
    intro j r₁ w reply hr₁ hw hreply
    rw [hb.getElem? hr] at hr₁
    split at hr₁
    · cases hr₁
      rw [hb.work] at hw
      rcases hb.turn w reply hw hreply with hold | hnew
      · exact h.turn id r w reply hr hw hold
      · exact hnew
    · exact h.turn j r₁ w reply hr₁ hw hreply
  have hthrottled : s'.requests.countP Request.throttled = s.requests.countP Request.throttled := by
    rw [hb.requests]
    exact List.countP_set_of_eq hr hb.throttled
  have hpending := List.countP_set_toNat (p := Request.pending) (b := r') hr
  rw [← hb.requests] at hpending
  have hp₀ := h.pending
  have hb₀ := h.bound
  have ht₀ := h.throttled
  cases hb.booking with
  | plain hp hc hsame _ =>
    rw [hsame] at hpending
    exact ⟨htask, hturn, by omega, by omega, by rw [hc]; omega⟩
  | count outcome hp hc hsame _ _ =>
    rw [hsame] at hpending
    refine ⟨htask, hturn, by omega, by omega, ?_⟩
    rw [hc, hthrottled, ← ht₀]
    cases outcome <;> rfl
  | finish hp hc hold hnew _ =>
    -- the request itself was counted, so the decrement does not wrap
    have hsub := fetchSub_of_pos (h.pending_pos hr hold)
    rw [hold, hnew, Bool.toNat_true, Bool.toNat_false] at hpending
    exact ⟨htask, hturn, by omega, by omega, by rw [hc]; omega⟩

theorem Booked.tallied {log : List (Nat × Outcome)} (h : Tallied s log) :
    Tallied s' (log ++ entry.toList) := by
  have hcounted := List.countP_set_toNat (p := Request.counted) (b := r') hr
  rw [← hb.requests] at hcounted
  -- nothing is counted when the request is counted as before
  have hplain : s'.counters = s.counters → r'.counted = r.counted → Tallied s' (log ++ []) := by
    intro hc hsame
    rw [List.append_nil]
    refine h.congr (by rw [hc]) (by rw [hc]) (by rw [hc]) (by rw [hsame] at hcounted; omega)
      fun j => ?_
    rw [hb.getElem? hr]
    split
    · next heq =>
      rw [← heq, hr]
      exact hsame
    · rfl
  cases hb.booking with
  | plain _ hc _ hsame => exact hplain hc hsame
  | finish _ hc _ _ hsame => exact hplain hc hsame
  | count outcome _ hc _ hold hnew =>
    rw [hold, hnew, Bool.toNat_true, Bool.toNat_false] at hcounted
    have hlog : ∀ p : Nat × Outcome → Bool, (log ++ (some (id, outcome)).toList).countP p =
        log.countP p + (p (id, outcome)).toNat := fun p => List.countP_concat_toNat
    refine ⟨?_, ?_, ?_, ?_, fun j => ?_⟩
    · rw [hlog, hc, ← h.successful]
      cases outcome <;> rfl
    · rw [hlog, hc, ← h.timedOut]
      cases outcome <;> rfl
    · rw [hlog, hc, ← h.failed]
      cases outcome <;> rfl
    · rw [List.length_append, h.increments]
      exact hcounted.symm
    · rw [hlog, h.entries, hb.getElem? hr]
      split
      · next heq =>
        rw [← heq, hr, Option.any_some, Option.any_some, hold, hnew]
        simp
      · next hne => simp [hne]

end Booked

/-! ## Every reachable state -/

theorem step_booked {log : List (Nat × Outcome)} (h : step host token s a = some s')
    (ha : Admitted s) (ht : Tallied s log) :
    Admitted s' ∧ Tallied s' (log ++ (increment s a).toList) := by
  unfold step at h
  split at h
  · next header call =>
    cases h
    obtain ⟨r, hr⟩ := (arrive_entrance host token s header call).arrived
    rw [show increment s (.arrive header call) = none from rfl, Option.toList_none, List.append_nil]
    exact ⟨hr.admitted ha, hr.tallied ht⟩
  · next d =>
    cases h
    rw [show increment s (.advance d) = none from rfl, Option.toList_none, List.append_nil]
    exact ⟨⟨ha.task, ha.turn, ha.pending, ha.bound, ha.throttled⟩,
      ht.congr rfl rfl rfl rfl fun _ => rfl⟩
  · obtain ⟨r, hr, h⟩ := Option.bind_eq_some_iff.mp h
    obtain ⟨r', hb⟩ := stepAt_booked hr (ha.task _ r hr) rfl h
    exact ⟨hb.admitted hr ha, hb.tallied hr ht⟩

theorem reachable_booked {log : List (Nat × Outcome)}
    (h : ((machine host token policy).record increment).Reachable (s, log)) :
    Admitted s ∧ Tallied s log :=
  h.record_invariant (P := fun s log => Admitted s ∧ Tallied s log) ⟨.initial, .initial⟩
    fun _ _ _ _ inv hs => step_booked hs inv.1 inv.2

theorem Request.accepted_of_turn {w : ValidTurn policy} (h : r.work = .turn w) :
    r.accepted = true := by
  simp [Request.accepted, h]

theorem Request.accepted_of_chunk {w : ValidChunk policy} (h : r.work = .chunk w) :
    r.accepted = true := by
  simp [Request.accepted, h]

theorem Request.counted_of_finished {reply : Reply} (ha : r.accepted = true)
    (hp : r.phase = .finished reply) : r.counted = !reply.refusal := by
  simp [Request.counted, ha, hp, Phase.reply?]

/-- A task that has returned has been counted or has refused. -/
theorem Request.counted_or_refused (h : r.pending = false) :
    r.accepted.toNat = r.counted.toNat + r.refused.toNat := by
  obtain ⟨work, phase, child, caller⟩ := r
  cases ha : (⟨work, phase, child, caller⟩ : Request policy).accepted with
  | false => simp [Request.counted, Request.refused, ha]
  | true =>
    cases phase with
    | finished reply =>
      simp only [Request.counted, Request.refused, ha, Phase.reply?, Option.any_some, Bool.true_and]
      cases reply.refusal <;> rfl
    | _ => simp [Request.pending, ha, Phase.finished?] at h

theorem length_eq_outcomes (log : List (Nat × Outcome)) :
    log.length = log.countP (·.2 = .complete) + log.countP (·.2 = .timedOut) +
      log.countP (·.2 = .failed) := by
  induction log with
  | nil => rfl
  | cons e log ih =>
    obtain ⟨id, outcome⟩ := e
    simp only [List.countP_cons, List.length_cons, ih]
    cases outcome <;> simp <;> omega

/-- In every reachable state, whatever requests, disconnects and runners did, with
`log` the increments of the outcome counters so far: `pending` is the number of
tasks that have not returned, is bounded, and does not wrap when a task returns;
the counters count the increments; a turn that has finished made exactly one, and
a chunk as well unless it was refused, and then none; the throttle counter is the
number of 429s. So when nothing is pending, outcomes and refusals add up to the
requests that were let in. -/
theorem counters_conserved {log : List (Nat × Outcome)}
    (h : ((machine host token policy).record increment).Reachable (s, log)) :
    (s.pending = s.requests.countP Request.pending ∧ s.pending ≤ maxPending ∧
      ∀ id s', step host token s (.finish id) = some s' →
        0 < s.pending ∧ s'.pending = s.pending - 1) ∧
    (s.counters.successful = log.countP (·.2 = .complete) ∧
      s.counters.timedOut = log.countP (·.2 = .timedOut) ∧
      s.counters.failed = log.countP (·.2 = .failed)) ∧
    (∀ (id : Nat) r w reply, s.requests[id]? = some r → r.work = .turn w →
      r.phase = .finished reply → log.countP (·.1 = id) = 1) ∧
    (∀ (id : Nat) r w reply, s.requests[id]? = some r → r.work = .chunk w →
      r.phase = .finished reply → log.countP (·.1 = id) = if reply.refusal then 0 else 1) ∧
    s.counters.throttled = s.requests.countP Request.throttled ∧
    (s.pending = 0 → s.counters.successful + s.counters.timedOut + s.counters.failed +
      s.requests.countP Request.refused = s.requests.countP Request.accepted) := by
  obtain ⟨ha, ht⟩ := reachable_booked h
  refine ⟨⟨ha.pending, ha.bound, ?_⟩, ⟨ht.successful, ht.timedOut, ht.failed⟩, ?_, ?_,
    ha.throttled, ?_⟩
  · intro id s' hs
    obtain ⟨r, hr, hs⟩ := Option.bind_eq_some_iff.mp hs
    obtain ⟨work, phase, child, caller⟩ := r
    simp only [stepAt] at hs
    split at hs
    · cases hs
      have hacc := ha.task _ _ hr rfl
      have hpos : 0 < s.pending :=
        ha.pending_pos hr (by simpa [Request.pending, Phase.finished?] using hacc)
      exact ⟨hpos, fetchSub_of_pos hpos⟩
    · cases hs
  · intro id r w reply hr hw hp
    have hnorm := ha.turn id r w reply hr hw (by rw [hp]; rfl)
    rw [ht.entries, hr, Option.any_some,
      Request.counted_of_finished (Request.accepted_of_turn hw) hp, hnorm]
    rfl
  · intro id r w reply hr hw hp
    rw [ht.entries, hr, Option.any_some,
      Request.counted_of_finished (Request.accepted_of_chunk hw) hp]
    cases reply.refusal <;> rfl
  · intro hzero
    rw [ht.successful, ht.timedOut, ht.failed, ← length_eq_outcomes, ht.increments]
    -- with nothing pending, every accepted request was counted or refused
    refine (List.countP_eq_add fun r hr => Request.counted_or_refused ?_).symm
    rw [ha.pending, List.countP_eq_zero] at hzero
    exact Bool.eq_false_iff.mpr (hzero r hr)

/-- A chunk whose runner could not be spawned, and its 409 when it comes again. -/
theorem counters_conserved_sample :
    ∃ s log, ((machine streamHost sampleToken (defaultPolicy 131072)).record increment).Reachable
        (s, log) ∧ s.pending = 0 ∧ s.counters.failed = 1 ∧ s.requests.countP Request.accepted = 2 ∧
      s.counters.successful + s.counters.timedOut + s.counters.failed +
        s.requests.countP Request.refused = s.requests.countP Request.accepted := by
  have hreach := Machine.Reachable.run (l := [.arrive (some sampleToken) (.streamChunk sampleChunk.1),
    .arrive (some sampleToken) (.streamChunk { sampleChunk.1 with sequence := 1 }),
    .poll 0, .poll 1, .grant 0, .enter 0, .process 0 (.launch .spawnFailed), .settle 0, .report 0,
    .advance 1000000, .leave 0, .finish 0, .grant 1, .enter 1, .finish 1])
    (M := (machine streamHost sampleToken (defaultPolicy 131072)).record increment)
    Machine.Reachable.init rfl
  exact ⟨_, _, hreach, rfl, rfl, rfl, (counters_conserved hreach).2.2.2.2.2 rfl⟩

end Lab
