import IshtarOxide.Lib.Ledger
import IshtarOxide.Lab.Server

/-!
# What the lab's actions can do

`step_effect` says once what an action can do to the state, with the condition
under which it does it. From it follow that requests are kept (`step_move`) and that the
lane is a ledger (`reachable_laned`): its holder is the last one in the order, and every
other request in the order is done with it.
-/

namespace Lab

variable {policy : Policy} {host : Host} {token : List UInt8}

/-! ## Effects -/

/-- The result of its driver that a request goes on with, at an action. -/
def returned (s : State policy) : Action → Option (Nat × ProcessResult)
  | .settle id => s.requests[id]?.bind fun r =>
    match r.phase with
    | .executing _ _ (.returned result) => some (id, result)
    | _ => none
  | _ => none

/-- Everything an action can do to the state. The last two are for
the branches that no request reaches. -/
inductive Effect (host : Host) (s : State policy) :
    Option (Nat × ProcessResult) → State policy → Prop
  | answer (reply : Reply) : Effect host s none (s.answer reply)
  | throttle : ¬ s.pending < maxPending →
      Effect host s none { s.answer (.error .tooMany) with
        counters := { s.counters with throttled := s.counters.throttled + 1 } }
  | spawnTurn (w : ValidTurn policy) : s.pending < maxPending →
      Effect host s none { s.push ⟨.turn w, .spawned s.now, none, .connected⟩ with
        pending := s.pending + 1 }
  | spawnChunk (w : ValidChunk policy) : s.pending < maxPending →
      Effect host s none { s.push ⟨.chunk w, .spawned s.now, none, .connected⟩ with
        pending := s.pending + 1 }
  | queueReset (count : Nat) :
      Effect host s none ((s.push ⟨.reset count, .acquiring s.now, none, .connected⟩).acquire
        s.requests.length)
  | lookup (slot : Fin policy.sessionSlots) :
      Effect host s none (s.push ⟨.state slot, .locking, none, .connected⟩)
  | advance (d : Nat) : Effect host s none { s with now := s.now + d }
  | gone {id : Nat} {r : Request policy} :
      s.requests[id]? = some r → r.caller = .connected →
      Effect host s none (s.put id { r with caller := .gone })
  | respond {id : Nat} {r : Request policy} {reply : Reply} :
      s.requests[id]? = some r → r.caller = .connected → r.phase = .finished reply →
      Effect host s none (s.put id { r with caller := .answered s.now reply })
  | dropState {id : Nat} {r : Request policy} :
      s.requests[id]? = some r → r.caller = .connected → r.phase = .locking →
      Effect host s none (s.put id { r with phase := .dropped, caller := .gone })
  | dropReset {id : Nat} {r : Request policy} {count : Nat} :
      s.requests[id]? = some r → r.caller = .connected → r.work = .reset count →
      ((∃ t, r.phase = .acquiring t) ∧ id ∈ s.lane.holders ∨ ∃ t₁ t₂, r.phase = .admitted t₁ t₂) →
      Effect host s none ((s.put id { r with phase := .dropped, caller := .gone }).release id)
  | cancelReset {id : Nat} {r : Request policy} {count t : Nat} :
      s.requests[id]? = some r → r.caller = .connected → r.work = .reset count →
      r.phase = .acquiring t → id ∉ s.lane.holders →
      Effect host s none { s.put id { r with phase := .dropped, caller := .gone } with
        lane := s.lane.cancel id }
  | poll {id : Nat} {r : Request policy} {t : Nat} :
      s.requests[id]? = some r → r.phase = .spawned t →
      Effect host s none ((s.put id { r with phase := .acquiring t }).acquire id)
  | grant {id : Nat} {r : Request policy} {t : Nat} :
      s.requests[id]? = some r → r.phase = .acquiring t → id ∈ s.lane.holders →
      Effect host s none (s.put id { r with phase := .admitted t s.now })
  | conflict {id : Nat} {r : Request policy} {t₁ t₂ : Nat} {w : ValidChunk policy} :
      s.requests[id]? = some r → r.phase = .admitted t₁ t₂ → r.work = .chunk w →
      w.1.sequence ≠ (s.sessions w.slot).nextSequence → Effect host s none (s.refuse id r .conflict)
  | stateFull {id : Nat} {r : Request policy} {t₁ t₂ : Nat} {w : ValidChunk policy} :
      s.requests[id]? = some r → r.phase = .admitted t₁ t₂ → r.work = .chunk w →
      w.1.sequence = (s.sessions w.slot).nextSequence →
      streamStateBytes < saturatingAdd (s.sessions w.slot).accumulated.length w.1.chunk.length →
      Effect host s none (s.refuse id r .stateFull)
  | runChunk {id : Nat} {r : Request policy} {t₁ t₂ : Nat} {w : ValidChunk policy} :
      s.requests[id]? = some r → r.phase = .admitted t₁ t₂ → r.work = .chunk w →
      w.1.sequence = (s.sessions w.slot).nextSequence →
      ¬ streamStateBytes < saturatingAdd (s.sessions w.slot).accumulated.length w.1.chunk.length →
      Effect host s none (s.start id r t₁ t₂
        (executeStreamProcess host policy (s.sessions w.slot).accumulated w.1.chunk))
  | runTurn {id : Nat} {r : Request policy} {t₁ t₂ : Nat} {w : ValidTurn policy} :
      s.requests[id]? = some r → r.phase = .admitted t₁ t₂ → r.work = .turn w →
      Effect host s none (s.start id r t₁ t₂ (executeProcess host policy (s.states w.slot) w.1.role
        w.1.bit (iterationsFor w.1.role w.1.bit policy)))
  | reset {id : Nat} {r : Request policy} {t₁ t₂ count : Nat} :
      s.requests[id]? = some r → r.phase = .admitted t₁ t₂ → r.work = .reset count →
      Effect host s none { (s.put id { r with phase := .finished .normalized }).release id with
        sessions := fun slot => if slot.val < count then .empty else s.sessions slot }
  | process {id : Nat} {r r' : Request policy} {event : ProcessEvent} :
      s.requests[id]? = some r → r.process host s.now event = some r' →
      Effect host s none (s.put id r')
  | turned {id : Nat} {r : Request policy} {times : Times} {job : Job} {result : ProcessResult}
      {w : ValidTurn policy} :
      s.requests[id]? = some r → r.phase = .executing times job (.returned result) →
      r.work = .turn w → Effect host s (some (id, result)) (s.settle id r times result)
  | commit {id : Nat} {r : Request policy} {times : Times} {job : Job} {next : List UInt8}
      {w : ValidChunk policy} :
      s.requests[id]? = some r → r.phase = .executing times job (.returned (.success next)) →
      r.work = .chunk w →
      Effect host s (some (id, .success next)) ((s.commit w next).pad id r times
        ((s.commit w next).chunkReply w times .complete (s.now - times.startedAt)))
  | miss {id : Nat} {r : Request policy} {times : Times} {job : Job} {result : ProcessResult}
      {w : ValidChunk policy} (outcome : Outcome) :
      s.requests[id]? = some r → r.phase = .executing times job (.returned result) →
      r.work = .chunk w →
      (result = .timedOut ∧ outcome = .timedOut ∨ result = .failed ∧ outcome = .failed) →
      Effect host s (some (id, result)) (s.miss id r times outcome)
  | report {id : Nat} {r : Request policy} {times : Times} {outcome : Outcome} {execution : Nat}
      {w : ValidChunk policy} :
      s.requests[id]? = some r → r.phase = .reporting times outcome execution →
      r.work = .chunk w →
      Effect host s none (s.pad id r times (s.chunkReply w times outcome execution))
  | leave {id : Nat} {r : Request policy} {release : Option Nat} {reply : Reply} :
      s.requests[id]? = some r → r.phase = .padding release reply → release.all (· ≤ s.now) →
      Effect host s none ((s.put id { r with phase := .released reply }).release id)
  | finish {id : Nat} {r : Request policy} {reply : Reply} :
      s.requests[id]? = some r → r.phase = .released reply →
      Effect host s none { s.put id { r with phase := .finished reply } with
        pending := fetchSub s.pending }
  | read {id : Nat} {r : Request policy} {slot : Fin policy.sessionSlots} :
      s.requests[id]? = some r → r.phase = .locking → r.work = .state slot →
      Effect host s none (s.put id { r with phase := .finished (s.stateReply host slot) })
  | stray {id : Nat} {r : Request policy} {times : Times} {job : Job} {result : ProcessResult} :
      s.requests[id]? = some r → r.phase = .executing times job (.returned result) →
      (∀ w, r.work ≠ .chunk w) → Effect host s (some (id, result)) s
  | idle : Effect host s none s

variable {s s' : State policy} {a : Action} {id : Nat} {r r' : Request policy}

/-- How far a handler gets in one go, by what it was called with. -/
inductive Entrance (host : Host) (s : State policy) : Call → State policy → Prop
  | refuse {call : Call} (e : LabError) : e = .unauthorized ∨ e = .badRequest →
      Entrance host s call (s.answer (.error e))
  | health : Entrance host s .health (s.answer (.health (s.healthResponse host)))
  | turn (w : ValidTurn policy) : Entrance host s (.turn w.1) (s.accept (.turn w))
  | chunk (w : ValidChunk policy) : Entrance host s (.streamChunk w.1) (s.accept (.chunk w))
  | reset (count : Nat) :
      Entrance host s (.streamReset count)
        ((s.push ⟨.reset count, .acquiring s.now, none, .connected⟩).acquire s.requests.length)
  | state {slot : UInt16} (h : slot.toNat < policy.sessionSlots) :
      Entrance host s (.streamState slot)
        (s.push ⟨.state ⟨slot.toNat, h⟩, .locking, none, .connected⟩)

theorem arrive_entrance (host : Host) (token : List UInt8) (s : State policy)
    (header : Option (List UInt8)) (call : Call) :
    Entrance host s call (s.arrive host token header call) := by
  unfold State.arrive
  split
  · exact .refuse _ (.inl rfl)
  · cases call with
    | health => exact .health
    | turn request =>
      simp only
      split
      · next h => exact .turn ⟨request, h⟩
      · exact .refuse _ (.inr rfl)
    | streamChunk request =>
      simp only
      split
      · next h => exact .chunk ⟨request, h⟩
      · exact .refuse _ (.inr rfl)
    | streamReset count =>
      simp only
      split
      · exact .refuse _ (.inr rfl)
      · exact .reset count
    | streamState slot =>
      simp only
      split
      · next h => exact .state h
      · exact .refuse _ (.inr rfl)

theorem Entrance.effect {call : Call} (h : Entrance host s call s') : Effect host s none s' := by
  cases h with
  | refuse e => exact .answer _
  | health => exact .answer _
  | turn w =>
    unfold State.accept
    split
    · next hlt => exact .spawnTurn w hlt
    · next hlt => exact .throttle hlt
  | chunk w =>
    unfold State.accept
    split
    · next hlt => exact .spawnChunk w hlt
    · next hlt => exact .throttle hlt
  | reset count => exact .queueReset count
  | state h => exact .lookup ⟨_, h⟩

theorem disconnect_effect (hr : s.requests[id]? = some r) (hc : r.caller = .connected) :
    Effect host s none (s.disconnect id r) := by
  unfold State.disconnect
  split
  · next count t hw hp =>
    simp only
    split
    · next hh => exact .dropReset hr hc hw (.inl ⟨⟨t, hp⟩, hh⟩)
    · next hh => exact .cancelReset hr hc hw hp hh
  · next count t₁ t₂ hw hp => exact .dropReset hr hc hw (.inr ⟨t₁, t₂, hp⟩)
  · next slot hw hp => exact .dropState hr hc hp
  · exact .gone hr hc

theorem enter_effect {t₁ t₂ : Nat} (hr : s.requests[id]? = some r)
    (hp : r.phase = .admitted t₁ t₂) : Effect host s none (s.enter host id r t₁ t₂) := by
  unfold State.enter
  split
  · next w hw => exact .runTurn hr hp hw
  · next w hw =>
    simp only
    split
    · next hseq => exact .conflict hr hp hw hseq
    · next hseq =>
      rw [ne_eq, not_not] at hseq
      split
      · next hfull => exact .stateFull hr hp hw hseq hfull
      · next hfull => exact .runChunk hr hp hw hseq hfull
  · next count hw => exact .reset hr hp hw
  · exact .idle
  · exact .idle

theorem settle_effect {times : Times} {job : Job} {result : ProcessResult}
    (hr : s.requests[id]? = some r) (hp : r.phase = .executing times job (.returned result)) :
    Effect host s (some (id, result)) (s.settle id r times result) := by
  cases hw : r.work with
  | turn w => exact .turned hr hp hw
  | chunk w =>
    unfold State.settle
    rw [hw]
    cases result with
    | success next => exact .commit hr hp hw
    | timedOut => exact .miss .timedOut hr hp hw (.inl ⟨rfl, rfl⟩)
    | failed => exact .miss .failed hr hp hw (.inr ⟨rfl, rfl⟩)
  | answered | reset _ | state _ =>
    unfold State.settle
    rw [hw]
    cases result <;> exact .stray hr hp (by rw [hw]; exact nofun)

/-- The branches of an action on the request `id`, which is `r`, with their guards. -/
inductive Branch (host : Host) (s : State policy) (id : Nat) (r : Request policy) :
    Action → State policy → Prop
  | disconnect {i : Nat} : r.caller = .connected →
      Branch host s id r (.disconnect i) (s.disconnect id r)
  | poll {i t : Nat} : r.phase = .spawned t →
      Branch host s id r (.poll i) ((s.put id { r with phase := .acquiring t }).acquire id)
  | grant {i t : Nat} : r.phase = .acquiring t → id ∈ s.lane.holders →
      Branch host s id r (.grant i) (s.put id { r with phase := .admitted t s.now })
  | enter {i t₁ t₂ : Nat} : r.phase = .admitted t₁ t₂ →
      Branch host s id r (.enter i) (s.enter host id r t₁ t₂)
  | process {i : Nat} {event : ProcessEvent} {r' : Request policy} :
      r.process host s.now event = some r' → Branch host s id r (.process i event) (s.put id r')
  | settle {i : Nat} {times : Times} {job : Job} {result : ProcessResult} :
      r.phase = .executing times job (.returned result) →
      Branch host s id r (.settle i) (s.settle id r times result)
  | report {i : Nat} {times : Times} {outcome : Outcome} {execution : Nat} {w : ValidChunk policy} :
      r.phase = .reporting times outcome execution → r.work = .chunk w →
      Branch host s id r (.report i) (s.pad id r times (s.chunkReply w times outcome execution))
  | leave {i : Nat} {release : Option Nat} {reply : Reply} : r.phase = .padding release reply →
      release.all (· ≤ s.now) →
      Branch host s id r (.leave i) ((s.put id { r with phase := .released reply }).release id)
  | finish {i : Nat} {reply : Reply} : r.phase = .released reply →
      Branch host s id r (.finish i)
        { s.put id { r with phase := .finished reply } with pending := fetchSub s.pending }
  | read {i : Nat} {slot : Fin policy.sessionSlots} : r.phase = .locking → r.work = .state slot →
      Branch host s id r (.read i) (s.put id { r with phase := .finished (s.stateReply host slot) })
  | respond {i : Nat} {reply : Reply} : r.phase = .finished reply → r.caller = .connected →
      Branch host s id r (.respond i) (s.put id { r with caller := .answered s.now reply })

theorem stepAt_branch (h : stepAt host s id r a = some s') : Branch host s id r a s' := by
  unfold stepAt at h
  split at h
  · obtain ⟨hc, h⟩ := Option.ite_none_right_eq_some.mp h
    cases h
    exact .disconnect hc
  · split at h
    · next hp =>
      cases h
      exact .poll hp
    · cases h
  · split at h
    · next hp =>
      obtain ⟨hh, h⟩ := Option.ite_none_right_eq_some.mp h
      cases h
      exact .grant hp hh
    · cases h
  · split at h
    · next hp =>
      cases h
      exact .enter hp
    · cases h
  · obtain ⟨r', hr', h⟩ := Option.map_eq_some_iff.mp h
    cases h
    exact .process hr'
  · split at h
    · next hp =>
      cases h
      exact .settle hp
    · cases h
  · split at h
    · next hp hw =>
      cases h
      exact .report hp hw
    · cases h
  · split at h
    · next hp =>
      obtain ⟨hd, h⟩ := Option.ite_none_right_eq_some.mp h
      cases h
      exact .leave hp hd
    · cases h
  · split at h
    · next hp =>
      cases h
      exact .finish hp
    · cases h
  · split at h
    · next hp hw =>
      cases h
      exact .read hp hw
    · cases h
  · split at h
    · next hp =>
      obtain ⟨hc, h⟩ := Option.ite_none_right_eq_some.mp h
      cases h
      exact .respond hp hc
    · cases h
  · cases h
  · cases h

/-- Every branch is taken where its guards hold. -/
theorem Branch.stepAt (h : Branch host s id r a s') : stepAt host s id r a = some s' := by
  cases h with
  | disconnect hc => exact if_pos hc
  | process hr' => exact Option.map_eq_some_iff.mpr ⟨_, hr', rfl⟩
  | grant hp hh => simp only [Lab.stepAt, hp, if_pos hh]
  | report hp hw => simp only [Lab.stepAt, hp, hw]
  | leave hp hd => simp only [Lab.stepAt, hp, if_pos hd]
  | read hp hw => simp only [Lab.stepAt, hp, hw]
  | respond hp hc => simp only [Lab.stepAt, hp, if_pos hc]
  | poll hp | enter hp | settle hp | finish hp => simp only [Lab.stepAt, hp]

/-- An action on one request. -/
theorem stepAt_effect (hr : s.requests[id]? = some r) (hid : a.id = id)
    (h : stepAt host s id r a = some s') : Effect host s (returned s a) s' := by
  cases stepAt_branch h with
  | disconnect hc => exact disconnect_effect hr hc
  | poll hp => exact .poll hr hp
  | grant hp hh => exact .grant hr hp hh
  | enter hp => exact enter_effect hr hp
  | process hr' => exact .process hr hr'
  | @settle i times job result hp =>
    obtain rfl : i = id := hid
    have hreturned : returned s (.settle i) = some (i, result) := by
      simp only [returned, hr, Option.bind_some, hp]
    rw [hreturned]
    exact settle_effect hr hp
  | report hp hw => exact .report hr hp hw
  | leave hp hd => exact .leave hr hp hd
  | finish hp => exact .finish hr hp
  | read hp hw => exact .read hr hp hw
  | respond hp hc => exact .respond hr hc hp

theorem step_effect (h : step host token s a = some s') : Effect host s (returned s a) s' := by
  unfold step at h
  split at h
  · cases h
    exact (arrive_entrance ..).effect
  · cases h
    exact .advance _
  · obtain ⟨r, hr, h⟩ := Option.bind_eq_some_iff.mp h
    exact stepAt_effect hr rfl h

/-! ## Frames -/

section Frames

variable {j : Nat}

theorem put_others (hj : j ≠ id) : (s.put id r).requests[j]? = s.requests[j]? :=
  List.getElem?_set_ne (Ne.symm hj)

theorem disconnect_others (hj : j ≠ id) :
    (s.disconnect id r).requests[j]? = s.requests[j]? := by
  unfold State.disconnect
  split
  · simp only
    split
    · exact put_others hj
    · exact put_others hj
  · exact put_others hj
  · exact put_others hj
  · exact put_others hj

theorem enter_others {t₁ t₂ : Nat} (hj : j ≠ id) :
    (s.enter host id r t₁ t₂).requests[j]? = s.requests[j]? := by
  unfold State.enter
  split
  · exact put_others hj
  · simp only
    split
    · exact put_others hj
    · split
      · exact put_others hj
      · exact put_others hj
  · exact put_others hj
  · rfl
  · rfl

theorem settle_others {times : Times} {result : ProcessResult} (hj : j ≠ id) :
    (s.settle id r times result).requests[j]? = s.requests[j]? := by
  unfold State.settle
  split
  · exact put_others hj
  · exact put_others hj
  · exact put_others hj
  · exact put_others hj
  · exact put_others hj
  · exact put_others hj
  · rfl

/-- An action changes no request but the one it is about. -/
theorem stepAt_others (hj : j ≠ id) (h : stepAt host s id r a = some s') :
    s'.requests[j]? = s.requests[j]? := by
  cases stepAt_branch h with
  | disconnect => exact disconnect_others hj
  | enter => exact enter_others hj
  | settle => exact settle_others hj
  | _ => exact put_others hj

theorem accept_requests (s : State policy) (work : Work policy) :
    ∃ r, (s.accept work).requests = s.requests ++ [r] := by
  unfold State.accept
  split
  · exact ⟨_, rfl⟩
  · exact ⟨_, rfl⟩

theorem Entrance.requests {call : Call} (h : Entrance host s call s') :
    ∃ r, s'.requests = s.requests ++ [r] := by
  cases h with
  | turn w => exact accept_requests s (.turn w)
  | chunk w => exact accept_requests s (.chunk w)
  | _ => exact ⟨_, rfl⟩

theorem step_others (h : step host token s a = some s') (hj : j ≠ a.id)
    (hr : s.requests[j]? = some r) : s'.requests[j]? = some r := by
  unfold step at h
  split at h
  · next header call =>
    cases h
    obtain ⟨r₁, hpush⟩ := (arrive_entrance host token s header call).requests
    rw [hpush, List.getElem?_append_left (List.getElem?_eq_some_iff.mp hr).1, hr]
  · cases h
    exact hr
  · obtain ⟨r₁, _, h⟩ := Option.bind_eq_some_iff.mp h
    rw [stepAt_others hj h, hr]

end Frames

/-! ## Moves -/

/-- How far a request is with the lane. -/
def Phase.tenure : Phase → Tenure
  | .spawned _ | .locking => .before
  | .acquiring _ => .queued
  | .admitted .. | .executing .. | .reporting .. | .padding .. => .inside
  | .released _ | .finished _ | .dropped => .after

/-- The reply of a request, once it is known. -/
def Phase.reply? : Phase → Option Reply
  | .padding _ reply | .released reply | .finished reply => some reply
  | _ => none

/-- Nothing is left to do but to give the lane back and to answer. -/
def Phase.settled : Phase → Bool
  | .padding .. | .released _ | .finished _ | .dropped => true
  | _ => false

/-- No runner has been started. -/
def Phase.fresh : Phase → Bool
  | .spawned _ | .acquiring _ | .admitted .. | .locking => true
  | _ => false

theorem Phase.fresh_of_settled {p : Phase} (h : p.settled) : p.fresh = false := by
  cases p <;> first | rfl | cases h

theorem Phase.settled_of_reply {p : Phase} {reply : Reply} (h : p.reply? = some reply) :
    p.settled = true := by
  cases p <;> first | rfl | cases h

theorem Phase.settled_of_after {p : Phase} (h : p.tenure = .after) : p.settled = true := by
  cases p <;> first | rfl | cases h

def State.tenure (s : State policy) (id : Nat) : Tenure :=
  match s.requests[id]? with
  | some r => r.phase.tenure
  | none => .before

/-- A request is still what it was, its reply stands, and what its caller received
is its reply. -/
structure Keeps (r r' : Request policy) : Prop where
  work : r'.work = r.work
  settled : r.phase.settled → r'.phase.settled ∧ r'.phase.reply? = r.phase.reply?
  caller : r.caller ≠ .connected → r'.caller = r.caller
  sent : ∀ t reply, r'.caller = .answered t reply →
    r.caller = .answered t reply ∨ r'.phase.reply? = some reply

theorem Keeps.refl (r : Request policy) : Keeps r r :=
  ⟨rfl, fun h => ⟨h, rfl⟩, fun _ => rfl, fun _ _ h => .inl h⟩

/-- The change of one request. -/
structure Changes (s s' : State policy) (id : Nat) (r r' : Request policy) : Prop where
  before : s.requests[id]? = some r
  after : s'.requests = s.requests.set id r'
  keeps : Keeps r r'

/-- A request that is not settled goes on to any phase. -/
theorem Changes.of_phase {p : Phase} (hr : s.requests[id]? = some r)
    (hu : r.phase.settled = false) (ha : s'.requests = s.requests.set id { r with phase := p }) :
    Changes s s' id r { r with phase := p } :=
  ⟨hr, ha, rfl, fun hs => (by rw [hu] at hs; cases hs), fun _ => rfl, fun _ _ h => .inl h⟩

/-- A request keeps its reply. -/
theorem Changes.of_reply {p : Phase} (hr : s.requests[id]? = some r) (hs : p.settled)
    (hp : p.reply? = r.phase.reply?) (ha : s'.requests = s.requests.set id { r with phase := p }) :
    Changes s s' id r { r with phase := p } :=
  ⟨hr, ha, rfl, fun _ => ⟨hs, hp⟩, fun _ => rfl, fun _ _ h => .inl h⟩

/-- A handler is dropped with its caller. -/
theorem Changes.of_drop (hr : s.requests[id]? = some r) (hc : r.caller = .connected)
    (hu : r.phase.settled = false)
    (ha : s'.requests = s.requests.set id { r with phase := .dropped, caller := .gone }) :
    Changes s s' id r { r with phase := .dropped, caller := .gone } :=
  ⟨hr, ha, rfl, fun hs => (by rw [hu] at hs; cases hs), absurd hc, nofun⟩

theorem Changes.of_gone (hr : s.requests[id]? = some r) (hc : r.caller = .connected)
    (ha : s'.requests = s.requests.set id { r with caller := .gone }) :
    Changes s s' id r { r with caller := .gone } :=
  ⟨hr, ha, rfl, fun hs => ⟨hs, rfl⟩, absurd hc, nofun⟩

theorem Changes.of_respond {reply : Reply} {t : Nat} (hr : s.requests[id]? = some r)
    (hc : r.caller = .connected) (hp : r.phase = .finished reply)
    (ha : s'.requests = s.requests.set id { r with caller := .answered t reply }) :
    Changes s s' id r { r with caller := .answered t reply } := by
  refine ⟨hr, ha, rfl, fun hs => ⟨hs, rfl⟩, absurd hc, fun t' reply' h => .inr ?_⟩
  cases h
  show r.phase.reply? = _
  rw [hp]
  rfl

/-- What an action can do to the requests, the lane and the order. -/
inductive Move (s s' : State policy) : Prop
  | push (r : Request policy) :
      r.phase.tenure = .before ∨ r.phase.tenure = .after → s'.requests = s.requests ++ [r] →
      (∀ t reply, r.caller = .answered t reply → r.phase.reply? = some reply) →
      s'.lane = s.lane → s'.order = s.order → Move s s'
  | enqueue (r : Request policy) :
      r.phase.tenure = .queued → s'.requests = s.requests ++ [r] → r.caller = .connected →
      s'.lane = s.lane.acquire s.requests.length →
      s'.order = s.order ++ (if 0 < s.lane.free then [s.requests.length] else []) → Move s s'
  | stay {id : Nat} {r r' : Request policy} :
      Changes s s' id r r' → s'.lane = s.lane → s'.order = s.order →
      (r'.phase.tenure = r.phase.tenure ∨ (r.phase.tenure = .before ∧ r'.phase.tenure = .after) ∨
        (id ∈ s.lane.holders ∧ r.phase.tenure = .queued ∧ r'.phase.tenure = .inside)) → Move s s'
  | poll {id : Nat} {r r' : Request policy} :
      Changes s s' id r r' → r.phase.tenure = .before → r'.phase.tenure = .queued →
      s'.lane = s.lane.acquire id →
      s'.order = s.order ++ (if 0 < s.lane.free then [id] else []) → Move s s'
  | release {id : Nat} {r r' : Request policy} :
      Changes s s' id r r' → id ∈ s.lane.holders → r'.phase.tenure = .after →
      s'.lane = s.lane.release id → s'.order = s.order ++ s.lane.next.toList → Move s s'
  | cancel {id : Nat} {r r' : Request policy} :
      Changes s s' id r r' → r.phase.tenure = .queued → id ∉ s.lane.holders →
      r'.phase.tenure = .after → s'.lane = s.lane.cancel id → s'.order = s.order → Move s s'
  | same : s'.requests = s.requests → s'.lane = s.lane → s'.order = s.order → Move s s'

theorem State.tenure_of (hr : s.requests[id]? = some r) : s.tenure id = r.phase.tenure := by
  rw [State.tenure, hr]

theorem Changes.tenure (h : Changes s s' id r r') :
    s'.tenure = Function.update s.tenure id r'.phase.tenure := by
  have hlt : id < s.requests.length := (List.getElem?_eq_some_iff.mp h.before).1
  funext j
  by_cases hj : j = id
  · subst hj
    rw [Function.update_self]
    exact State.tenure_of (by rw [h.after, List.getElem?_set_self hlt])
  · rw [Function.update_of_ne hj, State.tenure, State.tenure, h.after,
      List.getElem?_set_ne (Ne.symm hj)]

theorem tenure_push (h : s'.requests = s.requests ++ [r]) :
    s'.tenure = Function.update s.tenure s.requests.length r.phase.tenure := by
  funext j
  by_cases hj : j = s.requests.length
  · subst hj
    rw [Function.update_self]
    exact State.tenure_of (by rw [h, List.getElem?_concat_length])
  · rw [Function.update_of_ne hj, State.tenure, State.tenure, h]
    by_cases hlt : j < s.requests.length
    · rw [List.getElem?_append_left hlt]
    · rw [List.getElem?_eq_none (by rw [List.length_append, List.length_singleton]; omega),
        List.getElem?_eq_none (by omega)]

theorem tenure_length : s.tenure s.requests.length = .before := by
  rw [State.tenure, List.getElem?_eq_none (Nat.le_refl _)]

/-- The lane of a state is a ledger. -/
def State.Laned (s : State policy) : Prop := Ledger s.tenure s.lane s.order

theorem Move.laned (h : Move s s') (hl : s.Laned) : s'.Laned := by
  unfold State.Laned
  cases h with
  | push r ht hr _ hlane horder =>
    rw [tenure_push hr, hlane, horder]
    refine Ledger.stay hl ?_
    rw [tenure_length]
    exact ht.imp id fun ha => .inl ⟨rfl, ha⟩
  | enqueue r ht hr _ hlane horder =>
    rw [tenure_push hr, ht, hlane, horder]
    exact Ledger.acquire hl tenure_length
  | stay hc hlane horder ht =>
    rw [hc.tenure, hlane, horder]
    refine Ledger.stay hl ?_
    rw [State.tenure_of hc.before]
    exact ht
  | poll hc hb hq hlane horder =>
    rw [hc.tenure, hq, hlane, horder]
    exact Ledger.acquire hl (by rw [State.tenure_of hc.before]; exact hb)
  | release hc hh ha hlane horder =>
    rw [hc.tenure, ha, hlane, horder]
    exact Ledger.release hl hh
  | cancel hc hq hh ha hlane horder =>
    rw [hc.tenure, ha, hlane, horder]
    exact Ledger.cancel hl (by rw [State.tenure_of hc.before]; exact hq) hh
  | same hr hlane horder =>
    rw [show s'.tenure = s.tenure by funext j; rw [State.tenure, State.tenure, hr], hlane, horder]
    exact hl

/-- Requests are never lost. -/
theorem Move.request {j : Nat} (h : Move s s') (hr : s.requests[j]? = some r) :
    ∃ r', s'.requests[j]? = some r' ∧ Keeps r r' := by
  have hlt : j < s.requests.length := (List.getElem?_eq_some_iff.mp hr).1
  have hkeep : ∀ {id : Nat} {r₁ r₂ : Request policy}, Changes s s' id r₁ r₂ →
      ∃ r', s'.requests[j]? = some r' ∧ Keeps r r' := by
    intro id r₁ r₂ hc
    by_cases hj : id = j
    · subst hj
      rw [hc.before] at hr
      cases hr
      exact ⟨r₂, by rw [hc.after, List.getElem?_set_self hlt], hc.keeps⟩
    · exact ⟨r, by rw [hc.after, List.getElem?_set_ne hj, hr], .refl r⟩
  cases h with
  | push _ _ ha | enqueue _ _ ha =>
    exact ⟨r, by rw [ha, List.getElem?_append_left hlt, hr], .refl r⟩
  | stay hc => exact hkeep hc
  | poll hc => exact hkeep hc
  | release hc => exact hkeep hc
  | cancel hc => exact hkeep hc
  | same ha => exact ⟨r, by rw [ha, hr], .refl r⟩

/-! ## Every effect is a move -/

/-- A process event leaves everything else as it is. -/
theorem process_keeps {now : Nat} {event : ProcessEvent} (h : r.process host now event = some r') :
    Keeps r r' ∧ r'.phase.tenure = r.phase.tenure ∧ r'.phase.reply? = r.phase.reply? := by
  unfold Request.process at h
  split at h
  · next hp =>
    obtain ⟨_, _, rfl⟩ := Option.map_eq_some_iff.mp h
    rw [hp]
    refine ⟨⟨rfl, fun hs => ?_, fun _ => rfl, fun _ _ h => .inl h⟩, rfl, rfl⟩
    rw [hp] at hs
    cases hs
  · obtain ⟨_, _, rfl⟩ := Option.map_eq_some_iff.mp h
    exact ⟨⟨rfl, fun hs => ⟨hs, rfl⟩, fun _ => rfl, fun _ _ h => .inl h⟩, rfl, rfl⟩

/-- A turn that has run changes nothing but slot states and counters. -/
theorem settle_turn {times : Times} {result : ProcessResult} {w : ValidTurn policy}
    (hw : r.work = .turn w) : ∃ states counters, s.settle id r times result =
      { s with states := states, counters := counters }.pad id r times .normalized := by
  obtain ⟨work, phase, child, caller⟩ := r
  cases hw
  cases result <;> exact ⟨_, _, rfl⟩

theorem Effect.move {entry : Option (Nat × ProcessResult)} (h : Effect host s entry s')
    (hl : s.Laned) : Move s s' := by
  have hholds : ∀ {id : Nat} {r : Request policy}, s.requests[id]? = some r →
      r.phase.tenure = .inside → id ∈ s.lane.holders := fun hr ht =>
    hl.inside _ (by rw [State.tenure_of hr, ht])
  cases h with
  | answer reply => exact .push _ (.inr rfl) rfl (fun _ _ h => by cases h; rfl) rfl rfl
  | throttle _ => exact .push _ (.inr rfl) rfl (fun _ _ h => by cases h; rfl) rfl rfl
  | spawnTurn w _ => exact .push _ (.inl rfl) rfl nofun rfl rfl
  | spawnChunk w _ => exact .push _ (.inl rfl) rfl nofun rfl rfl
  | queueReset count => exact .enqueue _ rfl rfl rfl rfl rfl
  | lookup slot => exact .push _ (.inl rfl) rfl nofun rfl rfl
  | advance d => exact .same rfl rfl rfl
  | gone hr hc => exact .stay (.of_gone hr hc rfl) rfl rfl (.inl rfl)
  | respond hr hc hp => exact .stay (.of_respond hr hc hp rfl) rfl rfl (.inl rfl)
  | dropState hr hc hp =>
    exact .stay (.of_drop hr hc (by rw [hp]; rfl) rfl) rfl rfl (.inr (.inl ⟨by rw [hp]; rfl, rfl⟩))
  | dropReset hr hc hw hp =>
    rcases hp with ⟨⟨t, hp⟩, hh⟩ | ⟨t₁, t₂, hp⟩
    · exact .release (.of_drop hr hc (by rw [hp]; rfl) rfl) hh rfl rfl rfl
    · exact .release (.of_drop hr hc (by rw [hp]; rfl) rfl) (hholds hr (by rw [hp]; rfl)) rfl rfl rfl
  | cancelReset hr hc hw hp hh =>
    exact .cancel (.of_drop hr hc (by rw [hp]; rfl) rfl) (by rw [hp]; rfl) hh rfl rfl rfl
  | poll hr hp =>
    exact .poll (.of_phase hr (by rw [hp]; rfl) rfl) (by rw [hp]; rfl) rfl rfl rfl
  | grant hr hp hh =>
    exact .stay (.of_phase hr (by rw [hp]; rfl) rfl) rfl rfl
      (.inr (.inr ⟨hh, by rw [hp]; rfl, rfl⟩))
  | conflict hr hp hw hseq =>
    exact .release (.of_phase hr (by rw [hp]; rfl) rfl)
      (hholds hr (by rw [hp]; rfl)) rfl rfl rfl
  | stateFull hr hp hw hseq hfull =>
    exact .release (.of_phase hr (by rw [hp]; rfl) rfl)
      (hholds hr (by rw [hp]; rfl)) rfl rfl rfl
  | runChunk hr hp hw hseq hroom =>
    exact .stay (.of_phase hr (by rw [hp]; rfl) rfl) rfl rfl (.inl (by rw [hp]; rfl))
  | runTurn hr hp hw =>
    exact .stay (.of_phase hr (by rw [hp]; rfl) rfl) rfl rfl (.inl (by rw [hp]; rfl))
  | reset hr hp hw =>
    exact .release (.of_phase hr (by rw [hp]; rfl) rfl)
      (hholds hr (by rw [hp]; rfl)) rfl rfl rfl
  | process hr hr' =>
    obtain ⟨hk, ht, _⟩ := process_keeps hr'
    exact .stay ⟨hr, rfl, hk⟩ rfl rfl (.inl ht)
  | turned hr hp hw =>
    obtain ⟨states, counters, heq⟩ := settle_turn hw
    rw [heq]
    exact .stay (.of_phase hr (by rw [hp]; rfl) rfl) rfl rfl (.inl (by rw [hp]; rfl))
  | commit hr hp hw =>
    exact .stay (.of_phase hr (by rw [hp]; rfl) rfl) rfl rfl (.inl (by rw [hp]; rfl))
  | miss outcome hr hp hw hres =>
    cases outcome <;>
      exact .stay (.of_phase hr (by rw [hp]; rfl) rfl) rfl rfl (.inl (by rw [hp]; rfl))
  | report hr hp hw =>
    exact .stay (.of_phase hr (by rw [hp]; rfl) rfl) rfl rfl (.inl (by rw [hp]; rfl))
  | leave hr hp hd =>
    exact .release (.of_reply hr rfl (by rw [hp]; rfl) rfl)
      (hholds hr (by rw [hp]; rfl)) rfl rfl rfl
  | finish hr hp =>
    exact .stay (.of_reply hr rfl (by rw [hp]; rfl) rfl) rfl rfl (.inl (by rw [hp]; rfl))
  | read hr hp hw =>
    exact .stay (.of_phase hr (by rw [hp]; rfl) rfl) rfl rfl
      (.inr (.inl ⟨by rw [hp]; rfl, rfl⟩))
  | stray hr hp _ => exact .same rfl rfl rfl
  | idle => exact .same rfl rfl rfl

theorem step_move (h : step host token s a = some s') (hl : s.Laned) : Move s s' :=
  (step_effect h).move hl

/-- In every reachable state the lane is a ledger. -/
theorem reachable_laned (h : (machine host token policy).Reachable s) : s.Laned := by
  refine h.invariant (P := State.Laned) ?_ fun s a s' hl hs => (step_move hs hl).laned hl
  exact Ledger.initial

/-- What a caller received is the reply of its request. -/
def State.Sent (s : State policy) : Prop :=
  ∀ (id : Nat) r t reply, s.requests[id]? = some r → r.caller = .answered t reply →
    r.phase.reply? = some reply

theorem getElem?_push {j : Nat} {r₁ : Request policy} (hr : s'.requests = s.requests ++ [r])
    (h : s'.requests[j]? = some r₁) : s.requests[j]? = some r₁ ∨ r₁ = r := by
  rw [hr] at h
  by_cases hlt : j < s.requests.length
  · rw [List.getElem?_append_left hlt] at h
    exact .inl h
  · rw [List.getElem?_append_right (Nat.not_lt.mp hlt)] at h
    exact .inr (List.mem_singleton.mp (List.mem_of_getElem? h))

theorem Changes.getElem? (hc : Changes s s' id r r') (j : Nat) :
    s'.requests[j]? = if id = j then some r' else s.requests[j]? := by
  have hlt : id < s.requests.length := (List.getElem?_eq_some_iff.mp hc.before).1
  rw [hc.after]
  split
  · next h => rw [← h, List.getElem?_set_self hlt]
  · next h => rw [List.getElem?_set_ne h]

theorem Move.sent (h : Move s s') (hs : s.Sent) : s'.Sent := by
  intro j r₁ t reply hr₁ hc₁
  have hchange : ∀ {id : Nat} {r r' : Request policy}, Changes s s' id r r' →
      r₁.phase.reply? = some reply := by
    intro id r r' hc
    rw [hc.getElem?] at hr₁
    split at hr₁
    · cases hr₁
      rcases hc.keeps.sent t reply hc₁ with hold | hnew
      · have hreply := hs id r t reply hc.before hold
        rw [(hc.keeps.settled (Phase.settled_of_reply hreply)).2]
        exact hreply
      · exact hnew
    · exact hs j r₁ t reply hr₁ hc₁
  cases h with
  | push r _ hr hsent =>
    rcases getElem?_push hr hr₁ with hr₁ | rfl
    · exact hs j r₁ t reply hr₁ hc₁
    · exact hsent t reply hc₁
  | enqueue r _ hr hconn =>
    rcases getElem?_push hr hr₁ with hr₁ | rfl
    · exact hs j r₁ t reply hr₁ hc₁
    · rw [hconn] at hc₁
      cases hc₁
  | stay hc => exact hchange hc
  | poll hc => exact hchange hc
  | release hc => exact hchange hc
  | cancel hc => exact hchange hc
  | same ha => exact hs j r₁ t reply (ha ▸ hr₁) hc₁

theorem reachable_sent (h : (machine host token policy).Reachable s) : s.Sent := by
  refine (h.invariant (P := fun s => s.Laned ∧ s.Sent) ?_ fun s a s' inv hs => ?_).2
  · exact ⟨Ledger.initial, fun id r t reply hr => absurd hr (by simp [machine, State.initial])⟩
  · have hm := step_move hs inv.1
    exact ⟨hm.laned inv.1, hm.sent inv.2⟩

end Lab
