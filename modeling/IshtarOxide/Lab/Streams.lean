import IshtarOxide.Lab.AppendLog
import IshtarOxide.Lab.Lane
import IshtarOxide.Lab.StreamRunner

/-!
# Stream sessions are an append log

The read of a session and the write of its new state are two mutex sections with
a run of the guest in between, and snapshots are taken without the lane. Still,
the sessions are at any time what the operations of the log make of them, one at
a time in the order in which the lane was assigned (`sessions_refine_log`), and
every answer is that of the log. Whether a chunk is appended is up to what its driver
returned, which a record of the run keeps, and not to what the lab answered.

* `State.history`: the operations of the settled requests in that order.
* `Streams`: the invariant. The chunk that runs was started from the session as it
  still is.
* `Effect.deed`: an action either leaves sessions and history alone, or it adds one
  operation, and does to the sessions what that operation does to the log.
-/

open Guest

namespace Lab

variable {policy : Policy} {host : Host} {token : List UInt8} {s s' : State policy} {a : Action}
  {id : Nat} {r r' : Request policy} {ran ran' : List (Nat × ProcessResult)}
  {entry : Option (Nat × ProcessResult)}

/-! ## Operations -/

/-- What a request did with the lane, once it is settled. `result` is what its driver
returned, if it had one. -/
def Request.operation (r : Request policy) (result : Option ProcessResult) :
    Option (Log.Operation policy.sessionSlots UInt8) :=
  match r.work, r.phase.reply? with
  | .turn _, some _ => some .other
  | .chunk w, some _ =>
    some (.append w.slot w.1.sequence.toNat w.1.chunk (result.map ProcessResult.outcome))
  | .reset count, some _ => some (.reset count)
  | _, _ => none

/-- The operation of a request. `ran` is what the drivers returned, with their requests. -/
def State.operationAt (s : State policy) (ran : List (Nat × ProcessResult)) (id : Nat) :
    Option (Log.Operation policy.sessionSlots UInt8) :=
  s.requests[id]?.bind fun r => r.operation (ran.lookup id)

/-- The operations of the requests `ids`, in this order. -/
def State.history (s : State policy) (ran : List (Nat × ProcessResult)) (ids : List Nat) :
    List (Log.Operation policy.sessionSlots UInt8) :=
  ids.filterMap (s.operationAt ran)

/-- The log after the operations so far, in the order of the lane. -/
def State.log (s : State policy) (ran : List (Nat × ProcessResult)) :
    Log policy.sessionSlots UInt8 :=
  Log.run streamStateBytes (s.history ran s.order)

theorem operation_eq_none {result : Option ProcessResult} (h : r.phase.reply? = none) :
    r.operation result = none := by
  unfold Request.operation
  rw [h]
  cases r.work <;> rfl

theorem Keeps.operation {result : Option ProcessResult} (h : Keeps r r') (hs : r.phase.settled) :
    r'.operation result = r.operation result := by
  unfold Request.operation
  rw [h.work, (h.settled hs).2]

theorem operationAt_of (hr : s.requests[id]? = some r) :
    s.operationAt ran id = r.operation (ran.lookup id) := by
  rw [State.operationAt, hr, Option.bind_some]

theorem operation_proper {result : Option ProcessResult}
    {op : Log.Operation policy.sessionSlots UInt8} (h : r.operation result = some op) :
    op.Proper := by
  unfold Request.operation at h
  split at h
  · cases h; trivial
  · next w _ _ _ => cases h; exact List.length_pos_iff.mp w.spec.2.1
  · cases h; trivial
  · cases h

theorem history_proper {ids : List Nat} : ∀ op ∈ s.history ran ids, op.Proper := by
  intro op hop
  obtain ⟨id, _, hid⟩ := List.mem_filterMap.mp hop
  obtain ⟨r, _, hr⟩ := Option.bind_eq_some_iff.mp hid
  exact operation_proper hr

theorem log_wellFormed : Log.WellFormed streamStateBytes (s.log ran) :=
  Log.run_wellFormed history_proper

/-! ## How the history grows -/

/-- Of settled requests nothing new becomes known. -/
def Grows (s : State policy) (ran ran' : List (Nat × ProcessResult)) : Prop :=
  ∀ (j : Nat) r, s.requests[j]? = some r → r.phase.settled → ran'.lookup j = ran.lookup j

theorem lookup_concat {result : ProcessResult} (h : ran.lookup id = none) :
    (ran ++ [(id, result)]).lookup id = some result := by
  rw [List.lookup_append, h, Option.none_or, List.lookup_cons, beq_self_eq_true]

theorem lookup_concat_ne {j : Nat} {result : ProcessResult} (h : j ≠ id) :
    (ran ++ [(id, result)]).lookup j = ran.lookup j := by
  rw [List.lookup_append, List.lookup_cons, beq_false_of_ne h, List.lookup_nil, Option.or_none]

/-- Only a driver that has returned gives a result. -/
theorem Effect.lookup_eq {j : Nat} (h : Effect host s entry s') (hr : s.requests[j]? = some r)
    (hx : ∀ times job result, r.phase ≠ .executing times job (.returned result)) :
    (ran ++ entry.toList).lookup j = ran.lookup j := by
  have hother {i : Nat} {r₁ : Request policy} {times : Times} {job : Job} {result : ProcessResult}
      (hr₁ : s.requests[i]? = some r₁) (hp : r₁.phase = .executing times job (.returned result)) :
      (ran ++ [(i, result)]).lookup j = ran.lookup j := by
    refine lookup_concat_ne ?_
    rintro rfl
    rw [hr] at hr₁
    cases hr₁
    exact hx _ _ _ hp
  cases h with
  | turned hr₁ hp => exact hother hr₁ hp
  | commit hr₁ hp => exact hother hr₁ hp
  | miss _ hr₁ hp => exact hother hr₁ hp
  | stray hr₁ hp _ => exact hother hr₁ hp
  | _ => rw [Option.toList_none, List.append_nil]

/-- A result is that of a known request. -/
theorem Effect.known {x : Nat × ProcessResult} (h : Effect host s entry s')
    (hx : x ∈ entry.toList) : x.1 < s.requests.length := by
  have hknown {i : Nat} {r₁ : Request policy} {result : ProcessResult}
      (hr₁ : s.requests[i]? = some r₁) (hx : x ∈ [(i, result)]) : x.1 < s.requests.length := by
    rw [List.mem_singleton.mp hx]
    exact (List.getElem?_eq_some_iff.mp hr₁).1
  cases h with
  | turned hr₁ => exact hknown hr₁ hx
  | commit hr₁ => exact hknown hr₁ hx
  | miss _ hr₁ => exact hknown hr₁ hx
  | stray hr₁ => exact hknown hr₁ hx
  | _ => cases hx

theorem Effect.grows (h : Effect host s entry s') : Grows s ran (ran ++ entry.toList) :=
  fun _ _ hr hs => h.lookup_eq hr fun _ _ _ hp => by rw [hp] at hs; cases hs

/-- A request that has no new reply has no new operation. -/
theorem Grows.operation {j : Nat} (hg : Grows s ran ran') (hr : s.requests[j]? = some r)
    (hw : r'.work = r.work) (h : r'.phase.reply? = r.phase.reply?) :
    r'.operation (ran'.lookup j) = r.operation (ran.lookup j) := by
  cases hreply : r.phase.reply? with
  | none => rw [operation_eq_none hreply, operation_eq_none (h.trans hreply)]
  | some reply =>
    rw [hg j r hr (Phase.settled_of_reply hreply)]
    unfold Request.operation
    rw [hw, h]

theorem Grows.operationAt {j : Nat} (hg : Grows s ran ran')
    (hr : s'.requests[j]? = s.requests[j]?) : s'.operationAt ran' j = s.operationAt ran j := by
  rw [State.operationAt, State.operationAt, hr]
  cases hr : s.requests[j]? with
  | none => rfl
  | some r => exact hg.operation hr rfl rfl

/-- The lane is only ever assigned to requests that have done nothing yet. -/
theorem Move.order (h : Move s s') (hl : s.Laned) :
    ∃ new, s'.order = s.order ++ new ∧ ∀ j ∈ new, s'.tenure j = .queued := by
  cases h with
  | push _ _ _ _ _ ho => exact ⟨[], by rw [ho, List.append_nil], nofun⟩
  | enqueue r ht hr _ _ ho =>
    refine ⟨_, ho, fun j hj => ?_⟩
    split at hj
    · rw [List.mem_singleton.mp hj, tenure_push hr, Function.update_self, ht]
    · cases hj
  | stay _ _ ho => exact ⟨[], by rw [ho, List.append_nil], nofun⟩
  | poll hc _ hq _ ho =>
    refine ⟨_, ho, fun j hj => ?_⟩
    split at hj
    · rw [List.mem_singleton.mp hj, hc.tenure, Function.update_self, hq]
    · cases hj
  | release hc hh _ _ ho =>
    refine ⟨_, ho, fun j hj => ?_⟩
    have hw := Semaphore.next_mem (Option.mem_toList.mp hj)
    rw [hc.tenure, Function.update_of_ne (Semaphore.waiter_ne_holder hw hh)]
    exact hl.waiter j hw
  | cancel _ _ _ _ _ ho => exact ⟨[], by rw [ho, List.append_nil], nofun⟩
  | same _ _ ho => exact ⟨[], by rw [ho, List.append_nil], nofun⟩

theorem operationAt_queued {j : Nat} (h : s.tenure j = .queued) : s.operationAt ran j = none := by
  unfold State.tenure at h
  split at h
  · next r hr =>
    rw [operationAt_of hr]
    refine operation_eq_none ?_
    cases hp : r.phase <;> rw [hp] at h <;> first | rfl | cases h
  · cases h

theorem history_append (ids ids' : List Nat) :
    s.history ran (ids ++ ids') = s.history ran ids ++ s.history ran ids' :=
  List.filterMap_append

theorem history_congr {ids : List Nat}
    (h : ∀ j ∈ ids, s'.operationAt ran' j = s.operationAt ran j) :
    s'.history ran' ids = s.history ran ids :=
  List.filterMap_congr h

/-- The newly assigned requests add nothing. -/
theorem Move.history (h : Move s s') (hl : s.Laned) :
    s'.history ran' s'.order = s'.history ran' s.order := by
  obtain ⟨new, ho, hnew⟩ := h.order hl
  have hnone : s'.history ran' new = [] := by
    refine List.filterMap_eq_nil_iff.mpr fun j hj => ?_
    exact operationAt_queued (hnew j hj)
  rw [ho, history_append, hnone, List.append_nil]

/-- A settled request keeps its operation. -/
theorem Move.operationAt {j : Nat} (h : Move s s') (hg : Grows s ran ran')
    (hr : s.requests[j]? = some r) (hs : r.phase.settled) :
    s'.operationAt ran' j = s.operationAt ran j := by
  obtain ⟨r', hr', hk⟩ := h.request hr
  rw [operationAt_of hr, operationAt_of hr', hk.operation hs, hg j r hr hs]

/-- The requests in front of another one in the order are settled. -/
theorem front_settled {front back : List Nat} {j : Nat} (hl : s.Laned)
    (ho : s.order = front ++ id :: back) (hj : j ∈ front) :
    ∃ r, s.requests[j]? = some r ∧ r.phase.settled := by
  have ht := hl.front_after ho hj
  unfold State.tenure at ht
  split at ht
  · next r hr => exact ⟨r, hr, Phase.settled_of_after ht⟩
  · cases ht

theorem front_history {front back : List Nat} (h : Move s s') (hg : Grows s ran ran') (hl : s.Laned)
    (ho : s.order = front ++ id :: back) : s'.history ran' front = s.history ran front :=
  history_congr fun _ hj =>
    let ⟨_, hr, hs⟩ := front_settled hl ho hj
    h.operationAt hg hr hs

/-! ## Sessions and their chunks -/

/-- The session is what the log has for it. -/
structure Represents (session : StreamSession) (chunks : List (List UInt8)) : Prop where
  accumulated : session.accumulated = upperAll chunks.flatten
  nextSequence : session.nextSequence.toNat = chunks.length
  chunks : session.chunks = session.nextSequence

theorem Represents.length {session : StreamSession} {chunks : List (List UInt8)}
    (h : Represents session chunks) : session.accumulated.length = Log.size chunks := by
  rw [h.accumulated, length_upperAll]
  rfl

theorem Represents.empty : Represents .empty [] := ⟨rfl, rfl, rfl⟩

/-- How a session is cut into chunks does not show, apart from their number. -/
theorem Represents.concat {session session' : StreamSession} {chunks chunks' : List (List UInt8)}
    {chunk : List UInt8} (h : Represents session' (chunks ++ [chunk]))
    (hr : Represents session chunks) (hr' : Represents session chunks') :
    Represents session' (chunks' ++ [chunk]) where
  accumulated := by
    have hupper : upperAll chunks.flatten = upperAll chunks'.flatten :=
      hr.accumulated.symm.trans hr'.accumulated
    rw [upperAll, upperAll] at hupper
    rw [h.accumulated, upperAll, upperAll, List.flatten_concat, List.flatten_concat,
      List.map_append, List.map_append, hupper]
  nextSequence := by
    rw [h.nextSequence, List.length_append, List.length_append, ← hr.nextSequence,
      hr'.nextSequence]
  chunks := h.chunks

/-- The reply to the chunk `w` is this answer of the log. -/
def Agrees (w : ValidChunk policy) (reply : Reply) : Log.Answer → Prop
  | .conflict => reply = .error .conflict
  | .full => reply = .error .stateFull
  | .ran runner chunks bytes => ∃ response, reply = .chunk response ∧
      runner = some response.outcome ∧ response.sessionSlot = w.1.sessionSlot ∧
      response.sequence = w.1.sequence ∧ response.accumulatedChunks.toNat = chunks ∧
      response.accumulatedBytes = bytes
  | .done => False

/-- The chunk is the next one of its session and there is room for it. -/
structure Fits (s : State policy) (w : ValidChunk policy) : Prop where
  sequence : w.1.sequence = (s.sessions w.slot).nextSequence
  room : (s.sessions w.slot).accumulated.length + w.1.chunk.length ≤ streamStateBytes

theorem saturatingAdd_le_capacity {a b : Nat} (h : ¬ streamStateBytes < saturatingAdd a b) :
    a + b ≤ streamStateBytes := by
  have hbytes : streamStateBytes = 1048576 := rfl
  unfold saturatingAdd at h
  omega

theorem lt_of_lt_saturatingAdd {a b c : Nat} (h : c < saturatingAdd a b) : c < a + b :=
  Nat.lt_of_lt_of_le h (Nat.min_le_left ..)

section Answers

variable {w : ValidChunk policy} {chunks : Log policy.sessionSlots UInt8}
  {runner : Option Outcome}
  (hs : ∀ slot, Represents (s.sessions slot) (chunks slot))

include hs

theorem answer_conflict (h : w.1.sequence ≠ (s.sessions w.slot).nextSequence) :
    Log.answer streamStateBytes chunks
      (.append w.slot w.1.sequence.toNat w.1.chunk runner) = .conflict := by
  refine if_pos fun heq => h ?_
  rw [← (hs w.slot).nextSequence] at heq
  exact UInt64.toNat_inj.mp heq

theorem answer_full (h : w.1.sequence = (s.sessions w.slot).nextSequence)
    (hfull : streamStateBytes < (s.sessions w.slot).accumulated.length + w.1.chunk.length) :
    Log.answer streamStateBytes chunks
      (.append w.slot w.1.sequence.toNat w.1.chunk runner) = .full := by
  have hseq : w.1.sequence.toNat = (chunks w.slot).length := by rw [h, (hs w.slot).nextSequence]
  rw [(hs w.slot).length] at hfull
  simp only [Log.answer, hseq, ne_eq, not_true, if_false, if_pos hfull]

/-- A chunk that fits is appended exactly if its runner completes. -/
theorem apply_fits (h : Fits s w) :
    Log.apply streamStateBytes chunks (.append w.slot w.1.sequence.toNat w.1.chunk runner) =
      if runner = some .complete then Function.update chunks w.slot (chunks w.slot ++ [w.1.chunk])
      else chunks := by
  have hseq : w.1.sequence.toNat = (chunks w.slot).length := by
    rw [h.sequence, (hs w.slot).nextSequence]
  have hroom := h.room
  rw [(hs w.slot).length] at hroom
  simp only [Log.apply, hseq, hroom, true_and]

theorem answer_fits (h : Fits s w) :
    Log.answer streamStateBytes chunks (.append w.slot w.1.sequence.toNat w.1.chunk runner) =
      .ran runner
        (Log.apply streamStateBytes chunks
          (.append w.slot w.1.sequence.toNat w.1.chunk runner) w.slot).length
        (Log.size (Log.apply streamStateBytes chunks
          (.append w.slot w.1.sequence.toNat w.1.chunk runner) w.slot)) := by
  have hseq : w.1.sequence.toNat = (chunks w.slot).length := by
    rw [h.sequence, (hs w.slot).nextSequence]
  have hroom := h.room
  rw [(hs w.slot).length] at hroom
  simp only [Log.answer]
  rw [if_neg (not_not.mpr hseq), if_neg (Nat.not_lt.mpr hroom)]

/-- The committed sessions are those of the log with the chunk appended. -/
theorem commit_represents (hwf : Log.WellFormed streamStateBytes chunks)
    (slot : Fin policy.sessionSlots) :
    Represents ((s.commit w ((s.sessions w.slot).accumulated ++ upperAll w.1.chunk)).sessions slot)
      (Function.update chunks w.slot (chunks w.slot ++ [w.1.chunk]) slot) := by
  by_cases hslot : slot = w.slot
  · subst hslot
    have hlen := Nat.le_trans (hwf.length_le_size w.slot) (hwf.bounded w.slot)
    have hsmall : streamStateBytes = 1048576 := rfl
    have hn := (hs w.slot).nextSequence
    simp only [State.commit, Function.update_self]
    refine ⟨?_, ?_, ?_⟩
    · simp [(hs w.slot).accumulated, upperAll]
    · rw [UInt64.toNat_add, hn, List.length_append]
      exact Nat.mod_eq_of_lt (by rw [UInt64.toNat_one]; omega)
    · rw [(hs w.slot).chunks]
  · simp only [State.commit, Function.update_of_ne hslot]
    exact hs slot

end Answers

/-! ## The invariant -/

/-- The chunk `w` of request `r` while it holds the lane: its session is still as
it was when the runner was started, and the runner is one for that session. `result` is what
its driver returned. -/
structure Running (host : Host) (s : State policy) (result : Option ProcessResult)
    (w : ValidChunk policy) (r : Request policy) : Prop where
  fresh : r.phase.fresh → r.child = none ∧ result = none
  executing : ∀ times job stage, r.phase = .executing times job stage →
    Fits s w ∧ job = executeStreamProcess host policy (s.sessions w.slot).accumulated w.1.chunk ∧
      Sound host job stage r.child ∧ result = none
  reporting : ∀ times outcome execution, r.phase = .reporting times outcome execution →
    Fits s w ∧ outcome ≠ .complete ∧ result.map ProcessResult.outcome = some outcome

/-- The answer of `stream_state` from the chunks of a session. -/
def report (host : Host) (slot : Fin policy.sessionSlots) (chunks : List (List UInt8)) : Reply :=
  .state {
    sessionSlot := .ofNat slot.val
    accumulatedChunks := .ofNat chunks.length
    accumulatedBytes := Log.size chunks
    sha256 := hexEncode (host.sha256 (upperAll chunks.flatten)) }

/-- The reply to a chunk is what the log answers where the chunk stands in the
order. -/
def Answered (s : State policy) (ran : List (Nat × ProcessResult)) (id : Nat) (r : Request policy)
    (w : ValidChunk policy) (reply : Reply) : Prop :=
  ∃ front back op, s.order = front ++ id :: back ∧ r.operation (ran.lookup id) = some op ∧
    Agrees w reply (Log.answer streamStateBytes (Log.run streamStateBytes (s.history ran front)) op)

/-- The reply to a snapshot is what the log has after some of the operations. -/
def Reported (host : Host) (s : State policy) (ran : List (Nat × ProcessResult))
    (slot : Fin policy.sessionSlots) (reply : Reply) : Prop :=
  ∃ front back, s.order = front ++ back ∧
    (∀ j ∈ front, ∃ r, s.requests[j]? = some r ∧ r.phase.settled) ∧
    reply = report host slot (Log.run streamStateBytes (s.history ran front) slot)

structure Streams (host : Host) (s : State policy) (ran : List (Nat × ProcessResult)) : Prop where
  laned : s.Laned
  known : ∀ x ∈ ran, x.1 < s.requests.length
  sessions : ∀ slot, Represents (s.sessions slot) (s.log ran slot)
  running : ∀ (id : Nat) r w, s.requests[id]? = some r → r.work = .chunk w →
    Running host s (ran.lookup id) w r
  answered : ∀ (id : Nat) r w reply, s.requests[id]? = some r → r.work = .chunk w →
    r.phase.reply? = some reply → Answered s ran id r w reply
  reported : ∀ (id : Nat) r slot reply, s.requests[id]? = some r → r.work = .state slot →
    r.phase.reply? = some reply → Reported host s ran slot reply

theorem Streams.initial : Streams host (State.initial policy) [] where
  laned := Ledger.initial
  known := nofun
  sessions := fun _ => Represents.empty
  running := fun id r w hr => absurd hr (by simp [State.initial])
  answered := fun id r w reply hr => absurd hr (by simp [State.initial])
  reported := fun id r slot reply hr => absurd hr (by simp [State.initial])

/-- Nothing has run for the next request. -/
theorem Streams.lookup_new (inv : Streams host s ran) : ran.lookup s.requests.length = none :=
  List.lookup_eq_none_iff.mpr fun x hx =>
    bne_iff_ne.mpr fun h => absurd (inv.known x hx) (by rw [← h]; exact lt_irrefl _)

/-! ## What an action does to the sessions -/

/-- The request had its reply before. -/
def Replied (s : State policy) (id : Nat) (r' : Request policy) (reply : Reply) : Prop :=
  ∃ r, s.requests[id]? = some r ∧ r.work = r'.work ∧ r.phase.reply? = some reply

/-- Sessions and operations stay as they are; a new reply is at most that of a
snapshot. -/
structure Idles (host : Host) (s s' : State policy) (ran ran' : List (Nat × ProcessResult)) :
    Prop where
  sessions : s'.sessions = s.sessions
  operations : ∀ j ∈ s.order, s'.operationAt ran' j = s.operationAt ran j
  replies : ∀ (j : Nat) r' reply, s'.requests[j]? = some r' → r'.phase.reply? = some reply →
    Replied s j r' reply ∨ r'.work = .answered ∨
      ∃ slot, r'.work = .state slot ∧ reply = s.stateReply host slot

/-- The request `id` is settled with the operation `op`. -/
structure Settles (s s' : State policy) (ran ran' : List (Nat × ProcessResult)) (id : Nat)
    (r r' : Request policy) (op : Log.Operation policy.sessionSlots UInt8) : Prop where
  changes : Changes s s' id r r'
  inside : r.phase.tenure = .inside
  before : r.phase.reply? = none
  after : r'.operation (ran'.lookup id) = some op
  sessions : ∀ slot, Represents (s'.sessions slot) (Log.apply streamStateBytes (s.log ran) op slot)
  agrees : ∀ w reply, r.work = .chunk w → r'.phase.reply? = some reply →
    Agrees w reply (Log.answer streamStateBytes (s.log ran) op)

theorem Changes.operationAt (hc : Changes s s' id r r') (hg : Grows s ran ran')
    (h : r'.phase.reply? = r.phase.reply?) (j : Nat) :
    s'.operationAt ran' j = s.operationAt ran j := by
  rw [State.operationAt, State.operationAt, hc.getElem?]
  split
  · next hj =>
    subst hj
    rw [hc.before]
    exact hg.operation hc.before hc.keeps.work h
  · exact hg.operationAt rfl

/-- A request goes on without a reply, or keeps the one it has. -/
theorem Idles.of_reply (hg : Grows s ran ran') (hc : Changes s s' id r r')
    (hs : s'.sessions = s.sessions) (h : r'.phase.reply? = r.phase.reply?) :
    Idles host s s' ran ran' where
  sessions := hs
  operations := fun j _ => hc.operationAt hg h j
  replies := by
    intro j r₁ reply hr₁ hreply
    rw [hc.getElem?] at hr₁
    split at hr₁
    · next hj =>
      cases hr₁
      exact .inl ⟨r, hj ▸ hc.before, hc.keeps.work.symm, h ▸ hreply⟩
    · exact .inl ⟨r₁, hr₁, rfl, hreply⟩

/-- A snapshot is taken. -/
theorem Idles.of_snapshot {slot : Fin policy.sessionSlots} (hg : Grows s ran ran')
    (hc : Changes s s' id r r') (hs : s'.sessions = s.sessions) (hw : r.work = .state slot)
    (h : r'.phase.reply? = some (s.stateReply host slot)) : Idles host s s' ran ran' where
  sessions := hs
  operations := by
    intro j _
    rw [State.operationAt, State.operationAt, hc.getElem?]
    split
    · next hj =>
      subst hj
      rw [hc.before, Option.bind_some, Option.bind_some]
      simp only [Request.operation, hc.keeps.work, hw]
    · exact hg.operationAt rfl
  replies := by
    intro j r₁ reply hr₁ hreply
    rw [hc.getElem?] at hr₁
    split at hr₁
    · cases hr₁
      rw [h] at hreply
      cases hreply
      exact .inr (.inr ⟨slot, hc.keeps.work.trans hw, rfl⟩)
    · exact .inl ⟨r₁, hr₁, rfl, hreply⟩

theorem order_lt (hl : s.Laned) (h : id ∈ s.order) : id < s.requests.length := by
  by_contra hge
  have ht : s.tenure id = .before := by
    rw [State.tenure, List.getElem?_eq_none (Nat.not_lt.mp hge)]
  rcases hl.past id h with hh | ha
  · exact hl.not_known ht (List.mem_append_right _ hh)
  · rw [ht] at ha
    cases ha

theorem Idles.of_push (hg : Grows s ran ran') (hl : s.Laned)
    (hr : s'.requests = s.requests ++ [r]) (hs : s'.sessions = s.sessions)
    (h : r.phase.reply? = none ∨ r.work = .answered) : Idles host s s' ran ran' where
  sessions := hs
  operations := by
    intro j hj
    exact hg.operationAt (by rw [hr, List.getElem?_append_left (order_lt hl hj)])
  replies := by
    intro j r₁ reply hr₁ hreply
    rcases getElem?_push hr hr₁ with hr₁ | rfl
    · exact .inl ⟨r₁, hr₁, rfl, hreply⟩
    · rcases h with hnone | hw
      · rw [hnone] at hreply
        cases hreply
      · exact .inr (.inl hw)

theorem Idles.same (hg : Grows s ran ran') (hr : s'.requests = s.requests)
    (hs : s'.sessions = s.sessions) : Idles host s s' ran ran' where
  sessions := hs
  operations := fun j _ => hg.operationAt (by rw [hr])
  replies := fun j r reply hr₁ hreply => .inl ⟨r, hr ▸ hr₁, rfl, hreply⟩

theorem chunkReply_agrees {w : ValidChunk policy} {times : Times} {outcome : Outcome}
    {execution : Nat} {chunks : List (List UInt8)} (h : Represents (s.sessions w.slot) chunks) :
    Agrees w (s.chunkReply w times outcome execution)
      (.ran (some outcome) chunks.length (Log.size chunks)) :=
  ⟨_, rfl, rfl, rfl, rfl, by rw [← h.nextSequence, ← h.chunks], h.length⟩

/-- A chunk that is refused in the lane. -/
theorem settles_refuse {t₁ t₂ : Nat} {w : ValidChunk policy} {e : LabError}
    (inv : Streams host s ran) (hran : ran'.lookup id = ran.lookup id)
    (hr : s.requests[id]? = some r) (hp : r.phase = .admitted t₁ t₂) (hw : r.work = .chunk w)
    (ha : Agrees w (.error e) (Log.answer streamStateBytes (s.log ran)
      (.append w.slot w.1.sequence.toNat w.1.chunk none))) :
    Settles s (s.refuse id r e) ran ran' id r { r with phase := .released (.error e) }
      (.append w.slot w.1.sequence.toNat w.1.chunk none) where
  changes := .of_phase hr (by rw [hp]; rfl) rfl
  inside := by rw [hp]; rfl
  before := by rw [hp]; rfl
  after := by
    rw [hran, ((inv.running id r w hr hw).fresh (by rw [hp]; rfl)).2]
    simp only [Request.operation, hw, Phase.reply?, Option.map_none]
  sessions := by
    intro slot
    rw [Log.apply_append_of_ne (by decide)]
    exact inv.sessions slot
  agrees := by
    intro w' reply hw' hreply
    rw [hw] at hw'
    cases hw'
    cases hreply
    exact ha

/-- A reset. -/
theorem settles_reset {t₁ t₂ count : Nat} (inv : Streams host s ran)
    (hr : s.requests[id]? = some r) (hp : r.phase = .admitted t₁ t₂) (hw : r.work = .reset count) :
    Settles s { (s.put id { r with phase := .finished .normalized }).release id with
        sessions := fun slot => if slot.val < count then .empty else s.sessions slot }
      ran ran' id r { r with phase := .finished .normalized } (.reset count) where
  changes := .of_phase hr (by rw [hp]; rfl) rfl
  inside := by rw [hp]; rfl
  before := by rw [hp]; rfl
  after := by simp only [Request.operation, hw, Phase.reply?]
  sessions := by
    intro slot
    simp only [Log.apply]
    split
    · exact Represents.empty
    · exact inv.sessions slot
  agrees := fun w reply hw' => by rw [hw] at hw'; cases hw'

/-- A turn that has run. -/
theorem settles_turn {times : Times} {job : Job} {result : ProcessResult} {w : ValidTurn policy}
    (inv : Streams host s ran) (hr : s.requests[id]? = some r)
    (hp : r.phase = .executing times job (.returned result)) (hw : r.work = .turn w) :
    Settles s (s.settle id r times result) ran ran' id r
      { r with phase := .padding (State.releaseDeadline policy times) .normalized } .other := by
  obtain ⟨states, counters, heq⟩ := settle_turn hw
  rw [heq]
  exact {
    changes := .of_phase hr (by rw [hp]; rfl) rfl
    inside := by rw [hp]; rfl
    before := by rw [hp]; rfl
    after := by simp only [Request.operation, hw, Phase.reply?]
    sessions := inv.sessions
    agrees := fun w reply hw' => by rw [hw] at hw'; cases hw' }

/-- A chunk that did not succeed. -/
theorem settles_report {times : Times} {outcome : Outcome} {execution : Nat} {w : ValidChunk policy}
    (inv : Streams host s ran) (hran : ran'.lookup id = ran.lookup id)
    (hr : s.requests[id]? = some r) (hp : r.phase = .reporting times outcome execution)
    (hw : r.work = .chunk w) :
    Settles s (s.pad id r times (s.chunkReply w times outcome execution)) ran ran' id r
      { r with phase := .padding (State.releaseDeadline policy times)
                (s.chunkReply w times outcome execution) }
      (.append w.slot w.1.sequence.toNat w.1.chunk (some outcome)) := by
  obtain ⟨hfits, hne, hresult⟩ := (inv.running id r w hr hw).reporting times outcome execution hp
  have happly : Log.apply streamStateBytes (s.log ran)
      (.append w.slot w.1.sequence.toNat w.1.chunk (some outcome)) = s.log ran :=
    Log.apply_append_of_ne fun h => hne (Option.some.inj h)
  exact {
    changes := .of_phase hr (by rw [hp]; rfl) rfl
    inside := by rw [hp]; rfl
    before := by rw [hp]; rfl
    after := by
      rw [hran]
      simp only [Request.operation, hw, Phase.reply?, hresult]
    sessions := by
      rw [happly]
      exact inv.sessions
    agrees := by
      intro w' reply hw' hreply
      rw [hw] at hw'
      cases hw'
      cases hreply
      rw [answer_fits inv.sessions hfits, happly]
      exact chunkReply_agrees (inv.sessions w.slot) }

/-- A chunk that succeeded: what the runner returned is the session followed by the
chunk in upper case, and the session is still the one it was started from. -/
theorem settles_commit {times : Times} {job : Job} {next : List UInt8} {w : ValidChunk policy}
    (hserved : policy.Served)
    (hship : Ships host.toolchain host.streamModule streamMemory
      StreamCapitalize.streamCapitalize)
    (inv : Streams host s ran) (hr : s.requests[id]? = some r)
    (hp : r.phase = .executing times job (.returned (.success next))) (hw : r.work = .chunk w)
    (hran : ran' = ran ++ [(id, .success next)]) :
    Settles s ((s.commit w next).pad id r times
        ((s.commit w next).chunkReply w times .complete (s.now - times.startedAt))) ran ran' id r
      { r with phase := .padding (State.releaseDeadline policy times)
                ((s.commit w next).chunkReply w times .complete (s.now - times.startedAt)) }
      (.append w.slot w.1.sequence.toNat w.1.chunk (some .complete)) := by
  obtain ⟨hfits, rfl, hsound, hnone⟩ := (inv.running id r w hr hw).executing times job _ hp
  -- the session has not changed since the runner was given its state
  have hnext : next = (s.sessions w.slot).accumulated ++ upperAll w.1.chunk :=
    stream_success hserved hship w.spec.2.1 w.spec.2.2 hfits.room (hsound.success next rfl)
  have happly : Log.apply streamStateBytes (s.log ran)
      (.append w.slot w.1.sequence.toNat w.1.chunk (some .complete)) =
      Function.update (s.log ran) w.slot (s.log ran w.slot ++ [w.1.chunk]) := by
    rw [apply_fits inv.sessions hfits, if_pos rfl]
  have hcommit : ∀ slot, Represents ((s.commit w next).sessions slot)
      (Function.update (s.log ran) w.slot (s.log ran w.slot ++ [w.1.chunk]) slot) := by
    rw [hnext]
    exact commit_represents inv.sessions log_wellFormed
  exact {
    changes := .of_phase hr (by rw [hp]; rfl) rfl
    inside := by rw [hp]; rfl
    before := by rw [hp]; rfl
    after := by
      rw [hran, lookup_concat hnone]
      simp only [Request.operation, hw, Phase.reply?, Option.map_some, ProcessResult.outcome]
    sessions := by
      rw [happly]
      exact hcommit
    agrees := by
      intro w' reply hw' hreply
      rw [hw] at hw'
      cases hw'
      cases hreply
      rw [answer_fits inv.sessions hfits, happly]
      exact chunkReply_agrees (hcommit w.slot) }

/-- Every action either leaves the sessions and the history alone or settles one
request. -/
theorem Effect.deed (hserved : policy.Served)
    (hship : Ships host.toolchain host.streamModule streamMemory
      StreamCapitalize.streamCapitalize)
    (h : Effect host s entry s') (inv : Streams host s ran) :
    Idles host s s' ran (ran ++ entry.toList) ∨
      ∃ id r r' op, Settles s s' ran (ran ++ entry.toList) id r r' op := by
  have hg : Grows s ran (ran ++ entry.toList) := h.grows
  have hlookup {j : Nat} {r : Request policy} (hr : s.requests[j]? = some r)
      (hx : ∀ times job result, r.phase ≠ .executing times job (.returned result)) :
      (ran ++ entry.toList).lookup j = ran.lookup j := h.lookup_eq hr hx
  cases h with
  | answer reply => exact .inl (.of_push hg inv.laned rfl rfl (.inr rfl))
  | throttle _ => exact .inl (.of_push hg inv.laned rfl rfl (.inr rfl))
  | spawnTurn w _ => exact .inl (.of_push hg inv.laned rfl rfl (.inl rfl))
  | spawnChunk w _ => exact .inl (.of_push hg inv.laned rfl rfl (.inl rfl))
  | queueReset count => exact .inl (.of_push hg inv.laned rfl rfl (.inl rfl))
  | lookup slot => exact .inl (.of_push hg inv.laned rfl rfl (.inl rfl))
  | advance d => exact .inl (.same hg rfl rfl)
  | gone hr hc => exact .inl (.of_reply hg (.of_gone hr hc rfl) rfl rfl)
  | respond hr hc hp => exact .inl (.of_reply hg (.of_respond hr hc hp rfl) rfl rfl)
  | dropState hr hc hp =>
    exact .inl (.of_reply hg (.of_drop hr hc (by rw [hp]; rfl) rfl) rfl (by rw [hp]; rfl))
  | dropReset hr hc hw hp =>
    obtain ⟨⟨t, hp⟩, _⟩ | ⟨t₁, t₂, hp⟩ := hp <;>
      exact .inl (.of_reply hg (.of_drop hr hc (by rw [hp]; rfl) rfl) rfl (by rw [hp]; rfl))
  | cancelReset hr hc hw hp hh =>
    exact .inl (.of_reply hg (.of_drop hr hc (by rw [hp]; rfl) rfl) rfl (by rw [hp]; rfl))
  | poll hr hp =>
    exact .inl (.of_reply hg (.of_phase hr (by rw [hp]; rfl) rfl) rfl (by rw [hp]; rfl))
  | grant hr hp hh =>
    exact .inl (.of_reply hg (.of_phase hr (by rw [hp]; rfl) rfl) rfl (by rw [hp]; rfl))
  | conflict hr hp hw hseq =>
    refine .inr ⟨_, _, _, _, settles_refuse inv (hlookup hr (by simp [hp])) hr hp hw ?_⟩
    rw [answer_conflict inv.sessions hseq]
    rfl
  | stateFull hr hp hw hseq hfull =>
    refine .inr ⟨_, _, _, _, settles_refuse inv (hlookup hr (by simp [hp])) hr hp hw ?_⟩
    rw [answer_full inv.sessions hseq (lt_of_lt_saturatingAdd hfull)]
    rfl
  | runChunk hr hp hw hseq hroom =>
    exact .inl (.of_reply hg (.of_phase hr (by rw [hp]; rfl) rfl) rfl (by rw [hp]; rfl))
  | runTurn hr hp hw =>
    exact .inl (.of_reply hg (.of_phase hr (by rw [hp]; rfl) rfl) rfl (by rw [hp]; rfl))
  | reset hr hp hw => exact .inr ⟨_, _, _, _, settles_reset inv hr hp hw⟩
  | process hr hr' =>
    obtain ⟨hk, _, hreply⟩ := process_keeps hr'
    exact .inl (.of_reply hg ⟨hr, rfl, hk⟩ rfl hreply)
  | turned hr hp hw => exact .inr ⟨_, _, _, _, settles_turn inv hr hp hw⟩
  | commit hr hp hw => exact .inr ⟨_, _, _, _, settles_commit hserved hship inv hr hp hw rfl⟩
  | miss outcome hr hp hw hres =>
    cases outcome <;>
      exact .inl (.of_reply hg (.of_phase hr (by rw [hp]; rfl) rfl) rfl (by rw [hp]; rfl))
  | report hr hp hw =>
    exact .inr ⟨_, _, _, _, settles_report inv (hlookup hr (by simp [hp])) hr hp hw⟩
  | leave hr hp hd =>
    exact .inl (.of_reply hg (.of_reply hr rfl (by rw [hp]; rfl) rfl) rfl (by rw [hp]; rfl))
  | finish hr hp =>
    exact .inl (.of_reply hg (.of_reply hr rfl (by rw [hp]; rfl) rfl) rfl (by rw [hp]; rfl))
  | read hr hp hw =>
    exact .inl (.of_snapshot hg (.of_phase hr (by rw [hp]; rfl) rfl) rfl hw rfl)
  | stray hr hp _ => exact .inl (.same hg rfl rfl)
  | idle => exact .inl (.same hg rfl rfl)

/-! ## The log goes along -/

theorem Idles.log (h : Idles host s s' ran ran') (hm : Move s s') (hl : s.Laned) :
    s'.log ran' = s.log ran := by
  rw [State.log, State.log, hm.history hl, history_congr h.operations]

/-- A request inside the lane is the last in the order. -/
theorem inside_last (hl : s.Laned) (hr : s.requests[id]? = some r)
    (ht : r.phase.tenure = .inside) : ∃ front, s.order = front ++ [id] :=
  hl.last id (hl.inside id (by rw [State.tenure_of hr, ht]))

/-- The history before a request that is being settled is all of it. -/
theorem history_last {front : List Nat} (hr : s.requests[id]? = some r)
    (h : r.phase.reply? = none) (ho : s.order = front ++ [id]) :
    s.history ran s.order = s.history ran front := by
  have hnone : s.history ran [id] = [] := by
    simp [State.history, operationAt_of hr, operation_eq_none h]
  rw [ho, history_append, hnone, List.append_nil]

theorem Settles.log {op : Log.Operation policy.sessionSlots UInt8}
    (h : Settles s s' ran ran' id r r' op) (hm : Move s s') (hg : Grows s ran ran') (hl : s.Laned) :
    s'.log ran' = Log.apply streamStateBytes (s.log ran) op := by
  obtain ⟨front, ho⟩ := inside_last hl h.changes.before h.inside
  have hr' : s'.requests[id]? = some r' := by rw [h.changes.getElem?, if_pos rfl]
  have hsome : s'.history ran' [id] = [op] := by
    simp [State.history, operationAt_of hr', h.after]
  rw [State.log, hm.history hl, ho, history_append, front_history hm hg hl ho, hsome,
    Log.run_concat, State.log, history_last h.changes.before h.before ho]

/-! ## Replies stand -/

theorem Answered.mono {w : ValidChunk policy} {reply : Reply} (h : Answered s ran id r w reply)
    (hm : Move s s') (hg : Grows s ran ran') (hl : s.Laned) (hr : s.requests[id]? = some r)
    (hreply : r.phase.reply? = some reply) (hr' : s'.requests[id]? = some r') :
    Answered s' ran' id r' w reply := by
  obtain ⟨front, back, op, ho, hop, hagrees⟩ := h
  obtain ⟨new, ho', _⟩ := hm.order hl
  obtain ⟨r₁, hr₁, hk⟩ := hm.request hr
  rw [hr'] at hr₁
  cases hr₁
  have hs := Phase.settled_of_reply hreply
  refine ⟨front, back ++ new, op, ?_, by rw [hk.operation hs, hg id r hr hs]; exact hop, ?_⟩
  · rw [ho', ho, List.append_assoc, List.cons_append]
  · rw [front_history hm hg hl ho]
    exact hagrees

theorem Reported.mono {slot : Fin policy.sessionSlots} {reply : Reply}
    (h : Reported host s ran slot reply) (hm : Move s s') (hg : Grows s ran ran') (hl : s.Laned) :
    Reported host s' ran' slot reply := by
  obtain ⟨front, back, ho, hfront, hreply⟩ := h
  obtain ⟨new, ho', _⟩ := hm.order hl
  refine ⟨front, back ++ new, by rw [ho', ho, List.append_assoc], fun j hj => ?_, ?_⟩
  · obtain ⟨r, hr, hs⟩ := hfront j hj
    obtain ⟨r', hr', hk⟩ := hm.request hr
    exact ⟨r', hr', (hk.settled hs).1⟩
  · have hsame : s'.history ran' front = s.history ran front := history_congr fun j hj => by
      obtain ⟨r, hr, hs⟩ := hfront j hj
      exact hm.operationAt hg hr hs
    rw [hsame]
    exact hreply

/-- The settled requests in the order have made the sessions what they are. -/
theorem settled_front (hl : s.Laned) : ∃ front back, s.order = front ++ back ∧
    (∀ j ∈ front, ∃ r, s.requests[j]? = some r ∧ r.phase.settled) ∧
    s.history ran front = s.history ran s.order := by
  have hafter : ∀ j, s.tenure j = .after → ∃ r, s.requests[j]? = some r ∧ r.phase.settled := by
    intro j hj
    unfold State.tenure at hj
    split at hj
    · next r hr => exact ⟨r, hr, Phase.settled_of_after hj⟩
    · cases hj
  cases hh : s.lane.holders with
  | nil =>
    refine ⟨s.order, [], (List.append_nil _).symm, fun j hj => ?_, rfl⟩
    exact hafter j (hl.all_after hh hj)
  | cons i l =>
    -- only the holder, which is the last in the order, may be unsettled
    obtain ⟨front, ho⟩ := hl.last i (by rw [hh]; exact List.mem_cons_self)
    have hfront : ∀ j ∈ front, ∃ r, s.requests[j]? = some r ∧ r.phase.settled := fun j hj =>
      front_settled hl ho hj
    cases hr : s.requests[i]? with
    | none =>
      have hnone : s.history ran [i] = [] := by simp [State.history, State.operationAt, hr]
      exact ⟨front, [i], ho, hfront, by rw [ho, history_append, hnone, List.append_nil]⟩
    | some r =>
      by_cases hs : r.phase.settled
      · refine ⟨s.order, [], (List.append_nil _).symm, fun j hj => ?_, rfl⟩
        rw [ho] at hj
        rcases List.mem_append.mp hj with hj | hj
        · exact hfront j hj
        · exact ⟨r, List.mem_singleton.mp hj ▸ hr, hs⟩
      · have hreply : r.phase.reply? = none := by
          cases hp : r.phase <;> rw [hp] at hs <;> first | rfl | exact absurd rfl hs
        exact ⟨front, [i], ho, hfront, (history_last hr hreply ho).symm⟩

theorem stateReply_eq {slot : Fin policy.sessionSlots} {chunks : List (List UInt8)}
    (h : Represents (s.sessions slot) chunks) :
    s.stateReply host slot = report host slot chunks := by
  unfold State.stateReply report
  rw [h.length, h.chunks, h.accumulated, ← h.nextSequence, UInt64.ofNat_toNat]

/-! ## The chunk that runs -/

section Running

variable {w : ValidChunk policy} {result result' : Option ProcessResult}

/-- The same request in a state with the same sessions. -/
theorem Running.congr (h : Running host s result w r) (hs : s'.sessions = s.sessions)
    (hp : r'.phase = r.phase) (hc : r'.child = r.child) : Running host s' result w r' where
  fresh := by
    rw [hp, hc]
    exact h.fresh
  executing := by
    intro times job stage hx
    rw [hp] at hx
    obtain ⟨hf, hj, hsound, hnone⟩ := h.executing times job stage hx
    exact ⟨⟨by rw [hs]; exact hf.sequence, by rw [hs]; exact hf.room⟩, by rw [hs]; exact hj,
      by rw [hc]; exact hsound, hnone⟩
  reporting := by
    intro times outcome execution hx
    rw [hp] at hx
    obtain ⟨hf, hrest⟩ := h.reporting times outcome execution hx
    exact ⟨⟨by rw [hs]; exact hf.sequence, by rw [hs]; exact hf.room⟩, hrest⟩

theorem Running.of_settled (h : r'.phase.settled) : Running host s' result w r' where
  fresh := fun hf => by rw [Phase.fresh_of_settled h] at hf; cases hf
  executing := fun _ _ _ hx => by rw [hx] at h; cases h
  reporting := fun _ _ _ hx => by rw [hx] at h; cases h

/-- A request that has not run anything yet. -/
theorem Running.of_fresh (hc : r'.child = none ∧ result = none) (h : r'.phase.fresh) :
    Running host s' result w r' where
  fresh := fun _ => hc
  executing := fun _ _ _ hx => by rw [hx] at h; cases h
  reporting := fun _ _ _ hx => by rw [hx] at h; cases h

/-- Only the request inside the lane depends on the sessions. -/
theorem Running.outside (h : Running host s result w r) (ht : r.phase.tenure ≠ .inside) :
    Running host s' result w r where
  fresh := h.fresh
  executing := fun _ _ _ hx => absurd (by rw [hx]; rfl) ht
  reporting := fun _ _ _ hx => absurd (by rw [hx]; rfl) ht

theorem Running.process {event : ProcessEvent} (h : Running host s result w r)
    (hp : r.process host s.now event = some r') : Running host s result w r' := by
  unfold Request.process at hp
  split at hp
  · next times job stage hx =>
    obtain ⟨⟨stage', child'⟩, hstep, rfl⟩ := Option.map_eq_some_iff.mp hp
    obtain ⟨hf, hj, hsound, hnone⟩ := h.executing times job stage hx
    refine ⟨nofun, fun times' job' stage'' hx' => ?_, nofun⟩
    cases hx'
    exact ⟨hf, hj, hsound.step hstep, hnone⟩
  · next hx =>
    obtain ⟨c', hc', rfl⟩ := Option.map_eq_some_iff.mp hp
    obtain ⟨c, hc, _⟩ := Option.bind_eq_some_iff.mp hc'
    refine ⟨fun ht => ?_, fun times job stage hx' => absurd hx' (hx times job stage), h.reporting⟩
    rw [(h.fresh ht).1] at hc
    cases hc

end Running

/-- All other requests are as they were; they are either outside the lane or find
the sessions unchanged. -/
theorem running_changes (inv : Streams host s ran) (hc : Changes s s' id r r')
    (hs : s'.sessions = s.sessions ∨ r.phase.tenure = .inside)
    (hran : ∀ j, j ≠ id → ran'.lookup j = ran.lookup j)
    (h : ∀ w, r.work = .chunk w → Running host s' (ran'.lookup id) w r') :
    ∀ (j : Nat) r₁ w, s'.requests[j]? = some r₁ → r₁.work = .chunk w →
      Running host s' (ran'.lookup j) w r₁ := by
  intro j r₁ w hr₁ hw
  rw [hc.getElem?] at hr₁
  split at hr₁
  · next hj =>
    cases hr₁
    subst hj
    exact h w (hc.keeps.work ▸ hw)
  · next hne =>
    have hrun := inv.running j r₁ w hr₁ hw
    rw [hran j (Ne.symm hne)]
    rcases hs with hs | ht
    · exact hrun.congr hs rfl rfl
    · refine hrun.outside fun ht₁ => hne ?_
      exact Semaphore.holder_unique (inv.laned.inside id (by rw [State.tenure_of hc.before, ht]))
        (inv.laned.inside j (by rw [State.tenure_of hr₁, ht₁]))

theorem running_push (inv : Streams host s ran) (hr : s'.requests = s.requests ++ [r])
    (hs : s'.sessions = s.sessions)
    (h : ∀ w, r.work = .chunk w → ran.lookup s.requests.length = none →
      Running host s' (ran.lookup s.requests.length) w r) :
    ∀ (j : Nat) r₁ w, s'.requests[j]? = some r₁ → r₁.work = .chunk w →
      Running host s' (ran.lookup j) w r₁ := by
  intro j r₁ w hr₁ hw
  rw [hr, List.getElem?_append] at hr₁
  split at hr₁
  · exact (inv.running j r₁ w hr₁ hw).congr hs rfl rfl
  · next hge =>
    rw [List.getElem?_singleton] at hr₁
    obtain ⟨hj, hr₁⟩ := Option.ite_none_right_eq_some.mp hr₁
    cases hr₁
    obtain rfl : j = s.requests.length := by omega
    exact h w hw inv.lookup_new

/-- A step with which no request goes on with a result of its driver. -/
theorem Effect.running_quiet (h : Effect host s none s') (inv : Streams host s ran) :
    ∀ (j : Nat) r w, s'.requests[j]? = some r → r.work = .chunk w →
      Running host s' (ran.lookup j) w r := by
  have hsame : ∀ {i : Nat} (j : Nat), j ≠ i → ran.lookup j = ran.lookup j := fun _ _ => rfl
  cases h with
  | answer reply => exact running_push inv rfl rfl nofun
  | throttle _ => exact running_push inv rfl rfl nofun
  | spawnTurn w _ => exact running_push inv rfl rfl nofun
  | spawnChunk w _ => exact running_push inv rfl rfl fun _ _ hnew => .of_fresh ⟨rfl, hnew⟩ rfl
  | queueReset count => exact running_push inv rfl rfl nofun
  | lookup slot => exact running_push inv rfl rfl nofun
  | advance d => exact fun j r w hr hw => (inv.running j r w hr hw).congr rfl rfl rfl
  | gone hr hc =>
    exact running_changes inv (.of_gone hr hc rfl) (.inl rfl) hsame fun w hw =>
      (inv.running _ _ w hr hw).congr rfl rfl rfl
  | respond hr hc hp =>
    exact running_changes inv (.of_respond hr hc hp rfl) (.inl rfl) hsame fun w hw =>
      (inv.running _ _ w hr hw).congr rfl rfl rfl
  | dropState hr hc hp =>
    exact running_changes inv (.of_drop hr hc (by rw [hp]; rfl) rfl) (.inl rfl) hsame fun w hw =>
      .of_settled rfl
  | dropReset hr hc hw hp =>
    obtain ⟨⟨t, hp⟩, _⟩ | ⟨t₁, t₂, hp⟩ := hp <;>
      exact running_changes inv (.of_drop hr hc (by rw [hp]; rfl) rfl) (.inl rfl) hsame
        fun w hw => .of_settled rfl
  | cancelReset hr hc hw hp hh =>
    exact running_changes inv (.of_drop hr hc (by rw [hp]; rfl) rfl) (.inl rfl) hsame fun w hw =>
      .of_settled rfl
  | poll hr hp =>
    refine running_changes inv (.of_phase hr (by rw [hp]; rfl) rfl) (.inl rfl) hsame fun w hw =>
      .of_fresh ?_ rfl
    exact (inv.running _ _ w hr hw).fresh (by rw [hp]; rfl)
  | grant hr hp hh =>
    refine running_changes inv (.of_phase hr (by rw [hp]; rfl) rfl) (.inl rfl) hsame fun w hw =>
      .of_fresh ?_ rfl
    exact (inv.running _ _ w hr hw).fresh (by rw [hp]; rfl)
  | conflict hr hp hw hseq =>
    exact running_changes inv (.of_phase hr (by rw [hp]; rfl) rfl) (.inl rfl) hsame fun w hw =>
      .of_settled rfl
  | stateFull hr hp hw hseq hfull =>
    exact running_changes inv (.of_phase hr (by rw [hp]; rfl) rfl) (.inl rfl) hsame fun w hw =>
      .of_settled rfl
  | @runChunk id r t₁ t₂ w hr hp hw hseq hroom =>
    refine running_changes inv (.of_phase hr (by rw [hp]; rfl) rfl) (.inl rfl) hsame
      fun w' hw' => ?_
    rw [hw] at hw'
    cases hw'
    -- a request that has not entered has neither a child nor a result from before
    obtain ⟨hchild, hnone⟩ := (inv.running _ _ w hr hw).fresh (by rw [hp]; rfl)
    refine ⟨nofun, fun times job stage hx => ?_, nofun⟩
    cases hx
    refine ⟨⟨hseq, saturatingAdd_le_capacity hroom⟩, rfl, ?_, hnone⟩
    show Sound host _ .launching r.child
    rw [hchild]
    exact .launching
  | runTurn hr hp hw =>
    exact running_changes inv (.of_phase hr (by rw [hp]; rfl) rfl) (.inl rfl) hsame
      fun w' hw' => by rw [hw] at hw'; cases hw'
  | reset hr hp hw =>
    exact running_changes inv (.of_phase hr (by rw [hp]; rfl) rfl)
      (.inr (by rw [hp]; rfl)) hsame fun w hw => .of_settled rfl
  | process hr hr' =>
    refine running_changes inv ⟨hr, rfl, (process_keeps hr').1⟩ (.inl rfl) hsame fun w hw => ?_
    exact ((inv.running _ _ w hr hw).process hr').congr rfl rfl rfl
  | report hr hp hw =>
    exact running_changes inv (.of_phase hr (by rw [hp]; rfl) rfl) (.inl rfl) hsame fun w hw =>
      .of_settled rfl
  | leave hr hp hd =>
    exact running_changes inv (.of_reply hr rfl (by rw [hp]; rfl) rfl) (.inl rfl) hsame
      fun w hw => .of_settled rfl
  | finish hr hp =>
    exact running_changes inv (.of_reply hr rfl (by rw [hp]; rfl) rfl) (.inl rfl) hsame
      fun w hw => .of_settled rfl
  | read hr hp hw =>
    exact running_changes inv (.of_phase hr (by rw [hp]; rfl) rfl) (.inl rfl) hsame fun w hw =>
      .of_settled rfl
  | idle => exact inv.running

/-- A step with which the request `i` goes on with the result of its driver. -/
theorem Effect.running_returned {i : Nat} {result : ProcessResult}
    (h : Effect host s (some (i, result)) s') (inv : Streams host s ran) :
    ∀ (j : Nat) r w, s'.requests[j]? = some r → r.work = .chunk w →
      Running host s' ((ran ++ [(i, result)]).lookup j) w r := by
  cases h with
  | turned hr hp hw =>
    have hset : Settles s _ ran ran _ _ _ _ := settles_turn inv hr hp hw
    exact running_changes inv hset.changes (.inr hset.inside) (fun _ => lookup_concat_ne)
      fun w hw => .of_settled rfl
  | commit hr hp hw =>
    exact running_changes inv (.of_phase hr (by rw [hp]; rfl) rfl)
      (.inr (by rw [hp]; rfl)) (fun _ => lookup_concat_ne) fun w hw => .of_settled rfl
  | @miss _ r times job _ w outcome hr hp hw hres =>
    have hs : (s.miss i r times outcome).sessions = s.sessions := by cases outcome <;> rfl
    have hc : Changes s (s.miss i r times outcome) i r
        { r with phase := .reporting times outcome (s.now - times.startedAt) } :=
      .of_phase hr (by rw [hp]; rfl) (by cases outcome <;> rfl)
    refine running_changes inv hc (.inl hs) (fun _ => lookup_concat_ne) fun w' hw' => ?_
    obtain ⟨hf, _, _, hnone⟩ := (inv.running _ _ w' hr hw').executing _ _ _ hp
    rw [lookup_concat hnone]
    refine ⟨nofun, nofun, fun _ _ _ hx => ?_⟩
    cases hx
    refine ⟨⟨by rw [hs]; exact hf.sequence, by rw [hs]; exact hf.room⟩, ?_⟩
    rcases hres with ⟨rfl, rfl⟩ | ⟨rfl, rfl⟩ <;> exact ⟨by decide, rfl⟩
  | stray hr hp hw =>
    intro j r₁ w hr₁ hw₁
    rw [lookup_concat_ne]
    · exact inv.running j r₁ w hr₁ hw₁
    · rintro rfl
      rw [hr] at hr₁
      cases hr₁
      exact hw w hw₁

theorem Effect.running (h : Effect host s entry s') (inv : Streams host s ran) :
    ∀ (j : Nat) r w, s'.requests[j]? = some r → r.work = .chunk w →
      Running host s' ((ran ++ entry.toList).lookup j) w r := by
  cases entry with
  | none =>
    rw [Option.toList_none, List.append_nil]
    exact h.running_quiet inv
  | some x => exact h.running_returned inv

/-! ## Refinement -/

/-- No request is forgotten, so no result is that of a later one. -/
theorem Streams.known_of (inv : Streams host s ran) (h : Effect host s entry s')
    (hm : Move s s') : ∀ x ∈ ran ++ entry.toList, x.1 < s'.requests.length := by
  intro x hx
  have hlt : x.1 < s.requests.length := (List.mem_append.mp hx).elim (inv.known x) h.known
  obtain ⟨r', hr', _⟩ := hm.request (List.getElem?_eq_getElem hlt)
  exact (List.getElem?_eq_some_iff.mp hr').1

theorem Idles.streams (h : Idles host s s' ran (ran ++ entry.toList)) (he : Effect host s entry s')
    (inv : Streams host s ran) : Streams host s' (ran ++ entry.toList) where
  laned := (he.move inv.laned).laned inv.laned
  known := inv.known_of he (he.move inv.laned)
  sessions := by
    rw [h.sessions, h.log (he.move inv.laned) inv.laned]
    exact inv.sessions
  running := he.running inv
  answered := by
    intro j r' w reply hr' hw hreply
    rcases h.replies j r' reply hr' hreply with ⟨r, hr, hwork, hold⟩ | hne | ⟨slot, hne, _⟩
    · exact (inv.answered j r w reply hr (hwork.trans hw) hold).mono (he.move inv.laned) he.grows
        inv.laned hr hold hr'
    · rw [hw] at hne
      cases hne
    · rw [hw] at hne
      cases hne
  reported := by
    intro j r' slot reply hr' hw hreply
    rcases h.replies j r' reply hr' hreply with ⟨r, hr, hwork, hold⟩ | hne | ⟨slot', hslot, rfl⟩
    · exact (inv.reported j r slot reply hr (hwork.trans hw) hold).mono (he.move inv.laned)
        he.grows inv.laned
    · rw [hw] at hne
      cases hne
    · -- the snapshot shows the sessions as the settled requests have left them
      rw [hw] at hslot
      cases hslot
      obtain ⟨front, back, ho, hfront, hhist⟩ := settled_front inv.laned
      have hreport : Reported host s ran slot (s.stateReply host slot) := by
        refine ⟨front, back, ho, hfront, ?_⟩
        rw [hhist]
        exact stateReply_eq (inv.sessions slot)
      exact hreport.mono (he.move inv.laned) he.grows inv.laned

theorem Settles.streams {op : Log.Operation policy.sessionSlots UInt8}
    (h : Settles s s' ran (ran ++ entry.toList) id r r' op) (he : Effect host s entry s')
    (inv : Streams host s ran) : Streams host s' (ran ++ entry.toList) where
  laned := (he.move inv.laned).laned inv.laned
  known := inv.known_of he (he.move inv.laned)
  sessions := by
    rw [h.log (he.move inv.laned) he.grows inv.laned]
    exact h.sessions
  running := he.running inv
  answered := by
    intro j r₁ w reply hr₁ hw hreply
    have hm := he.move inv.laned
    by_cases hj : id = j
    · subst hj
      have hr₁' := hr₁
      rw [h.changes.getElem?, if_pos rfl] at hr₁'
      cases hr₁'
      -- what is settled is the last in the order, so the log is that of all before it
      obtain ⟨front, ho⟩ := inside_last inv.laned h.changes.before h.inside
      obtain ⟨new, ho', _⟩ := hm.order inv.laned
      refine ⟨front, new, op, by rw [ho', ho, List.append_assoc]; rfl, h.after, ?_⟩
      rw [front_history hm he.grows inv.laned ho, ← history_last h.changes.before h.before ho]
      exact h.agrees w reply (h.changes.keeps.work ▸ hw) hreply
    · have hr := hr₁
      rw [h.changes.getElem?, if_neg hj] at hr
      exact (inv.answered j r₁ w reply hr hw hreply).mono hm he.grows inv.laned hr hreply hr₁
  reported := by
    intro j r₁ slot reply hr₁ hw hreply
    by_cases hj : id = j
    · subst hj
      rw [h.changes.getElem?, if_pos rfl] at hr₁
      cases hr₁
      -- a request for a state settles nothing
      have hop := h.after
      simp only [Request.operation, hw] at hop
      cases hop
    · rw [h.changes.getElem?, if_neg hj] at hr₁
      exact (inv.reported j r₁ slot reply hr₁ hw hreply).mono (he.move inv.laned) he.grows
        inv.laned

section Refinement

variable {args : ServeArgs} (hargs : serve args = .ok policy)
  (hship : Ships host.toolchain host.streamModule streamMemory
    StreamCapitalize.streamCapitalize)

include hargs hship

theorem recorded_streams (h : ((machine host token policy).record returned).Reachable (s, ran)) :
    Streams host s ran := by
  refine h.record_invariant .initial fun s ran a s' inv hs => ?_
  have heffect := step_effect hs
  rcases heffect.deed (serve_served hargs) hship inv with hidle | ⟨id, r, r', op, hsettle⟩
  · exact hidle.streams heffect inv
  · exact hsettle.streams heffect inv

theorem reachable_streams (h : (machine host token policy).Reachable s) :
    ∃ ran, Streams host s ran :=
  (h.exists_record returned).imp fun _ => recorded_streams hargs hship

/-- In every reachable state of the lab, whatever requests, disconnects and
runners did, with `ran` what the drivers returned and `s.log ran` the append log after the
operations in the order in which the lane was assigned, a chunk being appended only if its
runner completed: every session is what the log has for it, its counters are
the number of its chunks, which is at most the number of its bytes, which is at
most the capacity; every reply to a chunk is the log's answer where the chunk
stands in the order, with the outcome of its runner, and every snapshot shows the log after
the operations up to some point of the order; callers receive these replies. -/
theorem sessions_refine_log
    (h : ((machine host token policy).record returned).Reachable (s, ran)) :
    (∀ slot, Represents (s.sessions slot) (s.log ran slot) ∧
      (s.sessions slot).nextSequence.toNat ≤ (s.sessions slot).accumulated.length ∧
      (s.sessions slot).accumulated.length ≤ streamStateBytes) ∧
    (∀ (id : Nat) r w reply, s.requests[id]? = some r → r.work = .chunk w →
      r.phase.reply? = some reply → Answered s ran id r w reply) ∧
    (∀ (id : Nat) r slot reply, s.requests[id]? = some r → r.work = .state slot →
      r.phase.reply? = some reply → Reported host s ran slot reply) ∧
    ∀ (id : Nat) r t reply, s.requests[id]? = some r → r.caller = .answered t reply →
      r.phase.reply? = some reply := by
  have inv := recorded_streams hargs hship h
  refine ⟨fun slot => ?_, inv.answered, inv.reported, reachable_sent h.of_record⟩
  have hrep := inv.sessions slot
  refine ⟨hrep, ?_, ?_⟩
  · rw [hrep.nextSequence, hrep.length]
    exact log_wellFormed.length_le_size slot
  · rw [hrep.length]
    exact log_wellFormed.bounded slot

end Refinement

/-! ## A run -/

/-- Sixteen "a". -/
def sampleToken : List UInt8 := List.replicate 16 97

/-- The chunk "Lo". -/
def sampleChunk : ValidChunk (defaultPolicy 131072) := ⟨⟨0, 0, [76, 111]⟩, by decide⟩

def sampleJob : Job := executeStreamProcess streamHost (defaultPolicy 131072) [] [76, 111]

/-- The chunk "Lo" has arrived. -/
def sampleArrived : State (defaultPolicy 131072) :=
  { State.initial (defaultPolicy 131072) with
    pending := 1
    requests := [⟨.chunk sampleChunk, .spawned 0, none, .connected⟩] }

/-- The chunk is being run, and its runner has written "LO". -/
def sampleState (status : Option Linux.ExitStatus) : State (defaultPolicy 131072) :=
  { State.initial (defaultPolicy 131072) with
    pending := 1
    lane := (Semaphore.new 1).acquire 0
    requests := [⟨.chunk sampleChunk, .executing ⟨0, 0, 0⟩ sampleJob .reading,
      some ⟨sampleJob.argv, sampleJob.stdin, [76, 79], false, status⟩, .connected⟩]
    order := [0] }

def sampleExit : Action := .process 0 (.exit (.code 0) sampleJob.stdin.length)

theorem sample_exit : step streamHost sampleToken (sampleState none) sampleExit =
    some (sampleState (some (.code 0))) := by
  have hmain : main streamHost sampleJob.argv (sampleJob.stdin.take sampleJob.stdin.length) =
      .ok [76, 79] := by
    rw [List.take_length]
    exact streamMain_eq (serve_served (serve_defaultArgs 131072)) streamHost_ships
      streamHost_confines (by decide) (by decide) (by decide)
  have hexit : step streamHost sampleToken (sampleState none) sampleExit = _ :=
    step_exit (c := ⟨sampleJob.argv, sampleJob.stdin, [76, 79], false, none⟩) rfl rfl rfl rfl hmain
  rw [hexit]
  rfl

/-- The lab with what its drivers returned. -/
abbrev sampleLab : Machine (State (defaultPolicy 131072) × List (Nat × ProcessResult)) Action :=
  (machine streamHost sampleToken (defaultPolicy 131072)).record returned

theorem sampleState_reachable : sampleLab.Reachable (sampleState (some (.code 0)), []) := by
  have harrived : sampleLab.Reachable (sampleArrived, []) :=
    Machine.Reachable.init.step (a := .arrive (some sampleToken) (.streamChunk sampleChunk.1)) rfl
  have hstart : sampleLab.Reachable (sampleState none, []) :=
    harrived.run (l := [.poll 0, .grant 0, .enter 0, .process 0 (.launch .spawned),
      .process 0 .write, .process 0 (.emit [76, 79])]) rfl
  exact hstart.record_step (a := sampleExit) (by rw [machine_step, sample_exit])

/-- A snapshot asked for while the chunk runs, and read after it has been
committed. -/
theorem sessions_refine_log_sample :
    ∃ s, sampleLab.Reachable (s, [(0, .success [76, 79])]) ∧
      (s.sessions ⟨0, by decide⟩).accumulated = [76, 79] ∧
      s.log [(0, .success [76, 79])] ⟨0, by decide⟩ = [[76, 111]] ∧
      ∃ r reply, s.requests[1]? = some r ∧ r.caller = .answered 0 reply ∧
        Reported streamHost s [(0, .success [76, 79])] ⟨0, by decide⟩ reply := by
  have hreach := sampleState_reachable.run (l := [.process 0 (.read true), .process 0 (.wait true),
    .arrive (some sampleToken) (.streamState 0), .settle 0, .read 1, .respond 1]) rfl
  have h := sessions_refine_log (serve_defaultArgs 131072) streamHost_ships hreach
  exact ⟨_, hreach, rfl, rfl, _, _, rfl, rfl, h.2.2.1 1 _ _ _ rfl rfl rfl⟩

end Lab
