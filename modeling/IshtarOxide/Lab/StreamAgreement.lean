import IshtarOxide.Lab.StreamBench
import IshtarOxide.Lab.Streams

/-!
# The stream benchmark and the lab agree

A `run_session` counts a chunk when it hears that the chunk is complete, the lab
when it commits it. As long as nobody else writes the session, the two never
differ but for a chunk whose answer is on its way.

* `Exclusive`: nobody else writes the sessions of the tasks.
* `Level`, `Awaited`, `Sync`: what the session is, compared with the task, when the
  task is waiting for an answer and when it is not.
* `Sync.step`: every step of the lab keeps it, whatever the answer is.
* `bench_agrees`: over whole runs, with what `run_scenario` finds at the end.
-/

open Guest

namespace Lab

variable {policy : Policy} {host : Host} {token : List UInt8} {scenario : Scenario}
  {s s' : State policy} {a : Action} {id : Nat} {t t' : Task} {r r' : Request policy}

/-! ## Tasks by themselves -/

theorem length_loremChunk (sequence : UInt64) (bytes : Nat) :
    (loremChunk sequence bytes).length = bytes := by
  simp [loremChunk]

/-- What a step of a task can do. -/
inductive Task.Effect (host : Host) (token : List UInt8) (scenario : Scenario) (s : State policy)
    (now : Nat) (t : Task) : State policy → Task → Prop
  | skip {index : Nat} {rest : List Nat} : t.phase = .looping → t.indices = index :: rest →
      Effect host token scenario s now t s { t.skip scenario index with indices := rest }
  | send {index : Nat} {rest : List Nat} : t.phase = .looping → t.indices = index :: rest →
      Effect host token scenario s now t s
        { t with indices := rest, phase := .awaiting index now none }
  | deliver {index started : Nat} : t.phase = .awaiting index started none →
      Effect host token scenario s now t
        (s.arrive host token (some scenario.token) (.streamChunk (t.request scenario)))
        { t with phase := .awaiting index started (some s.requests.length) }
  | receive {index started id : Nat} {reply : Reply} :
      t.phase = .awaiting index started (some id) → s.received id = some reply →
      Effect host token scenario s now t s (t.receive scenario index started now reply.answer)
  | abort : (∀ joined, t.phase ≠ .returned joined) →
      Effect host token scenario s now t s { t with phase := .failed }
  | finish : t.phase = .looping → t.indices = [] →
      Effect host token scenario s now t s { t with phase := .returned false }

theorem Task.step_effect {now : Nat} {a : TaskAction}
    (h : t.step host token scenario s now a = some (s', t')) :
    Task.Effect host token scenario s now t s' t' := by
  unfold Task.step at h
  split at h
  · next hp hi =>
    obtain ⟨_, h⟩ := Option.ite_none_right_eq_some.mp h
    cases h
    exact .skip hp hi
  · next hp hi =>
    obtain ⟨_, h⟩ := Option.ite_none_right_eq_some.mp h
    cases h
    exact .send hp hi
  · next hp =>
    cases h
    exact .deliver hp
  · next hp =>
    obtain ⟨reply, hreply, h⟩ := Option.map_eq_some_iff.mp h
    cases h
    exact .receive hp hreply
  · next hp =>
    cases h
    exact .abort fun joined hj => by rw [hp] at hj; cases hj
  · next hp =>
    cases h
    exact .abort fun joined hj => by rw [hp] at hj; cases hj
  · next hp hi =>
    cases h
    exact .finish hp hi
  · cases h

@[simp] theorem Task.ran_slot {outcome : String} : (t.ran scenario outcome).slot = t.slot := by
  unfold Task.ran
  split <;> rfl

theorem Task.Effect.slot {now : Nat} (h : Task.Effect host token scenario s now t s' t') :
    t'.slot = t.slot := by
  cases h with
  | receive hp hreply =>
    unfold Task.receive
    split
    · rfl
    · rfl
    · exact Task.ran_slot
  | _ => rfl

/-- What a task knows by itself: its remaining chunks fit, and its records agree
with what it expects. -/
structure Task.Sound (scenario : Scenario) (t : Task) : Prop where
  room : t.run.expected.length + scenario.chunkBytes * (t.indices.length + t.phase.inFlight) ≤
    streamStateBytes
  length : t.run.expected.length = scenario.chunkBytes * t.nextSequence.toNat
  records : ∀ record ∈ t.run.records, record.sessionSlot = t.slot
  completes : t.run.records.countP (·.completes t.slot.toNat) = t.nextSequence.toNat

theorem runSession_sound {slot : UInt16} {indices : List Nat} {omitted : Nat}
    (h : indices.length ≤ streamStateBytes / scenario.chunkBytes) :
    (runSession scenario slot indices omitted).Sound scenario where
  room := by
    have hmul := Nat.mul_le_mul_left scenario.chunkBytes h
    have hdiv := Nat.mul_div_le streamStateBytes scenario.chunkBytes
    simp only [runSession, TaskPhase.inFlight, List.length_nil, Nat.zero_add, Nat.add_zero]
    exact Nat.le_trans hmul hdiv
  length := by simp [runSession]
  records := by simp [runSession]
  completes := by simp [runSession]

section Sound

variable (hbytes : 1 ≤ scenario.chunkBytes)

/-- A record that is not of a completed chunk. -/
theorem Task.Sound.push {record : StreamChunkRecord} {t : Task} (h : t.Sound scenario)
    (hs : record.sessionSlot = t.slot) (ho : record.outcome ≠ "complete") :
    (t.push record).Sound scenario where
  room := h.room
  length := h.length
  records := by
    intro record' hmem
    rcases List.mem_append.mp hmem with hmem | hmem
    · exact h.records record' hmem
    · rw [List.mem_singleton.mp hmem]
      exact hs
  completes := by
    show (t.run.records ++ [record]).countP (StreamChunkRecord.completes t.slot.toNat) =
      t.nextSequence.toNat
    rw [List.countP_append, h.completes, List.countP_singleton, if_neg, Nat.add_zero]
    simp [StreamChunkRecord.completes, ho]

/-- The task goes on with what it knows, with no more to send than before. -/
theorem Task.Sound.congr {t t' : Task} (h : t.Sound scenario) (hslot : t'.slot = t.slot)
    (hexp : t'.run.expected = t.run.expected) (hrec : t'.run.records = t.run.records)
    (hseq : t'.nextSequence = t.nextSequence)
    (hroom : t'.indices.length + t'.phase.inFlight ≤ t.indices.length + t.phase.inFlight) :
    t'.Sound scenario where
  room := by
    rw [hexp]
    exact Nat.le_trans (Nat.add_le_add_left (Nat.mul_le_mul_left _ hroom) _) h.room
  length := by rw [hexp, hseq, h.length]
  records := by rw [hrec, hslot]; exact h.records
  completes := by rw [hrec, hslot, hseq, h.completes]

include hbytes

/-- The next sequence number does not wrap. -/
theorem Task.Sound.toNat_succ {t : Task} (h : t.Sound scenario) :
    (t.nextSequence + 1).toNat = t.nextSequence.toNat + 1 := by
  have hroom := Nat.le_trans (Nat.le_add_right _ _) h.room
  rw [h.length] at hroom
  have hle : t.nextSequence.toNat ≤ streamStateBytes :=
    Nat.le_trans (Nat.le_mul_of_pos_left _ hbytes) hroom
  have hsize : streamStateBytes = 1048576 := rfl
  rw [UInt64.toNat_add]
  exact Nat.mod_eq_of_lt (by rw [UInt64.toNat_one]; omega)

theorem Task.Sound.receive {index started now : Nat} {request : Option Nat}
    {answer : ServerAnswer} {t : Task} (h : t.Sound scenario)
    (hp : t.phase = .awaiting index started request) :
    (t.receive scenario index started now answer).Sound scenario := by
  have hloop : t.indices.length + TaskPhase.looping.inFlight ≤
      t.indices.length + t.phase.inFlight := Nat.add_le_add_left (Nat.zero_le _) _
  unfold Task.receive
  split
  · refine Task.Sound.push ?_ rfl (by simp)
    exact h.congr rfl rfl rfl rfl hloop
  · exact h.congr rfl rfl rfl rfl hloop
  · next body =>
    by_cases hc : body.outcome = "complete"
    · simp only [Task.ran, if_pos hc]
      have hroom := h.room
      rw [hp] at hroom
      refine ⟨?_, ?_, ?_, ?_⟩
      · -- the chunk that was in flight is now expected
        show (t.run.expected ++ upperAll _).length + scenario.chunkBytes * t.indices.length ≤ _
        have hone : scenario.chunkBytes * (t.indices.length + 1) =
          scenario.chunkBytes * t.indices.length + scenario.chunkBytes := Nat.mul_succ _ _
        rw [List.length_append, length_upperAll, Task.request, length_loremChunk]
        simp only [TaskPhase.inFlight, hone] at hroom
        omega
      · show (t.run.expected ++ upperAll _).length = scenario.chunkBytes * (t.nextSequence + 1).toNat
        rw [List.length_append, length_upperAll, Task.request, length_loremChunk, h.length,
          h.toNat_succ hbytes, Nat.mul_succ]
      · intro record hmem
        rcases List.mem_append.mp hmem with hmem | hmem
        · exact h.records record hmem
        · rw [List.mem_singleton.mp hmem]
          rfl
      · show (t.run.records ++ [_]).countP (StreamChunkRecord.completes t.slot.toNat) =
          (t.nextSequence + 1).toNat
        rw [List.countP_append, h.completes, h.toNat_succ hbytes, List.countP_singleton, if_pos]
        simp [StreamChunkRecord.completes, hc]
    · simp only [Task.ran, if_neg hc]
      -- the record of a chunk that did not complete changes no total of it
      refine Task.Sound.push ?_ rfl hc
      exact h.congr rfl rfl rfl rfl hloop

theorem Task.Effect.sound {now : Nat} {t t' : Task}
    (h : Task.Effect host token scenario s now t s' t') (ht : t.Sound scenario) :
    t'.Sound scenario := by
  cases h with
  | @skip index rest hp hi =>
    have hcount : Task.Sound scenario { t with run := { t.run with
        clientBackpressured := t.run.clientBackpressured + 1 } } :=
      ht.congr rfl rfl rfl rfl (Nat.le_refl _)
    have hskip : (t.skip scenario index).Sound scenario := hcount.push rfl (by simp)
    refine hskip.congr rfl rfl rfl rfl ?_
    show _ + t.phase.inFlight ≤ t.indices.length + t.phase.inFlight
    rw [hi]
    exact Nat.add_le_add_right (Nat.le_succ _) _
  | send hp hi =>
    refine ht.congr rfl rfl rfl rfl ?_
    rw [hp, hi]
    exact Nat.le_refl _
  | deliver hp =>
    refine ht.congr rfl rfl rfl rfl ?_
    rw [hp]
    exact Nat.le_refl _
  | receive hp hreply => exact ht.receive hbytes hp
  | abort hp => exact ht.congr rfl rfl rfl rfl (Nat.add_le_add_left (Nat.zero_le _) _)
  | finish hp hi => exact ht.congr rfl rfl rfl rfl (Nat.add_le_add_left (Nat.zero_le _) _)

end Sound

/-! ## A task and its session -/

/-- The session is what the task has. -/
structure InStep (t : Task) (session : StreamSession) : Prop where
  nextSequence : session.nextSequence = t.nextSequence
  chunks : session.chunks = t.nextSequence
  accumulated : session.accumulated = t.run.expected

/-- The session of the task, if there is one, is what the task has. -/
def Level (s : State policy) (t : Task) : Prop :=
  ∀ slot : Fin policy.sessionSlots, slot.val = t.slot.toNat → InStep t (s.sessions slot)

/-- The request `r` that the task waits for: refused before it did anything; not
answered, with the session as the task has it; or answered, with the session as the
task will have it when it hears of it. -/
inductive Awaited (scenario : Scenario) (s : State policy) (t : Task) (r : Request policy) : Prop
  | refused (e : LabError) : r.work = .answered → r.phase.reply? = some (.error e) →
      e ≠ .conflict → e ≠ .stateFull → Level s t → Awaited scenario s t r
  | pending (w : ValidChunk policy) : r.work = .chunk w → w.1 = t.request scenario →
      r.phase.reply? = none → Level s t → Awaited scenario s t r
  | ran (w : ValidChunk policy) (response : StreamChunkResponse) : r.work = .chunk w →
      w.1 = t.request scenario → r.phase.reply? = some (.chunk response) →
      Level s (t.ran scenario response.outcome.text) → Awaited scenario s t r

/-- The lab and the task. -/
def Sync (scenario : Scenario) (s : State policy) (t : Task) : Prop :=
  match t.phase with
  | .awaiting _ _ (some id) => ∃ r, s.requests[id]? = some r ∧ Awaited scenario s t r
  | .failed => True
  | _ => Level s t

/-- Nobody else writes the sessions of the tasks: a step that changes one is a step
of the request that its task waits for. -/
def Exclusive (host : Host) (token : List UInt8) (b : Bench policy) : BenchAction → Prop
  | .server a => ∀ s', step host token b.server a = some s' →
      ∀ t ∈ b.tasks, t.phase ≠ .failed →
        ∀ slot : Fin policy.sessionSlots, slot.val = t.slot.toNat →
          s'.sessions slot ≠ b.server.sessions slot →
            ∃ index started, t.phase = .awaiting index started (some a.id)
  | _ => True

theorem Level.congr (h : Level s t)
    (hs : ∀ slot : Fin policy.sessionSlots, slot.val = t.slot.toNat →
      s'.sessions slot = s.sessions slot) : Level s' t := by
  intro slot hslot
  rw [hs slot hslot]
  exact h slot hslot

theorem Awaited.congr (h : Awaited scenario s t r)
    (hs : ∀ slot : Fin policy.sessionSlots, slot.val = t.slot.toNat →
      s'.sessions slot = s.sessions slot) (hw : r'.work = r.work)
    (hreply : r'.phase.reply? = r.phase.reply?) : Awaited scenario s' t r' := by
  cases h with
  | refused e hwork hr hne₁ hne₂ hlevel =>
    exact .refused e (hw.trans hwork) (hreply.trans hr) hne₁ hne₂ (hlevel.congr hs)
  | pending w hwork hreq hr hlevel =>
    exact .pending w (hw.trans hwork) hreq (hreply.trans hr) (hlevel.congr hs)
  | ran w response hwork hreq hr hlevel =>
    refine .ran w response (hw.trans hwork) hreq (hreply.trans hr) (hlevel.congr fun slot hslot => ?_)
    exact hs slot (hslot.trans (by rw [Task.ran_slot]))

/-! ## Steps of the lab -/

theorem Represents.unique {session session' : StreamSession} {chunks : List (List UInt8)}
    (h : Represents session chunks) (h' : Represents session' chunks) : session' = session := by
  have hseq : session'.nextSequence = session.nextSequence :=
    UInt64.toNat_inj.mp (h'.nextSequence.trans h.nextSequence.symm)
  have hacc : session'.accumulated = session.accumulated := h'.accumulated.trans h.accumulated.symm
  have hchunks : session'.chunks = session.chunks := by rw [h'.chunks, h.chunks, hseq]
  cases session
  cases session'
  simp only at hseq hacc hchunks
  rw [hseq, hacc, hchunks]

/-- A session with one more chunk. -/
theorem InStep.append {session session' : StreamSession} {chunks : List (List UInt8)}
    {chunk : List UInt8} (hbytes : 1 ≤ scenario.chunkBytes) (ht : t.Sound scenario)
    (h : InStep t session) (hr : Represents session chunks)
    (hr' : Represents session' (chunks ++ [chunk])) (hc : chunk = (t.request scenario).chunk) :
    InStep (t.complete scenario) session' := by
  have hseq : session'.nextSequence = t.nextSequence + 1 := by
    refine UInt64.toNat_inj.mp ?_
    rw [hr'.nextSequence, ht.toNat_succ hbytes, List.length_append, ← hr.nextSequence,
      h.nextSequence]
    rfl
  refine ⟨hseq, hr'.chunks.trans hseq, ?_⟩
  show session'.accumulated = t.run.expected ++ upperAll (t.request scenario).chunk
  rw [hr'.accumulated, ← h.accumulated, hr.accumulated, hc, upperAll, upperAll, upperAll,
    List.flatten_append, List.flatten_singleton, List.map_append]

/-- The operation of a chunk. -/
theorem operation_chunk {result : Option ProcessResult} {w : ValidChunk policy}
    {op : Log.Operation policy.sessionSlots UInt8} (hw : r.work = .chunk w)
    (h : r.operation result = some op) : ∃ reply, r.phase.reply? = some reply ∧
      op = .append w.slot w.1.sequence.toNat w.1.chunk (result.map ProcessResult.outcome) := by
  cases hreply : r.phase.reply? with
  | none =>
    rw [operation_eq_none hreply] at h
    cases h
  | some reply =>
    simp only [Request.operation, hw, hreply] at h
    cases h
    exact ⟨reply, rfl, rfl⟩

section Server

variable {ran ran' : List (Nat × ProcessResult)} (hbytes : 1 ≤ scenario.chunkBytes)
  (inv : Streams host s ran)

include hbytes inv

/-- The chunk that the task waits for is settled. It is the next one of its session
and there is room for it, so it ran. -/
theorem Settles.awaited {op : Log.Operation policy.sessionSlots UInt8} {w : ValidChunk policy}
    (hset : Settles s s' ran ran' id r r' op) (ht : t.Sound scenario)
    (hflight : t.phase.inFlight = 1) (hw : r.work = .chunk w) (hreq : w.1 = t.request scenario)
    (hlevel : Level s t) : Awaited scenario s' t r' := by
  have hslot : w.slot.val = t.slot.toNat := by
    show w.1.sessionSlot.toNat = _
    rw [hreq]
    rfl
  have hin := hlevel w.slot hslot
  -- the session is where the task thinks it is, and the chunk in flight has its room
  have hfits : Fits s w := by
    refine ⟨by rw [hreq, hin.nextSequence]; rfl, ?_⟩
    have hroom := ht.room
    rw [hflight, Nat.mul_succ] at hroom
    rw [hin.accumulated, hreq, Task.request, length_loremChunk]
    omega
  have hw' : r'.work = .chunk w := hset.changes.keeps.work.trans hw
  obtain ⟨reply, hreply, rfl⟩ := operation_chunk hw' hset.after
  have hagrees := hset.agrees w reply hw hreply
  rw [answer_fits inv.sessions hfits] at hagrees
  obtain ⟨response, rfl, hrunner, _⟩ := hagrees
  refine .ran w response hw' hreq hreply fun slot hslot' => ?_
  rw [Task.ran_slot, ← hslot] at hslot'
  obtain rfl := Fin.ext hslot'
  have hrep := hset.sessions w.slot
  rw [apply_fits inv.sessions hfits, hrunner] at hrep
  unfold Task.ran
  split at hrep
  · next hc =>
    rw [if_pos (Outcome.text_eq_complete.mpr (Option.some.inj hc))]
    rw [Function.update_self] at hrep
    exact hin.append hbytes ht (inv.sessions w.slot) hrep (by rw [hreq])
  · next hc =>
    rw [if_neg fun h => hc (congrArg some (Outcome.text_eq_complete.mp h)),
      (inv.sessions w.slot).unique hrep]
    exact ⟨hin.nextSequence, hin.chunks, hin.accumulated⟩

/-- Every step of the lab in which nobody else writes the session of the task. -/
theorem Sync.step (hserved : policy.Served)
    (hship : Ships host.toolchain host.streamModule streamMemory
      StreamCapitalize.streamCapitalize)
    (ht : t.Sound scenario) (h : Sync scenario s t) (hs : step host token s a = some s')
    (hex : ∀ slot : Fin policy.sessionSlots, slot.val = t.slot.toNat →
      s'.sessions slot ≠ s.sessions slot →
        ∃ index started, t.phase = .awaiting index started (some a.id)) :
    Sync scenario s' t := by
  have heffect := step_effect hs
  have hm := heffect.move inv.laned
  have hother : (∀ index started, t.phase ≠ .awaiting index started (some a.id)) →
      ∀ slot : Fin policy.sessionSlots, slot.val = t.slot.toNat →
        s'.sessions slot = s.sessions slot := by
    intro hne slot hslot
    by_contra hchanged
    obtain ⟨index, started, hp⟩ := hex slot hslot hchanged
    exact hne index started hp
  unfold Sync at h ⊢
  split
  · next index started id hp =>
    rw [hp] at h
    obtain ⟨r, hr, haw⟩ := h
    obtain ⟨r', hr', hk⟩ := hm.request hr
    refine ⟨r', hr', ?_⟩
    rcases heffect.deed hserved hship inv with hidle | ⟨id₀, r₀, r₀', op, hset⟩
    · -- nothing was settled: what the request has as its reply, it had before
      refine haw.congr (fun slot _ => by rw [hidle.sessions]) hk.work ?_
      cases hreply' : r'.phase.reply? with
      | none =>
        cases hreply : r.phase.reply? with
        | none => rfl
        | some reply =>
          rw [(hk.settled (Phase.settled_of_reply hreply)).2, hreply] at hreply'
          cases hreply'
      | some reply =>
        obtain ⟨r₁, hr₁, _, hold⟩ | hans | ⟨slot, hstate, _⟩ :=
          hidle.replies id r' reply hr' hreply'
        · rw [hr] at hr₁
          cases hr₁
          exact hold.symm
        · cases haw with
          | refused e _ hold => rw [← hreply', (hk.settled (Phase.settled_of_reply hold)).2]
          | pending w hw => rw [hk.work, hw] at hans; cases hans
          | ran w _ hw => rw [hk.work, hw] at hans; cases hans
        · rw [hk.work] at hstate
          cases haw with
          | refused e hw => rw [hw] at hstate; cases hstate
          | pending w hw => rw [hw] at hstate; cases hstate
          | ran w _ hw => rw [hw] at hstate; cases hstate
    · by_cases hid : id₀ = id
      · subst hid
        have hr₀ := hset.changes.before
        rw [hr] at hr₀
        cases hr₀
        rw [hset.changes.getElem?, if_pos rfl] at hr'
        cases hr'
        cases haw with
        | refused e hw =>
          have hop := hset.after
          simp only [Request.operation, hk.work, hw] at hop
          cases hop
        | pending w hw hreq _ hlevel =>
          exact hset.awaited hbytes inv ht (by rw [hp]; rfl) hw hreq hlevel
        | ran w response hw _ hreply =>
          have hnone := hset.before
          rw [hreply] at hnone
          cases hnone
      · rw [hset.changes.getElem?, if_neg hid, hr] at hr'
        cases hr'
        refine haw.congr (fun slot hslot => ?_) rfl rfl
        -- the step is about the request that was settled
        refine hother (fun index' started' hp' => ?_) slot hslot
        rw [hp] at hp'
        cases hp'
        have hr₀ := step_others hs hid hset.changes.before
        rw [hset.changes.getElem?, if_pos rfl] at hr₀
        cases hr₀
        have hop := hset.after
        rw [operation_eq_none hset.before] at hop
        cases hop
  · trivial
  · next hne₁ hne₂ =>
    have hlevel : Level s t := by
      revert h
      split
      · next id hp => exact absurd hp (hne₁ _ _ id)
      · next hp => exact absurd hp hne₂
      · exact fun h => h
    exact hlevel.congr (hother fun index started hp => hne₁ index started a.id hp)

end Server

/-! ## Steps of the tasks -/

theorem arrive_sessions (host : Host) (token : List UInt8) (s : State policy)
    (header : Option (List UInt8)) (call : Call) :
    (s.arrive host token header call).sessions = s.sessions := by
  unfold State.arrive State.accept
  repeat' split
  all_goals rfl

/-- How a chunk is received. -/
theorem Entrance.chunk_request {request : StreamChunkRequest}
    (h : Entrance host s (.streamChunk request) s') :
    ∃ r, s'.requests = s.requests ++ [r] ∧
      ((∃ e, r.work = .answered ∧ r.phase.reply? = some (.error e) ∧ e ≠ .conflict ∧
        e ≠ .stateFull) ∨
      ∃ h : request.valid policy, r.work = .chunk ⟨request, h⟩ ∧ r.phase.reply? = none) := by
  cases h with
  | refuse e he =>
    refine ⟨_, rfl, .inl ⟨e, rfl, rfl, ?_, ?_⟩⟩
    · rintro rfl
      simp at he
    · rintro rfl
      simp at he
  | chunk w =>
    unfold State.accept
    split
    · exact ⟨_, rfl, .inr ⟨w.2, rfl, rfl⟩⟩
    · exact ⟨_, rfl, .inl ⟨.tooMany, rfl, rfl, nofun, nofun⟩⟩

/-- The request for the state of `slot`: refused, or answered with the session as it
still is. -/
inductive Asked (host : Host) (s : State policy) (slot : Nat) (r : Request policy) : Prop
  | refused (e : LabError) : r.work = .answered → r.phase.reply? = some (.error e) →
      Asked host s slot r
  | reading (i : Fin policy.sessionSlots) : r.work = .state i → i.val = slot →
      (∀ reply, r.phase.reply? = some reply → reply = s.stateReply host i) → Asked host s slot r

theorem Entrance.asked {slot : Nat} (h : Entrance host s (.streamState (.ofNat slot)) s')
    (hslot : slot < 65536) : ∃ r, s'.requests = s.requests ++ [r] ∧ Asked host s' slot r := by
  cases h with
  | refuse e => exact ⟨_, rfl, .refused e rfl rfl⟩
  | state h => exact ⟨_, rfl, .reading ⟨_, h⟩ rfl (Nat.mod_eq_of_lt hslot) nofun⟩

theorem Level.of_eq (h : Level s t) (hslot : t'.slot = t.slot)
    (hseq : t'.nextSequence = t.nextSequence) (hexp : t'.run.expected = t.run.expected) :
    Level s t' := by
  intro slot hs
  rw [hslot] at hs
  obtain ⟨h₁, h₂, h₃⟩ := h slot hs
  exact ⟨by rw [hseq, h₁], by rw [hseq, h₂], by rw [hexp, h₃]⟩

/-- What a task hears brings it up with its session. -/
theorem Awaited.receive {index started now : Nat} {reply : Reply}
    (h : Awaited scenario s t r) (hreply : r.phase.reply? = some reply) :
    Sync scenario s (t.receive scenario index started now reply.answer) := by
  cases h with
  | refused e _ hold _ _ hlevel =>
    rw [hold] at hreply
    cases hreply
    cases e with
    | tooMany => exact hlevel.of_eq rfl rfl rfl
    | badRequest | unauthorized | conflict | stateFull | internal => trivial
  | pending w _ _ hold =>
    rw [hold] at hreply
    cases hreply
  | ran w response _ _ hold hlevel =>
    rw [hold] at hreply
    cases hreply
    exact hlevel.of_eq rfl rfl rfl

theorem Task.Effect.sync {now : Nat} (h : Task.Effect host token scenario s now t s' t')
    (hsent : s.Sent) (ht : Sync scenario s t) : Sync scenario s' t' := by
  cases h with
  | skip hp hi =>
    simp only [Sync, hp] at ht
    simp only [Sync, Task.skip, Task.push, hp]
    exact ht.of_eq rfl rfl rfl
  | send hp hi =>
    simp only [Sync, hp] at ht
    exact ht.of_eq rfl rfl rfl
  | deliver hp =>
    simp only [Sync, hp] at ht
    obtain ⟨r, hpush, hr⟩ := (arrive_entrance host token s (some scenario.token)
      (.streamChunk (t.request scenario))).chunk_request
    refine ⟨r, by rw [hpush, List.getElem?_concat_length], ?_⟩
    have hlevel : Level (s.arrive host token (some scenario.token)
        (.streamChunk (t.request scenario))) t := ht.congr fun slot _ => by rw [arrive_sessions]
    rcases hr with ⟨e, hw, hreply, hne₁, hne₂⟩ | ⟨hvalid, hw, hreply⟩
    · exact .refused e hw hreply hne₁ hne₂ (hlevel.of_eq rfl rfl rfl)
    · exact .pending _ hw rfl hreply (hlevel.of_eq rfl rfl rfl)
  | receive hp hreply =>
    simp only [Sync, hp] at ht
    obtain ⟨r, hr, haw⟩ := ht
    obtain ⟨r', time, hr', hc⟩ := received_eq hreply
    rw [hr] at hr'
    cases hr'
    exact haw.receive (hsent _ r time _ hr hc)
  | abort hp => trivial
  | finish hp hi =>
    simp only [Sync, hp] at ht
    exact ht.of_eq rfl rfl rfl

/-! ## Steps of the scenario -/

/-- What a step of `run_scenario` can do. -/
inductive Bench.Effect (host : Host) (token : List UInt8) (scenario : Scenario)
    (b : Bench policy) : Bench policy → Prop
  | join {k : Nat} {t : Task} {tally : Tally} : b.driver = .joining tally →
      b.tasks[k]? = some t → t.phase = .returned false →
      Effect host token scenario b { b with
        tasks := b.tasks.set k { t with phase := .returned true }
        driver := .joining (tally.join t.slot t.run) }
  | fail : Effect host token scenario b { b with driver := .failed }
  | verify {tally : Tally} : b.driver = .joining tally →
      (∀ t ∈ b.tasks, t.phase = .returned true) →
      Effect host token scenario b { b with driver := .verifying tally.sort 0 none 0 0 }
  | ask {tally : Tally} {slot verified mismatches : Nat} :
      b.driver = .verifying tally slot none verified mismatches →
      slot < tally.expected.length → slot < 65536 →
      Effect host token scenario b { b with
        server := b.server.arrive host token (some scenario.token) (.streamState (.ofNat slot))
        driver := .verifying tally slot (some b.server.requests.length) verified mismatches }
  | receive {tally : Tally} {slot id verified mismatches : Nat} {reply : Reply} :
      b.driver = .verifying tally slot (some id) verified mismatches →
      b.server.received id = some reply →
      Effect host token scenario b
        { b with driver := .verify host.sha256 tally slot verified mismatches reply.state? }
  | conclude {tally : Tally} {slot verified mismatches : Nat} :
      b.driver = .verifying tally slot none verified mismatches → slot = tally.expected.length →
      Effect host token scenario b
        { b with driver := .returned (tally.report scenario verified mismatches) }

theorem drive_effect {b b' : Bench policy} {a : DriverAction}
    (h : b.drive host token scenario a = some b') : Bench.Effect host token scenario b b' := by
  cases a with
  | join k =>
    obtain ⟨c, hc, rfl⟩ := Option.map_eq_some_iff.mp h
    obtain ⟨tally, t, hd, ht, ⟨hp, rfl⟩ | ⟨-, rfl⟩⟩ := Client.join_eq_some hc
    · exact .join hd ht hp
    · exact .fail
  | verify =>
    obtain ⟨c, hc, rfl⟩ := Option.map_eq_some_iff.mp h
    obtain ⟨tally, hd, hall, rfl⟩ := Client.joined_eq_some hc
    exact .verify hd hall
  | conclude =>
    obtain ⟨c, hc, rfl⟩ := Option.map_eq_some_iff.mp h
    obtain ⟨tally, slot, verified, mismatches, hd, hslot, rfl⟩ := Client.conclude_eq_some hc
    exact .conclude hd hslot
  | ask =>
    simp only [Bench.drive] at h
    split at h
    · next hd =>
      obtain ⟨hlt, h⟩ := Option.ite_none_right_eq_some.mp h
      split at h
      · next hpath =>
        cases h
        exact .ask hd hlt hpath
      · cases h
        exact .fail
    · cases h
  | receive =>
    simp only [Bench.drive] at h
    split at h
    · next hd =>
      obtain ⟨reply, hreply, h⟩ := Option.map_eq_some_iff.mp h
      cases h
      exact .receive hd hreply
    · cases h
  | abort =>
    simp only [Bench.drive] at h
    split at h
    · cases h
      exact .fail
    · cases h

theorem map_slot_set {tasks : List Task} {k : Nat} (ht : tasks[k]? = some t)
    (hslot : t'.slot = t.slot) : (tasks.set k t').map (·.slot) = tasks.map (·.slot) := by
  obtain ⟨hlt, rfl⟩ := List.getElem?_eq_some_iff.mp ht
  refine List.ext_getElem? fun j => ?_
  rw [List.getElem?_map, List.getElem?_map, List.getElem?_set]
  split
  · next hj =>
    subst hj
    rw [ht, Option.map_some, Option.map_some, hslot]
  · rfl

/-! ## Steps of the benchmark -/

/-- What a step of the benchmark can do. -/
inductive Bench.Does (host : Host) (token : List UInt8) (scenario : Scenario) (b : Bench policy) :
    BenchAction → Bench policy → Prop
  | server {a : Action} {s' : State policy} : Lab.step host token b.server a = some s' →
      Does host token scenario b (.server a) { b with server := s' }
  | tick {d : Nat} : Does host token scenario b (.tick d) { b with now := b.now + d }
  | task {k : Nat} {a : TaskAction} {t t' : Task} {s' : State policy} : b.tasks[k]? = some t →
      Task.Effect host token scenario b.server b.now t s' t' →
      Does host token scenario b (.task k a) { b with server := s', tasks := b.tasks.set k t' }
  | drive {a : DriverAction} {b' : Bench policy} : Bench.Effect host token scenario b b' →
      Does host token scenario b (.drive a) b'

section Steps

variable {b b' : Bench policy} {a : BenchAction} (hs : b.step host token scenario a = some b')

include hs

theorem Bench.step_does : Bench.Does host token scenario b a b' := by
  cases a with
  | server a =>
    obtain ⟨s', hstep, rfl⟩ := Option.map_eq_some_iff.mp hs
    exact .server hstep
  | tick d =>
    cases hs
    exact .tick
  | task k a =>
    obtain ⟨t, ht, hs⟩ := Option.bind_eq_some_iff.mp hs
    obtain ⟨⟨s', t'⟩, hstep, rfl⟩ := Option.map_eq_some_iff.mp hs
    exact .task ht (Task.step_effect hstep)
  | drive a => exact .drive (drive_effect hs)

/-- What the lab does in a step of the benchmark. The tasks send it their chunks, and the
scenario asks it for sessions. -/
theorem bench_server {P : Action → Prop} (hserver : ∀ x, a = .server x → P x)
    (hchunk : ∀ t : Task, P (.arrive (some scenario.token) (.streamChunk (t.request scenario))))
    (hstate : ∀ slot, P (.arrive (some scenario.token) (.streamState slot))) :
    b'.server = b.server ∨ ∃ x, Lab.step host token b.server x = some b'.server ∧ P x := by
  cases Bench.step_does hs with
  | server hstep => exact .inr ⟨_, hstep, hserver _ rfl⟩
  | tick => exact .inl rfl
  | task ht heffect =>
    cases heffect with
    | deliver hp => exact .inr ⟨_, rfl, hchunk _⟩
    | _ => exact .inl rfl
  | drive heffect =>
    cases heffect with
    | ask hd hlt hpath => exact .inr ⟨_, rfl, hstate _⟩
    | _ => exact .inl rfl

/-- What every step of a task keeps, every step of the benchmark keeps of all of them. -/
theorem bench_tasks {P : Task → Prop}
    (heffect : ∀ (s : State policy) now t s' t', Task.Effect host token scenario s now t s' t' →
      P t → P t')
    (hjoin : ∀ t, t.phase = .returned false → P t → P { t with phase := .returned true })
    (h : ∀ t ∈ b.tasks, P t) : ∀ t ∈ b'.tasks, P t := by
  intro t' ht'
  cases Bench.step_does hs with
  | server => exact h t' ht'
  | tick => exact h t' ht'
  | task ht hstep =>
    rcases List.mem_or_eq_of_mem_set ht' with hold | rfl
    · exact h t' hold
    · exact heffect _ _ _ _ _ hstep (h _ (List.mem_of_getElem? ht))
  | drive hdrive =>
    cases hdrive with
    | join hd ht hp =>
      rcases List.mem_or_eq_of_mem_set ht' with hold | rfl
      · exact h t' hold
      · exact hjoin _ hp (h _ (List.mem_of_getElem? ht))
    | _ => exact h t' ht'

/-- Every task keeps its session. -/
theorem bench_slots : b'.tasks.map (·.slot) = b.tasks.map (·.slot) := by
  cases Bench.step_does hs with
  | task ht heffect => exact map_slot_set ht heffect.slot
  | drive heffect =>
    cases heffect with
    | join hd ht hp => exact map_slot_set ht rfl
    | _ => rfl
  | _ => rfl

end Steps

/-! ## Runs -/

/-- The invariant of a scenario next to the lab. -/
structure Agreement (host : Host) (token : List UInt8) (scenario : Scenario) (slots : List UInt16)
    (b : Bench policy) : Prop where
  reachable : (machine host token policy).Reachable b.server
  slots : b.tasks.map (·.slot) = slots
  sound : ∀ t ∈ b.tasks, t.Sound scenario
  sync : ∀ t ∈ b.tasks, Sync scenario b.server t

section Runs

variable {args : ServeArgs} (hargs : serve args = .ok policy)
  (hship : Ships host.toolchain host.streamModule streamMemory
    StreamCapitalize.streamCapitalize)
  (hbytes : 1 ≤ scenario.chunkBytes) {slots : List UInt16} {b b' : Bench policy}
  {tasks : List Task}

include hargs hship hbytes

/-- A task is left alone by an arrival. -/
theorem Sync.arrive (hreach : (machine host token policy).Reachable s) (ht : t.Sound scenario)
    (h : Sync scenario s t) (header : Option (List UInt8)) (call : Call) :
    Sync scenario (s.arrive host token header call) t := by
  have hs : Lab.step host token s (.arrive header call) = some (s.arrive host token header call) :=
    rfl
  obtain ⟨ran, inv⟩ := reachable_streams hargs hship hreach
  refine h.step hbytes inv (serve_served hargs) hship ht hs
    fun slot _ hne => absurd ?_ hne
  rw [arrive_sessions]

theorem Agreement.step {a : BenchAction} (inv : Agreement host token scenario slots b)
    (hex : Exclusive host token b a) (hs : b.step host token scenario a = some b') :
    Agreement host token scenario slots b' where
  reachable := by
    have hserver := bench_server (P := fun _ => True) hs (fun _ _ => trivial) (fun _ => trivial)
      fun _ => trivial
    rcases hserver with hsame | ⟨x, hstep, -⟩
    · rw [hsame]
      exact inv.reachable
    · exact inv.reachable.step hstep
  slots := (bench_slots hs).trans inv.slots
  sound := by
    refine bench_tasks hs (fun _ _ _ _ _ heffect ht => heffect.sound hbytes ht)
      (fun t hp ht => ht.congr rfl rfl rfl rfl ?_) inv.sound
    rw [hp]
    exact Nat.le_refl _
  sync := by
    intro t₁ ht₁
    cases Bench.step_does hs with
    | server hstep =>
      by_cases hfailed : t₁.phase = .failed
      · simp only [Sync, hfailed]
      · obtain ⟨ran, hstreams⟩ := reachable_streams hargs hship inv.reachable
        exact (inv.sync t₁ ht₁).step hbytes hstreams (serve_served hargs)
          hship (inv.sound t₁ ht₁) hstep (hex _ hstep t₁ ht₁ hfailed)
    | tick => exact inv.sync t₁ ht₁
    | task ht heffect =>
      rcases List.mem_or_eq_of_mem_set ht₁ with hold | rfl
      · -- of another task, only an arrival is seen
        cases heffect with
        | deliver hp =>
          exact (inv.sync t₁ hold).arrive hargs hship hbytes inv.reachable (inv.sound t₁ hold) _ _
        | _ => exact inv.sync t₁ hold
      · exact heffect.sync (reachable_sent inv.reachable) (inv.sync _ (List.mem_of_getElem? ht))
    | drive heffect =>
      cases heffect with
      | join hd ht hp =>
        rcases List.mem_or_eq_of_mem_set ht₁ with hold | rfl
        · exact inv.sync t₁ hold
        · have hlevel := inv.sync _ (List.mem_of_getElem? ht)
          simp only [Sync, hp] at hlevel
          exact hlevel.of_eq rfl rfl rfl
      | ask hd hlt hpath =>
        exact (inv.sync t₁ ht₁).arrive hargs hship hbytes inv.reachable (inv.sound t₁ ht₁) _ _
      | _ => exact inv.sync t₁ ht₁

theorem reachable_agreement (hreach : (machine host token policy).Reachable s)
    (hsound : ∀ t ∈ tasks, t.Sound scenario) (hsync : ∀ t ∈ tasks, Sync scenario s t)
    (h : (benchMachine host token scenario s tasks).ReachableWhen (Exclusive host token) b) :
    Agreement host token scenario (tasks.map (·.slot)) b := by
  refine h.invariant (P := Agreement host token scenario (tasks.map (·.slot))) ?_
    fun b a b' inv hex hs => inv.step hargs hship hbytes hex hs
  exact ⟨hreach, rfl, hsound, hsync⟩

end Runs

/-! ## Verification -/

theorem stateReply_congr {i : Fin policy.sessionSlots} (h : s'.sessions i = s.sessions i) :
    s'.stateReply host i = s.stateReply host i := by
  unfold State.stateReply
  rw [h]

theorem Asked.step {slot : Nat} {ran : List (Nat × ProcessResult)} (hserved : policy.Served)
    (hship : Ships host.toolchain host.streamModule streamMemory
      StreamCapitalize.streamCapitalize)
    (inv : Streams host s ran) (hs : Lab.step host token s a = some s')
    (hsame : ∀ i : Fin policy.sessionSlots, i.val = slot → s'.sessions i = s.sessions i)
    (hr : s.requests[id]? = some r) (h : Asked host s slot r) :
    ∃ r', s'.requests[id]? = some r' ∧ Asked host s' slot r' := by
  have heffect := step_effect hs
  obtain ⟨r', hr', hk⟩ := (heffect.move inv.laned).request hr
  refine ⟨r', hr', ?_⟩
  cases h with
  | refused e hw hreply =>
    refine .refused e (hk.work.trans hw) ?_
    rw [(hk.settled (Phase.settled_of_reply hreply)).2, hreply]
  | reading i hw hi hread =>
    refine .reading i (hk.work.trans hw) hi fun reply hreply' => ?_
    rw [stateReply_congr (hsame i hi)]
    cases hreply : r.phase.reply? with
    | some reply₁ =>
      rw [(hk.settled (Phase.settled_of_reply hreply)).2] at hreply'
      exact hread reply hreply'
    | none =>
      rcases heffect.deed hserved hship inv with hidle | ⟨id₀, r₀, r₀', op, hset⟩
      · obtain ⟨r₁, hr₁, _, hold⟩ | hans | ⟨i', hstate, rfl⟩ :=
          hidle.replies id r' reply hr' hreply'
        · rw [hr] at hr₁
          cases hr₁
          rw [hreply] at hold
          cases hold
        · rw [hk.work, hw] at hans
          cases hans
        · rw [hk.work, hw] at hstate
          cases hstate
          rfl
      · -- a request for a state settles nothing, and no other request is changed
        rw [hset.changes.getElem?] at hr'
        split at hr'
        · cases hr'
          have hop := hset.after
          simp only [Request.operation, hk.work, hw] at hop
          cases hop
        · rw [hr] at hr'
          cases hr'
          rw [hreply] at hreply'
          cases hreply'

/-- How far the verification can be. -/
def Driver.Bounded (scenario : Scenario) : Driver → Prop
  | .joining tally => tally.expected.length = scenario.sessionCount
  | .verifying tally slot request _ _ => tally.expected.length = scenario.sessionCount ∧
      slot ≤ 65536 ∧ ∀ id, request = some id → slot < scenario.sessionCount ∧ slot < 65536
  | .returned _ => scenario.sessionCount ≤ 65536
  | .failed => True

theorem Bench.Effect.bounded {b b' : Bench policy} (h : Bench.Effect host token scenario b b')
    (inv : b.driver.Bounded scenario) : b'.driver.Bounded scenario := by
  cases h with
  | join hd ht hp =>
    rw [hd] at inv
    exact (List.length_set ..).trans inv
  | fail => trivial
  | verify hd hall =>
    rw [hd] at inv
    exact ⟨inv, Nat.zero_le _, nofun⟩
  | ask hd hlt hpath =>
    rw [hd] at inv
    exact ⟨inv.1, inv.2.1, fun _ _ => ⟨inv.1 ▸ hlt, hpath⟩⟩
  | receive hd hreply =>
    rw [hd] at inv
    obtain ⟨hlen, _, hask⟩ := inv
    obtain ⟨_, hpath⟩ := hask _ rfl
    show Driver.Bounded scenario (Driver.verify ..)
    unfold Driver.verify
    split
    · split
      · exact ⟨hlen, hpath, nofun⟩
      · exact ⟨hlen, hpath, nofun⟩
    · trivial
  | conclude hd hslot =>
    rw [hd] at inv
    show scenario.sessionCount ≤ 65536
    rw [← inv.1, ← hslot]
    exact inv.2.1

theorem step_bounded {b b' : Bench policy} {a : BenchAction} (inv : b.driver.Bounded scenario)
    (hs : b.step host token scenario a = some b') : b'.driver.Bounded scenario := by
  cases Bench.step_does hs with
  | drive heffect => exact heffect.bounded inv
  | _ => exact inv

/-- What has been collected from the tasks that were joined. -/
structure Joined (tasks : List Task) (tally : Tally) : Prop where
  expected : ∀ (k : Nat) t, tasks[k]? = some t → t.phase = .returned true →
    tally.expected[k]? = some t.run.expected
  completed : ∀ (k : Nat) t, tasks[k]? = some t →
    tally.records.countP (·.completes k) =
      if t.phase = .returned true then t.nextSequence.toNat else 0

/-- Every session that was looked at was as expected. -/
def Verifies (host : Host) (scenario : Scenario) (b : Bench policy) : Prop :=
  match b.driver with
  | .joining tally => Joined b.tasks tally
  | .verifying tally slot request verified mismatches =>
    Joined b.tasks tally ∧ (∀ t ∈ b.tasks, t.phase = .returned true) ∧ verified = slot ∧
      mismatches = 0 ∧ ∀ id, request = some id →
        ∃ r, b.server.requests[id]? = some r ∧ Asked host b.server slot r
  | .returned report => report.verifiedSessions = scenario.sessionCount ∧ report.stateMismatches = 0
  | .failed => True

theorem Task.Effect.unjoined {now : Nat} (h : Task.Effect host token scenario s now t s' t') :
    t.phase ≠ .returned true ∧ t'.phase ≠ .returned true := by
  cases h with
  | skip hp hi =>
    refine ⟨by rw [hp]; exact TaskPhase.noConfusion, ?_⟩
    show t.phase ≠ _
    rw [hp]
    exact TaskPhase.noConfusion
  | receive hp hreply =>
    refine ⟨by rw [hp]; exact TaskPhase.noConfusion, ?_⟩
    unfold Task.receive
    split <;> exact TaskPhase.noConfusion
  | abort hp => exact ⟨hp true, TaskPhase.noConfusion⟩
  | finish hp hi =>
    refine ⟨by rw [hp]; exact TaskPhase.noConfusion, fun h => ?_⟩
    cases h
  | send hp hi => exact ⟨by rw [hp]; exact TaskPhase.noConfusion, TaskPhase.noConfusion⟩
  | deliver hp => exact ⟨by rw [hp]; exact TaskPhase.noConfusion, TaskPhase.noConfusion⟩

section Joined

variable {tasks : List Task} {tally : Tally} {k : Nat}

/-- Only joined tasks count. -/
theorem Joined.set (h : Joined tasks tally) (ht : tasks[k]? = some t)
    (hp : t.phase ≠ .returned true) (hp' : t'.phase ≠ .returned true) :
    Joined (tasks.set k t') tally where
  expected := by
    intro j t₁ ht₁ hj
    rw [List.getElem?_set] at ht₁
    split at ht₁
    · split at ht₁
      · cases ht₁
        exact absurd hj hp'
      · cases ht₁
    · exact h.expected j t₁ ht₁ hj
  completed := by
    intro j t₁ ht₁
    rw [List.getElem?_set] at ht₁
    split at ht₁
    · next heq =>
      subst heq
      split at ht₁
      · cases ht₁
        rw [h.completed k t ht, if_neg hp, if_neg hp']
      · cases ht₁
    · exact h.completed j t₁ ht₁

/-- The records of another session. -/
theorem Task.Sound.completes_other {j : Nat} (h : t.Sound scenario) (hj : t.slot.toNat ≠ j) :
    t.run.records.countP (·.completes j) = 0 := by
  refine List.countP_eq_zero.mpr fun record hmem => ?_
  simp [StreamChunkRecord.completes, h.records record hmem, hj]

theorem Joined.join (h : Joined tasks tally) (hsound : t.Sound scenario)
    (ht : tasks[k]? = some t) (hp : t.phase = .returned false) (hslot : t.slot.toNat = k)
    (hlt : k < tally.expected.length) :
    Joined (tasks.set k { t with phase := .returned true }) (tally.join t.slot t.run) where
  expected := by
    intro j t₁ ht₁ hj
    show (tally.expected.set t.slot.toNat t.run.expected)[j]? = _
    rw [List.getElem?_set] at ht₁
    rw [hslot, List.getElem?_set]
    split at ht₁
    · next heq =>
      split at ht₁
      · cases ht₁
        rw [if_pos heq, if_pos hlt]
      · cases ht₁
    · next hne =>
      rw [if_neg hne]
      exact h.expected j t₁ ht₁ hj
  completed := by
    intro j t₁ ht₁
    show (tally.records ++ t.run.records).countP (StreamChunkRecord.completes j) = _
    rw [List.countP_append]
    rw [List.getElem?_set] at ht₁
    split at ht₁
    · next heq =>
      subst heq
      split at ht₁
      · cases ht₁
        -- the task counted its own completed chunks
        have hown := hsound.completes
        rw [hslot] at hown
        rw [h.completed k t ht, hown, hp, if_neg (by decide), if_pos rfl, Nat.zero_add]
      · cases ht₁
    · next hne =>
      rw [h.completed j t₁ ht₁, hsound.completes_other (by rw [hslot]; exact hne), Nat.add_zero]

theorem Joined.sort (h : Joined tasks tally) : Joined tasks tally.sort where
  expected := h.expected
  completed := by
    intro j t₁ ht₁
    show (tally.records.mergeSort StreamChunkRecord.le).countP (StreamChunkRecord.completes j) = _
    rw [(List.mergeSort_perm tally.records StreamChunkRecord.le).countP_eq]
    exact h.completed j t₁ ht₁

end Joined

section Verification

variable {args : ServeArgs} (hargs : serve args = .ok policy)
  (hship : Ships host.toolchain host.streamModule streamMemory
    StreamCapitalize.streamCapitalize)
  (hcount : scenario.sessionCount ≤ 65536) {b b' : Bench policy}
  (inv : Agreement host token scenario ((List.range scenario.sessionCount).map UInt16.ofNat) b)

include inv

theorem length_tasks : b.tasks.length = scenario.sessionCount := by
  rw [← List.length_map (f := fun t : Task => t.slot), inv.slots, List.length_map,
    List.length_range]

include hcount

/-- The task `k` has the session `k`. -/
theorem slot_toNat {k : Nat} (ht : b.tasks[k]? = some t) : t.slot.toNat = k := by
  have hlt : k < scenario.sessionCount := by
    rw [← length_tasks inv]
    exact (List.getElem?_eq_some_iff.mp ht).1
  have hslot : (b.tasks.map (·.slot))[k]? = some t.slot := by rw [List.getElem?_map, ht]; rfl
  rw [inv.slots, List.getElem?_map, List.getElem?_range hlt, Option.map_some] at hslot
  rw [← Option.some.inj hslot]
  exact Nat.mod_eq_of_lt (Nat.lt_of_lt_of_le hlt hcount)

/-- A session whose task was joined matches what is expected of it. -/
theorem matches_of_joined {tally : Tally} {slot : Nat} {i : Fin policy.sessionSlots}
    (hj : Joined b.tasks tally) (ht : b.tasks[slot]? = some t) (hp : t.phase = .returned true)
    (hi : i.val = slot) {actual : StreamStateResponse}
    (hactual : .state actual = b.server.stateReply host i) :
    tally.matches host.sha256 slot t.run.expected actual = true := by
  have hlevel := inv.sync t (List.mem_of_getElem? ht)
  simp only [Sync, hp] at hlevel
  have hin := hlevel i (by rw [hi, slot_toNat hcount inv ht])
  have hcompleted : tally.completedIn slot = t.nextSequence.toNat := by
    unfold Tally.completedIn
    rw [hj.completed slot t ht, if_pos hp]
  cases hactual
  simp [Tally.matches, hin.accumulated, hin.chunks, hcompleted]

theorem Bench.Effect.verifies (h : Bench.Effect host token scenario b b')
    (hbounded : b.driver.Bounded scenario) (hv : Verifies host scenario b) :
    Verifies host scenario b' := by
  unfold Verifies at hv
  cases h with
  | @join k t tally hd ht hp =>
    rw [hd] at hv hbounded
    have hlt := (List.getElem?_eq_some_iff.mp ht).1
    rw [length_tasks inv] at hlt
    exact hv.join (inv.sound t (List.mem_of_getElem? ht)) ht hp (slot_toNat hcount inv ht)
      (hbounded ▸ hlt)
  | fail => trivial
  | verify hd hall =>
    rw [hd] at hv
    exact ⟨hv.sort, hall, rfl, rfl, nofun⟩
  | @ask tally slot verified mismatches hd hlt hpath =>
    rw [hd] at hv
    obtain ⟨hj, hall, hverified, hmis, _⟩ := hv
    refine ⟨hj, hall, hverified, hmis, fun id hid => ?_⟩
    cases hid
    obtain ⟨r, hpush, hr⟩ := (arrive_entrance host token b.server (some scenario.token)
      (.streamState (.ofNat slot))).asked hpath
    exact ⟨r, by rw [hpush, List.getElem?_concat_length], hr⟩
  | @receive tally slot id verified mismatches reply hd hreply =>
    rw [hd] at hv hbounded
    obtain ⟨hj, hall, hverified, hmis, hask⟩ := hv
    obtain ⟨hlt, _⟩ := hbounded.2.2 id rfl
    obtain ⟨r, hr, hasked⟩ := hask id rfl
    obtain ⟨r', time, hr', hc⟩ := received_eq hreply
    rw [hr] at hr'
    cases hr'
    have hsent := reachable_sent inv.reachable id r time reply hr hc
    rw [← length_tasks inv] at hlt
    have ht : b.tasks[slot]? = some b.tasks[slot] := List.getElem?_eq_getElem hlt
    have hp := hall _ (List.mem_of_getElem? ht)
    show Verifies host scenario
      { b with driver := .verify host.sha256 tally slot verified mismatches reply.state? }
    cases hasked with
    | refused e _ hold =>
      rw [hold] at hsent
      cases hsent
      trivial
    | reading i _ hi hread =>
      have hstate := hread reply hsent
      -- the task of the slot is in step with the session, whatever was read of it
      have hmatch : tally.matches host.sha256 slot b.tasks[slot].run.expected _ = true :=
        matches_of_joined hcount inv hj ht hp hi rfl
      rw [hstate]
      simp only [Verifies, State.stateReply, Reply.state?, Driver.verify,
        hj.expected slot _ ht hp]
      rw [if_pos hmatch]
      exact ⟨hj, hall, by rw [hverified], hmis, nofun⟩
  | conclude hd hslot =>
    rw [hd] at hv hbounded
    obtain ⟨_, _, hverified, hmis, _⟩ := hv
    exact ⟨by rw [← hbounded.1, ← hslot, ← hverified]; rfl, hmis⟩

include hargs hship

/-- A session stays as it is once its task was joined. -/
theorem Asked.exclusive {a : Action} {slot : Nat} (hex : Exclusive host token b (.server a))
    (hs : Lab.step host token b.server a = some s')
    (hall : ∀ t ∈ b.tasks, t.phase = .returned true) (hlt : slot < scenario.sessionCount)
    (h : ∃ r, b.server.requests[id]? = some r ∧ Asked host b.server slot r) :
    ∃ r, s'.requests[id]? = some r ∧ Asked host s' slot r := by
  obtain ⟨r, hr, hask⟩ := h
  obtain ⟨ran, hstreams⟩ := reachable_streams hargs hship inv.reachable
  refine hask.step (serve_served hargs) hship hstreams hs
    (fun i hi => ?_) hr
  rw [← length_tasks inv] at hlt
  have ht : b.tasks[slot]? = some b.tasks[slot] := List.getElem?_eq_getElem hlt
  have hmem := List.mem_of_getElem? ht
  by_contra hne
  obtain ⟨index, started, hp⟩ := hex s' hs _ hmem (by rw [hall _ hmem]; exact TaskPhase.noConfusion)
    i (by rw [hi, slot_toNat hcount inv ht]) hne
  rw [hall _ hmem] at hp
  cases hp

theorem Verifies.step {a : BenchAction} (hbounded : b.driver.Bounded scenario)
    (h : Verifies host scenario b) (hex : Exclusive host token b a)
    (hs : b.step host token scenario a = some b') : Verifies host scenario b' := by
  cases Bench.step_does hs with
  | server hstep =>
    unfold Verifies at h ⊢
    cases hd : b.driver with
    | joining tally =>
      rw [hd] at h
      exact h
    | verifying tally slot request verified mismatches =>
      rw [hd] at h hbounded
      obtain ⟨hj, hall, hverified, hmis, hask⟩ := h
      refine ⟨hj, hall, hverified, hmis, fun id hid => ?_⟩
      exact Asked.exclusive hargs hship hcount inv hex hstep hall (hbounded.2.2 id hid).1
        (hask id hid)
    | returned report =>
      rw [hd] at h
      exact h
    | failed => trivial
  | tick => exact h
  | task ht heffect =>
    obtain ⟨hp, hp'⟩ := heffect.unjoined
    unfold Verifies at h ⊢
    cases hd : b.driver with
    | joining tally =>
      rw [hd] at h
      exact h.set ht hp hp'
    | verifying tally slot request verified mismatches =>
      -- every task has been joined, and a joined task does nothing
      rw [hd] at h
      exact absurd (h.2.1 _ (List.mem_of_getElem? ht)) hp
    | returned report =>
      rw [hd] at h
      exact h
    | failed => trivial
  | drive heffect => exact heffect.verifies hcount inv hbounded h

end Verification

/-! ## Agreement -/

/-- The tasks that `run_scenario` spawns for the limit of `bench`. -/
theorem Scenario.tasks_spec {maxChunks : Nat}
    (h : maxChunksPerSession (s.healthResponse host) scenario.chunkBytes = some maxChunks) :
    (∀ t ∈ scenario.tasks maxChunks, ∃ slot indices omitted,
      t = runSession scenario slot indices omitted ∧
        indices.length ≤ streamStateBytes / scenario.chunkBytes) ∧
    (scenario.tasks maxChunks).map (·.slot) =
      (List.range scenario.sessionCount).map UInt16.ofNat := by
  have hmax : maxChunks = streamStateBytes / scenario.chunkBytes := by
    unfold maxChunksPerSession at h
    split at h
    · cases h
    · exact (Option.some.inj h).symm
  refine ⟨fun t ht => ?_, ?_⟩
  · obtain ⟨slot, _, rfl⟩ := List.mem_map.mp ht
    refine ⟨_, _, _, rfl, ?_⟩
    rw [Scenario.indices, hmax]
    exact List.length_take_le _ _
  · rw [Scenario.tasks, List.map_map]
    rfl

/-- What `run_scenario` returns, when every task has a session of its own. Otherwise
there are more sessions than the path of an endpoint can name, and it fails. -/
theorem reachable_verifies {args : ServeArgs} (hargs : serve args = .ok policy)
    (hship : Ships host.toolchain host.streamModule streamMemory
      StreamCapitalize.streamCapitalize)
    (hbytes : 1 ≤ scenario.chunkBytes) (hreach : (machine host token policy).Reachable s)
    {tasks : List Task} (hsound : ∀ t ∈ tasks, t.Sound scenario)
    (hsync : ∀ t ∈ tasks, t.phase = .looping ∧ Sync scenario s t)
    (hslots : tasks.map (·.slot) = (List.range scenario.sessionCount).map UInt16.ofNat)
    {b : Bench policy}
    (h : (benchMachine host token scenario s tasks).ReachableWhen (Exclusive host token) b)
    {report : StreamScenarioReport} (hd : b.driver = .returned report) :
    report.stateMismatches = 0 ∧ report.verifiedSessions = scenario.sessionCount := by
  have hinv : Agreement host token scenario (tasks.map (·.slot)) b ∧ b.driver.Bounded scenario ∧
      (scenario.sessionCount ≤ 65536 → Verifies host scenario b) := by
    refine h.invariant (P := fun b => Agreement host token scenario (tasks.map (·.slot)) b ∧
      b.driver.Bounded scenario ∧ (scenario.sessionCount ≤ 65536 → Verifies host scenario b)) ?_
      fun b a b' inv hex hs => ?_
    · have hloop : ∀ (k : Nat) t, tasks[k]? = some t → t.phase ≠ .returned true := by
        intro k t ht
        rw [(hsync t (List.mem_of_getElem? ht)).1]
        exact TaskPhase.noConfusion
      refine ⟨⟨hreach, rfl, hsound, fun t ht => (hsync t ht).2⟩, List.length_replicate,
        fun _ => ⟨fun k t ht hp => absurd hp (hloop k t ht), fun k t ht => ?_⟩⟩
      rw [if_neg (hloop k t ht)]
      rfl
    · obtain ⟨hagree, hbounded, hverifies⟩ := inv
      refine ⟨hagree.step hargs hship hbytes hex hs, step_bounded hbounded hs, fun hcount => ?_⟩
      exact (hverifies hcount).step hargs hship hcount (hslots ▸ hagree) hbounded hex hs
  obtain ⟨_, hbounded, hverifies⟩ := hinv
  rw [hd] at hbounded
  -- a scenario that has returned has asked for no slot that a path cannot name
  have hverified := hverifies hbounded
  simp only [Verifies, hd] at hverified
  exact hverified.symm

/-- Sessions that were emptied, and are then written by nobody but the `run_session`
on each of them, whatever else happens on the lab and however the lab answers: a
task that is not waiting for an answer has the sequence number, the chunk count and
the bytes of its session; it is never told of a conflict or of a full state; and a
`run_scenario` that returns has found every session as expected. -/
theorem bench_agrees {args : ServeArgs} (hargs : serve args = .ok policy)
    (hship : Ships host.toolchain host.streamModule streamMemory
      StreamCapitalize.streamCapitalize)
    (hreach : (machine host token policy).Reachable s) (hbytes : 1 ≤ scenario.chunkBytes)
    {tasks : List Task} (htasks : ∀ t ∈ tasks, ∃ slot indices omitted,
      t = runSession scenario slot indices omitted ∧
        indices.length ≤ streamStateBytes / scenario.chunkBytes)
    (hreset : ∀ t ∈ tasks, ∀ slot : Fin policy.sessionSlots, slot.val = t.slot.toNat →
      s.sessions slot = .empty)
    {b : Bench policy}
    (h : (benchMachine host token scenario s tasks).ReachableWhen (Exclusive host token) b) :
    (∀ t ∈ b.tasks, (t.phase = .looping ∨ ∃ joined, t.phase = .returned joined) →
      ∀ slot : Fin policy.sessionSlots, slot.val = t.slot.toNat →
        t.nextSequence = (b.server.sessions slot).nextSequence ∧
        t.nextSequence = (b.server.sessions slot).chunks ∧
        t.run.expected = (b.server.sessions slot).accumulated) ∧
    (∀ t ∈ b.tasks, ∀ index started id r, t.phase = .awaiting index started (some id) →
      b.server.requests[id]? = some r →
        r.phase.reply? ≠ some (.error .conflict) ∧ r.phase.reply? ≠ some (.error .stateFull)) ∧
    (tasks.map (·.slot) = (List.range scenario.sessionCount).map UInt16.ofNat →
      ∀ report, b.driver = .returned report →
        report.stateMismatches = 0 ∧ report.verifiedSessions = scenario.sessionCount) := by
  have hsound : ∀ t ∈ tasks, t.Sound scenario := by
    intro t ht
    obtain ⟨slot, indices, omitted, rfl, hlen⟩ := htasks t ht
    exact runSession_sound hlen
  have hsync : ∀ t ∈ tasks, t.phase = .looping ∧ Sync scenario s t := by
    intro t ht
    obtain ⟨slot, indices, omitted, rfl, hlen⟩ := htasks t ht
    refine ⟨rfl, fun i hi => ?_⟩
    rw [hreset _ ht i hi]
    exact ⟨rfl, rfl, rfl⟩
  have inv := reachable_agreement hargs hship hbytes hreach hsound (fun t ht => (hsync t ht).2) h
  refine ⟨fun t ht hp slot hslot => ?_, fun t ht index started id r hp hr => ?_,
    fun hslots report hd => ?_⟩
  · -- it waits for no request, so it is level with its session
    have hlevel : Level b.server t := by
      have hsync := inv.sync t ht
      rcases hp with hp | ⟨joined, hp⟩ <;> (simp only [Sync, hp] at hsync; exact hsync)
    have hin := hlevel slot hslot
    exact ⟨hin.nextSequence.symm, hin.chunks.symm, hin.accumulated.symm⟩
  · have hsync := inv.sync t ht
    simp only [Sync, hp] at hsync
    obtain ⟨r', hr', haw⟩ := hsync
    rw [hr] at hr'
    cases hr'
    cases haw with
    | refused e _ hreply hne₁ hne₂ =>
      rw [hreply]
      exact ⟨fun heq => hne₁ (by cases heq; rfl), fun heq => hne₂ (by cases heq; rfl)⟩
    | pending w _ _ hreply =>
      rw [hreply]
      exact ⟨nofun, nofun⟩
    | ran w response _ _ hreply =>
      rw [hreply]
      exact ⟨nofun, nofun⟩
  · exact reachable_verifies hargs hship hbytes hreach hsound hsync hslots h hd

/-! ## A run -/

/-- One session, and one chunk of two bytes. -/
def sampleScenario : Scenario := ⟨sampleToken, 1, 1, 2, 0, fun _ => 0⟩

def sampleTasks : List Task := sampleScenario.tasks 524288

/-- The chunk was sent at the start and is the request 0. -/
def sampleTask : Task :=
  { runSession sampleScenario 0 [] 0 with phase := .awaiting 0 0 (some 0) }

/-- The benchmark while its task waits for the answer. -/
def sampleBench (s : State (defaultPolicy 131072)) : Bench (defaultPolicy 131072) :=
  ⟨⟨[sampleTask], .joining (.empty 1)⟩, s, 0⟩

def sampleMachine : Machine (Bench (defaultPolicy 131072)) BenchAction :=
  benchMachine streamHost sampleToken sampleScenario (.initial _) sampleTasks

theorem sample_request : sampleTask.request sampleScenario = sampleChunk.1 := by decide +kernel

/-- What the request goes through, until it is answered. -/
def sampleActions : List Action :=
  [.poll 0, .grant 0, .enter 0, .process 0 (.launch .spawned), .process 0 .write,
    .process 0 (.emit [76, 79])] ++ sampleExit ::
  [.process 0 (.read true), .process 0 (.wait true), .settle 0, .leave 0, .finish 0, .respond 0]

section Sample

variable {C : Bench (defaultPolicy 131072) → BenchAction → Prop}
  (htask : ∀ b k a, C b (.task k a))

include htask

theorem sample_deliver : sampleMachine.ReachableWhen C (sampleBench sampleArrived) := by
  have hsend : sampleMachine.ReachableWhen C
      ⟨⟨[{ sampleTask with phase := .awaiting 0 0 none }], .joining (.empty 1)⟩, .initial _, 0⟩ :=
    Machine.ReachableWhen.init.step (a := .task 0 .send) (htask _ _ _) rfl
  refine hsend.step (a := .task 0 .deliver) (htask _ _ _) ?_
  have harrive : (State.initial (defaultPolicy 131072)).arrive streamHost sampleToken
      (some sampleToken) (.streamChunk (sampleTask.request sampleScenario)) = sampleArrived := by
    rw [sample_request]
    rfl
  exact congrArg (fun s => some (sampleBench s)) harrive

omit htask in
/-- The lab goes on while the task waits. -/
theorem sample_server {s s' : State (defaultPolicy 131072)} {l : List Action}
    (hl : ∀ a ∈ l, ∀ s, C (sampleBench s) (.server a))
    (h : sampleMachine.ReachableWhen C (sampleBench s))
    (hrun : (machine streamHost sampleToken (defaultPolicy 131072)).run s l = some s') :
    sampleMachine.ReachableWhen C (sampleBench s') := by
  induction l generalizing s with
  | nil =>
    cases hrun
    exact h
  | cons a l ih =>
    obtain ⟨s₁, hs₁, hrun⟩ := Option.bind_eq_some_iff.mp hrun
    refine ih (fun a' ha' => hl a' (List.mem_cons_of_mem a ha')) ?_ hrun
    exact h.step (a := .server a) (hl a List.mem_cons_self s)
      (Option.map_eq_some_iff.mpr ⟨s₁, hs₁, rfl⟩)

end Sample

def sampleReply : StreamChunkResponse := ⟨.complete, 0, 0, 1, 2, 0, 0⟩

def sampleAnswered : State (defaultPolicy 131072) :=
  { sampleState (some (.code 0)) with
    pending := 0
    lane := ((Semaphore.new 1).acquire 0).release 0
    sessions := Function.update (fun _ => .empty) sampleChunk.slot ⟨[76, 79], 1, 1⟩
    counters := ⟨1, 0, 0, 0⟩
    requests := [⟨.chunk sampleChunk, .finished (.chunk sampleReply),
      some ⟨sampleJob.argv, sampleJob.stdin, [76, 79], false, some (.code 0)⟩,
      .answered 0 (.chunk sampleReply)⟩] }

/-- The task has heard that its chunk is complete. -/
def sampleHeard (phase : TaskPhase) : Task :=
  ⟨0, [], ⟨[⟨0, 0, 0, 0, 0, "complete", some 0, some 0⟩], [76, 79], 1, 0, 0, 0⟩, 1, 0, phase⟩

theorem sample_start : (machine streamHost sampleToken (defaultPolicy 131072)).run sampleArrived
    [.poll 0, .grant 0, .enter 0, .process 0 (.launch .spawned), .process 0 .write,
      .process 0 (.emit [76, 79])] = some (sampleState none) := rfl

theorem sample_end : (machine streamHost sampleToken (defaultPolicy 131072)).run
    (sampleState (some (.code 0))) [.process 0 (.read true), .process 0 (.wait true), .settle 0,
      .leave 0, .finish 0, .respond 0] = some sampleAnswered := rfl

theorem sample_run : (machine streamHost sampleToken (defaultPolicy 131072)).run sampleArrived
    sampleActions = some sampleAnswered := by
  rw [sampleActions, Machine.run_append, sample_start, Option.bind_some, Machine.run_cons]
  refine ⟨sampleState (some (.code 0)), ?_, sample_end⟩
  rw [machine_step, sample_exit]

theorem sample_heard {C : Bench (defaultPolicy 131072) → BenchAction → Prop}
    (htask : ∀ b k a, C b (.task k a))
    (hserver : ∀ a ∈ sampleActions, ∀ s, C (sampleBench s) (.server a)) :
    sampleMachine.ReachableWhen C
      ⟨⟨[sampleHeard .looping], .joining (.empty 1)⟩, sampleAnswered, 0⟩ := by
  have hanswered := sample_server hserver (sample_deliver htask) sample_run
  refine hanswered.step (a := .task 0 .receive) (htask _ _ _) ?_
  have hreceive : sampleTask.receive sampleScenario 0 0 0 (Reply.answer (.chunk sampleReply)) =
      sampleHeard .looping := by
    simp only [Task.receive, Reply.answer, Task.ran, sampleReply, Outcome.text, if_true,
      Task.complete, sample_request]
    rfl
  exact congrArg (fun t => some (⟨⟨[t], .joining (.empty 1)⟩, sampleAnswered, 0⟩ : Bench _))
    hreceive

def sampleTally : Tally := (Tally.empty 1).join 0 (sampleHeard .looping).run

/-- `run_scenario` verifies the session. -/
def sampleVerifying (s : State (defaultPolicy 131072)) (slot : Nat) (request : Option Nat)
    (verified : Nat) : Bench (defaultPolicy 131072) :=
  ⟨⟨[sampleHeard (.returned true)], .verifying sampleTally slot request verified 0⟩, s, 0⟩

def sampleLookup (phase : Phase) (caller : Caller) : State (defaultPolicy 131072) :=
  sampleAnswered.push ⟨.state ⟨0, by decide⟩, phase, none, caller⟩

theorem sample_verifying : sampleMachine.ReachableWhen (Exclusive streamHost sampleToken)
    (sampleVerifying sampleAnswered 0 none 0) := by
  have hids : ∀ a ∈ sampleActions, a.id = 0 := by decide
  -- while the task waits, every step of its request is its own
  have hheard := sample_heard (C := Exclusive streamHost sampleToken) (fun _ _ _ => trivial)
    fun a ha s s' _ t ht _ _ _ _ => by
      rw [List.mem_singleton.mp ht, hids a ha]
      exact ⟨0, 0, rfl⟩
  have hfinished : sampleMachine.ReachableWhen (Exclusive streamHost sampleToken)
      ⟨⟨[sampleHeard (.returned false)], .joining (.empty 1)⟩, sampleAnswered, 0⟩ :=
    hheard.step (a := .task 0 .finish) trivial rfl
  have hjoined : sampleMachine.ReachableWhen (Exclusive streamHost sampleToken)
      ⟨⟨[sampleHeard (.returned true)], .joining sampleTally⟩, sampleAnswered, 0⟩ :=
    hfinished.step (a := .drive (.join 0)) trivial rfl
  have hsort : sampleTally.sort = sampleTally := by
    simp [Tally.sort, sampleTally, Tally.join, Tally.empty, sampleHeard]
  refine hjoined.step (a := .drive .verify) trivial ?_
  exact congrArg (fun tally => some (⟨⟨[sampleHeard (.returned true)],
    .verifying tally 0 none 0 0⟩, sampleAnswered, 0⟩ : Bench (defaultPolicy 131072))) hsort

/-- The whole scenario: the chunk is completed, and the session looked up. -/
theorem sample_returned : ∃ b, sampleMachine.ReachableWhen (Exclusive streamHost sampleToken) b ∧
    b.driver = .returned (sampleTally.report sampleScenario 1 0) := by
  let reply := (sampleLookup .locking .connected).stateReply streamHost ⟨0, by decide⟩
  have hasked : sampleMachine.ReachableWhen (Exclusive streamHost sampleToken)
      (sampleVerifying (sampleLookup .locking .connected) 0 (some 1) 0) :=
    sample_verifying.step (a := .drive .ask) trivial rfl
  have hread : sampleMachine.ReachableWhen (Exclusive streamHost sampleToken)
      (sampleVerifying (sampleLookup (.finished reply) .connected) 0 (some 1) 0) :=
    hasked.step (a := .server (.read 1))
      (fun s' hs t _ _ slot _ hne => absurd (by cases hs; rfl) hne) rfl
  have hresponded : sampleMachine.ReachableWhen (Exclusive streamHost sampleToken)
      (sampleVerifying (sampleLookup (.finished reply) (.answered 0 reply)) 0 (some 1) 0) :=
    hread.step (a := .server (.respond 1))
      (fun s' hs t _ _ slot _ hne => absurd (by cases hs; rfl) hne) rfl
  have hverified : sampleMachine.ReachableWhen (Exclusive streamHost sampleToken)
      (sampleVerifying (sampleLookup (.finished reply) (.answered 0 reply)) 1 none 1) :=
    hresponded.step (a := .drive .receive) trivial rfl
  exact ⟨_, hverified.step (a := .drive .conclude) trivial rfl, rfl⟩

theorem bench_agrees_sample : ∃ b report,
    sampleMachine.ReachableWhen (Exclusive streamHost sampleToken) b ∧
      b.driver = .returned report ∧ report.completedChunks = 1 ∧ report.verifiedSessions = 1 ∧
      report.stateMismatches = 0 := by
  obtain ⟨b, hreach, hreport⟩ := sample_returned
  have hmax : maxChunksPerSession ((State.initial (defaultPolicy 131072)).healthResponse streamHost)
      sampleScenario.chunkBytes = some 524288 := rfl
  have htasks := Scenario.tasks_spec hmax
  have h := bench_agrees (serve_defaultArgs 131072) streamHost_ships .init (by decide) htasks.1
    (fun _ _ _ _ => rfl) hreach
  obtain ⟨hmis, hver⟩ := h.2.2 htasks.2 _ hreport
  exact ⟨b, _, hreach, hreport, rfl, hver, hmis⟩

end Lab
