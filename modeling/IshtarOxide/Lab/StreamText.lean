import IshtarOxide.Lib.Cyclic
import IshtarOxide.Lib.Tally
import IshtarOxide.Lab.StreamAgreement

/-!
# The text of the stream benchmark

`lorem_chunk` of crates/sequential-lab/src/main.rs cuts its text into chunks, and
`run_session` sends them in order, every chunk again until it is completed. The chunks
follow on one another, so the lab has the beginning of the repeated text, in capitals.

* `flatten_tiles`: the chunks, one after the other.
* `Tiled.step`: whatever the lab does with chunks of the text, a session is made of them.
* `benchmark_chunks_tile`: over whole runs, with what the tasks expect.
-/

open Guest

namespace Lab

variable {policy : Policy} {host : Host} {token : List UInt8} {scenario : Scenario}
  {s s' : State policy} {a : Action} {r : Request policy} {bytes n : Nat} {sequence : UInt64}
  {slot : Fin policy.sessionSlots}

/-! ## Chunks -/

theorem lorem_ne_nil : lorem ≠ [] := by decide

theorem lorem_ascii : ∀ x ∈ lorem, x < 128 := by decide +kernel

/-- No index is out of range. -/
theorem loremChunk_indices (sequence : UInt64) (bytes : Nat) :
    (List.range bytes).mapM (fun offset =>
      lorem[(sequence.toNat * bytes % 2 ^ 64 % lorem.length + offset) % lorem.length]?) =
      some (loremChunk sequence bytes) := by
  refine List.mapM_eq_some_map fun offset _ => ?_
  have hlt : (sequence.toNat * bytes % 2 ^ 64 % lorem.length + offset) % lorem.length <
      lorem.length := Nat.mod_lt _ (List.length_pos_iff.mpr lorem_ne_nil)
  rw [List.getD_eq_getElem?_getD, List.getElem?_eq_getElem hlt, Option.getD_some]

theorem mem_loremChunk {x : UInt8} (h : x ∈ loremChunk sequence bytes) : x ∈ lorem := by
  obtain ⟨offset, -, rfl⟩ := List.mem_map.mp h
  have hlt : (sequence.toNat * bytes % 2 ^ 64 % lorem.length + offset) % lorem.length <
      lorem.length := Nat.mod_lt _ (List.length_pos_iff.mpr lorem_ne_nil)
  rw [List.getD_eq_getElem?_getD, List.getElem?_eq_getElem hlt]
  exact List.getElem_mem hlt

/-- The checks of `stream_chunk` on the chunk. -/
theorem loremChunk_valid (hpos : 1 ≤ bytes) (hmax : bytes ≤ maxChunkBytes) {slot : UInt16}
    (hslot : slot.toNat < policy.sessionSlots) :
    StreamChunkRequest.valid policy ⟨slot, sequence, loremChunk sequence bytes⟩ := by
  have hne : loremChunk sequence bytes ≠ [] := by
    rw [← List.length_pos_iff, length_loremChunk]
    exact hpos
  have hascii : (loremChunk sequence bytes).all (· < 128) = true := by
    rw [List.all_eq_true]
    exact fun x hx => decide_eq_true (lorem_ascii x (mem_loremChunk hx))
  simp [StreamChunkRequest.valid, hslot, hne, hascii, length_loremChunk, hmax]

/-- Where the product does not wrap, the chunk is a piece of the repeated text. -/
theorem loremChunk_eq (h : sequence.toNat * bytes < 2 ^ 64) :
    loremChunk sequence bytes = lorem.window 0 (sequence.toNat * bytes) bytes := by
  rw [← List.window_mod, ← Nat.mod_eq_of_lt h]
  rfl

/-- The first `n` chunks. -/
def tiles (bytes n : Nat) : List (List UInt8) :=
  (List.range n).map fun i => loremChunk (.ofNat i) bytes

@[simp] theorem length_tiles (bytes n : Nat) : (tiles bytes n).length = n := by
  rw [tiles, List.length_map, List.length_range]

theorem tiles_succ (bytes n : Nat) :
    tiles bytes (n + 1) = tiles bytes n ++ [loremChunk (.ofNat n) bytes] := by
  rw [tiles, List.range_succ, List.map_append, List.map_singleton]
  rfl

/-- The chunks, one after the other, as far as there is room for them. -/
theorem flatten_tiles (hpos : 1 ≤ bytes) (h : n * bytes ≤ streamStateBytes) :
    (tiles bytes n).flatten = lorem.cyclic (n * bytes) := by
  have hsize : streamStateBytes = 1048576 := rfl
  rw [tiles, ← List.flatMap_def, ← List.flatMap_window lorem_ne_nil 0]
  refine List.flatMap_congr fun i hi => ?_
  have hle : i * bytes ≤ n * bytes := Nat.mul_le_mul_right bytes (List.mem_range.mp hi).le
  have hi' : i ≤ i * bytes := Nat.le_mul_of_pos_right i hpos
  have htoNat : (UInt64.ofNat i).toNat = i := UInt64.toNat_ofNat_of_lt' (by show i < 2 ^ 64; omega)
  rw [loremChunk_eq (by rw [htoNat]; omega), htoNat]

theorem length_flatten_tiles (bytes n : Nat) : (tiles bytes n).flatten.length = n * bytes := by
  have hlen : (tiles bytes n).map List.length = List.replicate n bytes := by
    refine List.eq_replicate_iff.mpr ⟨by simp, fun k hk => ?_⟩
    obtain ⟨chunk, hchunk, rfl⟩ := List.mem_map.mp hk
    obtain ⟨i, -, rfl⟩ := List.mem_map.mp hchunk
    exact length_loremChunk _ _
  rw [List.length_flatten, hlen, List.sum_replicate_nat]

/-! ## Operations -/

/-- What an operation makes of a session. -/
theorem Log.apply_cases {k : Nat} {α : Type} (capacity : Nat) (log : Log k α)
    (op : Operation k α) (slot : Fin k) :
    Log.apply capacity log op slot = log slot ∨ Log.apply capacity log op slot = [] ∨
      ∃ chunk runner, op = .append slot (log slot).length chunk runner ∧
        Log.apply capacity log op slot = log slot ++ [chunk] := by
  cases op with
  | append slot' sequence chunk runner =>
    simp only [Log.apply]
    split
    · next h =>
      by_cases hslot : slot = slot'
      · subst hslot
        rw [Function.update_self]
        exact .inr (.inr ⟨chunk, runner, by rw [h.1], rfl⟩)
      · rw [Function.update_of_ne hslot]
        exact .inl rfl
    · exact .inl rfl
  | reset count =>
    simp only [Log.apply]
    split
    · exact .inr (.inl rfl)
    · exact .inl rfl
  | other => exact .inl rfl

/-- What is appended is a chunk that was sent. -/
theorem operation_append {result : Option ProcessResult} {i : Nat} {chunk : List UInt8}
    {runner : Option Outcome} (h : r.operation result = some (.append slot i chunk runner)) :
    ∃ w, r.work = .chunk w ∧ w.slot = slot ∧ w.1.sequence.toNat = i ∧ w.1.chunk = chunk := by
  cases hw : r.work with
  | chunk w =>
    obtain ⟨_, -, heq⟩ := operation_chunk hw h
    cases heq
    exact ⟨w, rfl, rfl, rfl, rfl⟩
  | turn w | reset count | state slot | answered =>
    unfold Request.operation at h
    rw [hw] at h
    cases hreply : r.phase.reply? <;> rw [hreply] at h <;> cases h

/-! ## The lab -/

/-- A chunk of the session that is still to be settled is one of the text. -/
def Request.Quotes (r : Request policy) (bytes : Nat) (slot : Fin policy.sessionSlots) : Prop :=
  ∀ w, r.work = .chunk w → w.slot = slot → r.phase.reply? = none →
    w.1.chunk = loremChunk w.1.sequence bytes

/-- No other chunks are sent to the session. -/
def Action.Quotes (bytes slot : Nat) : Action → Prop
  | .arrive _ (.streamChunk request) => request.sessionSlot.toNat = slot →
    request.chunk = loremChunk request.sequence bytes
  | _ => True

/-- The session is made of the first chunks of the text. -/
structure Tiled (bytes : Nat) (slot : Fin policy.sessionSlots) (s : State policy) : Prop where
  pieces : ∃ n, Represents (s.sessions slot) (tiles bytes n)
  requests : ∀ r ∈ s.requests, r.Quotes bytes slot

/-- What has just arrived is a chunk only if it was sent as one. -/
theorem Entrance.work {call : Call} (h : Entrance host s call s') :
    ∃ r, s'.requests = s.requests ++ [r] ∧ ∀ w, r.work = .chunk w → call = .streamChunk w.1 := by
  cases h with
  | turn w =>
    unfold State.accept
    split
    · exact ⟨_, rfl, fun w hw => by cases hw⟩
    · exact ⟨_, rfl, fun w hw => by cases hw⟩
  | chunk w =>
    unfold State.accept
    split
    · -- the only request that is a chunk
      exact ⟨_, rfl, fun w hw => by cases hw; rfl⟩
    · exact ⟨_, rfl, fun w hw => by cases hw⟩
  | _ => exact ⟨_, rfl, fun w hw => by cases hw⟩

/-- A request was there before, or it has just arrived. -/
theorem step_request {id : Nat} {r' : Request policy} (hs : step host token s a = some s')
    (hr' : s'.requests[id]? = some r') :
    (∃ r, s.requests[id]? = some r) ∨
      ∃ header call, a = .arrive header call ∧
        ∀ w, r'.work = .chunk w → call = .streamChunk w.1 := by
  unfold step at hs
  split at hs
  · next header call =>
    cases hs
    obtain ⟨r, hpush, hw⟩ := (arrive_entrance host token s header call).work
    rcases getElem?_push hpush hr' with hold | rfl
    · exact .inl ⟨r', hold⟩
    · exact .inr ⟨header, call, rfl, hw⟩
  · cases hs
    exact .inl ⟨r', hr'⟩
  · obtain ⟨r, hr, hs⟩ := Option.bind_eq_some_iff.mp hs
    by_cases hid : id = a.id
    · subst hid
      exact .inl ⟨r, hr⟩
    · rw [stepAt_others hid hs] at hr'
      exact .inl ⟨r', hr'⟩

theorem Keeps.quotes {r' : Request policy} (h : Keeps r r') (hq : r.Quotes bytes slot) :
    r'.Quotes bytes slot := by
  intro w hw hslot hnone
  refine hq w (h.work.symm.trans hw) hslot ?_
  cases hreply : r.phase.reply? with
  | none => rfl
  | some reply =>
    rw [(h.settled (Phase.settled_of_reply hreply)).2, hreply] at hnone
    cases hnone

section Server

variable (hserved : policy.Served)
  (hship : Ships host.toolchain host.streamModule streamMemory
    StreamCapitalize.streamCapitalize)
  {ran : List (Nat × ProcessResult)} (inv : Streams host s ran)

include hserved hship inv

/-- Every step of the lab. A chunk is appended only where it belongs in the text. -/
theorem Tiled.step (h : Tiled bytes slot s) (ha : a.Quotes bytes slot.val)
    (hs : step host token s a = some s') : Tiled bytes slot s' := by
  have heffect := step_effect hs
  have hm := heffect.move inv.laned
  refine ⟨?_, fun r' hr' => ?_⟩
  · obtain ⟨n, hn⟩ := h.pieces
    have hlog := inv.sessions slot
    rcases heffect.deed hserved hship inv with hidle | ⟨id, r, r', op, hset⟩
    · exact ⟨n, by rw [hidle.sessions]; exact hn⟩
    · have hsession := hset.sessions slot
      rcases Log.apply_cases streamStateBytes (s.log ran) op slot with
        hsame | hnil | ⟨chunk, runner, rfl, hadd⟩
      · rw [hsame] at hsession
        exact ⟨n, by rw [hlog.unique hsession]; exact hn⟩
      · rw [hnil] at hsession
        exact ⟨0, hsession⟩
      · obtain ⟨w, hw, hslot, hseq, rfl⟩ := operation_append hset.after
        rw [hset.changes.keeps.work] at hw
        have hquote := h.requests r (List.mem_of_getElem? hset.changes.before) w hw hslot
          hset.before
        have hsequence : w.1.sequence = .ofNat n := by
          rw [← hlog.nextSequence, hn.nextSequence, length_tiles] at hseq
          rw [← hseq, UInt64.ofNat_toNat]
        rw [hadd] at hsession
        refine ⟨n + 1, ?_⟩
        rw [tiles_succ, ← hsequence, ← hquote]
        exact hsession.concat hlog hn
  · obtain ⟨id, hid⟩ := List.mem_iff_getElem?.mp hr'
    rcases step_request hs hid with ⟨r, hr⟩ | ⟨header, call, rfl, hcall⟩
    · obtain ⟨r'', hr'', hk⟩ := hm.request hr
      rw [hid] at hr''
      cases hr''
      exact hk.quotes (h.requests r (List.mem_of_getElem? hr))
    · intro w hw hslot _
      rw [hcall w hw] at ha
      exact ha (congrArg Fin.val hslot)

end Server

/-! ## The tasks -/

/-- What the task expects is the text, as far as its chunks are completed. -/
structure Task.Recites (scenario : Scenario) (t : Task) : Prop where
  completed : t.run.completed = t.nextSequence.toNat
  expected : t.run.expected =
    upperAll (lorem.cyclic (t.nextSequence.toNat * scenario.chunkBytes))

variable {t t' : Task}

theorem Task.Recites.congr (h : t.Recites scenario) (hc : t'.run.completed = t.run.completed)
    (hseq : t'.nextSequence = t.nextSequence) (hexp : t'.run.expected = t.run.expected) :
    t'.Recites scenario :=
  ⟨by rw [hc, hseq, h.completed], by rw [hexp, hseq, h.expected]⟩

theorem runSession_recites (scenario : Scenario) (slot : UInt16) (indices : List Nat)
    (omitted : Nat) : (runSession scenario slot indices omitted).Recites scenario where
  completed := rfl
  expected := by
    show [] = upperAll (lorem.cyclic ((0 : UInt64).toNat * scenario.chunkBytes))
    rw [UInt64.toNat_zero, Nat.zero_mul]
    rfl

/-- A completed chunk is the next piece of the text. -/
theorem Task.Recites.complete (hbytes : 1 ≤ scenario.chunkBytes) (hsound : t.Sound scenario)
    (h : t.Recites scenario) : (t.complete scenario).Recites scenario where
  completed := by
    show t.run.completed + 1 = (t.nextSequence + 1).toNat
    rw [h.completed, hsound.toNat_succ hbytes]
  expected := by
    have hsize : streamStateBytes = 1048576 := rfl
    have hroom := hsound.room
    rw [hsound.length, Nat.mul_comm] at hroom
    show t.run.expected ++ upperAll (loremChunk t.nextSequence scenario.chunkBytes) =
      upperAll (lorem.cyclic ((t.nextSequence + 1).toNat * scenario.chunkBytes))
    rw [h.expected, hsound.toNat_succ hbytes, Nat.succ_mul, List.cyclic_add lorem_ne_nil 0,
      loremChunk_eq (by omega)]
    exact List.map_append.symm

theorem Task.Effect.recites {now : Nat} (hbytes : 1 ≤ scenario.chunkBytes)
    (h : Task.Effect host token scenario s now t s' t') (hsound : t.Sound scenario)
    (ht : t.Recites scenario) : t'.Recites scenario := by
  cases h with
  | @receive index started id reply hp hreply =>
    unfold Task.receive
    split
    · exact ht.congr rfl rfl rfl
    · exact ht.congr rfl rfl rfl
    · next body =>
      unfold Task.ran
      split
      · exact (ht.complete hbytes hsound).congr rfl rfl rfl
      · exact ht.congr rfl rfl rfl
  | _ => exact ht.congr rfl rfl rfl

/-! ## Runs -/

/-- Nobody else sends other chunks to the session. -/
def Undisturbed (scenario : Scenario) (slot : Fin policy.sessionSlots) (_ : Bench policy) :
    BenchAction → Prop
  | .server a => a.Quotes scenario.chunkBytes slot.val
  | _ => True

/-- A session that is empty is made of no chunks. -/
theorem Tiled.of_empty (hempty : s.sessions slot = .empty)
    (hquotes : ∀ r ∈ s.requests, r.Quotes bytes slot) : Tiled bytes slot s :=
  ⟨⟨0, hempty ▸ Represents.empty⟩, hquotes⟩

section Runs

variable {args : ServeArgs} (hargs : serve args = .ok policy)
  (hship : Ships host.toolchain host.streamModule streamMemory
    StreamCapitalize.streamCapitalize)
  (hreach : (machine host token policy).Reachable s)

include hargs hship hreach

/-- The session has the text, as far as it has chunks. -/
theorem Tiled.session (hpos : 1 ≤ bytes) (h : Tiled bytes slot s) :
    (s.sessions slot).chunks.toNat * bytes ≤ streamStateBytes ∧
      (s.sessions slot).accumulated =
        upperAll (lorem.cyclic ((s.sessions slot).chunks.toNat * bytes)) := by
  obtain ⟨n, hn⟩ := h.pieces
  obtain ⟨ran, inv⟩ := reachable_streams hargs hship hreach
  have hroom : Log.size (s.log ran slot) ≤ streamStateBytes := log_wellFormed.bounded slot
  have hchunks : (s.sessions slot).chunks.toNat = n := by
    rw [hn.chunks, hn.nextSequence, length_tiles]
  rw [← (inv.sessions slot).length, hn.length, Log.size, length_flatten_tiles] at hroom
  rw [hchunks, hn.accumulated, flatten_tiles hpos hroom]
  exact ⟨hroom, rfl⟩

theorem reachable_tiled (hbytes : 1 ≤ scenario.chunkBytes) (hempty : s.sessions slot = .empty)
    (hquotes : ∀ r ∈ s.requests, r.Quotes scenario.chunkBytes slot) {tasks : List Task}
    (htasks : ∀ t ∈ tasks, ∃ slot indices omitted, t = runSession scenario slot indices omitted ∧
      indices.length ≤ streamStateBytes / scenario.chunkBytes) {b : Bench policy}
    (h : (benchMachine host token scenario s tasks).ReachableWhen
      (Undisturbed scenario slot) b) :
    (machine host token policy).Reachable b.server ∧ Tiled scenario.chunkBytes slot b.server ∧
      ∀ t ∈ b.tasks, t.Sound scenario ∧ t.Recites scenario := by
  refine h.invariant (P := fun b => (machine host token policy).Reachable b.server ∧
    Tiled scenario.chunkBytes slot b.server ∧
    ∀ t ∈ b.tasks, t.Sound scenario ∧ t.Recites scenario) ?_ fun b a b' inv hex hs => ?_
  · refine ⟨hreach, .of_empty hempty hquotes, fun t ht => ?_⟩
    obtain ⟨slot, indices, omitted, rfl, hlen⟩ := htasks t ht
    exact ⟨runSession_sound hlen, runSession_recites scenario slot indices omitted⟩
  · obtain ⟨hreach, htiled, htasks⟩ := inv
    have htasks' := bench_tasks (P := fun t => t.Sound scenario ∧ t.Recites scenario) hs
      (fun _ _ _ _ _ he ht => ⟨he.sound hbytes ht.1, he.recites hbytes ht.1 ht.2⟩)
      (fun t hp ht => ⟨ht.1.congr rfl rfl rfl rfl (by rw [hp]; exact Nat.le_refl _),
        ht.2.congr rfl rfl rfl⟩) htasks
    -- the tasks and the scenario send no other chunks either
    have hserver := bench_server (P := fun x => x.Quotes scenario.chunkBytes slot.val) hs
      (fun x hx => by subst hx; exact hex) (fun _ _ => rfl) fun _ => trivial
    rcases hserver with hsame | ⟨x, hstep, hx⟩
    · rw [hsame]
      exact ⟨hreach, htiled, htasks'⟩
    · obtain ⟨ran, hstreams⟩ := reachable_streams hargs hship hreach
      exact ⟨hreach.step hstep,
        htiled.step (serve_served hargs) hship hstreams hx hstep, htasks'⟩

end Runs

/-- The chunks of a scenario, as many as there is room for, are the beginning of the repeated
text; no index of `lorem_chunk` is out of range, and no product wraps; and `stream_chunk` has
nothing against them. In every run of the benchmark next to the lab, whatever else happens
there, however chunks fail and how often they are sent again, a session to which nobody sends
other chunks has the text in capitals, as far as it has chunks, and so has every task, as far
as it has heard of completed chunks. -/
theorem benchmark_chunks_tile (scenario : Scenario) (hpos : 1 ≤ scenario.chunkBytes)
    (hmax : scenario.chunkBytes ≤ maxChunkBytes) :
    (∀ n, n * scenario.chunkBytes ≤ streamStateBytes →
      ((List.range n).flatMap fun i => loremChunk (.ofNat i) scenario.chunkBytes) =
        lorem.cyclic (n * scenario.chunkBytes) ∧
      ∀ i < n, (UInt64.ofNat i).toNat * scenario.chunkBytes < 2 ^ 64) ∧
    (∀ sequence : UInt64, (List.range scenario.chunkBytes).mapM (fun offset =>
      lorem[(sequence.toNat * scenario.chunkBytes % 2 ^ 64 % lorem.length + offset) %
        lorem.length]?) = some (loremChunk sequence scenario.chunkBytes)) ∧
    (∀ (policy : Policy) (slot : UInt16) (sequence : UInt64), slot.toNat < policy.sessionSlots →
      StreamChunkRequest.valid policy ⟨slot, sequence, loremChunk sequence scenario.chunkBytes⟩) ∧
    ∀ (args : ServeArgs) (policy : Policy) (host : Host) (token : List UInt8) (s : State policy)
      (slot : Fin policy.sessionSlots) (tasks : List Task) (b : Bench policy),
      serve args = .ok policy →
      Ships host.toolchain host.streamModule streamMemory StreamCapitalize.streamCapitalize →
      (machine host token policy).Reachable s → s.sessions slot = .empty →
      (∀ r ∈ s.requests, r.Quotes scenario.chunkBytes slot) →
      (∀ t ∈ tasks, ∃ slot indices omitted, t = runSession scenario slot indices omitted ∧
        indices.length ≤ streamStateBytes / scenario.chunkBytes) →
      (benchMachine host token scenario s tasks).ReachableWhen (Undisturbed scenario slot) b →
      (b.server.sessions slot).chunks.toNat * scenario.chunkBytes ≤ streamStateBytes ∧
      (b.server.sessions slot).accumulated = upperAll (lorem.cyclic
        ((b.server.sessions slot).chunks.toNat * scenario.chunkBytes)) ∧
      ∀ t ∈ b.tasks, t.run.expected =
        upperAll (lorem.cyclic (t.run.completed * scenario.chunkBytes)) := by
  have hsize : streamStateBytes = 1048576 := rfl
  refine ⟨fun n hn => ⟨?_, fun i hi => ?_⟩, fun sequence => loremChunk_indices sequence _,
    fun policy slot sequence hslot => loremChunk_valid hpos hmax hslot, ?_⟩
  · rw [← flatten_tiles hpos hn, tiles, List.flatMap_def]
  · have hle : (UInt64.ofNat i).toNat ≤ i := Nat.mod_le _ _
    have hmul := Nat.mul_le_mul_right scenario.chunkBytes (Nat.le_trans hle hi.le)
    omega
  · intro args policy host token s slot tasks b hargs hship hreach hempty hquotes htasks h
    obtain ⟨hreach', htiled, htold⟩ :=
      reachable_tiled hargs hship hreach hpos hempty hquotes htasks h
    obtain ⟨hroom, hsession⟩ := htiled.session hargs hship hreach' hpos
    refine ⟨hroom, hsession, fun t ht => ?_⟩
    rw [(htold t ht).2.expected, (htold t ht).2.completed]

/-- The session has "LO" after the first chunk. -/
theorem benchmark_chunks_tile_sample : ∃ b : Bench (defaultPolicy 131072),
    sampleMachine.ReachableWhen (Undisturbed sampleScenario ⟨0, by decide⟩) b ∧
      (b.server.sessions ⟨0, by decide⟩).chunks = 1 ∧
      (b.server.sessions ⟨0, by decide⟩).accumulated = upperAll (lorem.cyclic 2) := by
  have hquotes : ∀ a ∈ sampleActions, a.Quotes sampleScenario.chunkBytes 0 := by
    simp [sampleActions, Action.Quotes, sampleExit]
  have hheard := sample_heard (C := Undisturbed sampleScenario ⟨0, by decide⟩)
    (fun _ _ _ => trivial) fun a ha _ => hquotes a ha
  have hmax : maxChunksPerSession ((State.initial (defaultPolicy 131072)).healthResponse streamHost)
      sampleScenario.chunkBytes = some 524288 := rfl
  have h := (benchmark_chunks_tile sampleScenario (by decide) (by decide)).2.2.2 _ _ streamHost
    sampleToken (.initial _) ⟨0, by decide⟩ sampleTasks _ (serve_defaultArgs 131072) streamHost_ships
    .init rfl (fun _ hr => by cases hr) (Scenario.tasks_spec hmax).1 hheard
  exact ⟨_, hheard, rfl, h.2.1⟩

end Lab
