import IshtarOxide.Lab.Runners
import IshtarOxide.Lab.TurnRunner

/-!
# The slot states of the turns

`run_slot` reads a slot state, runs the guest on it and writes the result back,
inside the lane. The machine is run with a record of the slots that successful
turns were committed to.

* `step_states`: a slot state changes only when a turn on it is committed.
* `slots_follow_guest`: so a slot holds zeros after an even number of commits and
  0x5a after an odd number, in every byte.
-/

open Linux Sandbox Guest

namespace Lab

variable {policy : Policy} {host : Host} {token : List UInt8} {s s' : State policy} {a : Action}
  {id : Nat} {r r' : Request policy}

/-- The slot to which an action commits a successful turn. -/
def committed (s : State policy) : Action → Option (Fin policy.sessionSlots)
  | .settle id => s.requests[id]?.bind fun r =>
    match r.work, r.phase with
    | .turn w, .executing _ _ (.returned (.success _)) => some w.slot
    | _, _ => none
  | _ => none

/-! ## What an action does to the slots -/

/-- The request `id` commits the turn `w` with the state `next`. -/
structure Commits (s s' : State policy) (a : Action) (w : ValidTurn policy) (next : List UInt8) :
    Prop where
  committed : committed s a = some w.slot
  states : s'.states = Function.update s.states w.slot next
  before : ∃ r times job, s.requests[a.id]? = some r ∧ r.work = .turn w ∧
    r.phase = .executing times job (.returned (.success next))
  after : ∀ r', s'.requests[a.id]? = some r' → r'.phase.executing? = false

theorem enter_states {t₁ t₂ : Nat} : (s.enter host id r t₁ t₂).states = s.states := by
  unfold State.enter
  split
  · rfl
  · simp only
    split
    · rfl
    · split
      · rfl
      · rfl
  · rfl
  · rfl
  · rfl

theorem disconnect_states : (s.disconnect id r).states = s.states := by
  unfold State.disconnect
  split
  · simp only
    split
    · rfl
    · rfl
  · rfl
  · rfl
  · rfl

theorem arrive_states (header : Option (List UInt8)) (call : Call) :
    (s.arrive host token header call).states = s.states := by
  unfold State.arrive State.accept
  repeat' split
  all_goals rfl

/-- A task whose driver has returned. -/
theorem settle_states {times : Times} {job : Job} {result : ProcessResult}
    (hr : s.requests[id]? = some r) (hp : r.phase = .executing times job (.returned result)) :
    (committed s (.settle id) = none ∧ (s.settle id r times result).states = s.states) ∨
      ∃ w next, Commits s (s.settle id r times result) (.settle id) w next := by
  have hcommitted : committed s (.settle id) = match r.work, r.phase with
      | .turn w, .executing _ _ (.returned (.success _)) => some w.slot
      | _, _ => none := by
    simp only [committed, hr, Option.bind_some]
  obtain ⟨work, phase, child, caller⟩ := r
  cases hp
  cases work with
  | turn w =>
    cases result with
    | success next =>
      refine .inr ⟨w, next, hcommitted, rfl, ⟨_, _, _, hr, rfl, rfl⟩, fun r' hr' => ?_⟩
      have hset : (s.requests.set id _)[id]? = some r' := hr'
      rw [List.getElem?_set_self (List.getElem?_eq_some_iff.mp hr).1] at hset
      cases hset
      rfl
    | timedOut => exact .inl ⟨hcommitted, rfl⟩
    | failed => exact .inl ⟨hcommitted, rfl⟩
  | chunk w =>
    cases result <;> exact .inl ⟨hcommitted, rfl⟩
  | answered | reset _ | state _ =>
    cases result <;> exact .inl ⟨hcommitted, rfl⟩

theorem stepAt_states (hr : s.requests[id]? = some r) (hid : a.id = id)
    (h : stepAt host s id r a = some s') :
    (committed s a = none ∧ s'.states = s.states) ∨ ∃ w next, Commits s s' a w next := by
  cases stepAt_branch h with
  | @settle i times job result hp =>
    obtain rfl : i = id := hid
    exact settle_states hr hp
  | disconnect hc => exact .inl ⟨rfl, disconnect_states⟩
  | enter hp => exact .inl ⟨rfl, enter_states⟩
  | _ => exact .inl ⟨rfl, rfl⟩

theorem step_states (h : step host token s a = some s') :
    (committed s a = none ∧ s'.states = s.states) ∨ ∃ w next, Commits s s' a w next := by
  unfold step at h
  split at h
  · cases h
    exact .inl ⟨rfl, arrive_states _ _⟩
  · cases h
    exact .inl ⟨rfl, rfl⟩
  · obtain ⟨r, hr, h⟩ := Option.bind_eq_some_iff.mp h
    exact stepAt_states hr rfl h

/-! ## Turns inside the lane -/

/-- A turn runs the guest on the slot state as it is. -/
structure Turning (host : Host) (s : State policy) (w : ValidTurn policy) (r : Request policy) :
    Prop where
  fresh : r.phase.fresh → r.child = none
  executing : ∀ times job stage, r.phase = .executing times job stage →
    job = executeProcess host policy (s.states w.slot) w.1.role w.1.bit
      (iterationsFor w.1.role w.1.bit policy) ∧ Sound host job stage r.child

theorem Turning.of_idle {w : ValidTurn policy} (hfresh : r.phase.fresh → r.child = none)
    (h : r.phase.executing? = false) : Turning host s w r where
  fresh := hfresh
  executing := fun _ _ _ hx => by rw [hx] at h; cases h

theorem Life.turning {w : ValidTurn policy} (h : Life host s a r r') (hw : r.work = .turn w)
    (ht : Turning host s w r) : Turning host s w r' := by
  cases h with
  | still hp hc => exact ⟨by rw [hp, hc]; exact ht.fresh, by rw [hp, hc]; exact ht.executing⟩
  | idle _ hp' hc hfresh =>
    -- a request that has not entered now had not entered before
    refine .of_idle (fun hf => ?_) hp'
    rw [hc]
    refine ht.fresh ?_
    by_contra hf'
    rw [hfresh (Bool.eq_false_iff.mpr hf')] at hf
    cases hf
  | start hp hp' hc hjob =>
    refine ⟨fun hf => (by rw [hp'] at hf; cases hf), fun times job stage hx => ?_⟩
    rw [hp'] at hx
    cases hx
    rw [hc, ht.fresh (by rw [hp]; rfl)]
    exact ⟨hjob w hw, .launching⟩
  | process _ hp =>
    unfold Request.process at hp
    split at hp
    · next times job stage hx =>
      obtain ⟨⟨stage', child'⟩, hstep, rfl⟩ := Option.map_eq_some_iff.mp hp
      obtain ⟨hjob, hsound⟩ := ht.executing times job stage hx
      refine ⟨nofun, fun times' job' stage'' hx' => ?_⟩
      cases hx'
      exact ⟨hjob, hsound.step hstep⟩
    · next hx =>
      obtain ⟨c', hc', rfl⟩ := Option.map_eq_some_iff.mp hp
      obtain ⟨c, hc, _⟩ := Option.bind_eq_some_iff.mp hc'
      refine ⟨fun hf => ?_, fun times job stage hx' => absurd hx' (hx times job stage)⟩
      rw [ht.fresh hf] at hc
      cases hc
  | settle _ hp' hf' hc => exact .of_idle (fun hf => by rw [hf'] at hf; cases hf) hp'

/-- While a driver is at work, no turn is committed. -/
theorem states_kept (hl : s.Laned) (h : step host token s a = some s')
    (hr' : s'.requests[id]? = some r') (hx : r'.phase.executing? = true) : s'.states = s.states := by
  rcases step_states h with ⟨_, hs⟩ | ⟨w, next, hc⟩
  · exact hs
  · obtain ⟨r₁, times, job, hr₁, _, hp₁⟩ := hc.before
    rcases step_before h hr' with hnew | ⟨r, hr, _, hlife, _⟩
    · rw [hnew.2] at hx
      cases hx
    · -- both are inside the lane, so it is the turn itself that is committed
      have hid : id = a.id := Semaphore.holder_unique
        (hl.inside id (by rw [State.tenure_of hr]; exact hlife.was_inside hx))
        (hl.inside a.id (by rw [State.tenure_of hr₁, hp₁]; rfl))
      rw [hc.after r' (hid ▸ hr')] at hx
      cases hx

/-! ## The slots -/

/-- Every byte of a slot after `n` commits. -/
def byteAfter (n : Nat) : UInt8 := if n % 2 = 0 then 0x00 else 0x5a

theorem flip_byteAfter (n : Nat) : flip (byteAfter n) = byteAfter (n + 1) := by
  unfold byteAfter
  rcases Nat.mod_two_eq_zero_or_one n with h | h
  · rw [if_pos h, if_neg (by omega)]
    rfl
  · rw [if_neg (by omega), if_pos (by omega)]
    rfl

structure Turns (host : Host) (s : State policy) (log : List (Fin policy.sessionSlots)) : Prop where
  laned : s.Laned
  states : ∀ slot, s.states slot = List.replicate policy.stateBytes (byteAfter (log.count slot))
  turning : ∀ (id : Nat) r w, s.requests[id]? = some r → r.work = .turn w → Turning host s w r

theorem Turns.initial : Turns host (.initial policy) [] where
  laned := Ledger.initial
  states := fun _ => rfl
  turning := fun id r w hr => by simp [State.initial] at hr

section Slots

variable {log : List (Fin policy.sessionSlots)} (hserved : policy.Served)
  (hship : Ships host.toolchain host.module probeMemory SequentialProbe.sequentialProbe)

theorem Turns.turning_step (inv : Turns host s log) (h : step host token s a = some s') :
    ∀ (id : Nat) r w, s'.requests[id]? = some r → r.work = .turn w → Turning host s' w r := by
  intro id r' w hr' hw
  rcases step_before h hr' with hnew | ⟨r, hr, hwork, hlife, _⟩
  · exact .of_idle (fun _ => hnew.1) hnew.2
  · have hw₀ : r.work = .turn w := hwork ▸ hw
    have ht := hlife.turning hw₀ (inv.turning id r w hr hw₀)
    cases hx : r'.phase.executing? with
    | false => exact .of_idle ht.fresh hx
    | true =>
      have hs := states_kept inv.laned h hr' hx
      exact ⟨ht.fresh, by rw [hs]; exact ht.executing⟩

include hserved hship

/-- What a turn commits is the flipped state. -/
theorem Turns.commits {w : ValidTurn policy} {next : List UInt8} (inv : Turns host s log)
    (h : Commits s s' a w next) : next = flipAll (s.states w.slot) := by
  obtain ⟨r, times, job, hr, hw, hp⟩ := h.before
  obtain ⟨rfl, hsound⟩ := (inv.turning a.id r w hr hw).executing times job _ hp
  have hlen : (s.states w.slot).length = policy.stateBytes := by
    rw [inv.states, List.length_replicate]
  exact turn_success hserved ⟨_, hlen⟩ hship (hsound.success next rfl)

theorem Turns.step (inv : Turns host s log) (h : step host token s a = some s') :
    Turns host s' (log ++ (committed s a).toList) where
  laned := (step_move h inv.laned).laned inv.laned
  turning := inv.turning_step h
  states := by
    intro slot
    rcases step_states h with ⟨hnone, hs⟩ | ⟨w, next, hc⟩
    · rw [hs, hnone, Option.toList_none, List.append_nil]
      exact inv.states slot
    · have hnext := inv.commits hserved hship hc
      rw [hc.committed, hc.states, Option.toList_some, List.count_append, List.count_singleton]
      by_cases hslot : slot = w.slot
      · subst hslot
        rw [Function.update_self, hnext, inv.states, flipAll, List.map_replicate, flip_byteAfter]
        simp
      · rw [Function.update_of_ne hslot, inv.states]
        simp [Ne.symm hslot]

end Slots

/-- In every reachable state of the lab with the shipped probe module, whatever
turns, chunks, resets, disconnects and runners did, with `log` the slots of the
turns that were committed so far: every slot has its length and in every byte
0x00 after an even number of commits to it and 0x5a after an odd number; and no
action but a commit to it changes a slot, so not a turn that timed out or failed,
nor anything on another slot. -/
theorem slots_follow_guest {args : ServeArgs} (hargs : serve args = .ok policy)
    (hship : Ships host.toolchain host.module probeMemory SequentialProbe.sequentialProbe)
    {log : List (Fin policy.sessionSlots)}
    (h : ((machine host token policy).record committed).Reachable (s, log)) :
    (∀ slot, (s.states slot).length = policy.stateBytes ∧
      ∀ b ∈ s.states slot, b = if log.count slot % 2 = 0 then 0x00 else 0x5a) ∧
    ∀ a s' slot, step host token s a = some s' → committed s a ≠ some slot →
      s'.states slot = s.states slot := by
  have inv : Turns host s log := h.record_invariant .initial fun _ _ _ _ inv hs =>
    inv.step (serve_served hargs) hship hs
  refine ⟨fun slot => ?_, fun a s' slot hstep hne => ?_⟩
  · rw [inv.states slot]
    exact ⟨List.length_replicate, fun b hb => List.eq_of_mem_replicate hb⟩
  · rcases step_states hstep with ⟨_, hs⟩ | ⟨w, next, hc⟩
    · rw [hs]
    · rw [hc.states, Function.update_of_ne]
      rintro rfl
      exact hne hc.committed

/-! ## A run -/

/-- A sender's turn on slot 1 with bit 1. -/
def sampleTurn : ValidTurn smallPolicy := ⟨⟨1, 0, .sender, 1⟩, by decide⟩

def turnJob : Job := executeProcess probeHost smallPolicy [0, 0] .sender 1 131072

/-- The turn is being run, and its runner has written its state. -/
def turnState (status : Option ExitStatus) : State smallPolicy :=
  { State.initial smallPolicy with
    pending := 1
    lane := (Semaphore.new 1).acquire 0
    requests := [⟨.turn sampleTurn, .executing ⟨0, 0, 0⟩ turnJob .reading,
      some ⟨turnJob.argv, turnJob.stdin, [0x5a, 0x5a], false, status⟩, .connected⟩]
    order := [0] }

theorem turnState_exit : step probeHost sampleToken (turnState none)
    (.process 0 (.exit (.code 0) turnJob.stdin.length)) = some (turnState (some (.code 0))) := by
  have hmain : main probeHost turnJob.argv (turnJob.stdin.take turnJob.stdin.length) =
      .ok [0x5a, 0x5a] := by
    rw [List.take_length]
    exact turnMain_eq (serve_served serve_smallArgs) ⟨[0, 0], rfl⟩ probeHost_ships
      probeHost_confines (by decide) (by decide)
  have hexit : step probeHost sampleToken (turnState none)
      (.process 0 (.exit (.code 0) turnJob.stdin.length)) = _ :=
    step_exit (c := ⟨turnJob.argv, turnJob.stdin, [0x5a, 0x5a], false, none⟩) rfl rfl rfl rfl hmain
  rw [hexit]
  rfl

/-- The turn has been committed to its slot, and slot 0 is as it was. -/
theorem slots_follow_guest_sample :
    ∃ s, ((machine probeHost sampleToken smallPolicy).record committed).Reachable
        (s, [⟨1, by decide⟩]) ∧
      s.states ⟨1, by decide⟩ = [0x5a, 0x5a] ∧ s.states ⟨0, by decide⟩ = [0, 0] ∧
      ∀ b ∈ s.states ⟨1, by decide⟩, b = 0x5a := by
  have hstart : ((machine probeHost sampleToken smallPolicy).record committed).Reachable
      (turnState none, []) :=
    Machine.Reachable.init.run (l := [.arrive (some sampleToken) (.turn sampleTurn.1), .poll 0,
      .grant 0, .enter 0, .process 0 (.launch .spawned), .process 0 .write,
      .process 0 (.emit [0x5a, 0x5a])]) rfl
  have hexit : ((machine probeHost sampleToken smallPolicy).record committed).Reachable
      (turnState (some (.code 0)), []) :=
    hstart.record_step (a := .process 0 (.exit (.code 0) turnJob.stdin.length))
      (by rw [machine_step, turnState_exit])
  have hreach := hexit.run (l := [.process 0 (.read true), .process 0 (.wait true), .settle 0]) rfl
  have h := slots_follow_guest serve_smallArgs probeHost_ships hreach
  exact ⟨_, hreach, rfl, rfl, (h.1 ⟨1, by decide⟩).2⟩

end Lab
