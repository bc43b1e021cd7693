import IshtarOxide.Lib.Potential
import IshtarOxide.Lab.Counters

/-!
# The lab comes to rest

A runner may hang, keep its pipe open or die at any moment. Whatever it does, a
request costs the lab a bounded number of steps, and as long as one is on its
way, the lab can go on by itself once enough time has passed.

* `stepAt_rank`, `step_pays`: every step but an arrival, the clock and the output
  of a runner lowers the ranks.
* `own_step`: nobody waits for something that may never come.
* `lab_drains`: whole runs.
-/

open Linux

namespace Lab

variable {policy : Policy} {host : Host} {token : List UInt8} {s s' : State policy} {a : Action}
  {id : Nat} {r r' : Request policy}

/-! ## Ranks -/

/-- How far a driver is from its return. A spawn is worth the child that it makes. -/
def Stage.rank : Stage → Nat
  | .launching => 6
  | .writing => 4
  | .reading => 3
  | .waiting _ => 2
  | .terminating => 1
  | .returned _ => 0

/-- How far a request is from its end. -/
def Phase.rank : Phase → Nat
  | .spawned _ => 13
  | .acquiring _ => 12
  | .admitted .. => 11
  | .executing _ _ stage => stage.rank + 4
  | .reporting .. => 3
  | .padding .. => 2
  | .released _ | .locking => 1
  | .finished _ | .dropped => 0

def childRank (child : Option Child) : Nat := (child.any Child.live).toNat

def Caller.rank : Caller → Nat
  | .connected => 1
  | .gone | .answered .. => 0

/-- The steps that a request may still cost. -/
def Request.rank (r : Request policy) : Nat := r.phase.rank + childRank r.child + r.caller.rank

/-- The steps that all requests may still cost. -/
def State.rank (s : State policy) : Nat := (s.requests.map Request.rank).sum

def ProcessEvent.counts : ProcessEvent → Bool
  | .emit _ => false
  | _ => true

/-- Every action but an arrival, the clock and the output of a runner. -/
def Action.counts : Action → Bool
  | .arrive .. | .advance _ => false
  | .process _ event => event.counts
  | _ => true

def Action.arrives : Action → Bool
  | .arrive .. => true
  | _ => false

/-! ## What is true of a request on its way -/

/-- A child that is alive was sent SIGKILL. -/
def Doomed (child : Option Child) : Prop := ∀ c, child = some c → c.live → c.killed

/-- What a driver has to do with its child. -/
def Stage.Fits : Stage → Option Child → Prop
  | .launching, child => child = none
  | .writing, child | .reading, child | .waiting _, child => child.isSome
  | .terminating, child => child.isSome ∧ Doomed child
  | .returned _, child => Doomed child

/-- A request is in a phase that its work goes through. -/
def Request.Proper (r : Request policy) : Prop :=
  match r.phase with
  | .spawned _ => r.accepted ∧ r.child = none
  | .acquiring _ | .admitted .. => (r.accepted ∨ ∃ count, r.work = .reset count) ∧ r.child = none
  | .executing _ _ stage => r.accepted ∧ stage.Fits r.child
  | .reporting .. => (∃ w, r.work = .chunk w) ∧ Doomed r.child
  | .padding .. | .released _ => Doomed r.child
  | .finished _ => Doomed r.child
  | .locking => (∃ slot, r.work = .state slot) ∧ r.child = none
  | .dropped => r.accepted = false ∧ r.child = none ∧ r.caller = .gone

theorem doomed_none : Doomed none := nofun

/-! ## Runners -/

theorem Child.step_rank {c c' : Child} {event : ProcessEvent} (h : c.step host event = some c') :
    c'.killed = c.killed ∧ (c'.live → c.live) ∧
      childRank (some c') + event.counts.toNat ≤ childRank (some c) := by
  unfold Child.step at h
  split at h
  · obtain ⟨hlive, h⟩ := Option.ite_none_right_eq_some.mp h
    cases h
    exact ⟨rfl, id, Nat.le_refl _⟩
  · obtain ⟨⟨hlive, -⟩, h⟩ := Option.ite_none_right_eq_some.mp h
    cases h
    refine ⟨rfl, fun _ => hlive, ?_⟩
    rw [childRank, childRank, Option.any_some, Option.any_some, hlive]
    exact Nat.le_refl 1
  · cases h

theorem Doomed.step {c c' : Child} {event : ProcessEvent} (hd : Doomed (some c))
    (h : c.step host event = some c') : Doomed (some c') := by
  obtain ⟨hkilled, hlive, -⟩ := Child.step_rank h
  intro c₁ hc₁ hl
  cases hc₁
  rw [hkilled]
  exact hd c rfl (hlive hl)

theorem doomed_kill {c : Child} : Doomed (some { c with killed := true }) := by
  intro c₁ hc₁ _
  cases hc₁
  rfl

theorem Stage.Fits.child_step {stage : Stage} {c c' : Child} {event : ProcessEvent}
    (hf : stage.Fits (some c)) (h : c.step host event = some c') : stage.Fits (some c') := by
  cases stage with
  | launching => cases hf
  | writing | reading | waiting => rfl
  | terminating => exact ⟨rfl, hf.2.step h⟩
  | returned => exact Doomed.step hf h

theorem Stage.rank_falls (stage stage' : Stage) (h : stage'.rank < stage.rank) (n : Nat) :
    stage'.rank + n + true.toNat ≤ stage.rank + n := by
  rw [Bool.toNat_true]
  omega

/-- One event takes a driver or its child further. -/
theorem Stage.step_rank {job : Job} {expired : Bool} {stage stage' : Stage}
    {child child' : Option Child} {event : ProcessEvent} (hf : stage.Fits child)
    (h : Stage.step host job expired stage child event = some (stage', child')) :
    stage'.Fits child' ∧
      stage'.rank + childRank child' + event.counts.toNat ≤ stage.rank + childRank child := by
  have hown : ∀ {c c' : Child}, c.step host event = some c' →
      stage.rank + childRank (some c') + event.counts.toNat ≤ stage.rank + childRank (some c) :=
    fun hc => by
      rw [Nat.add_assoc]
      exact Nat.add_le_add_left (Child.step_rank hc).2.2 _
  unfold Stage.step at h
  split at h
  · cases h
    exact ⟨doomed_none, by decide⟩
  · cases h
    exact ⟨doomed_none, by decide⟩
  · cases h
    exact ⟨rfl, show 4 + 1 + 1 ≤ 6 + 0 by decide⟩
  · cases h
    exact ⟨hf, rank_falls .writing .reading (by decide) _⟩
  · obtain ⟨c', hc', h⟩ := Option.map_eq_some_iff.mp h
    cases h
    exact ⟨hf.child_step hc', hown hc'⟩
  · obtain ⟨c', hc', h⟩ := Option.map_eq_some_iff.mp h
    cases h
    exact ⟨hf.child_step hc', hown hc'⟩
  · obtain ⟨-, h⟩ := Option.ite_none_right_eq_some.mp h
    cases h
    exact ⟨rfl, rank_falls .reading (.waiting _) (show 2 < 3 by decide) _⟩
  · obtain ⟨status, hstatus, h⟩ := Option.map_eq_some_iff.mp h
    cases h
    refine ⟨fun c₁ hc₁ hlive => ?_, rank_falls (.waiting _) (.returned _) (show 0 < 2 by decide) _⟩
    -- a child that was waited for is not alive
    cases hc₁
    rw [Child.live, hstatus] at hlive
    cases hlive
  · cases h
    exact ⟨doomed_kill, rank_falls .reading (.returned _) (show 0 < 3 by decide) _⟩
  · cases h
    exact ⟨doomed_kill, rank_falls (.waiting _) (.returned _) (show 0 < 2 by decide) _⟩
  · next c =>
    obtain ⟨⟨htimed, -⟩, h⟩ := Option.ite_none_right_eq_some.mp h
    cases h
    have hlt : Stage.terminating.rank < stage.rank := by
      cases stage with
      | writing | reading | waiting => exact Nat.lt_of_lt_of_le Nat.one_lt_two (Nat.le_add_left 2 _)
      | _ => cases htimed
    exact ⟨⟨rfl, doomed_kill⟩, rank_falls stage .terminating hlt _⟩
  · obtain ⟨-, h⟩ := Option.ite_none_right_eq_some.mp h
    cases h
    exact ⟨hf.2, rank_falls .terminating (.returned _) (show 0 < 1 by decide) _⟩
  · cases h

/-! ## Steps -/

/-- The request `id` comes closer to its end. -/
def Approaches (s s' : State policy) (id : Nat) (r : Request policy) (counts : Bool) : Prop :=
  ∃ r', s'.requests = s.requests.set id r' ∧ r'.Proper ∧ r'.rank + counts.toNat ≤ r.rank

theorem Request.rank_phase {p : Phase} (h : p.rank < r.phase.rank) :
    ({ r with phase := p } : Request policy).rank + true.toNat ≤ r.rank := by
  simp only [Request.rank, Bool.toNat_true]
  omega

theorem Approaches.of_phase {p : Phase} (hset : s'.requests = s.requests.set id { r with phase := p })
    (hp : ({ r with phase := p } : Request policy).Proper) (hlt : p.rank < r.phase.rank) :
    Approaches s s' id r true :=
  ⟨_, hset, hp, Request.rank_phase hlt⟩

theorem Approaches.of_drop
    (hset : s'.requests = s.requests.set id { r with phase := .dropped, caller := .gone })
    (ha : r.accepted = false) (hchild : r.child = none) (hc : r.caller = .connected) :
    Approaches s s' id r true := by
  refine ⟨_, hset, ⟨ha, hchild, rfl⟩, ?_⟩
  simp only [Request.rank, Phase.rank, hc, Caller.rank, Bool.toNat_true]
  omega

theorem disconnect_approaches (hp : r.Proper) (hc : r.caller = .connected) :
    Approaches s (s.disconnect id r) id r true := by
  obtain ⟨work, phase, child, caller⟩ := r
  cases hc
  unfold State.disconnect
  split
  · next hw hph =>
    cases hw
    cases hph
    simp only
    split
    · exact .of_drop rfl rfl hp.2 rfl
    · exact .of_drop rfl rfl hp.2 rfl
  · next hw hph =>
    cases hw
    cases hph
    exact .of_drop rfl rfl hp.2 rfl
  · next hw hph =>
    cases hw
    cases hph
    exact .of_drop rfl rfl hp.2 rfl
  · refine ⟨_, rfl, ?_, Nat.le_refl _⟩
    cases phase with
    | dropped => exact ⟨hp.1, hp.2.1, rfl⟩
    | _ => exact hp

theorem enter_approaches {t₁ t₂ : Nat} (hp : r.Proper) (hph : r.phase = .admitted t₁ t₂) :
    Approaches s (s.enter host id r t₁ t₂) id r true := by
  obtain ⟨work, phase, child, caller⟩ := r
  cases hph
  obtain ⟨hwork, rfl⟩ := hp
  cases work with
  | turn w => exact .of_phase rfl ⟨rfl, rfl⟩ (show 10 < 11 by decide)
  | chunk w =>
    unfold State.enter
    simp only
    split
    · exact .of_phase rfl doomed_none (show 1 < 11 by decide)
    · split
      · exact .of_phase rfl doomed_none (show 1 < 11 by decide)
      · exact .of_phase rfl ⟨rfl, rfl⟩ (show 10 < 11 by decide)
  | reset count => exact .of_phase rfl doomed_none (show 0 < 11 by decide)
  | answered | state slot => simp [Request.accepted] at hwork

theorem settle_approaches {times : Times} {job : Job} {result : ProcessResult} (hp : r.Proper)
    (hph : r.phase = .executing times job (.returned result)) :
    Approaches s (s.settle id r times result) id r true := by
  obtain ⟨work, phase, child, caller⟩ := r
  cases hph
  obtain ⟨haccepted, hdoomed⟩ := hp
  cases work with
  | turn w => cases result <;> exact .of_phase rfl hdoomed (show 2 < 4 by decide)
  | chunk w =>
    cases result with
    | success next => exact .of_phase rfl hdoomed (show 2 < 4 by decide)
    | timedOut => exact .of_phase rfl ⟨⟨w, rfl⟩, hdoomed⟩ (show 3 < 4 by decide)
    | failed => exact .of_phase rfl ⟨⟨w, rfl⟩, hdoomed⟩ (show 3 < 4 by decide)
  | answered | reset | state => cases haccepted

theorem process_approaches {event : ProcessEvent} (hp : r.Proper)
    (h : r.process host s.now event = some r') : Approaches s (s.put id r') id r event.counts := by
  obtain ⟨work, phase, child, caller⟩ := r
  unfold Request.process at h
  split at h
  · next times job stage hph =>
    cases hph
    obtain ⟨⟨stage', child'⟩, hstep, rfl⟩ := Option.map_eq_some_iff.mp h
    obtain ⟨hfits, hrank⟩ : stage'.Fits child' ∧
        stage'.rank + childRank child' + event.counts.toNat ≤ stage.rank + childRank child :=
      Stage.step_rank hp.2 hstep
    refine ⟨_, rfl, ⟨hp.1, hfits⟩, ?_⟩
    simp only [Request.rank, Phase.rank]
    omega
  · next hph =>
    obtain ⟨c', hc', rfl⟩ := Option.map_eq_some_iff.mp h
    obtain ⟨c, rfl, hstep⟩ := Option.bind_eq_some_iff.mp hc'
    refine ⟨_, rfl, ?_, ?_⟩
    · cases phase with
      | executing times job stage => exact absurd rfl (hph times job stage)
      | reporting => exact ⟨hp.1, hp.2.step hstep⟩
      | padding | released | finished => exact Doomed.step hp hstep
      | spawned | acquiring | admitted | locking => cases hp.2
      | dropped => cases hp.2.1
    · have hchild := (Child.step_rank hstep).2.2
      simp only [Request.rank]
      omega

/-- What an action does to the request that it is about. -/
theorem stepAt_approaches (hp : r.Proper) (h : stepAt host s id r a = some s') :
    Approaches s s' id r a.counts := by
  cases stepAt_branch h with
  | disconnect hc => exact disconnect_approaches hp hc
  | enter hph => exact enter_approaches hp hph
  | process hr' => exact process_approaches hp hr'
  | settle hph => exact settle_approaches hp hph
  | poll hph =>
    obtain ⟨work, phase, child, caller⟩ := r
    cases hph
    exact .of_phase rfl ⟨.inl hp.1, hp.2⟩ (show 12 < 13 by decide)
  | grant hph hh =>
    obtain ⟨work, phase, child, caller⟩ := r
    cases hph
    exact .of_phase rfl hp (show 11 < 12 by decide)
  | report hph hw =>
    obtain ⟨work, phase, child, caller⟩ := r
    cases hph
    exact .of_phase rfl hp.2 (show 2 < 3 by decide)
  | leave hph hd =>
    obtain ⟨work, phase, child, caller⟩ := r
    cases hph
    exact .of_phase rfl hp (show 1 < 2 by decide)
  | finish hph =>
    obtain ⟨work, phase, child, caller⟩ := r
    cases hph
    exact .of_phase rfl hp (show 0 < 1 by decide)
  | read hph hw =>
    obtain ⟨work, phase, child, caller⟩ := r
    cases hph
    obtain ⟨-, rfl⟩ := hp
    exact .of_phase rfl doomed_none (show 0 < 1 by decide)
  | respond hph hc =>
    obtain ⟨work, phase, child, caller⟩ := r
    cases hph
    cases hc
    exact ⟨_, rfl, hp, Nat.le_refl _⟩

/-- The most that a request can cost. -/
def arrivalPrice : Nat := 14

/-- The request that came in. -/
def Arrives (s s' : State policy) : Prop :=
  ∃ r, s'.requests = s.requests ++ [r] ∧ r.Proper ∧ r.rank ≤ arrivalPrice

theorem answer_arrives (reply : Reply) : Arrives s (s.answer reply) :=
  ⟨_, rfl, doomed_none, show 0 ≤ 14 by decide⟩

theorem accept_arrives {work : Work policy}
    (ha : (⟨work, .spawned s.now, none, .connected⟩ : Request policy).accepted) :
    Arrives s (s.accept work) := by
  unfold State.accept
  split
  · exact ⟨_, rfl, ⟨ha, rfl⟩, show 14 ≤ 14 by decide⟩
  · exact ⟨_, rfl, doomed_none, show 0 ≤ 14 by decide⟩

theorem Entrance.arrives {call : Call} (h : Entrance host s call s') : Arrives s s' := by
  cases h with
  | refuse e => exact answer_arrives _
  | health => exact answer_arrives _
  | turn w => exact accept_arrives rfl
  | chunk w => exact accept_arrives rfl
  | reset count => exact ⟨_, rfl, ⟨.inr ⟨count, rfl⟩, rfl⟩, show 13 ≤ 14 by decide⟩
  | state h => exact ⟨_, rfl, ⟨⟨_, rfl⟩, rfl⟩, show 2 ≤ 14 by decide⟩

/-! ## Nobody is forgotten -/

/-- Requests that are where they belong, and a lane that knows who waits for it. -/
structure Sane (s : State policy) : Prop where
  laned : s.Laned
  attended : Ledger.Attended s.tenure s.lane
  proper : ∀ r ∈ s.requests, r.Proper

theorem Sane.initial : Sane (.initial policy) where
  laned := Ledger.initial
  attended := fun _ hi => nomatch (show Tenure.before = .queued from hi)
  proper := fun _ hr => absurd hr List.not_mem_nil

theorem Move.attended (h : Move s s') (hs : Ledger.Attended s.tenure s.lane) :
    Ledger.Attended s'.tenure s'.lane := by
  cases h with
  | push r ht hr _ hlane horder =>
    rw [tenure_push hr, hlane]
    exact Ledger.attended_stay hs (.inr (by rcases ht with ht | ht <;> rw [ht] <;> decide))
  | enqueue r ht hr _ hlane horder =>
    rw [tenure_push hr, ht, hlane]
    exact Ledger.attended_acquire hs
  | stay hc hlane horder ht =>
    rw [hc.tenure, hlane]
    refine Ledger.attended_stay hs ?_
    rw [State.tenure_of hc.before]
    rcases ht with ht | ⟨-, ht⟩ | ⟨-, -, ht⟩
    · exact .inl ht
    · exact .inr (by rw [ht]; decide)
    · exact .inr (by rw [ht]; decide)
  | poll hc hb hq hlane horder =>
    rw [hc.tenure, hq, hlane]
    exact Ledger.attended_acquire hs
  | release hc hh ha hlane horder =>
    rw [hc.tenure, ha, hlane]
    exact Ledger.attended_leave hs (by decide) fun j hj => Semaphore.release_known hj
  | cancel hc hq hh ha hlane horder =>
    rw [hc.tenure, ha, hlane]
    exact Ledger.attended_leave hs (by decide) fun j hj => Semaphore.cancel_known hj
  | same hr hlane horder =>
    rw [show s'.tenure = s.tenure by funext j; rw [State.tenure, State.tenure, hr], hlane]
    exact hs

theorem Approaches.proper {counts : Bool} (h : Approaches s s' id r counts)
    (hs : ∀ r ∈ s.requests, r.Proper) : ∀ r ∈ s'.requests, r.Proper := by
  obtain ⟨r', hset, hp', -⟩ := h
  intro r₁ hr₁
  rw [hset] at hr₁
  exact (List.mem_or_eq_of_mem_set hr₁).elim (hs r₁) fun heq => heq ▸ hp'

theorem Approaches.rank {counts : Bool} (h : Approaches s s' id r counts)
    (hr : s.requests[id]? = some r) : s'.rank + counts.toNat ≤ s.rank := by
  obtain ⟨r', hset, -, hle⟩ := h
  obtain ⟨rest, hsum, hreplace⟩ := List.exists_sum_set (f := Request.rank) hr
  rw [State.rank, State.rank, hset, hsum, hreplace]
  omega

/-- Every action is paid for. -/
theorem step_pays (hs : Sane s) (h : step host token s a = some s') :
    Sane s' ∧ s'.rank + a.counts.toNat ≤ s.rank + arrivalPrice * a.arrives.toNat := by
  have hmove := step_move h hs.laned
  suffices hpays : (∀ r ∈ s'.requests, r.Proper) ∧
      s'.rank + a.counts.toNat ≤ s.rank + arrivalPrice * a.arrives.toNat from
    ⟨⟨hmove.laned hs.laned, hmove.attended hs.attended, hpays.1⟩, hpays.2⟩
  unfold step at h
  split at h
  · cases h
    obtain ⟨r, hpush, hp, hle⟩ := (arrive_entrance host token s _ _).arrives
    refine ⟨fun r₁ hr₁ => ?_, ?_⟩
    · rw [hpush] at hr₁
      rcases List.mem_append.mp hr₁ with hr₁ | hr₁
      · exact hs.proper r₁ hr₁
      · exact List.mem_singleton.mp hr₁ ▸ hp
    · rw [State.rank, hpush, List.map_append, List.sum_append, List.map_singleton,
        List.sum_singleton]
      exact Nat.add_le_add_left hle _
  · cases h
    exact ⟨hs.proper, Nat.le_refl _⟩
  · obtain ⟨r, hr, h⟩ := Option.bind_eq_some_iff.mp h
    have happ := stepAt_approaches (hs.proper r (List.mem_of_getElem? hr)) h
    exact ⟨happ.proper hs.proper, (happ.rank hr).trans (Nat.le_add_right _ _)⟩

/-- The ranks as a potential of the lab. -/
def ranks (host : Host) (token : List UInt8) (policy : Policy) :
    (machine host token policy).Potential arrivalPrice Action.counts Action.arrives where
  value := State.rank
  Holds := Sane
  init := .initial
  keeps hs h := (step_pays hs h).1
  pays hs h := (step_pays hs h).2

/-! ## Going on -/

/-- What happens without the help of a runner or a caller: time passes, the lab
goes on, spawns and timeouts come, and a child that was sent SIGKILL dies. -/
def Own (s : State policy) : Action → Prop
  | .arrive .. | .disconnect _ => False
  | .process id (.exit status _) =>
    status = .signal 9 ∧ ∃ r c, s.requests[id]? = some r ∧ r.child = some c ∧ c.killed
  | .process _ (.launch _) | .process _ .timeout | .process _ (.terminate _) => True
  | .process _ _ => False
  | _ => True

/-- The state `d` later. -/
def State.later (s : State policy) (d : Nat) : State policy := { s with now := s.now + d }

/-- The lab can go on by itself after some time. -/
def GoesOn (host : Host) (token : List UInt8) (s : State policy) : Prop :=
  ∃ d a s', Own (s.later d) a ∧ a.counts ∧ step host token (s.later d) a = some s'

theorem GoesOn.of_branch {d : Nat} (hr : s.requests[id]? = some r) (hid : a.id = id)
    (hb : Branch host (s.later d) id r a s') (hown : Own (s.later d) a) (hcounts : a.counts) :
    GoesOn host token s := by
  subst hid
  refine ⟨d, a, s', hown, hcounts, ?_⟩
  have hstep := hb.stepAt
  cases a with
  | arrive | advance => cases hcounts
  | _ => exact Option.bind_eq_some_iff.mpr ⟨r, hr, hstep⟩

/-- A child may exit whatever its driver is doing. -/
theorem process_exit {c c' : Child} {now : Nat} {status : ExitStatus} {delivered : Nat}
    (hc : r.child = some c) (hstep : c.step host (.exit status delivered) = some c') :
    ∃ r', r.process host now (.exit status delivered) = some r' := by
  obtain ⟨work, phase, child, caller⟩ := r
  cases hc
  cases phase with
  | executing times job stage =>
    refine ⟨_, congrArg (Option.map _) (?_ : _ = some (stage, some c'))⟩
    show (c.step host (.exit status delivered)).map (fun c => (stage, some c)) = _
    rw [hstep]
    rfl
  | _ => exact ⟨_, congrArg (Option.map _) hstep⟩

/-- A child that was sent SIGKILL dies. -/
theorem killed_dies {c : Child} (hr : s.requests[id]? = some r) (hc : r.child = some c)
    (hkilled : c.killed) (hlive : c.live) : GoesOn host token s := by
  have hexit : c.step host (.exit (.signal 9) 0) = some { c with status := some (.signal 9) } :=
    if_pos ⟨hlive, nofun⟩
  obtain ⟨r', hr'⟩ := process_exit hc hexit
  exact .of_branch (d := 0) hr rfl (.process hr') ⟨rfl, r, c, hr, hc, hkilled⟩ rfl

theorem childRank_pos {child : Option Child} (h : 0 < childRank child) :
    ∃ c, child = some c ∧ c.live := by
  cases child with
  | none => cases h
  | some c =>
    refine ⟨c, rfl, ?_⟩
    cases hlive : c.live with
    | true => rfl
    | false =>
      rw [childRank, Option.any_some, hlive] at h
      cases h

/-- A request with nothing left to do but to see its child die and to answer. -/
theorem ending_goes_on {reply : Reply} (hr : s.requests[id]? = some r)
    (hph : r.phase = .finished reply) (hd : Doomed r.child) (hrank : 0 < r.rank) :
    GoesOn host token s := by
  rcases Nat.eq_zero_or_pos (childRank r.child) with hzero | hpos
  · have hc : r.caller = .connected := by
      cases hc : r.caller with
      | connected => rfl
      | _ => simp [Request.rank, hph, hzero, hc, Phase.rank, Caller.rank] at hrank
    exact .of_branch (d := 0) (a := .respond id) hr rfl (.respond hph hc) trivial rfl
  · obtain ⟨c, hc, hlive⟩ := childRank_pos hpos
    exact killed_dies hr hc (hd c hc hlive) hlive

/-- A driver goes on by itself: at the latest, its deadline comes. -/
theorem driver_goes_on {times : Times} {job : Job} {stage : Stage} (hr : s.requests[id]? = some r)
    (hph : r.phase = .executing times job stage) (hf : stage.Fits r.child) :
    GoesOn host token s := by
  obtain ⟨work, phase, child, caller⟩ := r
  cases hph
  have hexpired : times.admittedAt + policy.executionCutoff ≤
      (s.later (times.admittedAt + policy.executionCutoff)).now := Nat.le_add_left _ _
  have htimeout : stage.timed → ∀ c, child = some c → GoesOn host token s := by
    intro htimed c hc
    subst hc
    refine .of_branch (d := times.admittedAt + policy.executionCutoff) (a := .process id .timeout)
      hr rfl (.process (congrArg (Option.map _) (if_pos ⟨htimed, ?_⟩))) trivial rfl
    exact decide_eq_true hexpired
  cases stage with
  | launching =>
    cases hf
    exact .of_branch (d := 0) (a := .process id (.launch .spawned)) hr rfl (.process rfl) trivial rfl
  | writing | reading | waiting =>
    obtain ⟨c, hc⟩ := Option.isSome_iff_exists.mp hf
    exact htimeout rfl c hc
  | terminating =>
    obtain ⟨c, rfl⟩ := Option.isSome_iff_exists.mp hf.1
    by_cases hlive : c.live
    · exact killed_dies hr rfl (hf.2 c rfl hlive) hlive
    · refine .of_branch (d := 0) (a := .process id (.terminate true)) hr rfl
        (.process (congrArg (Option.map _) (if_pos (.inl ?_)))) trivial rfl
      exact Bool.eq_false_iff.mpr hlive
  | returned result => exact .of_branch (d := 0) (a := .settle id) hr rfl (.settle rfl) trivial rfl

/-- A request that does not wait for the lane goes on by itself. -/
theorem request_goes_on (hr : s.requests[id]? = some r) (hp : r.Proper) (hrank : 0 < r.rank)
    (hq : r.phase.tenure ≠ .queued) : GoesOn host token s := by
  obtain ⟨work, phase, child, caller⟩ := r
  cases phase with
  | spawned t => exact .of_branch (d := 0) (a := .poll id) hr rfl (.poll rfl) trivial rfl
  | acquiring t => exact absurd rfl hq
  | admitted t₁ t₂ => exact .of_branch (d := 0) (a := .enter id) hr rfl (.enter rfl) trivial rfl
  | executing times job stage => exact driver_goes_on hr rfl hp.2
  | reporting times outcome execution =>
    obtain ⟨⟨w, hw⟩, -⟩ := hp
    exact .of_branch (d := 0) (a := .report id) hr rfl (.report rfl hw) trivial rfl
  | padding release reply =>
    refine .of_branch (d := release.getD 0) (a := .leave id) hr rfl (.leave rfl ?_) trivial rfl
    cases release with
    | none => rfl
    | some t => exact decide_eq_true (Nat.le_add_left t s.now)
  | released reply => exact .of_branch (d := 0) (a := .finish id) hr rfl (.finish rfl) trivial rfl
  | finished reply => exact ending_goes_on hr rfl hp hrank
  | locking =>
    obtain ⟨⟨slot, hw⟩, -⟩ := hp
    exact .of_branch (d := 0) (a := .read id) hr rfl (.read rfl hw) trivial rfl
  | dropped =>
    obtain ⟨-, rfl, rfl⟩ := hp
    cases hrank

theorem Phase.rank_pos_of_inside {p : Phase} (h : p.tenure = .inside) : 0 < p.rank := by
  cases p with
  | admitted | executing | reporting | padding => exact Nat.succ_pos _
  | _ => cases h

/-- As long as something is left to do, the lab goes on by itself: a request that
waits for the lane waits for one that does not. -/
theorem own_step (hs : Sane s) (hrank : 0 < s.rank) : GoesOn host token s := by
  obtain ⟨r, hmem, hpos⟩ : ∃ r ∈ s.requests, 0 < r.rank := by
    by_contra hnone
    push Not at hnone
    refine absurd (List.sum_eq_zero fun n hn => ?_) (Nat.ne_of_gt hrank)
    obtain ⟨r, hr, rfl⟩ := List.mem_map.mp hn
    exact Nat.le_zero.mp (hnone r hr)
  obtain ⟨id, hr⟩ := List.mem_iff_getElem?.mp hmem
  by_cases hq : r.phase.tenure = .queued
  · obtain ⟨j, hj⟩ := Semaphore.exists_holder Nat.one_pos
      (hs.attended id (by rw [State.tenure_of hr, hq]))
    have ht := hs.laned.holder j hj
    obtain ⟨r₁, hr₁⟩ : ∃ r₁, s.requests[j]? = some r₁ := by
      cases hr₁ : s.requests[j]? with
      | some r₁ => exact ⟨r₁, rfl⟩
      | none =>
        rw [State.tenure, hr₁] at ht
        rcases ht with ht | ht <;> cases ht
    rw [State.tenure_of hr₁] at ht
    rcases ht with ht | ht
    · -- the lane was handed over, and the task has not seen it yet
      obtain ⟨work, phase, child, caller⟩ := r₁
      cases phase with
      | acquiring t =>
        exact .of_branch (d := 0) (a := .grant j) hr₁ rfl (.grant rfl hj) trivial rfl
      | _ => cases ht
    · refine request_goes_on hr₁ (hs.proper r₁ (List.mem_of_getElem? hr₁)) ?_ (by rw [ht]; decide)
      exact Nat.lt_of_lt_of_le (Phase.rank_pos_of_inside ht)
        ((Nat.le_add_right _ _).trans (Nat.le_add_right _ _))
  · exact request_goes_on hr (hs.proper r hmem) hpos hq

/-! ## Rest -/

/-- Everything is done: the tasks have returned, the callers are told or gone, the
runners are dead, and the lane is free. -/
structure State.Quiet (s : State policy) : Prop where
  ended : ∀ r ∈ s.requests, r.phase = .dropped ∨ ∃ reply, r.phase = .finished reply
  told : ∀ r ∈ s.requests, r.caller ≠ .connected
  dead : ∀ r ∈ s.requests, ∀ c, r.child = some c → c.live = false
  pending : s.pending = 0
  lane : s.lane.free = 1 ∧ s.lane.waiters = []

/-- A request that costs nothing any more. -/
structure Request.Ended (r : Request policy) : Prop where
  phase : r.phase = .dropped ∨ ∃ reply, r.phase = .finished reply
  told : r.caller ≠ .connected
  dead : ∀ c, r.child = some c → c.live = false
  pending : r.pending = false
  tenure : r.phase.tenure = .after

theorem Request.Proper.ended (hp : r.Proper) (h : r.rank = 0) : r.Ended := by
  obtain ⟨work, phase, child, caller⟩ := r
  obtain ⟨⟨hphase, hchild⟩, hcaller⟩ : (phase.rank = 0 ∧ childRank child = 0) ∧ caller.rank = 0 := by
    simpa [Request.rank, Nat.add_eq_zero_iff] using h
  have htold : caller ≠ .connected := fun hc => by
    subst hc
    cases hcaller
  have hdead : ∀ c, child = some c → c.live = false := fun c hc => by
    subst hc
    exact Bool.toNat_eq_zero.mp hchild
  cases phase with
  | dropped => exact ⟨.inl rfl, htold, hdead, by rw [Request.pending, hp.1, Bool.false_and], rfl⟩
  | finished reply => exact ⟨.inr ⟨reply, rfl⟩, htold, hdead, Bool.and_false _, rfl⟩
  | _ => cases hphase

theorem quiet_of_rank (hs : Sane s) (ha : Admitted s) (h : s.rank = 0) : s.Quiet := by
  have hended : ∀ r ∈ s.requests, r.Ended := fun r hr =>
    (hs.proper r hr).ended (List.sum_eq_zero_iff.mp h _ (List.mem_map_of_mem hr))
  have hafter : ∀ i, s.tenure i = .before ∨ s.tenure i = .after := by
    intro i
    cases hr : s.requests[i]? with
    | none => exact .inl (by rw [State.tenure, hr])
    | some r =>
      exact .inr (by rw [State.tenure_of hr]; exact (hended r (List.mem_of_getElem? hr)).tenure)
  have hholders : s.lane.holders = [] := by
    refine List.eq_nil_iff_forall_not_mem.mpr fun i hi => ?_
    rcases hs.laned.holder i hi with ht | ht <;> rcases hafter i with h' | h' <;> rw [ht] at h' <;>
      cases h'
  have hfree : s.lane.free = 1 := by
    have hbal := s.lane.balance
    rwa [hholders] at hbal
  refine ⟨fun r hr => (hended r hr).phase, fun r hr => (hended r hr).told,
    fun r hr => (hended r hr).dead, ?_, hfree, s.lane.idle (by rw [hfree]; exact Nat.one_pos)⟩
  rw [ha.pending, List.countP_eq_zero]
  exact fun r hr => Bool.eq_false_iff.mp (hended r hr).pending

theorem GoesOn.steps (hs : Sane s) (h : GoesOn host token s) :
    ∃ s', Relation.ReflTransGen ((machine host token policy).StepWhen Own) s s' ∧ Sane s' ∧
      s'.rank < s.rank := by
  obtain ⟨d, a, s', hown, hcounts, hstep⟩ := h
  have hadvance : step host token s (.advance d) = some (s.later d) := rfl
  obtain ⟨hlater, -⟩ := step_pays hs hadvance
  obtain ⟨hs', hpays⟩ := step_pays hlater hstep
  refine ⟨s', .tail (.single ⟨.advance d, trivial, hadvance⟩) ⟨a, hown, hstep⟩, hs', ?_⟩
  have harrives : a.arrives = false := by
    cases a with
    | arrive => cases hcounts
    | _ => rfl
  rw [hcounts, harrives, Bool.toNat_true, Bool.toNat_false, Nat.mul_zero] at hpays
  exact hpays

/-- In every run, whatever requests come in, callers go and runners do: besides the
clock and the output of runners, a request costs at most 14 steps; as long as the
lab is not at rest, it can go on by itself after some time; and so it comes to rest
by itself, even if no runner does anything but die when it is killed. -/
theorem lab_drains {l : List Action}
    (h : (machine host token policy).run (.initial policy) l = some s) :
    l.countP Action.counts + s.rank ≤ 14 * l.countP Action.arrives ∧
    (s.Quiet ∨ GoesOn host token s) ∧
    ∃ s', Relation.ReflTransGen ((machine host token policy).StepWhen Own) s s' ∧ s'.Quiet := by
  have hreach : (machine host token policy).Reachable s := Machine.Reachable.init.run h
  have hadmitted : ∀ {s : State policy}, (machine host token policy).Reachable s → Admitted s :=
    fun hr => (hr.exists_record increment).elim fun _ hlog => (reachable_booked hlog).1
  obtain ⟨hs, hpaid⟩ := (ranks host token policy).run .initial h
  have hstart : (State.initial policy).rank = 0 := rfl
  refine ⟨hpaid.trans_eq (by rw [show (ranks host token policy).value = State.rank from rfl, hstart,
    Nat.zero_add, arrivalPrice]), ?_, ?_⟩
  · rcases Nat.eq_zero_or_pos s.rank with hzero | hpos
    · exact .inl (quiet_of_rank hs (hadmitted hreach) hzero)
    · exact .inr (own_step hs hpos)
  · obtain ⟨s', hown, hs', hzero⟩ := (ranks host token policy).settles
      (fun s hs hpos => (own_step hs hpos).steps hs) hs
    exact ⟨s', hown, quiet_of_rank hs' (hadmitted (hreach.steps hown)) hzero⟩

/-- A runner that hangs, and a reset behind it in the queue. -/
theorem lab_drains_hung_runner :
    ∃ s, (machine streamHost sampleToken (defaultPolicy 131072)).Reachable s ∧ s.pending = 1 ∧
      s.lane.waiters = [1] ∧ s.rank = 23 ∧
      ∃ s', Relation.ReflTransGen
        ((machine streamHost sampleToken (defaultPolicy 131072)).StepWhen Own) s s' ∧ s'.Quiet := by
  have hrun : ∃ s, (machine streamHost sampleToken (defaultPolicy 131072)).run
      (.initial (defaultPolicy 131072))
      [.arrive (some sampleToken) (.streamChunk sampleChunk.1), .poll 0, .grant 0, .enter 0,
        .process 0 (.launch .spawned), .arrive (some sampleToken) (.streamReset 1),
        .process 0 (.emit [76])] = some s ∧ s.pending = 1 ∧ s.lane.waiters = [1] ∧ s.rank = 23 :=
    ⟨_, rfl, rfl, rfl, rfl⟩
  obtain ⟨s, hs, hpending, hwaiters, hrank⟩ := hrun
  exact ⟨s, Machine.Reachable.init.run hs, hpending, hwaiters, hrank, (lab_drains hs).2.2⟩

end Lab
