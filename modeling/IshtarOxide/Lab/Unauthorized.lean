import IshtarOxide.Lib.Sieve
import IshtarOxide.Lab.Streams

/-!
# Requests without the token

Every handler calls `authorize` before it touches anything. A schedule without the
requests that do not have the token therefore runs as the schedule with them, up to
the names of the requests: the numbers of those that stay.

* `authorize_eq`: who is let in.
* `stepAt_sifted`, `arrive_sifted`: an action in the two runs.
* `unauthorized_invisible`: the two runs.
-/

open Sieve

namespace Lab

/-! ## Deleting requests -/

/-- The token header is there, is visible and is the token. -/
def passes (token : List UInt8) : Option (List UInt8) → Bool
  | some value => value.all visible && value = token
  | none => false

/-- An action on the request with another name. -/
def Action.rename (f : Nat → Nat) : Action → Action
  | .arrive header call => .arrive header call
  | .disconnect id => .disconnect (f id)
  | .poll id => .poll (f id)
  | .grant id => .grant (f id)
  | .enter id => .enter (f id)
  | .process id event => .process (f id) event
  | .settle id => .settle (f id)
  | .report id => .report (f id)
  | .leave id => .leave (f id)
  | .finish id => .finish (f id)
  | .read id => .read (f id)
  | .respond id => .respond (f id)
  | .advance d => .advance d

/-- Which of the requests of a schedule stay. -/
def arrivals (token : List UInt8) : List Action → List Bool
  | [] => []
  | .arrive header _ :: l => passes token header :: arrivals token l
  | _ :: l => arrivals token l

/-- A schedule without the requests that do not have the token. `flags` says which of the
requests before it stay. -/
def withoutUnauthorized (token : List UInt8) : List Bool → List Action → List Action
  | _, [] => []
  | flags, .arrive header call :: l =>
    if passes token header then
      .arrive header call :: withoutUnauthorized token (flags ++ [true]) l
    else withoutUnauthorized token (flags ++ [false]) l
  | flags, .advance d :: l => .advance d :: withoutUnauthorized token flags l
  | flags, a :: l =>
    if flags[a.id]? = some false then withoutUnauthorized token flags l
    else a.rename (rank flags) :: withoutUnauthorized token flags l

/-! ## Who is let in -/

variable {policy : Policy} {host : Host} {token : List UInt8} {s t : State policy} {a : Action}
  {flags : List Bool} {k : Nat} {r : Request policy}

/-- The strings that SHA-256 is applied to for the headers of a schedule. -/
def hashed (token : List UInt8) (l : List Action) : Set (List UInt8) :=
  fun value => value = [] ∨ value = token ∨ ∃ call, Action.arrive (some value) call ∈ l

/-- Where SHA-256 has no collision, only the token itself is let in. -/
theorem authorize_eq {l : List Action} (htoken : token ≠ [])
    (hinj : Set.InjOn host.sha256 (hashed token l)) {header : Option (List UInt8)} {call : Call}
    (hmem : Action.arrive header call ∈ l) :
    authorize host token header = passes token header := by
  have hempty : host.sha256 [] ≠ host.sha256 token := fun h =>
    htoken (hinj (.inl rfl) (.inr (.inl rfl)) h).symm
  cases header with
  | none => simpa [authorize, passes] using hempty
  | some value =>
    have hvalue : host.sha256 value = host.sha256 token ↔ value = token :=
      ⟨fun h => hinj (.inr (.inr ⟨call, hmem⟩)) (.inr (.inl rfl)) h, fun h => by rw [h]⟩
    simp only [authorize, passes]
    by_cases hvis : value.all visible = true
    · simp [hvis, hvalue]
    · simp [hvis, hempty]

/-! ## The two runs -/

/-- The parts of the state that name requests. -/
structure Roster (policy : Policy) where
  requests : List (Request policy)
  lane : Semaphore 1
  order : List Nat

namespace Roster

variable (x : Roster policy)

def put (id : Nat) (r : Request policy) : Roster policy :=
  { x with requests := x.requests.set id r }

def push (r : Request policy) : Roster policy := { x with requests := x.requests ++ [r] }

def acquire (id : Nat) : Roster policy :=
  { x with
    lane := x.lane.acquire id
    order := x.order ++ if 0 < x.lane.free then [id] else [] }

def release (id : Nat) : Roster policy :=
  { x with lane := x.lane.release id, order := x.order ++ x.lane.next.toList }

def cancel (id : Nat) : Roster policy := { x with lane := x.lane.cancel id }

end Roster

def State.roster (s : State policy) : Roster policy := ⟨s.requests, s.lane, s.order⟩

/-- The state with other requests. -/
def State.withRoster (s : State policy) (x : Roster policy) : State policy :=
  { s with requests := x.requests, lane := x.lane, order := x.order }

@[simp] theorem State.withRoster_sessions (s : State policy) (x : Roster policy) :
    (s.withRoster x).sessions = s.sessions := rfl

/-- A request that was not let in. -/
def refusal (policy : Policy) (time : Nat) : Request policy :=
  ⟨.answered, .finished (.error .unauthorized), none, .answered time (.error .unauthorized)⟩

/-- `y` is what stays of `x`, and the others were refused. -/
structure Sifted (flags : List Bool) (x y : Roster policy) : Prop where
  requests : Sifts flags x.requests y.requests
  lane : y.lane.Renames (position flags) x.lane
  order : x.order = y.order.map (position flags)
  known : ∀ i, y.lane.Known i ∨ i ∈ y.order → i < flags.count true
  refused : ∀ id : Nat, flags[id]? = some false → ∃ time, x.requests[id]? = some (refusal policy time)

namespace Sifted

variable {x y : Roster policy}

theorem initial : Sifted [] (State.initial policy).roster (State.initial policy).roster where
  requests := .nil
  lane := ⟨rfl, rfl, rfl⟩
  order := rfl
  known := by
    rintro i (h | h)
    · cases h
    · cases h
  refused := fun id h => by cases h

theorem holds (h : Sifted flags x y) : position flags k ∈ x.lane.holders ↔ k ∈ y.lane.holders :=
  h.lane.mem_holders (position_injective flags)

theorem put (h : Sifted flags x y) (hk : k < flags.count true) (r : Request policy) :
    Sifted flags (x.put (position flags k) r) (y.put k r) where
  requests := h.requests.set k r
  lane := h.lane
  order := h.order
  known := h.known
  refused := by
    intro id hid
    have hne : position flags k ≠ id := by
      rintro rfl
      rw [getElem?_position hk] at hid
      cases hid
    show ∃ time, (x.requests.set (position flags k) r)[id]? = _
    rw [List.getElem?_set_ne hne]
    exact h.refused id hid

theorem acquire (h : Sifted flags x y) (hk : k < flags.count true) :
    Sifted flags (x.acquire (position flags k)) (y.acquire k) where
  requests := h.requests
  lane := h.lane.acquire (position_injective flags) k
  order := by
    show x.order ++ _ = (y.order ++ _).map _
    rw [h.order, h.lane.free, List.map_append]
    split
    · rfl
    · rfl
  known := by
    rintro i (hi | hi)
    · rcases Semaphore.known_acquire hi with hi | rfl
      · exact h.known i (.inl hi)
      · exact hk
    · rcases List.mem_append.mp hi with hi | hi
      · exact h.known i (.inr hi)
      · split at hi
        · rw [List.mem_singleton.mp hi]
          exact hk
        · cases hi
  refused := h.refused

theorem release (h : Sifted flags x y) (k : Nat) :
    Sifted flags (x.release (position flags k)) (y.release k) where
  requests := h.requests
  lane := h.lane.release (position_injective flags) k
  order := by
    show x.order ++ _ = (y.order ++ _).map _
    rw [h.order, h.lane.next, List.map_append, Option.toList_map]
  known := by
    rintro i (hi | hi)
    · exact h.known i (.inl (Semaphore.known_release hi))
    · rcases List.mem_append.mp hi with hi | hi
      · exact h.known i (.inr hi)
      · exact h.known i (.inl (List.mem_append_left _ (Semaphore.next_mem (Option.mem_toList.mp hi))))
  refused := h.refused

theorem cancel (h : Sifted flags x y) (k : Nat) :
    Sifted flags (x.cancel (position flags k)) (y.cancel k) where
  requests := h.requests
  lane := h.lane.cancel (position_injective flags) k
  order := h.order
  known := by
    rintro i (hi | hi)
    · exact h.known i (.inl (Semaphore.known_cancel hi))
    · exact h.known i (.inr hi)
  refused := h.refused

theorem refused_append (h : Sifted flags x y) {b : Bool} {r : Request policy}
    (hr : b = false → ∃ time, r = refusal policy time) (id : Nat)
    (hid : (flags ++ [b])[id]? = some false) :
    ∃ time, (x.requests ++ [r])[id]? = some (refusal policy time) := by
  have hlen := h.requests.length
  rcases Nat.lt_trichotomy id flags.length with hlt | rfl | hgt
  · rw [List.getElem?_append_left hlt] at hid
    rw [List.getElem?_append_left (hlen ▸ hlt)]
    exact h.refused id hid
  · rw [List.getElem?_concat_length, Option.some.injEq] at hid
    obtain ⟨time, rfl⟩ := hr hid
    exact ⟨time, by rw [← hlen, List.getElem?_concat_length]⟩
  · rw [List.getElem?_eq_none (by rw [List.length_append, List.length_singleton]; omega)] at hid
    cases hid

/-- A request that stays. -/
theorem push (h : Sifted flags x y) (r : Request policy) :
    Sifted (flags ++ [true]) (x.push r) (y.push r) where
  requests := h.requests.append_true r
  lane := by rw [position_append_true]; exact h.lane
  order := by rw [position_append_true]; exact h.order
  known := by
    intro i hi
    rw [List.count_append]
    exact Nat.lt_add_right _ (h.known i hi)
  refused := h.refused_append fun hb => by cases hb

/-- A request that is refused. -/
theorem refuse (h : Sifted flags x y) (time : Nat) :
    Sifted (flags ++ [false]) (x.push (refusal policy time)) y where
  requests := h.requests.append_false _
  lane := h.lane.congr fun i hi => position_append_false (h.known i (.inl hi))
  order := by
    show x.order = _
    rw [h.order]
    exact List.map_congr_left fun i hi => (position_append_false (h.known i (.inr hi))).symm
  known := by
    intro i hi
    rw [List.count_append]
    exact Nat.lt_add_right _ (h.known i hi)
  refused := h.refused_append fun _ => ⟨time, rfl⟩

end Sifted

/-- `t'` is `t` without the refused requests. -/
def Follows (flags : List Bool) (t t' : State policy) : Prop :=
  ∃ y', t' = t.withRoster y' ∧ Sifted flags t.roster y'

section Actions

variable {y : Roster policy} (h : Sifted flags s.roster y) (hk : k < flags.count true)

include h hk

theorem disconnect_sifted (r : Request policy) :
    Follows flags (s.disconnect (position flags k) r) ((s.withRoster y).disconnect k r) := by
  unfold State.disconnect
  split
  · have hold : position flags k ∈ s.lane.holders ↔ k ∈ (s.withRoster y).lane.holders := h.holds
    dsimp only
    by_cases hk' : k ∈ (s.withRoster y).lane.holders
    · rw [if_pos (hold.mpr hk'), if_pos hk']
      exact ⟨_, rfl, (h.put hk _).release k⟩
    · rw [if_neg fun hold' => hk' (hold.mp hold'), if_neg hk']
      exact ⟨_, rfl, (h.put hk _).cancel k⟩
  · exact ⟨_, rfl, (h.put hk _).release k⟩
  · exact ⟨_, rfl, h.put hk _⟩
  · exact ⟨_, rfl, h.put hk _⟩

theorem enter_sifted (r : Request policy) (received admitted : Nat) :
    Follows flags (s.enter host (position flags k) r received admitted)
      ((s.withRoster y).enter host k r received admitted) := by
  unfold State.enter
  split
  · exact ⟨_, rfl, h.put hk _⟩
  · next w _ =>
    dsimp only [State.withRoster_sessions]
    by_cases hsequence : w.1.sequence ≠ (s.sessions w.slot).nextSequence
    · rw [if_pos hsequence, if_pos hsequence]
      exact ⟨_, rfl, (h.put hk _).release k⟩
    · rw [if_neg hsequence, if_neg hsequence]
      split
      · exact ⟨_, rfl, (h.put hk _).release k⟩
      · exact ⟨_, rfl, h.put hk _⟩
  · exact ⟨_, rfl, (h.put hk _).release k⟩
  · exact ⟨_, rfl, h⟩
  · exact ⟨_, rfl, h⟩

theorem settle_sifted (r : Request policy) (times : Times) (result : ProcessResult) :
    Follows flags (s.settle (position flags k) r times result)
      ((s.withRoster y).settle k r times result) := by
  unfold State.settle
  split
  · exact ⟨_, rfl, h.put hk _⟩
  · exact ⟨_, rfl, h.put hk _⟩
  · exact ⟨_, rfl, h.put hk _⟩
  · exact ⟨_, rfl, h.put hk _⟩
  · exact ⟨_, rfl, h.put hk _⟩
  · exact ⟨_, rfl, h.put hk _⟩
  · exact ⟨_, rfl, h⟩

/-- An action on a request that stays. -/
theorem stepAt_sifted (ht : stepAt host s (position flags k) r a = some t) :
    ∃ t', stepAt host (s.withRoster y) k r a = some t' ∧ Follows flags t t' := by
  cases stepAt_branch ht with
  | disconnect hc => exact ⟨_, Branch.stepAt (.disconnect hc), disconnect_sifted h hk r⟩
  | poll hp => exact ⟨_, Branch.stepAt (.poll hp), _, rfl, (h.put hk _).acquire hk⟩
  | grant hp hold =>
    exact ⟨_, Branch.stepAt (.grant hp (h.holds.mp hold)), _, rfl, h.put hk _⟩
  | enter hp => exact ⟨_, Branch.stepAt (.enter hp), enter_sifted h hk r _ _⟩
  | process hr' => exact ⟨_, Branch.stepAt (.process hr'), _, rfl, h.put hk _⟩
  | settle hp => exact ⟨_, Branch.stepAt (.settle hp), settle_sifted h hk r _ _⟩
  | report hp hw => exact ⟨_, Branch.stepAt (.report hp hw), _, rfl, h.put hk _⟩
  | leave hp hrelease =>
    exact ⟨_, Branch.stepAt (.leave hp hrelease), _, rfl, (h.put hk _).release k⟩
  | finish hp => exact ⟨_, Branch.stepAt (.finish hp), _, rfl, h.put hk _⟩
  | read hp hw => exact ⟨_, Branch.stepAt (.read hp hw), _, rfl, h.put hk _⟩
  | respond hp hc => exact ⟨_, Branch.stepAt (.respond hp hc), _, rfl, h.put hk _⟩

end Actions

/-- Nothing more happens to a request that was refused. -/
theorem stepAt_refusal {id time : Nat} : stepAt host s id (refusal policy time) a = none := by
  cases a <;> rfl

theorem stepAt_rename (f : Nat → Nat) (id : Nat) :
    stepAt host s id r (a.rename f) = stepAt host s id r a := by
  cases a <;> rfl

theorem answer_sifted {y : Roster policy} (h : Sifted flags s.roster y) (reply : Reply) :
    Follows (flags ++ [true]) (s.answer reply) ((s.withRoster y).answer reply) :=
  ⟨_, rfl, h.push _⟩

theorem accept_sifted {y : Roster policy} (h : Sifted flags s.roster y) (work : Work policy) :
    Follows (flags ++ [true]) (s.accept work) ((s.withRoster y).accept work) := by
  unfold State.accept
  by_cases hlt : s.pending < maxPending
  · rw [if_pos hlt, if_pos (show (s.withRoster y).pending < maxPending from hlt)]
    exact ⟨_, rfl, h.push _⟩
  · rw [if_neg hlt, if_neg (show ¬ (s.withRoster y).pending < maxPending from hlt)]
    exact ⟨_, rfl, h.push _⟩

/-- A request that has the token comes in. -/
theorem arrive_sifted {y : Roster policy} (h : Sifted flags s.roster y)
    {header : Option (List UInt8)} (hauth : authorize host token header = true) (call : Call) :
    Follows (flags ++ [true]) (s.arrive host token header call)
      ((s.withRoster y).arrive host token header call) := by
  have hin : ¬ authorize host token header = false := by rw [hauth]; decide
  unfold State.arrive
  rw [if_neg hin, if_neg hin]
  cases call with
  | health => exact answer_sifted h _
  | turn request =>
    dsimp only
    split
    · exact accept_sifted h _
    · exact answer_sifted h _
  | streamChunk request =>
    dsimp only
    split
    · exact accept_sifted h _
    · exact answer_sifted h _
  | streamReset count =>
    dsimp only
    split
    · exact answer_sifted h _
    · -- a reset asks for the lane at once, under the number that it has in each state
      have hx : s.requests.length = position (flags ++ [true]) (flags.count true) := by
        rw [position_append_true]
        exact h.requests.length.trans (position_count flags 0).symm
      have hy : (s.withRoster y).requests.length = flags.count true := h.requests.count
      have hlt : flags.count true < (flags ++ [true]).count true := by simp
      rw [hx, hy]
      exact ⟨_, rfl, (h.push _).acquire hlt⟩
  | streamState slot =>
    dsimp only
    split
    · exact ⟨_, rfl, h.push _⟩
    · exact answer_sifted h _

/-- A request that does not have it comes in. -/
theorem arrive_refused {y : Roster policy} (h : Sifted flags s.roster y)
    {header : Option (List UInt8)} (hauth : authorize host token header = false) (call : Call) :
    (s.arrive host token header call).withRoster y = s.withRoster y ∧
      Sifted (flags ++ [false]) (s.arrive host token header call).roster y := by
  unfold State.arrive
  rw [if_pos hauth]
  exact ⟨rfl, h.refuse s.now⟩

theorem withoutUnauthorized_cons (a : Action) (l : List Action) :
    withoutUnauthorized token flags (a :: l) = withoutUnauthorized token flags [a] ++
      withoutUnauthorized token (flags ++ arrivals token [a]) l := by
  cases a with
  | arrive header call =>
    simp only [withoutUnauthorized, arrivals]
    cases passes token header <;> rfl
  | advance d => simp [withoutUnauthorized, arrivals]
  | _ =>
    simp only [withoutUnauthorized, arrivals, List.append_nil]
    split <;> rfl

theorem arrivals_cons (a : Action) (l : List Action) :
    arrivals token (a :: l) = arrivals token [a] ++ arrivals token l := by
  cases a <;> rfl

/-- An action on a request: neither one that comes in nor the clock. -/
def Action.onRequest : Action → Bool
  | .arrive .. | .advance _ => false
  | _ => true

theorem withoutUnauthorized_single (token : List UInt8) (ha : a.onRequest)
    (hflag : flags[a.id]? ≠ some false) :
    withoutUnauthorized token flags [a] = [a.rename (rank flags)] ∧ arrivals token [a] = [] := by
  cases a with
  | arrive header call => cases ha
  | advance d => cases ha
  | _ => exact ⟨if_neg hflag, rfl⟩

theorem step_onRequest (ha : a.onRequest) :
    step host token s a = s.requests[a.id]?.bind fun r => stepAt host s a.id r a := by
  cases a with
  | arrive header call => cases ha
  | advance d => cases ha
  | _ => rfl

theorem onRequest_rename (f : Nat → Nat) (ha : a.onRequest) :
    (a.rename f).onRequest ∧ (a.rename f).id = f a.id := by
  cases a with
  | arrive header call => cases ha
  | advance d => cases ha
  | _ => exact ⟨rfl, rfl⟩

section Step

variable {y : Roster policy} (h : Sifted flags s.roster y)

include h

/-- Only requests that stay do anything. -/
theorem flag_of_step {id : Nat} (hr : s.requests[id]? = some r)
    (ht : stepAt host s id r a = some t) : flags[id]? = some true := by
  cases hf : flags[id]? with
  | none =>
    rw [List.getElem?_eq_none_iff, ← h.requests.length] at hf
    rw [show s.requests[id]? = none from List.getElem?_eq_none hf] at hr
    cases hr
  | some b =>
    cases b with
    | true => rfl
    | false =>
      obtain ⟨time, hrefused⟩ := h.refused id hf
      rw [show s.requests[id]? = _ from hrefused] at hr
      cases hr
      rw [stepAt_refusal] at ht
      cases ht

theorem onRequest_sifted (ha : a.onRequest) (ht : step host token s a = some t) :
    ∃ y', (machine host token policy).run (s.withRoster y) (withoutUnauthorized token flags [a]) =
        some (t.withRoster y') ∧
      Sifted (flags ++ arrivals token [a]) t.roster y' := by
  rw [step_onRequest ha] at ht
  obtain ⟨r, hr, ht⟩ := Option.bind_eq_some_iff.mp ht
  have hflag := flag_of_step h hr ht
  have hpos := position_rank hflag
  have hget : (s.withRoster y).requests[rank flags a.id]? = some r := by
    rw [← hr]
    exact (h.requests.get _).trans (by rw [hpos]; rfl)
  rw [← hpos] at ht
  obtain ⟨t', hstep, y', rfl, hs⟩ := stepAt_sifted h (rank_lt hflag) ht
  have hkept : flags[a.id]? ≠ some false := by rw [hflag]; decide
  obtain ⟨hsingle, hnone⟩ := withoutUnauthorized_single token ha hkept
  obtain ⟨hrename, hid⟩ := onRequest_rename (rank flags) ha
  refine ⟨y', ?_, by rw [hnone, List.append_nil]; exact hs⟩
  rw [hsingle, Machine.run_singleton, machine_step, step_onRequest hrename, hid, hget,
    Option.bind_some, stepAt_rename, hstep]

/-- One action in the two runs. -/
theorem step_sifted
    (hauth : ∀ header call, a = .arrive header call →
      authorize host token header = passes token header)
    (ht : step host token s a = some t) :
    ∃ y', (machine host token policy).run (s.withRoster y) (withoutUnauthorized token flags [a]) =
        some (t.withRoster y') ∧
      Sifted (flags ++ arrivals token [a]) t.roster y' := by
  cases a with
  | arrive header call =>
    have hheader := hauth header call rfl
    cases ht
    simp only [withoutUnauthorized, arrivals]
    cases hp : passes token header with
    | true =>
      obtain ⟨y', hy', hs⟩ := arrive_sifted h (hheader.trans hp) call
      exact ⟨y', by rw [if_pos rfl, Machine.run_singleton]; exact congrArg some hy', hs⟩
    | false =>
      obtain ⟨hsame, hs⟩ := arrive_refused h (hheader.trans hp) call
      exact ⟨y, by rw [if_neg (by decide), hsame]; rfl, hs⟩
  | advance d =>
    cases ht
    refine ⟨y, rfl, ?_⟩
    rw [show arrivals token [.advance d] = [] from rfl, List.append_nil]
    exact h
  | _ => exact onRequest_sifted h rfl ht

end Step

theorem run_sifted {l : List Action} {y : Roster policy} (h : Sifted flags s.roster y)
    (hauth : ∀ header call, Action.arrive header call ∈ l →
      authorize host token header = passes token header)
    (ht : (machine host token policy).run s l = some t) :
    ∃ y', (machine host token policy).run (s.withRoster y) (withoutUnauthorized token flags l) =
        some (t.withRoster y') ∧
      Sifted (flags ++ arrivals token l) t.roster y' := by
  induction l generalizing s flags y with
  | nil =>
    cases ht
    exact ⟨y, rfl, by rw [arrivals, List.append_nil]; exact h⟩
  | cons a l ih =>
    obtain ⟨s₁, hs₁, ht⟩ := Machine.run_cons.mp ht
    obtain ⟨y₁, hrun₁, h₁⟩ := step_sifted h
      (fun header call ha => hauth header call (ha ▸ List.mem_cons_self)) hs₁
    obtain ⟨y', hrun, h'⟩ := ih h₁
      (fun header call hmem => hauth header call (List.mem_cons_of_mem a hmem)) ht
    refine ⟨y', ?_, by rw [arrivals_cons, ← List.append_assoc]; exact h'⟩
    rw [withoutUnauthorized_cons, Machine.run_append, hrun₁, Option.bind_some, hrun]

theorem serve_token {args : ServeArgs} (h : serve args = .ok policy) : args.token ≠ [] := by
  unfold serve at h
  split at h
  · cases h
  · next hlen =>
    intro hnil
    rw [hnil] at hlen
    exact hlen (by decide)

/-- For every schedule, and with no collision among the strings that are hashed for it:
the schedule without the requests that do not have the token runs as well and ends with
the same sessions, slot states, counters and pending count, with the same lane and the
same requests, answers included, up to their names; and the requests that are not in it
were answered with an error. -/
theorem unauthorized_invisible {args : ServeArgs} (hserve : serve args = .ok policy)
    {l : List Action} (hinj : Set.InjOn host.sha256 (hashed args.token l))
    (hrun : (machine host args.token policy).run (.initial policy) l = some s) :
    ∃ s', (machine host args.token policy).run (.initial policy)
        (withoutUnauthorized args.token [] l) = some s' ∧
      (s'.now = s.now ∧ s'.sessions = s.sessions ∧ s'.states = s.states ∧
        s'.counters = s.counters ∧ s'.pending = s.pending) ∧
      s'.lane.Renames (position (arrivals args.token l)) s.lane ∧
      s'.requests.length = (arrivals args.token l).count true ∧
      (∀ k : Nat, s'.requests[k]? = s.requests[position (arrivals args.token l) k]?) ∧
      ∀ id : Nat, (arrivals args.token l)[id]? = some false →
        ∃ r time e, s.requests[id]? = some r ∧ r.caller = .answered time (.error e) ∧
          ¬ (200 ≤ e.response.1 ∧ e.response.1 < 300) := by
  obtain ⟨y, hrun', h⟩ := run_sifted Sifted.initial
    (fun header call hmem => authorize_eq (serve_token hserve) hinj hmem) hrun
  refine ⟨s.withRoster y, hrun', ⟨rfl, rfl, rfl, rfl, rfl⟩, h.lane, h.requests.count,
    h.requests.get, fun id hid => ?_⟩
  obtain ⟨time, hrefused⟩ := h.refused id hid
  exact ⟨_, time, .unauthorized, hrefused, rfl, by decide⟩

/-- A chunk between a request without the token and one with another token. -/
def sampleSchedule : List Action :=
  [.arrive none .health, .arrive (some sampleToken) (.streamChunk sampleChunk.1),
    .arrive (some [76, 79]) (.streamReset 1), .poll 1, .grant 1, .enter 1,
    .process 1 (.launch .spawnFailed), .settle 1, .report 1, .leave 1, .finish 1, .respond 1]

theorem injOn_sampleSchedule : Set.InjOn streamHost.sha256 (hashed sampleToken sampleSchedule) := by
  have hvalue : ∀ value ∈ hashed sampleToken sampleSchedule,
      value = [] ∨ value = sampleToken ∨ value = [76, 79] := by
    rintro value (rfl | rfl | ⟨call, hmem⟩)
    · exact .inl rfl
    · exact .inr (.inl rfl)
    · simp only [sampleSchedule, List.mem_cons, Action.arrive.injEq, Option.some.injEq,
        reduceCtorEq, List.not_mem_nil, false_and, false_or, or_false] at hmem
      rcases hmem with ⟨rfl, -⟩ | ⟨rfl, -⟩
      · exact .inr (.inl rfl)
      · exact .inr (.inr rfl)
  intro a ha b hb hab
  rcases hvalue a ha with rfl | rfl | rfl <;> rcases hvalue b hb with rfl | rfl | rfl <;>
    first
      | rfl
      | exact absurd hab (by decide)

theorem unauthorized_invisible_sample :
    ∃ s s', (machine streamHost sampleToken (defaultPolicy 131072)).run (.initial _)
        sampleSchedule = some s ∧
      (machine streamHost sampleToken (defaultPolicy 131072)).run (.initial _)
        [.arrive (some sampleToken) (.streamChunk sampleChunk.1), .poll 0, .grant 0, .enter 0,
          .process 0 (.launch .spawnFailed), .settle 0, .report 0, .leave 0, .finish 0,
          .respond 0] = some s' ∧
      s'.counters = s.counters ∧ s'.requests[0]? = s.requests[1]? := by
  obtain ⟨s, hs⟩ : ∃ s, (machine streamHost sampleToken (defaultPolicy 131072)).run (.initial _)
      sampleSchedule = some s := ⟨_, rfl⟩
  obtain ⟨s', hs', hsame, -, -, hget, -⟩ :=
    unauthorized_invisible (serve_defaultArgs 131072) injOn_sampleSchedule hs
  exact ⟨s, s', hs, hs', hsame.2.2.2.1, hget 0⟩

end Lab
