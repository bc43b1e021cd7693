import IshtarOxide.Lib.Tally
import IshtarOxide.Lab.StreamClient

/-!
# The accounts of the stream benchmark

How the chunks of a scenario are dealt out, and what becomes of them in the totals of its
report, whatever the client hears. Then the client against a server that may answer
anything. There a request and its answer are one step, since only the times and the answer
matter to the client.

* `dealt_perm`: every chunk is in the indices of one task, or omitted for one session.
* `account_skip`, `account_receive`: what a chunk does to the account of a task.
* `Client.Balanced.task` and the like: the accounts of the client balance.
* `conserves_iff`, `accounts_iff`: when the totals of a report add up.
-/

namespace Lab

/-! ## The chunks of the sessions -/

section Offered

variable {scenario : Scenario} {slot index : Nat}

theorem mem_offered (hcount : 0 < scenario.sessionCount) (hslot : slot < scenario.sessionCount) :
    index ∈ scenario.offered slot ↔
      index < scenario.offeredChunks ∧ index % scenario.sessionCount = slot := by
  simp only [Scenario.offered, List.mem_range']
  constructor
  · rintro ⟨i, hi, rfl⟩
    rw [Nat.lt_div_iff_mul_lt hcount] at hi
    refine ⟨?_, ?_⟩
    · have hcomm := Nat.mul_comm i scenario.sessionCount
      omega
    · rw [Nat.add_mul_mod_self_left, Nat.mod_eq_of_lt hslot]
  · rintro ⟨hlt, hmod⟩
    have hdiv := Nat.div_add_mod index scenario.sessionCount
    refine ⟨index / scenario.sessionCount, ?_, by omega⟩
    rw [Nat.lt_div_iff_mul_lt hcount]
    have hcomm := Nat.mul_comm (index / scenario.sessionCount) scenario.sessionCount
    omega

/-- Every chunk is dealt to one session. -/
theorem offered_perm (hcount : 0 < scenario.sessionCount) :
    ((List.range scenario.sessionCount).flatMap scenario.offered).Perm
      (List.range scenario.offeredChunks) := by
  refine (List.perm_ext_iff_of_nodup ?_ List.nodup_range).mpr fun index => ?_
  · refine List.nodup_flatMap.mpr ⟨fun slot _ => List.nodup_range' _ hcount, ?_⟩
    refine List.nodup_range.pairwise_of_forall_ne fun slot hslot slot' hslot' hne => ?_
    refine List.disjoint_left.mpr fun index hindex hindex' => hne ?_
    rw [mem_offered hcount (List.mem_range.mp hslot)] at hindex
    rw [mem_offered hcount (List.mem_range.mp hslot')] at hindex'
    exact hindex.2.symm.trans hindex'.2
  · rw [List.mem_flatMap, List.mem_range]
    constructor
    · rintro ⟨slot, hslot, hindex⟩
      exact ((mem_offered hcount (List.mem_range.mp hslot)).mp hindex).1
    · intro hlt
      have hmod := Nat.mod_lt index hcount
      exact ⟨_, List.mem_range.mpr hmod, (mem_offered hcount hmod).mpr ⟨hlt, rfl⟩⟩

end Offered

namespace Scenario

variable (scenario : Scenario) (maxChunksPerSession : Nat)

/-- The chunks of a session that are omitted for capacity. -/
def omitted (slot : Nat) : List Nat := (scenario.offered slot).drop maxChunksPerSession

/-- How many chunks the tasks are given. -/
def assignedChunks : Nat :=
  ((List.range scenario.sessionCount).map fun slot =>
    (scenario.indices maxChunksPerSession slot).length).sum

/-- How many chunks are omitted for capacity. -/
def omittedChunks : Nat :=
  ((List.range scenario.sessionCount).map (scenario.omittedForCapacity maxChunksPerSession)).sum

end Scenario

section Dealt

variable {scenario : Scenario} {maxChunks : Nat}

theorem indices_append_omitted (slot : Nat) :
    scenario.indices maxChunks slot ++ scenario.omitted maxChunks slot = scenario.offered slot :=
  List.take_append_drop _ _

theorem length_omitted (slot : Nat) :
    (scenario.omitted maxChunks slot).length = scenario.omittedForCapacity maxChunks slot := by
  have happend : (scenario.indices maxChunks slot).length +
      (scenario.omitted maxChunks slot).length = (scenario.offered slot).length := by
    rw [← List.length_append, indices_append_omitted]
  rw [Scenario.omittedForCapacity]
  omega

theorem dealt_perm (hcount : 0 < scenario.sessionCount) :
    ((List.range scenario.sessionCount).flatMap fun slot =>
      scenario.indices maxChunks slot ++ scenario.omitted maxChunks slot).Perm
      (List.range scenario.offeredChunks) := by
  simp only [indices_append_omitted]
  exact offered_perm hcount

theorem assigned_add_omitted (hcount : 0 < scenario.sessionCount) :
    scenario.assignedChunks maxChunks + scenario.omittedChunks maxChunks =
      scenario.offeredChunks := by
  rw [Scenario.assignedChunks, Scenario.omittedChunks, ← List.sum_map_add]
  simp only [← length_omitted, ← List.length_append]
  rw [← List.length_flatMap, (dealt_perm hcount).length_eq, List.length_range]

end Dealt

/-! ## Accounts -/

/-- How many chunks are still to come, how many have a record, and how many are in which
total. -/
@[ext]
structure Account where
  left : Nat
  records : Nat
  attempted : Nat
  completed : Nat
  throttled : Nat
  failed : Nat
  backpressured : Nat

namespace Account

instance instZero : Zero Account := ⟨⟨0, 0, 0, 0, 0, 0, 0⟩⟩

instance instAdd : Add Account := ⟨fun a b =>
  ⟨a.left + b.left, a.records + b.records, a.attempted + b.attempted, a.completed + b.completed,
    a.throttled + b.throttled, a.failed + b.failed, a.backpressured + b.backpressured⟩⟩

instance instAddCommMonoid : AddCommMonoid Account where
  add_assoc a b c := by ext <;> exact Nat.add_assoc ..
  zero_add a := by ext <;> exact Nat.zero_add _
  add_zero a := by ext <;> exact Nat.add_zero _
  add_comm a b := by ext <;> exact Nat.add_comm ..
  nsmul := nsmulRec

/-- Of so many chunks that were assigned and so many that were omitted, each is in one total or
still to come, and each assigned one has a record or is still to come. So many attempts were not
counted. -/
structure Balanced (assigned omitted foreign : Nat) (a : Account) : Prop where
  records : a.records + a.left = assigned
  totals : a.completed + a.throttled + a.failed + a.backpressured + a.left = assigned + omitted
  attempts : a.attempted + foreign = a.completed + a.throttled + a.failed

/-- What a session does to its account; `n` is the number of its attempts that are not counted. -/
structure Moves (n : Nat) (a a' : Account) : Prop where
  records : a'.records + a'.left = a.records + a.left
  totals : a'.completed + a'.throttled + a'.failed + a'.backpressured + a'.left =
    a.completed + a.throttled + a.failed + a.backpressured + a.left
  attempts : a'.completed + a'.throttled + a'.failed + a.attempted =
    a.completed + a.throttled + a.failed + a'.attempted + n

variable {assigned assigned' omitted omitted' foreign foreign' n : Nat} {a a' b : Account}

theorem balanced_zero : (0 : Account).Balanced 0 0 0 := ⟨rfl, rfl, rfl⟩

theorem Balanced.add (ha : a.Balanced assigned omitted foreign)
    (hb : b.Balanced assigned' omitted' foreign') :
    (a + b).Balanced (assigned + assigned') (omitted + omitted') (foreign + foreign') := by
  obtain ⟨hrecords, htotals, hattempts⟩ := ha
  obtain ⟨hrecords', htotals', hattempts'⟩ := hb
  constructor
  · show a.records + b.records + (a.left + b.left) = _
    omega
  · show a.completed + b.completed + (a.throttled + b.throttled) + (a.failed + b.failed) +
      (a.backpressured + b.backpressured) + (a.left + b.left) = _
    omega
  · show a.attempted + b.attempted + _ =
      a.completed + b.completed + (a.throttled + b.throttled) + (a.failed + b.failed)
    omega

theorem balanced_sum {ι : Type} {f : ι → Account} {x y : ι → Nat}
    (h : ∀ i, (f i).Balanced (x i) (y i) 0) (l : List ι) :
    (l.map f).sum.Balanced (l.map x).sum (l.map y).sum 0 := by
  induction l with
  | nil => exact balanced_zero
  | cons i l ih =>
    simp only [List.map_cons, List.sum_cons]
    exact (h i).add ih

/-- One session moves while the others wait. -/
theorem Balanced.moves (h : (b + a).Balanced assigned omitted foreign) (hm : Moves n a a') :
    (b + a').Balanced assigned omitted (foreign + n) := by
  obtain ⟨hrecords, htotals, hattempts⟩ := h
  obtain ⟨hrecords', htotals', hattempts'⟩ := hm
  constructor
  · show b.records + a'.records + (b.left + a'.left) = _
    have h : b.records + a.records + (b.left + a.left) = assigned := hrecords
    omega
  · show b.completed + a'.completed + (b.throttled + a'.throttled) + (b.failed + a'.failed) +
      (b.backpressured + a'.backpressured) + (b.left + a'.left) = _
    have h : b.completed + a.completed + (b.throttled + a.throttled) + (b.failed + a.failed) +
      (b.backpressured + a.backpressured) + (b.left + a.left) = assigned + omitted := htotals
    omega
  · show b.attempted + a'.attempted + _ =
      b.completed + a'.completed + (b.throttled + a'.throttled) + (b.failed + a'.failed)
    have h : b.attempted + a.attempted + foreign =
      b.completed + a.completed + (b.throttled + a.throttled) + (b.failed + a.failed) := hattempts
    omega

theorem Moves.refl (a : Account) : Moves 0 a a := ⟨rfl, rfl, rfl⟩

end Account

/-- The account of a run that has so many chunks to come. -/
def SessionRun.account (run : SessionRun) (left : Nat) : Account :=
  ⟨left, run.records.length, run.records.countP (·.attempt), run.completed, run.serverThrottled,
    run.failed, run.clientBackpressured⟩

/-- A task that was joined is on the account of the tally. -/
def Task.account (t : Task) : Account :=
  match t.phase with
  | .returned true => 0
  | .returned false => t.run.account 0
  | phase => t.run.account (t.indices.length + phase.inFlight)

def Tally.account (tally : Tally) : Account :=
  ⟨0, tally.records.length, tally.attempted, tally.completed, tally.serverThrottled, tally.failed,
    tally.clientBackpressured⟩

theorem account_join (tally : Tally) (slot : UInt16) (run : SessionRun) :
    (tally.join slot run).account = tally.account + run.account 0 := by
  ext
  · rfl
  · exact List.length_append
  all_goals rfl

theorem account_sort (tally : Tally) : tally.sort.account = tally.account := by
  ext
  · rfl
  · exact List.length_mergeSort _
  all_goals rfl

/-- The answer says what only the client says. -/
def ServerAnswer.foreign : ServerAnswer → Bool
  | .accepted body => body.outcome = "client_backpressure"
  | _ => false

section Steps

variable {scenario : Scenario} {t : Task}

/-- One chunk gets a record, and is in one more total. -/
theorem moves_of_record {run run' : SessionRun} {record : StreamChunkRecord} {left n : Nat}
    (hrecords : run'.records = run.records ++ [record])
    (htotals : run'.completed + run'.serverThrottled + run'.failed + run'.clientBackpressured =
      run.completed + run.serverThrottled + run.failed + run.clientBackpressured + 1)
    (hattempts : run'.completed + run'.serverThrottled + run'.failed =
      run.completed + run.serverThrottled + run.failed + (record.attempt.toNat + n)) :
    (run.account (left + 1)).Moves n (run'.account left) := by
  constructor
  · show run'.records.length + left = run.records.length + (left + 1)
    rw [hrecords, List.length_append, List.length_singleton]
    omega
  · show run'.completed + run'.serverThrottled + run'.failed + run'.clientBackpressured + left =
      run.completed + run.serverThrottled + run.failed + run.clientBackpressured + (left + 1)
    omega
  · show run'.completed + run'.serverThrottled + run'.failed +
        run.records.countP (·.attempt) =
      run.completed + run.serverThrottled + run.failed + run'.records.countP (·.attempt) + n
    rw [hrecords, List.countP_concat_toNat]
    omega

/-- The record of an answer is an attempt unless the answer is foreign. -/
theorem attempt_foreign {record : StreamChunkRecord} {body : ChunkBody}
    (h : record.outcome = body.outcome) :
    record.attempt.toNat + (ServerAnswer.accepted body).foreign.toNat = 1 := by
  rw [StreamChunkRecord.attempt, ServerAnswer.foreign, h]
  by_cases hforeign : body.outcome = "client_backpressure"
  · rw [hforeign]
    rfl
  · simp [hforeign]

theorem account_looping (hp : t.phase = .looping) : t.account = t.run.account t.indices.length := by
  rw [Task.account, hp]
  rfl

theorem account_awaiting {index started : Nat} {request : Option Nat}
    (hp : t.phase = .awaiting index started request) :
    t.account = t.run.account (t.indices.length + 1) := by
  rw [Task.account, hp]
  rfl

/-- A chunk that is not sent. -/
theorem account_skip {index : Nat} {rest : List Nat} (hp : t.phase = .looping)
    (hi : t.indices = index :: rest) :
    t.account.Moves 0 ({ t.skip scenario index with indices := rest } : Task).account := by
  have hskip : ({ t.skip scenario index with indices := rest } : Task).account =
      (t.skip scenario index).run.account rest.length := account_looping hp
  rw [account_looping hp, hi, hskip]
  exact moves_of_record rfl rfl rfl

/-- A chunk that was sent, if the client can read the answer. -/
theorem account_receive {index started now : Nat} {request : Option Nat} {answer : ServerAnswer}
    (hp : t.phase = .awaiting index started request)
    (hlive : (t.receive scenario index started now answer).phase ≠ .failed) :
    t.account.Moves answer.foreign.toNat (t.receive scenario index started now answer).account := by
  rw [account_awaiting hp]
  cases answer with
  | tooMany =>
    rw [account_looping rfl]
    refine moves_of_record rfl ?_ ?_
    · show t.run.completed + (t.run.serverThrottled + 1) + t.run.failed +
          t.run.clientBackpressured =
        t.run.completed + t.run.serverThrottled + t.run.failed + t.run.clientBackpressured + 1
      omega
    · show t.run.completed + (t.run.serverThrottled + 1) + t.run.failed =
        t.run.completed + t.run.serverThrottled + t.run.failed + 1
      omega
  | rejected => exact absurd rfl hlive
  | accepted body =>
    rw [account_looping rfl]
    by_cases hcomplete : body.outcome = "complete"
    · simp only [Task.receive, Task.ran, if_pos hcomplete]
      refine moves_of_record rfl ?_ ?_
      · show t.run.completed + 1 + t.run.serverThrottled + t.run.failed +
            t.run.clientBackpressured =
          t.run.completed + t.run.serverThrottled + t.run.failed + t.run.clientBackpressured + 1
        omega
      · rw [attempt_foreign rfl]
        show t.run.completed + 1 + t.run.serverThrottled + t.run.failed =
          t.run.completed + t.run.serverThrottled + t.run.failed + 1
        omega
    · simp only [Task.receive, Task.ran, if_neg hcomplete]
      refine moves_of_record rfl ?_ ?_
      · show t.run.completed + t.run.serverThrottled + (t.run.failed + 1) +
            t.run.clientBackpressured =
          t.run.completed + t.run.serverThrottled + t.run.failed + t.run.clientBackpressured + 1
        omega
      · -- any other outcome is a failure in the run, and an attempt unless it is foreign
        rw [attempt_foreign rfl]
        rfl

end Steps

/-! ## The client -/

/-- The accounts of all tasks and of the tally, unless something has failed. -/
def Client.Balanced (scenario : Scenario) (assigned omitted foreign : Nat) (c : Client) : Prop :=
  match c.driver with
  | .joining tally => (∀ t ∈ c.tasks, t.phase ≠ .failed) →
      (tally.account + (c.tasks.map Task.account).sum).Balanced assigned omitted foreign
  | .verifying tally _ _ _ _ => tally.account.Balanced assigned omitted foreign
  | .returned report => ∃ (tally : Tally) (verified mismatches : Nat),
      report = tally.report scenario verified mismatches ∧
        tally.account.Balanced assigned omitted foreign
  | .failed => True

/-- The tasks were live before one of them made a step, if they are after it. -/
theorem live_of_set {tasks : List Task} {k : Nat} {t t' : Task} (ht : tasks[k]? = some t)
    (hlive : t'.phase ≠ .failed → t.phase ≠ .failed)
    (h : ∀ t₁ ∈ tasks.set k t', t₁.phase ≠ .failed) :
    (∀ t₁ ∈ tasks, t₁.phase ≠ .failed) ∧ t'.phase ≠ .failed := by
  have hlive' := h t' (List.mem_set (List.getElem?_eq_some_iff.mp ht).1 t')
  refine ⟨fun t₁ ht₁ => ?_, hlive'⟩
  obtain ⟨j, hj⟩ := List.mem_iff_getElem?.mp ht₁
  by_cases hjk : k = j
  · subst hjk
    rw [ht] at hj
    cases hj
    exact hlive hlive'
  · exact h t₁ (List.mem_iff_getElem?.mpr ⟨j, by rw [List.getElem?_set_ne hjk]; exact hj⟩)

namespace Client.Balanced

variable {scenario : Scenario} {assigned omitted foreign n k : Nat} {c : Client} {tally : Tally}
  (h : c.Balanced scenario assigned omitted foreign)

include h

/-- One task makes a step. -/
theorem task {t t' : Task} (hd : c.driver = .joining tally) (ht : c.tasks[k]? = some t)
    (hlive : t'.phase ≠ .failed → t.phase ≠ .failed)
    (hm : t'.phase ≠ .failed → t.account.Moves n t'.account) :
    Client.Balanced scenario assigned omitted (foreign + n)
      { c with tasks := c.tasks.set k t' } := by
  unfold Client.Balanced at h ⊢
  simp only [hd] at h ⊢
  intro hall
  obtain ⟨hbefore, hlive'⟩ := live_of_set ht hlive hall
  obtain ⟨rest, hsum, hset⟩ := List.exists_sum_set (f := Task.account) ht
  have hb := h hbefore
  rw [hsum, ← add_assoc] at hb
  rw [hset, ← add_assoc]
  exact hb.moves (hm hlive')

/-- After the last task was joined the tasks do not matter. -/
theorem withTasks (hne : ∀ tally, c.driver ≠ .joining tally) (tasks : List Task) :
    Client.Balanced scenario assigned omitted foreign { c with tasks := tasks } := by
  unfold Client.Balanced at h ⊢
  split at h
  · next tally hd => exact absurd hd (hne tally)
  · next hd =>
    simp only [hd]
    exact h
  · next hd =>
    simp only [hd]
    exact h
  · next hd => simp only [hd]

theorem join {t : Task} (hd : c.driver = .joining tally) (ht : c.tasks[k]? = some t)
    (hp : t.phase = .returned false) : Client.Balanced scenario assigned omitted foreign
      ⟨c.tasks.set k { t with phase := .returned true }, .joining (tally.join t.slot t.run)⟩ := by
  unfold Client.Balanced at h
  simp only [hd] at h
  intro hall
  obtain ⟨hbefore, -⟩ := live_of_set ht (fun _ => by rw [hp]; exact TaskPhase.noConfusion) hall
  obtain ⟨rest, hsum, hset⟩ := List.exists_sum_set (f := Task.account) ht
  have hb := h hbefore
  -- the account of the task is in the tally from now on
  have haccount : t.account = t.run.account 0 := by rw [Task.account, hp]
  have hjoined : ({ t with phase := .returned true } : Task).account = 0 := rfl
  rw [hsum, haccount] at hb
  rw [hset, account_join, hjoined, add_zero, add_assoc, add_comm _ rest]
  exact hb

theorem joined (hd : c.driver = .joining tally) (hall : ∀ t ∈ c.tasks, t.phase = .returned true) :
    Client.Balanced scenario assigned omitted foreign
      { c with driver := .verifying tally.sort 0 none 0 0 } := by
  unfold Client.Balanced at h
  simp only [hd] at h
  have hb := h fun t ht => by rw [hall t ht]; exact TaskPhase.noConfusion
  -- every task has been joined, so only the tally is left
  have hzero : (c.tasks.map Task.account).sum = 0 := by
    refine List.sum_eq_zero fun a ha => ?_
    obtain ⟨t, ht, rfl⟩ := List.mem_map.mp ha
    rw [Task.account, hall t ht]
  rw [hzero, add_zero] at hb
  show (tally.sort).account.Balanced _ _ _
  rw [account_sort]
  exact hb

theorem ask {slot verified mismatches : Nat} {request : Option Nat}
    (hd : c.driver = .verifying tally slot request verified mismatches) (request' : Option Nat) :
    Client.Balanced scenario assigned omitted foreign
      { c with driver := .verifying tally slot request' verified mismatches } := by
  unfold Client.Balanced at h
  simp only [hd] at h
  exact h

theorem verify {slot verified mismatches : Nat} {request : Option Nat}
    (hd : c.driver = .verifying tally slot request verified mismatches)
    (sha256 : List UInt8 → List UInt8) (answer : Option StreamStateResponse) :
    Client.Balanced scenario assigned omitted foreign
      { c with driver := .verify sha256 tally slot verified mismatches answer } := by
  unfold Client.Balanced at h
  simp only [hd] at h
  unfold Driver.verify
  split
  · split
    · exact h
    · exact h
  · trivial

theorem conclude {slot verified mismatches : Nat}
    (hd : c.driver = .verifying tally slot none verified mismatches) :
    Client.Balanced scenario assigned omitted foreign
      { c with driver := .returned (tally.report scenario verified mismatches) } := by
  unfold Client.Balanced at h
  simp only [hd] at h
  exact ⟨tally, verified, mismatches, rfl, h⟩

end Client.Balanced

theorem balanced_initial (scenario : Scenario) (maxChunks : Nat) :
    Client.Balanced scenario (scenario.assignedChunks maxChunks) (scenario.omittedChunks maxChunks)
      0 ⟨scenario.tasks maxChunks, .joining (.empty scenario.sessionCount)⟩ := by
  intro _
  have hempty : (Tally.empty scenario.sessionCount).account = 0 := rfl
  rw [hempty, zero_add, Scenario.tasks, List.map_map]
  refine Account.balanced_sum (fun slot => ⟨Nat.zero_add _, ?_, rfl⟩) _
  show 0 + 0 + 0 + scenario.omittedForCapacity maxChunks slot +
    (scenario.indices maxChunks slot).length = _
  omega

/-- The chunks of a report are accounted for. -/
structure Conserves (scenario : Scenario) (maxChunksPerSession : Nat)
    (report : StreamScenarioReport) : Prop where
  dealt : ((List.range scenario.sessionCount).flatMap fun slot =>
    scenario.indices maxChunksPerSession slot ++ scenario.omitted maxChunksPerSession slot).Perm
    (List.range report.offeredChunks)
  offered : report.offeredChunks = report.attemptedChunks + report.clientBackpressuredChunks
  attempted : report.attemptedChunks =
    report.completedChunks + report.serverThrottledChunks + report.failedChunks
  records : report.records.length + scenario.omittedChunks maxChunksPerSession =
    report.offeredChunks

theorem conserves_iff {scenario : Scenario} {maxChunks foreign : Nat} {c : Client}
    {report : StreamScenarioReport} (hcount : 1 ≤ scenario.sessionCount)
    (hb : c.Balanced scenario (scenario.assignedChunks maxChunks) (scenario.omittedChunks maxChunks)
      foreign) (hd : c.driver = .returned report) :
    Conserves scenario maxChunks report ↔ foreign = 0 := by
  unfold Client.Balanced at hb
  simp only [hd] at hb
  obtain ⟨tally, verified, mismatches, rfl, hrecords, htotals, hattempts⟩ := hb
  have hsum : scenario.assignedChunks maxChunks + scenario.omittedChunks maxChunks =
      scenario.offeredChunks := assigned_add_omitted hcount
  have hrecords' : tally.records.length = scenario.assignedChunks maxChunks := hrecords
  have htotals' : tally.completed + tally.serverThrottled + tally.failed +
      tally.clientBackpressured = scenario.assignedChunks maxChunks +
        scenario.omittedChunks maxChunks := htotals
  have hattempts' : tally.attempted + foreign =
      tally.completed + tally.serverThrottled + tally.failed := hattempts
  constructor
  · intro hconserves
    have hattempted : tally.attempted = tally.completed + tally.serverThrottled + tally.failed :=
      hconserves.attempted
    omega
  · intro hzero
    refine ⟨dealt_perm hcount, ?_, ?_, ?_⟩
    · show scenario.offeredChunks = tally.attempted + tally.clientBackpressured
      omega
    · show tally.attempted = tally.completed + tally.serverThrottled + tally.failed
      omega
    · show tally.records.length + scenario.omittedChunks maxChunks = scenario.offeredChunks
      omega

/-! ## Any server -/

namespace Accounts

/-- `abort` is a connection that fails, or a panic. -/
inductive SessionEvent
  | skip
  | answered (requestStarted now : Nat) (answer : ServerAnswer)
  | abort
  | finish
deriving DecidableEq, Repr

def sessionStep (scenario : Scenario) (t : Task) (e : SessionEvent) : Option Task :=
  match e, t.phase, t.indices with
  | .skip, .looping, index :: rest =>
    if t.late scenario index then some { t.skip scenario index with indices := rest } else none
  | .answered requestStarted now answer, .looping, index :: rest =>
    if t.late scenario index = false ∧ scenario.started + scenario.offset index ≤ requestStarted ∧
        requestStarted ≤ now then
      let sent : Task := { t with indices := rest, phase := .awaiting index requestStarted none }
      some (sent.receive scenario index requestStarted now answer)
    else none
  | .abort, .looping, _ => some { t with phase := .failed }
  | .finish, .looping, [] => some { t with phase := .returned false }
  | _, _, _ => none

/-- What happens next. A state that cannot be fetched is `none`. -/
inductive Event
  | session (k : Nat) (e : SessionEvent)
  | join (k : Nat)
  | verify
  | state (answer : Option StreamStateResponse)
  | conclude
deriving DecidableEq, Repr

def step (sha256 : List UInt8 → List UInt8) (scenario : Scenario) (c : Client) :
    Event → Option Client
  | .session k e =>
    match c.driver with
    | .joining _ =>
      c.tasks[k]?.bind fun t =>
        (sessionStep scenario t e).map fun t' => { c with tasks := c.tasks.set k t' }
    | _ => none
  | .join k => c.join k
  | .verify => c.joined
  | .state answer =>
    match c.driver with
    | .verifying tally slot none verified mismatches =>
      if slot < tally.expected.length then
        some { c with driver := .verify sha256 tally slot verified mismatches answer }
      else none
    | _ => none
  | .conclude => c.conclude scenario

/-- `run_scenario`, with the sessions that it spawns. -/
def scenarioMachine (sha256 : List UInt8 → List UInt8) (scenario : Scenario)
    (maxChunksPerSession : Nat) : Machine Client Event :=
  ⟨⟨scenario.tasks maxChunksPerSession, .joining (.empty scenario.sessionCount)⟩,
    step sha256 scenario⟩

def SessionEvent.foreign : SessionEvent → Bool
  | .answered _ _ answer => answer.foreign
  | _ => false

def Event.foreign : Event → Bool
  | .session _ e => e.foreign
  | _ => false

section Runs

variable {sha256 : List UInt8 → List UInt8} {scenario : Scenario} {maxChunks : Nat}
  {c c' : Client} {events : List Event} {report : StreamScenarioReport}

theorem session_moves {t t' : Task} {e : SessionEvent} (h : sessionStep scenario t e = some t') :
    t.phase ≠ .failed ∧ (t'.phase ≠ .failed → t.account.Moves e.foreign.toNat t'.account) := by
  unfold sessionStep at h
  split at h
  · next index rest hp hi =>
    obtain ⟨-, h⟩ := Option.ite_none_right_eq_some.mp h
    cases h
    exact ⟨by rw [hp]; exact TaskPhase.noConfusion, fun _ => account_skip hp hi⟩
  · next requestStarted now answer index rest hp hi =>
    obtain ⟨-, h⟩ := Option.ite_none_right_eq_some.mp h
    cases h
    refine ⟨by rw [hp]; exact TaskPhase.noConfusion, fun hlive => ?_⟩
    -- sending the chunk moves nothing
    have hsent : t.account = ({ t with
        indices := rest, phase := .awaiting index requestStarted none } : Task).account := by
      rw [account_looping hp, hi, account_awaiting rfl]
      rfl
    rw [hsent]
    exact account_receive rfl hlive
  · next hp =>
    cases h
    exact ⟨by rw [hp]; exact TaskPhase.noConfusion, fun hlive => absurd rfl hlive⟩
  · next hp hi =>
    cases h
    refine ⟨by rw [hp]; exact TaskPhase.noConfusion, fun _ => ?_⟩
    rw [account_looping hp, hi]
    exact .refl _
  · cases h

theorem balanced_step {assigned omitted foreign : Nat} {e : Event}
    (hb : c.Balanced scenario assigned omitted foreign) (h : step sha256 scenario c e = some c') :
    c'.Balanced scenario assigned omitted (foreign + e.foreign.toNat) := by
  cases e with
  | session k e =>
    simp only [step] at h
    split at h
    · next tally hd =>
      obtain ⟨t, ht, h⟩ := Option.bind_eq_some_iff.mp h
      obtain ⟨t', hstep, rfl⟩ := Option.map_eq_some_iff.mp h
      obtain ⟨hlive, hmoves⟩ := session_moves hstep
      exact hb.task hd ht (fun _ => hlive) hmoves
    · cases h
  | join k =>
    obtain ⟨tally, t, hd, ht, ⟨hp, rfl⟩ | ⟨-, rfl⟩⟩ := Client.join_eq_some h
    · exact hb.join hd ht hp
    · trivial
  | verify =>
    obtain ⟨tally, hd, hall, rfl⟩ := Client.joined_eq_some h
    exact hb.joined hd hall
  | state answer =>
    simp only [step] at h
    split at h
    · next hd =>
      obtain ⟨-, h⟩ := Option.ite_none_right_eq_some.mp h
      cases h
      exact hb.verify hd sha256 answer
    · cases h
  | conclude =>
    obtain ⟨tally, slot, verified, mismatches, hd, -, rfl⟩ := Client.conclude_eq_some h
    exact hb.conclude hd

theorem balanced_run (h : (scenarioMachine sha256 scenario maxChunks).run
      (scenarioMachine sha256 scenario maxChunks).init events = some c) :
    c.Balanced scenario (scenario.assignedChunks maxChunks) (scenario.omittedChunks maxChunks)
      (events.countP (·.foreign)) := by
  refine Machine.run_invariant (P := fun events c => c.Balanced scenario
    (scenario.assignedChunks maxChunks) (scenario.omittedChunks maxChunks)
    (events.countP (·.foreign))) (balanced_initial scenario maxChunks) ?_ h
  intro events c e c' hb hstep
  rw [List.countP_concat_toNat]
  exact balanced_step hb hstep

/-- A report adds up unless the server has answered with the outcome that the client records
where it sends nothing. -/
theorem accounts_iff (hcount : 1 ≤ scenario.sessionCount)
    (h : (scenarioMachine sha256 scenario maxChunks).run
      (scenarioMachine sha256 scenario maxChunks).init events = some c)
    (hreport : c.driver = .returned report) :
    Conserves scenario maxChunks report ↔ ∀ e ∈ events, e.foreign = false := by
  rw [conserves_iff hcount (balanced_run h) hreport]
  simp only [List.countP_eq_zero, Bool.not_eq_true]

end Runs

/-- Three chunks for two sessions with room for one each. -/
def sampleScenario : Scenario := ⟨[], 2, 3, 2, 0, fun _ => 0⟩

/-- The answers of the server, the sessions that end and are joined, and two states. -/
def sampleEvents (first second : ServerAnswer) : List Event :=
  [.session 1 (.answered 0 5 second), .session 0 (.answered 0 7 first), .session 0 .finish,
    .session 1 .finish, .join 1, .join 0, .verify, .state (some ⟨0, 0, 0, "x"⟩),
    .state (some ⟨1, 0, 0, "x"⟩), .conclude]

theorem accounts_throttled :
    ∃ c report,
      (scenarioMachine (fun _ => []) sampleScenario 1).run
        (scenarioMachine (fun _ => []) sampleScenario 1).init
        (sampleEvents (.accepted ⟨"complete", 0, 1, 2⟩) .tooMany) = some c ∧
      c.driver = .returned report ∧
      (Conserves sampleScenario 1 report ↔
        ∀ e ∈ sampleEvents (.accepted ⟨"complete", 0, 1, 2⟩) .tooMany, e.foreign = false) :=
  ⟨_, _, rfl, rfl, @accounts_iff (fun _ => []) _ _ _ _ _ (by decide) rfl rfl⟩

/-- The first answer claims the outcome of a chunk that was not sent. -/
theorem accounts_foreign_outcome :
    ∃ c report,
      (scenarioMachine (fun _ => []) sampleScenario 1).run
        (scenarioMachine (fun _ => []) sampleScenario 1).init
        (sampleEvents (.accepted ⟨"client_backpressure", 0, 1, 2⟩) .tooMany) = some c ∧
      c.driver = .returned report ∧
      report.offeredChunks ≠ report.attemptedChunks + report.clientBackpressuredChunks ∧
      report.attemptedChunks ≠
        report.completedChunks + report.serverThrottledChunks + report.failedChunks ∧
      ¬ Conserves sampleScenario 1 report := by
  refine ⟨_, _, rfl, rfl, by decide, by decide, fun h => ?_⟩
  exact absurd h.offered (by decide)

end Accounts

end Lab
