import IshtarOxide.Lab.StreamAccounts
import IshtarOxide.Lab.StreamAgreement

/-!
# The accounts of the benchmark on the lab

The lab never sends the outcome that the client records where it sends nothing. So the
totals of a report add up, whatever other clients the lab has and however it answers.

* `Task.Effect.moves`, `Bench.Effect.balanced`: a step of a task, and of the driver.
* `bench_accounts`: the totals of a report.
-/

namespace Lab

variable {policy : Policy} {host : Host} {token : List UInt8} {scenario : Scenario}
  {s s' : State policy} {t t' : Task} {b b' : Bench policy} {maxChunks : Nat}

/-- The lab says nothing that only the client says. -/
theorem foreign_answer (reply : Reply) : reply.answer.foreign = false := by
  cases reply with
  | error e => cases e <;> rfl
  | chunk body =>
    show decide (body.outcome.text = "client_backpressure") = false
    cases body.outcome <;> rfl
  | _ => rfl

theorem Task.Effect.live {now : Nat} (h : Task.Effect host token scenario s now t s' t')
    (hlive : t'.phase ≠ .failed) : t.phase ≠ .failed := by
  cases h with
  | skip hp | send hp | deliver hp | receive hp | finish hp =>
    rw [hp]
    exact TaskPhase.noConfusion
  | abort => exact absurd rfl hlive

theorem Task.Effect.moves {now : Nat} (h : Task.Effect host token scenario s now t s' t')
    (hlive : t'.phase ≠ .failed) : t.account.Moves 0 t'.account := by
  cases h with
  | skip hp hi => exact account_skip hp hi
  | send hp hi =>
    rw [account_looping hp, hi, account_awaiting rfl]
    exact .refl _
  | deliver hp =>
    rw [account_awaiting hp, account_awaiting rfl]
    exact .refl _
  | @receive index started id reply hp hreply =>
    have hmoves := account_receive hp hlive
    rw [foreign_answer] at hmoves
    exact hmoves
  | abort => exact absurd rfl hlive
  | finish hp hi =>
    rw [account_looping hp, hi]
    exact .refl _

theorem Bench.Effect.balanced {assigned omitted : Nat} (h : Bench.Effect host token scenario b b')
    (hb : b.toClient.Balanced scenario assigned omitted 0) :
    b'.toClient.Balanced scenario assigned omitted 0 := by
  cases h with
  | join hd ht hp => exact hb.join hd ht hp
  | fail => trivial
  | verify hd hall => exact hb.joined hd hall
  | ask hd => exact hb.ask hd _
  | receive hd => exact hb.verify hd _ _
  | conclude hd => exact hb.conclude hd

theorem bench_balanced
    (h : (benchMachine host token scenario s (scenario.tasks maxChunks)).Reachable b) :
    b.toClient.Balanced scenario (scenario.assignedChunks maxChunks)
      (scenario.omittedChunks maxChunks) 0 := by
  refine h.invariant (P := fun b => b.toClient.Balanced scenario
    (scenario.assignedChunks maxChunks) (scenario.omittedChunks maxChunks) 0)
    (balanced_initial scenario maxChunks) fun b a b' hb hs => ?_
  cases Bench.step_does hs with
  | server => exact hb
  | tick => exact hb
  | task ht heffect =>
    by_cases hj : ∃ tally, b.driver = .joining tally
    · obtain ⟨tally, hd⟩ := hj
      exact hb.task hd ht heffect.live heffect.moves
    · exact hb.withTasks (fun tally hd => hj ⟨tally, hd⟩) _
  | drive heffect => exact heffect.balanced hb

/-- In every run of the benchmark next to the lab, whatever other clients there are, the
totals of a report add up. -/
theorem bench_accounts {report : StreamScenarioReport} (hcount : 1 ≤ scenario.sessionCount)
    (h : (benchMachine host token scenario s (scenario.tasks maxChunks)).Reachable b)
    (hreport : b.driver = .returned report) : Conserves scenario maxChunks report :=
  (conserves_iff hcount (bench_balanced h) hreport).mpr rfl

/-- The one chunk of the scenario is completed. -/
theorem bench_accounts_sample : ∃ b report, sampleMachine.Reachable b ∧
    b.driver = .returned report ∧ report.attemptedChunks = 1 ∧ report.completedChunks = 1 ∧
    Conserves sampleScenario 524288 report := by
  obtain ⟨b, hreach, hreport⟩ := sample_returned
  exact ⟨b, _, hreach.reachable, hreport, rfl, rfl,
    bench_accounts (by decide) hreach.reachable hreport⟩

end Lab
