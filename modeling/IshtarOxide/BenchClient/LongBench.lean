import Mathlib.Data.List.Range
import Mathlib.Logic.Function.Basic
import IshtarOxide.Lib.Decimal
import IshtarOxide.Lib.Machine

/-!
# A long benchmark

scripts/run-long-bench.sh from its loop over the rounds on, in a directory of reports. The script
can be interrupted at any point, and killed, which leaves its benchmark or its `mv` behind. It takes
no lock, so it can be started again at any time, with other options. The summary and what is printed
are left out, and moving a report, which renames a file within the directory, does not fail.

* `Script.step`: the script and its benchmark, `step`: the directory and all that is at work there.
* `reports_preserved`: what is in the directory, if every start finds it at rest;
  `reports_replaced` if not.
* `benchmarks_bounded`: what a single start of the script runs and leaves.
-/

namespace LongBench

/-! ## Reports -/

inductive Mode
  | signal
  | control
deriving DecidableEq, Repr

def Mode.text : Mode → String
  | .signal => "signal"
  | .control => "control"

/-- The arguments of `run_one`. -/
structure Run where
  profile : String
  seed : Int
  mode : Mode
deriving DecidableEq, Repr

/-- `final_path`, in `REPORT_DIR`. -/
def Run.finalPath (r : Run) : String :=
  r.profile ++ "-" ++ r.mode.text ++ "-seed-" ++ toString r.seed ++ ".json"

/-- `temp_path`. -/
def Run.tempPath (r : Run) : String := r.finalPath ++ ".tmp"

/-- A report, as far as the script reads it, and the rest of it. -/
structure Report where
  profileId : String
  seed : Nat
  control : Bool
  completed : Bool
  recordsDropped : Nat
  rest : List UInt8
deriving DecidableEq, Repr

/-- The files of `REPORT_DIR`. The benchmark can leave a file that is no report. -/
abbrev Files : Type := String → Option (Option Report)

/-- The test of a report. `number` is what `jq` reads an integer as. -/
def accepts {κ : Type} [DecidableEq κ] (number : Int → κ) (r : Run) : Option Report → Bool
  | some report =>
    report.profileId = r.profile && number report.seed = number r.seed &&
      report.control = (r.mode == .control) && report.completed &&
      number report.recordsDropped = number 0
  | none => false

/-! ## Names -/

/-- A path without what it ends in. -/
def Run.stem (r : Run) : List Char := (r.profile ++ "-" ++ r.mode.text ++ "-seed").toList

theorem toList_finalPath (r : Run) :
    r.finalPath.toList = r.stem ++ '-' :: (r.seed.repr.toList ++ ".json".toList) := by
  have hseed : toString r.seed = r.seed.repr := rfl
  simp only [Run.finalPath, Run.stem, String.toList_append, List.append_assoc, hseed]
  rfl

theorem getLast_stem (r : Run) : r.stem.getLast? ≠ some '-' := by
  rw [Run.stem, String.toList_append, List.getLast?_append_of_ne_nil _ (by decide)]
  decide

/-- Reports of different runs have different names. -/
theorem finalPath_injective {r r' : Run} (h : r.finalPath = r'.finalPath) : r = r' := by
  have hlist := congrArg String.toList h
  rw [toList_finalPath, toList_finalPath, ← List.cons_append, ← List.cons_append,
    ← List.append_assoc, ← List.append_assoc] at hlist
  obtain ⟨hstem, hseed⟩ := Decimal.append_repr_inj (getLast_stem r) (getLast_stem r')
    (List.append_cancel_right hlist)
  have hreverse := congrArg List.reverse hstem
  obtain ⟨profile, seed, mode⟩ := r
  obtain ⟨profile', seed', mode'⟩ := r'
  cases hseed
  cases mode <;> cases mode' <;>
    simp [Run.stem, Mode.text, String.toList_inj] at hreverse ⊢
  · exact hreverse
  · exact hreverse

/-- No report has the name of a temporary file. -/
theorem finalPath_ne_tempPath (r r' : Run) : r.finalPath ≠ r'.tempPath := by
  have hfinal : r.finalPath.toList.getLast? = some 'n' := by
    rw [Run.finalPath, String.toList_append, List.getLast?_append_of_ne_nil _ (by decide)]
    decide
  have htemp : r'.tempPath.toList.getLast? = some 'p' := by
    rw [Run.tempPath, String.toList_append, List.getLast?_append_of_ne_nil _ (by decide)]
    decide
  intro h
  rw [h, htemp] at hfinal
  exact absurd hfinal (by decide)

/-! ## The script -/

/-- The options that the script goes by, as `require_uint` and the tests before the loop let them
through. Profiles are names of files in the directory, not paths to others. -/
structure Config where
  rounds : Nat
  startSeed : String
  profiles : List String
  retries : Nat
  startSeed_digits : startSeed.toList ≠ [] ∧ startSeed.toList.all (·.isDigit)
  retries_lt : retries < 2 ^ 63
  retries_pos : 0 < retries
  profiles_ne_nil : profiles ≠ []
  profiles_plain : ∀ profile ∈ profiles, profile.toList.all (· ≠ '/') = true

/-- What the shell reads digits as in an expression: after a zero they are octal. -/
def readNumber (digits : List Char) : Option Nat :=
  match digits with
  | '0' :: rest =>
    if rest.all (· < '8') then some (Nat.ofDigitChars 8 rest 0) else none
  | _ => some (Nat.ofDigitChars 10 digits 0)

example : readNumber "010".toList = some 8 ∧ readNumber "08".toList = none ∧
    readNumber "80".toList = some 80 := by decide

/-- `modes`. -/
def modes (seed : Int) : List Mode :=
  if seed.tmod 2 = 0 then [.control, .signal] else [.signal, .control]

namespace Config

variable (c : Config)

/-- `seed` in a round, unless the shell gives up the loop. It counts with 64 bits. -/
def seed (round : Nat) : Option Int :=
  (readNumber c.startSeed.toList).map fun start => ((start + round : Nat) : Int).bmod (2 ^ 64)

/-- The tests of the loop. Both fail on a number of rounds that is not one of 64 bits. -/
def continues (round : Nat) : Prop := c.rounds < 2 ^ 63 ∧ (c.rounds = 0 ∨ round < c.rounds)

instance (round : Nat) : Decidable (c.continues round) := inferInstanceAs (Decidable (_ ∧ _))

/-- The calls of `run_one` with a seed. -/
def seedRuns (seed : Int) : List Run :=
  c.profiles.flatMap fun profile => (modes seed).map fun mode => ⟨profile, seed, mode⟩

/-- The calls of `run_one` in a round. -/
def roundRuns (round : Nat) : List Run := (c.seed round).elim [] c.seedRuns

/-- The calls of `run_one` in the first rounds. -/
def runs (rounds : Nat) : List Run := (List.range rounds).flatMap c.roundRuns

/-- The calls of the next round, if the loop comes to it. -/
def enter (round : Nat) : Option (List Run) :=
  if c.continues round then (c.seed round).map c.seedRuns else none

/-- The shell makes sense of the options. -/
def Readable : Prop := c.rounds < 2 ^ 63 ∧ (readNumber c.startSeed.toList).isSome

instance : Decidable c.Readable := inferInstanceAs (Decidable (_ ∧ _))

end Config

/-- How the script ends. -/
inductive Exit
  | complete
  | failures (n : Nat)
  | interrupted
  | invalid (r : Run)
deriving DecidableEq, Repr

/-- Where the script stands: before the loop; before a call of `run_one`, with what is left of the
round; in the call for `r`, before its benchmark, while that runs, after it, in the `mv` of a good
report, or asleep; or at its end. -/
inductive Phase
  | starting
  | looping (todo : List Run)
  | attempting (r : Run) (todo : List Run) (attempt : Nat)
  | running (r : Run) (todo : List Run) (attempt : Nat)
  | finished (r : Run) (todo : List Run) (attempt status : Nat)
  | moving (r : Run) (todo : List Run) (attempt : Nat)
  | sleeping (r : Run) (todo : List Run) (attempt : Nat)
  | exited (e : Exit)
deriving DecidableEq, Repr

structure Script where
  round : Nat
  phase : Phase
  interrupted : Bool
  failures : Nat
deriving DecidableEq, Repr

/-- The script before its loop. -/
def Script.initial : Script := ⟨0, .starting, false, 0⟩

/-- What follows the loop. -/
def Script.outcome (s : Script) : Exit :=
  if s.interrupted then .interrupted
  else if s.failures ≠ 0 then .failures s.failures
  else .complete

/-- The commands that can be killed before they have done anything. -/
inductive Command
  | jq
  | mv
deriving DecidableEq, Repr

/-- The script goes on, its benchmark writes to the file that it was given or exits, or there is
an interrupt, of which the command that is being run may die as well. -/
inductive ScriptAction
  | next
  | write (contents : Option Report)
  | exit (status : Nat)
  | interrupt (killed : Option Command)
deriving DecidableEq, Repr

/-- `mv`. -/
def Files.move (files : Files) (source target : String) : Files :=
  match files source with
  | some contents => Function.update (Function.update files target (some contents)) source none
  | none => files

section Step

variable {κ : Type} [DecidableEq κ] (number : Int → κ)

def Script.step (c : Config) (files : Files) (s : Script) :
    ScriptAction → Option (Files × Script)
  | .next =>
    match s.phase with
    | .starting =>
      match c.enter 0 with
      | some todo => some (files, { s with phase := .looping todo })
      | none => some (files, { s with phase := .exited s.outcome })
    | .looping [] =>
      match c.enter (s.round + 1) with
      | some todo => some (files, { s with round := s.round + 1, phase := .looping todo })
      | none => some (files, { s with phase := .exited s.outcome })
    | .looping (r :: todo) =>
      if s.interrupted then some (files, { s with phase := .exited s.outcome })
      else
        match files r.finalPath with
        | none => some (files, { s with phase := .attempting r todo 1 })
        | some contents =>
          if accepts number r contents then some (files, { s with phase := .looping todo })
          else some (files, { s with phase := .exited (.invalid r) })
    | .attempting r todo attempt => some (files, { s with phase := .running r todo attempt })
    | .finished r todo attempt status =>
      if status = 0 ∧ (files r.tempPath).any (accepts number r) then
        some (files, { s with phase := .moving r todo attempt })
      else if s.interrupted ∨ c.retries < attempt + 1 then
        some (files, { s with phase := .looping todo, failures := s.failures + 1 })
      else some (files, { s with phase := .sleeping r todo (attempt + 1) })
    | .moving r todo _ =>
      some (files.move r.tempPath r.finalPath, { s with phase := .looping todo })
    | .sleeping r todo attempt => some (files, { s with phase := .attempting r todo attempt })
    | _ => none
  | .write contents =>
    match s.phase with
    | .running r .. => some (Function.update files r.tempPath (some contents), s)
    | _ => none
  | .exit status =>
    match s.phase with
    | .running r todo attempt => some (files, { s with phase := .finished r todo attempt status })
    | _ => none
  | .interrupt killed =>
    match killed, s.phase with
    | none, .exited _ => none
    | none, _ => some (files, { s with interrupted := true })
    | some .jq, .looping (r :: _) =>
      if s.interrupted = false ∧ (files r.finalPath).isSome then
        some (files, { s with phase := .exited (.invalid r), interrupted := true })
      else none
    | some .jq, .finished _ todo _ 0 =>
      some (files,
        { s with phase := .looping todo, interrupted := true, failures := s.failures + 1 })
    | some .mv, .moving _ todo _ =>
      some (files, { s with phase := .looping todo, interrupted := true })
    | _, _ => none

/-- One start of the script in a directory. -/
def scriptMachine (c : Config) (files : Files) : Machine (Files × Script) ScriptAction :=
  ⟨(files, .initial), fun x => x.2.step number c x.1⟩

/-- What is at work in a directory: the script, or the benchmark or `mv` of one that was killed. -/
inductive Process
  | script (c : Config) (s : Script)
  | benchmark (r : Run)
  | mv (r : Run)
  | gone

/-- What a killed script leaves. The other commands that it runs change nothing. -/
def Phase.leave : Phase → Process
  | .running r .. => .benchmark r
  | .moving r .. => .mv r
  | _ => .gone

inductive ProcessAction
  | script (a : ScriptAction)
  | kill
  | write (contents : Option Report)
  | exit
deriving DecidableEq, Repr

def Process.step (files : Files) : Process → ProcessAction → Option (Files × Process)
  | .script c s, .script a => (s.step number c files a).map fun x => (x.1, .script c x.2)
  | .script _ s, .kill => some (files, s.phase.leave)
  | .benchmark r, .write contents =>
    some (Function.update files r.tempPath (some contents), .benchmark r)
  | .benchmark _, .exit | .benchmark _, .kill | .mv _, .kill => some (files, .gone)
  | .mv r, .exit => some (files.move r.tempPath r.finalPath, .gone)
  | _, _ => none

/-- The directory, and what is or was at work there. -/
structure World where
  files : Files
  processes : List Process

inductive Action
  | start (c : Config)
  | process (i : Nat) (a : ProcessAction)

def step (w : World) : Action → Option World
  | .start c => some { w with processes := w.processes ++ [.script c .initial] }
  | .process i a =>
    w.processes[i]?.bind fun p =>
      (p.step number w.files a).map fun x => ⟨x.1, w.processes.set i x.2⟩

/-- Scripts, from an empty directory on. -/
def machine : Machine World Action := ⟨⟨fun _ => none, []⟩, step number⟩

/-- How the script has ended. -/
def Phase.exit? : Phase → Option Exit
  | .exited e => some e
  | _ => none

/-- It has come to its end. -/
def Process.idle : Process → Bool
  | .script _ s => s.phase.exit?.isSome
  | .gone => true
  | .benchmark _ | .mv _ => false

/-- The script is started only where nothing is at work any more. -/
def Alone (w : World) : Action → Prop
  | .start _ => ∀ p ∈ w.processes, p.idle
  | .process .. => True

instance (w : World) : (a : Action) → Decidable (Alone w a)
  | .start _ => inferInstanceAs (Decidable (∀ p ∈ w.processes, p.idle))
  | .process .. => inferInstanceAs (Decidable True)

theorem exit?_eq_some {phase : Phase} {e : Exit} (h : phase.exit? = some e) :
    phase = .exited e := by
  cases phase <;> cases h
  rfl

/-! ## What a step does -/

/-- The call of `run_one` that is under way. -/
def Phase.current : Phase → Option Run
  | .attempting r .. | .running r .. | .finished r .. | .moving r .. | .sleeping r .. => some r
  | .starting | .looping _ | .exited _ => none

/-- What is left of the round behind it. -/
def Phase.todo : Phase → List Run
  | .looping todo | .attempting _ todo _ | .running _ todo _ | .finished _ todo _ _
  | .moving _ todo _ | .sleeping _ todo _ => todo
  | .starting | .exited _ => []

/-- The steps of the script, with what they rest on, and the call of `run_one` that returns. -/
inductive Move (c : Config) (files : Files) (s : Script) :
    ScriptAction → Files → Script → Option Run → Prop
  | first {todo : List Run} (hp : s.phase = .starting) (henter : c.enter 0 = some todo) :
      Move c files s .next files { s with phase := .looping todo } none
  | never (hp : s.phase = .starting) (henter : c.enter 0 = none) :
      Move c files s .next files { s with phase := .exited s.outcome } none
  | round {todo : List Run} (hp : s.phase = .looping [])
      (henter : c.enter (s.round + 1) = some todo) :
      Move c files s .next files { s with round := s.round + 1, phase := .looping todo } none
  | last (hp : s.phase = .looping []) (henter : c.enter (s.round + 1) = none) :
      Move c files s .next files { s with phase := .exited s.outcome } none
  | stop {r : Run} {todo : List Run} (hp : s.phase = .looping (r :: todo))
      (hi : s.interrupted = true) :
      Move c files s .next files { s with phase := .exited .interrupted } none
  | attempt {r : Run} {todo : List Run} (hp : s.phase = .looping (r :: todo))
      (hi : s.interrupted = false) (hr : files r.finalPath = none) :
      Move c files s .next files { s with phase := .attempting r todo 1 } none
  | skip {r : Run} {todo : List Run} {contents : Option Report}
      (hp : s.phase = .looping (r :: todo)) (hi : s.interrupted = false)
      (hr : files r.finalPath = some contents) (hok : accepts number r contents = true) :
      Move c files s .next files { s with phase := .looping todo } (some r)
  | die {r : Run} {todo : List Run} {contents : Option Report}
      (hp : s.phase = .looping (r :: todo)) (hr : files r.finalPath = some contents)
      (hbad : accepts number r contents = false) :
      Move c files s .next files { s with phase := .exited (.invalid r) } none
  | begin {r : Run} {todo : List Run} {attempt : Nat} (hp : s.phase = .attempting r todo attempt) :
      Move c files s .next files { s with phase := .running r todo attempt } none
  | pass {r : Run} {todo : List Run} {attempt : Nat} {contents : Option Report}
      (hp : s.phase = .finished r todo attempt 0) (ht : files r.tempPath = some contents)
      (hok : accepts number r contents = true) :
      Move c files s .next files { s with phase := .moving r todo attempt } none
  | keep {r : Run} {todo : List Run} {attempt : Nat} (hp : s.phase = .moving r todo attempt) :
      Move c files s .next (files.move r.tempPath r.finalPath)
        { s with phase := .looping todo } (some r)
  | fail {r : Run} {todo : List Run} {attempt status : Nat}
      (hp : s.phase = .finished r todo attempt status)
      (hlast : s.interrupted = true ∨ c.retries < attempt + 1) :
      Move c files s .next files
        { s with phase := .looping todo, failures := s.failures + 1 } (some r)
  | retry {r : Run} {todo : List Run} {attempt status : Nat}
      (hp : s.phase = .finished r todo attempt status) (hi : s.interrupted = false)
      (hmore : attempt + 1 ≤ c.retries) :
      Move c files s .next files { s with phase := .sleeping r todo (attempt + 1) } none
  | wake {r : Run} {todo : List Run} {attempt : Nat} (hp : s.phase = .sleeping r todo attempt) :
      Move c files s .next files { s with phase := .attempting r todo attempt } none
  | write {r : Run} {todo : List Run} {attempt : Nat} {contents : Option Report}
      (hp : s.phase = .running r todo attempt) :
      Move c files s (.write contents) (Function.update files r.tempPath (some contents)) s none
  | exit {r : Run} {todo : List Run} {attempt status : Nat}
      (hp : s.phase = .running r todo attempt) :
      Move c files s (.exit status) files { s with phase := .finished r todo attempt status } none
  | interrupt (hp : ∀ e, s.phase ≠ .exited e) :
      Move c files s (.interrupt none) files { s with interrupted := true } none
  | interruptTest {r : Run} {todo : List Run} (hp : s.phase = .looping (r :: todo)) :
      Move c files s (.interrupt (some .jq)) files
        { s with phase := .exited (.invalid r), interrupted := true } none
  | interruptFinished {r : Run} {todo : List Run} {attempt status : Nat}
      (hp : s.phase = .finished r todo attempt status) :
      Move c files s (.interrupt (some .jq)) files
        { s with phase := .looping todo, interrupted := true, failures := s.failures + 1 } (some r)
  | interruptMoving {r : Run} {todo : List Run} {attempt : Nat}
      (hp : s.phase = .moving r todo attempt) :
      Move c files s (.interrupt (some .mv)) files
        { s with phase := .looping todo, interrupted := true } (some r)

variable {number} {c : Config} {files files' : Files} {s s' : Script} {a : ScriptAction}
  {returned : Option Run}

theorem step_move (h : s.step number c files a = some (files', s')) :
    ∃ returned, Move number c files s a files' s' returned := by
  cases a with
  | next =>
    unfold Script.step at h
    simp only at h
    split at h
    · next hp =>
      split at h
      · next henter =>
        cases h
        exact ⟨_, .first hp henter⟩
      · next henter =>
        cases h
        exact ⟨_, .never hp henter⟩
    · next hp =>
      split at h
      · next henter =>
        cases h
        exact ⟨_, .round hp henter⟩
      · next henter =>
        cases h
        exact ⟨_, .last hp henter⟩
    · next r todo hp =>
      split at h
      · next hi =>
        cases h
        rw [Script.outcome, if_pos hi]
        exact ⟨_, .stop hp hi⟩
      · next hi =>
        split at h
        · next hr =>
          cases h
          exact ⟨_, .attempt hp (Bool.eq_false_iff.mpr hi) hr⟩
        · next contents hr =>
          split at h
          · next hok =>
            cases h
            exact ⟨_, .skip hp (Bool.eq_false_iff.mpr hi) hr hok⟩
          · next hbad =>
            cases h
            exact ⟨_, .die hp hr (Bool.eq_false_iff.mpr hbad)⟩
    · next hp =>
      cases h
      exact ⟨_, .begin hp⟩
    · next r todo attempt status hp =>
      split at h
      · next hok =>
        obtain ⟨rfl, hok⟩ := hok
        obtain ⟨contents, ht, hok⟩ := (Option.any_eq_true _ _).mp hok
        cases h
        exact ⟨_, .pass hp ht hok⟩
      · split at h
        · next hlast =>
          cases h
          exact ⟨_, .fail hp hlast⟩
        · next hmore =>
          cases h
          rw [not_or, Bool.not_eq_true, Nat.not_lt] at hmore
          exact ⟨_, .retry hp hmore.1 hmore.2⟩
    · next hp =>
      cases h
      exact ⟨_, .keep hp⟩
    · next hp =>
      cases h
      exact ⟨_, .wake hp⟩
    · cases h
  | write contents =>
    unfold Script.step at h
    simp only at h
    split at h
    · next hp =>
      cases h
      exact ⟨_, .write hp⟩
    · cases h
  | exit status =>
    unfold Script.step at h
    simp only at h
    split at h
    · next hp =>
      cases h
      exact ⟨_, .exit hp⟩
    · cases h
  | interrupt killed =>
    unfold Script.step at h
    simp only at h
    split at h
    · cases h
    · next hp =>
      cases h
      exact ⟨_, .interrupt hp⟩
    · next hp =>
      obtain ⟨-, he⟩ := Option.ite_none_right_eq_some.mp h
      cases he
      exact ⟨_, .interruptTest hp⟩
    · next hp =>
      cases h
      exact ⟨_, .interruptFinished hp⟩
    · next hp =>
      cases h
      exact ⟨_, .interruptMoving hp⟩
    · cases h

/-! ## What becomes of the reports -/

/-- The report of a run is there, and good. -/
def InPlace (number : Int → κ) (files : Files) (r : Run) : Prop :=
  ∃ contents, files r.finalPath = some contents ∧ accepts number r contents = true

/-- A good report of a run is to be moved. -/
def Passed (number : Int → κ) (files : Files) (r : Run) : Prop :=
  ∃ contents, files r.tempPath = some contents ∧ accepts number r contents = true

/-- A report that is under way is not there yet, and what is moved has passed the test. -/
structure Script.Tidy (number : Int → κ) (files : Files) (s : Script) : Prop where
  absent : ∀ r, s.phase.current = some r → files r.finalPath = none
  passed : ∀ r todo attempt, s.phase = .moving r todo attempt → Passed number files r

/-- A report that is there stays, and one that comes is good. -/
def Preserves (number : Int → κ) (files files' : Files) : Prop :=
  ∀ r : Run, files' r.finalPath = files r.finalPath ∨
    files r.finalPath = none ∧ InPlace number files' r

theorem Preserves.refl : Preserves number files files := fun _ => .inl rfl

theorem Preserves.keeps (h : Preserves number files files') {r : Run} {contents : Option Report}
    (hr : files r.finalPath = some contents) : files' r.finalPath = some contents := by
  rcases h r with hsame | ⟨hnone, -⟩
  · exact hsame.trans hr
  · rw [hr] at hnone
    cases hnone

theorem preserves_write (r₀ : Run) (contents : Option (Option Report)) :
    Preserves number files (Function.update files r₀.tempPath contents) := fun r =>
  .inl (Function.update_of_ne (finalPath_ne_tempPath r r₀) _ _)

theorem move_eq {source target : String} {contents : Option Report}
    (h : files source = some contents) : files.move source target =
      Function.update (Function.update files target (some contents)) source none := by
  simp only [Files.move, h]

theorem move_finalPath {r : Run} {contents : Option Report} (h : files r.tempPath = some contents) :
    files.move r.tempPath r.finalPath r.finalPath = some contents := by
  rw [move_eq h, Function.update_of_ne (finalPath_ne_tempPath r r), Function.update_self]

/-- A good report comes where there was none. -/
theorem preserves_move {r₀ : Run} (hnone : files r₀.finalPath = none)
    (hpassed : Passed number files r₀) :
    Preserves number files (files.move r₀.tempPath r₀.finalPath) := by
  intro r
  obtain ⟨contents, ht, hok⟩ := hpassed
  by_cases hr : r.finalPath = r₀.finalPath
  · obtain rfl := finalPath_injective hr
    exact .inr ⟨hnone, contents, move_finalPath ht, hok⟩
  · left
    rw [move_eq ht, Function.update_of_ne (finalPath_ne_tempPath r r₀), Function.update_of_ne hr]

theorem Move.preserves (h : Move number c files s a files' s' returned)
    (hs : s.Tidy number files) : Preserves number files files' := by
  cases h with
  | keep hp => exact preserves_move (hs.absent _ (by rw [hp]; rfl)) (hs.passed _ _ _ hp)
  | write => exact preserves_write _ _
  | _ => exact .refl

theorem Move.tidy (h : Move number c files s a files' s' returned) (hs : s.Tidy number files) :
    s'.Tidy number files' where
  absent := by
    intro r hr
    cases h with
    | attempt _ _ hnone =>
      cases hr
      exact hnone
    | begin hp | exit hp | pass hp | retry hp | wake hp =>
      cases hr
      exact hs.absent r (by rw [hp]; rfl)
    | @write r₀ =>
      rw [Function.update_of_ne (finalPath_ne_tempPath r r₀)]
      exact hs.absent r hr
    | interrupt => exact hs.absent r hr
    | _ => cases hr
  passed := by
    intro r todo attempt hr
    cases h with
    | pass _ ht hok =>
      cases hr
      exact ⟨_, ht, hok⟩
    | write hp => cases hp.symm.trans hr
    | interrupt => exact hs.passed r todo attempt hr
    | _ => cases hr

theorem outcome_ne_invalid (s : Script) (r : Run) : s.outcome ≠ .invalid r := by
  unfold Script.outcome
  split
  · nofun
  · split <;> nofun

/-- The script finds no report invalid, unless it has been interrupted. -/
theorem Move.invalid (h : Move number c files s a files' s' returned)
    (haccepted : ∀ r contents, files r.finalPath = some contents →
      accepts number r contents = true)
    (hold : ∀ r, s.phase = .exited (.invalid r) → s.interrupted = true) {r : Run}
    (hr : s'.phase = .exited (.invalid r)) : s'.interrupted = true := by
  cases h with
  | last | never => exact absurd (Phase.exited.inj hr) (outcome_ne_invalid s r)
  | die _ hfile hbad =>
    rw [haccepted _ _ hfile] at hbad
    cases hbad
  | write => exact hold r hr
  | interrupt => rfl
  | interruptTest => rfl
  | _ => cases hr

/-! ## What is at work in a directory -/

/-- What is known of a process. A benchmark or `mv` that was left behind is still for a report that
is not there. -/
inductive Process.Tidy (number : Int → κ) (files : Files) : Process → Prop
  | script {c : Config} {s : Script} (hs : s.Tidy number files)
      (hinvalid : ∀ r, s.phase = .exited (.invalid r) → s.interrupted = true) :
      Tidy number files (.script c s)
  | benchmark {r : Run} (hr : files r.finalPath = none) : Tidy number files (.benchmark r)
  | mv {r : Run} (hr : files r.finalPath = none) (hpassed : Passed number files r) :
      Tidy number files (.mv r)
  | gone : Tidy number files .gone

theorem Script.Tidy.leave (hs : s.Tidy number files) : s.phase.leave.Tidy number files := by
  cases hp : s.phase with
  | running r todo attempt => exact .benchmark (hs.absent r (by rw [hp]; rfl))
  | moving r todo attempt =>
    exact .mv (hs.absent r (by rw [hp]; rfl)) (hs.passed r todo attempt hp)
  | _ => exact .gone

/-- What has come to its end has no report under way. -/
theorem Process.Tidy.idle {p : Process} (h : p.Tidy number files) (hp : p.idle) :
    p.Tidy number files' := by
  cases h with
  | @script c s hs hinvalid =>
    obtain ⟨e, he⟩ := Option.isSome_iff_exists.mp hp
    replace he := exit?_eq_some he
    refine .script ⟨fun r hr => ?_, fun r todo attempt hr => ?_⟩ hinvalid
    · rw [he] at hr
      cases hr
    · rw [he] at hr
      cases hr
  | benchmark | mv => cases hp
  | gone => exact .gone

/-- What has come to its end takes no step. -/
theorem Process.step_idle {p p' : Process} {a : ProcessAction}
    (h : p.step number files a = some (files', p')) (hp : p.idle) :
    files' = files ∧ p'.idle := by
  unfold Process.step at h
  split at h
  · obtain ⟨e, he⟩ := Option.isSome_iff_exists.mp hp
    replace he := exit?_eq_some he
    obtain ⟨⟨_, s'⟩, hs, hx⟩ := Option.map_eq_some_iff.mp h
    cases hx
    obtain ⟨_, hm⟩ := step_move hs
    cases hm with
    | interrupt hlive => exact absurd he (hlive e)
    | first hp | never hp | round hp | last hp | stop hp | attempt hp | skip hp | die hp | begin hp
    | pass hp | keep hp | fail hp | retry hp | wake hp | write hp | exit hp | interruptTest hp
    | interruptFinished hp | interruptMoving hp => cases hp.symm.trans he
  · obtain ⟨e, he⟩ := Option.isSome_iff_exists.mp hp
    cases h
    rw [exit?_eq_some he]
    exact ⟨rfl, rfl⟩
  · cases hp
  · cases hp
  · cases hp
  · cases hp
  · cases hp
  · cases h

/-- One step of what is at work. -/
theorem Process.Tidy.step {p p' : Process} {a : ProcessAction} (h : p.Tidy number files)
    (haccepted : ∀ r contents, files r.finalPath = some contents →
      accepts number r contents = true)
    (hstep : p.step number files a = some (files', p')) :
    Preserves number files files' ∧ p'.Tidy number files' := by
  unfold Process.step at hstep
  split at hstep
  · obtain ⟨⟨_, s'⟩, hs, hx⟩ := Option.map_eq_some_iff.mp hstep
    cases hx
    obtain ⟨_, hm⟩ := step_move hs
    cases h with
    | script hs hinvalid =>
      exact ⟨hm.preserves hs, .script (hm.tidy hs) fun r => hm.invalid haccepted hinvalid⟩
  · cases hstep
    cases h with
    | script hs => exact ⟨.refl, hs.leave⟩
  · cases hstep
    cases h with
    | benchmark hr =>
      refine ⟨preserves_write _ _, .benchmark ?_⟩
      rw [Function.update_of_ne (finalPath_ne_tempPath _ _)]
      exact hr
  · cases hstep
    exact ⟨.refl, .gone⟩
  · cases hstep
    exact ⟨.refl, .gone⟩
  · cases hstep
    exact ⟨.refl, .gone⟩
  · cases hstep
    cases h with
    | mv hr hpassed => exact ⟨preserves_move hr hpassed, .gone⟩
  · cases hstep

/-- Reports that are there are good, and no more than one process is at work. -/
structure World.Tidy (number : Int → κ) (w : World) : Prop where
  accepted : ∀ r contents, w.files r.finalPath = some contents → accepts number r contents = true
  tidy : ∀ p ∈ w.processes, p.Tidy number w.files
  alone : ∀ (i j : Nat) p q, w.processes[i]? = some p → w.processes[j]? = some q →
    ¬ p.idle → ¬ q.idle → i = j

theorem World.Tidy.initial : World.Tidy number (machine number).init where
  accepted _ _ h := by cases h
  tidy _ h := by cases h
  alone _ _ _ _ h := by cases h

theorem World.Tidy.start {w : World} (h : w.Tidy number) {c : Config}
    (hidle : ∀ p ∈ w.processes, p.idle) :
    World.Tidy number { w with processes := w.processes ++ [.script c .initial] } where
  accepted := h.accepted
  tidy := by
    intro p hp
    rcases List.mem_append.mp hp with hp | hp
    · exact h.tidy p hp
    · cases List.mem_singleton.mp hp
      exact .script ⟨nofun, nofun⟩ nofun
  alone := by
    -- what is not at its end is the new script
    have hnew : ∀ (i : Nat) p, (w.processes ++ [Process.script c .initial])[i]? = some p →
        ¬ p.idle → i = w.processes.length := by
      intro i p hi hp
      rw [List.getElem?_append] at hi
      split at hi
      · exact absurd (hidle p (List.mem_of_getElem? hi)) hp
      · rw [List.getElem?_singleton] at hi
        obtain ⟨hzero, -⟩ := Option.ite_none_right_eq_some.mp hi
        omega
    intro i j p q hi hj hp hq
    rw [hnew i p hi hp, hnew j q hj hq]

theorem World.Tidy.process {w : World} (h : w.Tidy number) {i : Nat} {p p' : Process}
    {a : ProcessAction} (hi : w.processes[i]? = some p)
    (hstep : p.step number w.files a = some (files', p')) :
    Preserves number w.files files' ∧
      World.Tidy number ⟨files', w.processes.set i p'⟩ := by
  have hlt : i < w.processes.length := (List.getElem?_eq_some_iff.mp hi).1
  obtain ⟨hpreserves, htidy⟩ := (h.tidy p (List.mem_of_getElem? hi)).step h.accepted hstep
  refine ⟨hpreserves, fun r contents hr => ?_, fun q hq => ?_, fun j k q q' hj hk hq hq' => ?_⟩
  · rcases hpreserves r with hsame | ⟨-, contents', hfile, hok⟩
    · exact h.accepted r contents (hsame.symm.trans hr)
    · cases hfile.symm.trans hr
      exact hok
  · obtain ⟨j, hj⟩ := List.mem_iff_getElem?.mp hq
    simp only [List.getElem?_set, hlt, if_true] at hj
    split at hj
    · cases hj
      exact htidy
    · next hne =>
      by_cases hidle : q.idle
      · exact (h.tidy q (List.mem_of_getElem? hj)).idle hidle
      · -- then the one that took the step is at its end, and left everything as it is
        have hdone : p.idle := by
          by_contra hp
          exact hne (h.alone i j p q hi hj hp hidle)
        obtain ⟨hfiles, -⟩ := Process.step_idle hstep hdone
        subst hfiles
        exact h.tidy q (List.mem_of_getElem? hj)
  · -- a process that is at work was so before
    have hbefore : ∀ (j : Nat) q, (w.processes.set i p')[j]? = some q → ¬ q.idle →
        ∃ q₀, w.processes[j]? = some q₀ ∧ ¬ q₀.idle := by
      intro j q hj hq
      simp only [List.getElem?_set, hlt, if_true] at hj
      split at hj
      · next hij =>
        cases hj
        exact ⟨p, hij ▸ hi, fun hp => hq (Process.step_idle hstep hp).2⟩
      · exact ⟨q, hj, hq⟩
    obtain ⟨q₀, hj₀, hq₀⟩ := hbefore j q hj hq
    obtain ⟨q₁, hk₁, hq₁⟩ := hbefore k q' hk hq'
    exact h.alone j k q₀ q₁ hj₀ hk₁ hq₀ hq₁

theorem World.Tidy.step {w w' : World} (h : w.Tidy number) {a : Action} (ha : Alone w a)
    (hs : LongBench.step number w a = some w') :
    Preserves number w.files w'.files ∧ w'.Tidy number := by
  cases a with
  | start c =>
    cases hs
    exact ⟨.refl, h.start ha⟩
  | process i a =>
    obtain ⟨p, hi, hs⟩ := Option.bind_eq_some_iff.mp hs
    obtain ⟨⟨files', p'⟩, hstep, hw⟩ := Option.map_eq_some_iff.mp hs
    cases hw
    exact h.process hi hstep

theorem reachable_tidy {w : World} (h : (machine number).ReachableWhen Alone w) :
    w.Tidy number :=
  h.invariant (P := World.Tidy number) .initial fun _ _ _ hw ha hs => (hw.step ha hs).2

/-- In a directory of its own, however often the script is started, with whatever options, and
interrupted or killed, and whatever its benchmarks write, if it is started only where no other start
is at work, nor the benchmark or `mv` of one that was killed: every report that has its final name
is one of the run that it is named after, complete and with no record dropped, and keeps what it has
for ever; no benchmark runs for it again; and the script takes none for invalid, unless an
interrupt killed its test. -/
theorem reports_preserved {w : World} (h : (machine number).ReachableWhen Alone w) (r : Run) :
    (∀ contents, w.files r.finalPath = some contents → accepts number r contents = true) ∧
    (∀ contents a w', w.files r.finalPath = some contents → Alone w a → step number w a = some w' →
      w'.files r.finalPath = some contents) ∧
    (∀ c s, .script c s ∈ w.processes → s.phase.current = some r → w.files r.finalPath = none) ∧
    (.benchmark r ∈ w.processes → w.files r.finalPath = none) ∧
    (∀ c s, .script c s ∈ w.processes → s.phase = .exited (.invalid r) → s.interrupted = true) := by
  have hw := reachable_tidy h
  refine ⟨hw.accepted r, fun _ _ _ hr ha hs => (hw.step ha hs).1.keeps hr, fun c s hp hr => ?_,
    fun hp => ?_, fun c s hp hr => ?_⟩
  · cases hw.tidy _ hp with
    | script hs => exact hs.absent r hr
  · cases hw.tidy _ hp with
    | benchmark hr => exact hr
  · cases hw.tidy _ hp with
    | script _ hinvalid => exact hinvalid r hr

/-- One round of one profile. -/
def sampleConfig : Config where
  rounds := 1
  startSeed := "1"
  profiles := ["realistic"]
  retries := 2
  startSeed_digits := by decide
  retries_lt := by decide
  retries_pos := by decide
  profiles_ne_nil := by decide
  profiles_plain := by decide

def sampleRun : Run := ⟨"realistic", 1, .signal⟩

/-- The report of a run. -/
def sampleReport (mode : Mode) : Report := ⟨"realistic", 1, mode == .control, true, 0, []⟩

/-- The script is killed while its benchmark writes, and at the second start in its `mv`. When these
have come to their end it is started for the third time, and the report stays. -/
theorem reports_preserved_restarted : ∃ w, (machine (id : Int → Int)).ReachableWhen Alone w ∧
    w.files sampleRun.finalPath = some (some (sampleReport .signal)) ∧
    ∀ a w', Alone w a → step (id : Int → Int) w a = some w' →
      w'.files sampleRun.finalPath = some (some (sampleReport .signal)) := by
  have hrun : (((machine (id : Int → Int)).restrict Alone).run (machine (id : Int → Int)).init
      [.start sampleConfig, .process 0 (.script .next), .process 0 (.script .next),
        .process 0 (.script .next), .process 0 (.script (.write none)), .process 0 .kill,
        .process 0 (.write none), .process 0 .exit, .start sampleConfig, .process 1 (.script .next),
        .process 1 (.script .next), .process 1 (.script .next),
        .process 1 (.script (.write (some (sampleReport .signal)))),
        .process 1 (.script (.exit 0)), .process 1 (.script .next), .process 1 .kill,
        .process 1 .exit, .start sampleConfig]).any
      (fun w => w.files sampleRun.finalPath = some (some (sampleReport .signal))) = true := by
    decide +kernel
  obtain ⟨w, hrun, hfile⟩ := (Option.any_eq_true _ _).mp hrun
  have hfile := of_decide_eq_true hfile
  have hreach := Machine.ReachableWhen.run .init hrun
  exact ⟨w, hreach, hfile, fun a w' ha hs => (reports_preserved hreach _).2.1 _ a w' hfile ha hs⟩

/-- While the benchmark of a killed script is still at work, the next start can put its file in
place of the report that has passed the test. -/
theorem reports_replaced : ∃ w, (machine (id : Int → Int)).Reachable w ∧
    w.files sampleRun.finalPath = some none ∧ accepts (id : Int → Int) sampleRun none = false := by
  have hrun : ((machine (id : Int → Int)).run (machine (id : Int → Int)).init
      [.start sampleConfig, .process 0 (.script .next), .process 0 (.script .next),
        .process 0 (.script .next), .process 0 .kill, .start sampleConfig,
        .process 1 (.script .next), .process 1 (.script .next), .process 1 (.script .next),
        .process 1 (.script (.write (some (sampleReport .signal)))),
        .process 1 (.script (.exit 0)), .process 1 (.script .next), .process 0 (.write none),
        .process 1 (.script .next)]).any
      (fun w => w.files sampleRun.finalPath = some none) = true := by
    decide +kernel
  obtain ⟨w, hrun, hfile⟩ := (Option.any_eq_true _ _).mp hrun
  exact ⟨w, Machine.Reachable.run .init hrun, of_decide_eq_true hfile, rfl⟩

/-! ## What one start of the script does -/

/-- What is noted of a step: a benchmark that is started, or an interrupt. -/
inductive Note
  | started (r : Run)
  | interrupted
deriving DecidableEq, Repr

def note (x : Files × Script) : ScriptAction → Option Note
  | .next =>
    match x.2.phase with
    | .attempting r .. => some (.started r)
    | _ => none
  | .interrupt _ => some .interrupted
  | _ => none

/-- How many benchmarks the call that is under way has run for `r`. -/
def Phase.used : Phase → Run → Nat
  | .attempting r _ attempt, r' | .sleeping r _ attempt, r' => if r = r' then attempt - 1 else 0
  | .running r _ attempt, r' | .finished r _ attempt _, r' | .moving r _ attempt, r' =>
    if r = r' then attempt else 0
  | .starting, _ | .looping _, _ | .exited _, _ => 0

/-- The number of the attempt. -/
def Phase.attempt? : Phase → Option Nat
  | .attempting _ _ attempt | .running _ _ attempt | .finished _ _ attempt _
  | .moving _ _ attempt | .sleeping _ _ attempt => some attempt
  | .starting | .looping _ | .exited _ => none

/-- A benchmark is about to be started. -/
def Phase.waiting : Phase → Bool
  | .attempting .. | .sleeping .. => true
  | _ => false

theorem note_eq_started {r : Run} (h : note (files, s) a = some (.started r)) :
    a = .next ∧ ∃ todo attempt, s.phase = .attempting r todo attempt := by
  unfold note at h
  split at h
  · split at h
    · next hp =>
      cases h
      exact ⟨rfl, _, _, hp⟩
    · cases h
  · cases h
  · cases h

/-- A benchmark that is started was waited for, and its report is not there. -/
theorem note_started {r : Run} (hm : Move number c files s a files' s' returned)
    (h : note (files, s) a = some (.started r)) :
    s.phase.current = some r ∧ s.phase.waiting = true ∧ s'.phase.waiting = false := by
  obtain ⟨rfl, todo, attempt, hp⟩ := note_eq_started h
  cases hm with
  | begin hp' =>
    cases hp.symm.trans hp'
    exact ⟨by rw [hp]; rfl, by rw [hp]; rfl, rfl⟩
  | first hp' | never hp' | round hp' | last hp' | stop hp' | attempt hp' | skip hp' | die hp'
  | pass hp' | keep hp' | fail hp' | retry hp' | wake hp' => cases hp.symm.trans hp'

/-- The attempts are counted from 1 to the number of retries. -/
theorem Move.attempt_le (h : Move number c files s a files' s' returned)
    (hold : ∀ n, s.phase.attempt? = some n → 1 ≤ n ∧ n ≤ c.retries) {n : Nat}
    (hn : s'.phase.attempt? = some n) : 1 ≤ n ∧ n ≤ c.retries := by
  cases h with
  | attempt =>
    cases hn
    exact ⟨Nat.le_refl 1, c.retries_pos⟩
  | begin hp | exit hp | pass hp | wake hp =>
    cases hn
    exact hold _ (by rw [hp]; rfl)
  | retry _ _ hmore =>
    cases hn
    exact ⟨Nat.le_add_left _ _, hmore⟩
  | write | interrupt => exact hold n hn
  | _ => cases hn

/-- While no call returns, what is used grows by what is started. -/
theorem Move.used_none (h : Move number c files s a files' s' none)
    (hold : ∀ n, s.phase.attempt? = some n → 1 ≤ n ∧ n ≤ c.retries) (r : Run) :
    s'.phase.used r = s.phase.used r + (note (files, s) a).toList.count (.started r) := by
  generalize hreturned : (none : Option Run) = returned at h
  cases h with
  | @begin r₀ todo attempt hp =>
    have hpos := (hold attempt (by rw [hp]; rfl)).1
    rw [show note (files, s) .next = some (.started r₀) by rw [note, hp], hp]
    by_cases hr : r₀ = r
    · subst hr
      simp only [Phase.used, if_true, Option.toList_some, List.count_singleton_self]
      omega
    · simp [Phase.used, hr]
  | skip | keep | fail | interruptFinished | interruptMoving => cases hreturned
  | write => rfl
  | interrupt => rfl
  | first hp | never hp | round hp | last hp | stop hp | attempt hp | die hp | pass hp | retry hp
  | wake hp | exit hp | interruptTest hp => simp [note, hp, Phase.used]

/-- A call returns after no more benchmarks than there are attempts. -/
theorem Move.used_some {r₀ : Run} (h : Move number c files s a files' s' (some r₀))
    (hold : ∀ n, s.phase.attempt? = some n → 1 ≤ n ∧ n ≤ c.retries) (r : Run) :
    s.phase.used r ≤ c.retries * [r₀].count r ∧ s'.phase.used r = 0 ∧
      (note (files, s) a).toList.count (.started r) = 0 := by
  generalize hreturned : some r₀ = returned at h
  cases h with
  | skip hp =>
    cases hreturned
    rw [note, hp]
    exact ⟨Nat.zero_le _, rfl, rfl⟩
  | keep hp | fail hp | interruptFinished hp | interruptMoving hp =>
    cases hreturned
    have hle := (hold _ (by rw [hp]; rfl)).2
    rw [note, hp]
    refine ⟨?_, rfl, rfl⟩
    by_cases hr : r₀ = r
    · subst hr
      simpa [Phase.used] using hle
    · simp [Phase.used, hr]
  | _ => cases hreturned

/-- The benchmarks of the calls that returned, and of the one that is under way. -/
structure Counts (c : Config) (s : Script) (log : List Note) (done : List Run) : Prop where
  attempt : ∀ n, s.phase.attempt? = some n → 1 ≤ n ∧ n ≤ c.retries
  used : ∀ r, s.phase.used r ≤ log.count (.started r)
  bound : ∀ r, log.count (.started r) ≤ c.retries * done.count r + s.phase.used r

variable {log : List Note} {done : List Run}

theorem Counts.move (h : Counts c s log done) (hm : Move number c files s a files' s' returned) :
    Counts c s' (log ++ (note (files, s) a).toList) (done ++ returned.toList) := by
  have hbound := h.bound
  have hused := h.used
  cases returned with
  | none =>
    refine ⟨fun n => hm.attempt_le h.attempt, fun r => ?_, fun r => ?_⟩
    · rw [List.count_append, hm.used_none h.attempt r]
      exact Nat.add_le_add_right (hused r) _
    · rw [List.count_append, hm.used_none h.attempt r, Option.toList_none, List.append_nil,
        ← Nat.add_assoc]
      exact Nat.add_le_add_right (hbound r) _
  | some r₀ =>
    refine ⟨fun n => hm.attempt_le h.attempt, fun r => ?_, fun r => ?_⟩
    · rw [(hm.used_some h.attempt r).2.1]
      exact Nat.zero_le _
    · obtain ⟨hle, hzero, hnone⟩ := hm.used_some h.attempt r
      rw [List.count_append, hnone, hzero, Option.toList_some, List.count_append, Nat.mul_add]
      exact (hbound r).trans (Nat.add_le_add_left hle _)

theorem Counts.used_le (h : Counts c s log done) (r : Run) :
    s.phase.used r ≤ c.retries * s.phase.current.toList.count r := by
  have hattempt := h.attempt
  generalize s.phase = phase at hattempt ⊢
  cases phase with
  | starting | looping | exited => exact Nat.zero_le _
  | attempting r₀ _ attempt | sleeping r₀ _ attempt | running r₀ _ attempt
  | finished r₀ _ attempt | moving r₀ _ attempt =>
    have hle := (hattempt attempt rfl).2
    by_cases hr : r₀ = r
    · subst hr
      simp only [Phase.used, Phase.current, Option.toList_some, List.count_singleton_self,
        if_true, Nat.mul_one]
      omega
    · simp [Phase.used, hr]

/-- The script is in its loop. -/
def Phase.live : Phase → Bool
  | .starting | .exited _ => false
  | _ => true

/-- How far the rounds have got. -/
structure Course (c : Config) (s : Script) (done : List Run) : Prop where
  start : s.phase = .starting → s.round = 0 ∧ done = []
  entered : s.phase.live = true → c.continues s.round
  within : done <+: c.runs (s.round + 1)
  planned : s.phase.live = true →
    done ++ (s.phase.current.toList ++ s.phase.todo) = c.runs (s.round + 1)
  complete : c.Readable → s.phase = .exited .complete → done = c.runs c.rounds

theorem enter_eq_some {round : Nat} {todo : List Run} (h : c.enter round = some todo) :
    c.continues round ∧ todo = c.roundRuns round ∧ c.Readable := by
  obtain ⟨hcontinues, h⟩ := Option.ite_none_right_eq_some.mp h
  obtain ⟨seed, hseed, rfl⟩ := Option.map_eq_some_iff.mp h
  obtain ⟨start, hstart, -⟩ := Option.map_eq_some_iff.mp hseed
  refine ⟨hcontinues, by rw [Config.roundRuns, hseed]; rfl, hcontinues.1, ?_⟩
  rw [hstart]
  rfl

theorem enter_eq_none {round : Nat} (hc : c.Readable) (h : c.enter round = none) :
    c.rounds ≠ 0 ∧ c.rounds ≤ round := by
  obtain ⟨start, hstart⟩ := Option.isSome_iff_exists.mp hc.2
  have hstop : ¬ c.continues round := by
    intro hcontinues
    rw [Config.enter, if_pos hcontinues, Config.seed, hstart] at h
    cases h
  have hlt := hc.1
  unfold Config.continues at hstop
  omega

theorem runs_succ (c : Config) (rounds : Nat) :
    c.runs (rounds + 1) = c.runs rounds ++ c.roundRuns rounds := by
  rw [Config.runs, List.range_succ, List.flatMap_append, List.flatMap_singleton]
  rfl

/-- The script goes on in the round. -/
theorem Course.go (h : Course c s done) (hlive : s.phase.live = true)
    (hround : s'.round = s.round) (hlive' : s'.phase.live = true)
    (hrest : returned.toList ++ (s'.phase.current.toList ++ s'.phase.todo) =
      s.phase.current.toList ++ s.phase.todo) : Course c s' (done ++ returned.toList) := by
  have hplanned : done ++ returned.toList ++ (s'.phase.current.toList ++ s'.phase.todo) =
      c.runs (s'.round + 1) := by
    rw [List.append_assoc, hrest, hround, h.planned hlive]
  refine ⟨fun hp => ?_, fun _ => hround ▸ h.entered hlive, ⟨_, hplanned⟩, fun _ => hplanned,
    fun _ hp => ?_⟩
  · rw [hp] at hlive'
    cases hlive'
  · rw [hp] at hlive'
    cases hlive'

/-- The script ends. -/
theorem Course.exited (h : Course c s done) {e : Exit} (hround : s'.round = s.round)
    (he : s'.phase = .exited e) (hcomplete : c.Readable → e = .complete → done = c.runs c.rounds) :
    Course c s' (done ++ (none : Option Run).toList) := by
  rw [Option.toList_none, List.append_nil]
  refine ⟨fun hp => ?_, fun hlive => ?_, hround ▸ h.within, fun hlive => ?_, fun hc hp => ?_⟩
  · cases he.symm.trans hp
  · rw [he] at hlive
    cases hlive
  · rw [he] at hlive
    cases hlive
  · exact hcomplete hc (Phase.exited.inj (he.symm.trans hp))

/-- The calls so far are of the rounds so far. -/
theorem Course.due (h : Course c s done) :
    done ++ s.phase.current.toList <+: c.runs (s.round + 1) := by
  cases hp : s.phase with
  | starting | exited e =>
    rw [Phase.current, Option.toList_none, List.append_nil]
    exact h.within
  | _ =>
    rw [← h.planned (by rw [hp]; rfl), ← List.append_assoc, hp]
    exact List.prefix_append _ _

theorem Course.move (h : Course c s done) (hm : Move number c files s a files' s' returned) :
    Course c s' (done ++ returned.toList) := by
  cases hm with
  | first hp henter =>
    obtain ⟨hcontinues, rfl, -⟩ := enter_eq_some henter
    obtain ⟨hround, rfl⟩ := h.start hp
    have hplanned : c.roundRuns 0 = c.runs (s.round + 1) := by
      rw [hround, runs_succ]
      rfl
    exact ⟨nofun, fun _ => hround.symm ▸ hcontinues, List.nil_prefix, fun _ => hplanned, nofun⟩
  | never hp henter =>
    refine h.exited rfl rfl fun hc _ => ?_
    obtain ⟨hne, hle⟩ := enter_eq_none hc henter
    exact absurd (Nat.le_zero.mp hle) hne
  | round hp henter =>
    obtain ⟨hcontinues, rfl, -⟩ := enter_eq_some henter
    have hdone : done = c.runs (s.round + 1) := by
      have hplanned := h.planned (by rw [hp]; rfl)
      rwa [hp, show Phase.current (.looping []) = none from rfl, Option.toList_none,
        List.nil_append, show Phase.todo (.looping []) = [] from rfl, List.append_nil] at hplanned
    have hplanned : done ++ c.roundRuns (s.round + 1) = c.runs (s.round + 1 + 1) := by
      rw [runs_succ c (s.round + 1), hdone]
    rw [Option.toList_none, List.append_nil]
    exact ⟨nofun, fun _ => hcontinues, ⟨_, hplanned⟩, fun _ => hplanned, nofun⟩
  | last hp henter =>
    refine h.exited rfl rfl fun hc _ => ?_
    have hplanned := h.planned (by rw [hp]; rfl)
    have hrounds : s.round + 1 = c.rounds := by
      obtain ⟨hne, hle⟩ := enter_eq_none hc henter
      have hcontinues := (h.entered (by rw [hp]; rfl)).2
      omega
    rw [← hrounds, ← hplanned, hp]
    simp [Phase.current, Phase.todo]
  | stop | die | interruptTest => exact h.exited rfl rfl nofun
  | write hp => exact h.go (by rw [hp]; rfl) rfl (by rw [hp]; rfl) rfl
  | interrupt hp =>
    rw [Option.toList_none, List.append_nil]
    exact ⟨h.start, h.entered, h.within, h.planned, h.complete⟩
  | attempt hp | skip hp | begin hp | pass hp | keep hp | fail hp | retry hp | wake hp | exit hp
  | interruptFinished hp | interruptMoving hp =>
    exact h.go (by rw [hp]; rfl) rfl rfl (by rw [hp]; rfl)

/-- A call that returns leaves a good report, or a failure, or there was an interrupt. -/
theorem Move.inPlace {r : Run} (h : Move number c files s a files' s' (some r))
    (hs : s.Tidy number files) :
    InPlace number files' r ∨ s'.failures = s.failures + 1 ∨ s'.interrupted = true := by
  generalize hreturned : some r = returned at h
  cases h with
  | skip _ _ hr hok =>
    cases hreturned
    exact .inl ⟨_, hr, hok⟩
  | keep hp =>
    cases hreturned
    obtain ⟨contents, ht, hok⟩ := hs.passed _ _ _ hp
    exact .inl ⟨contents, move_finalPath ht, hok⟩
  | fail => exact .inr (.inl rfl)
  | interruptFinished | interruptMoving => exact .inr (.inr rfl)
  | _ => cases hreturned

/-- Without an interrupt the script counts a failure after the last attempt only. -/
theorem Move.failures (h : Move number c files s a files' s' returned)
    (hi : s'.interrupted = false) : s'.failures = s.failures ∨ s'.failures = s.failures + 1 ∧
      ∃ r, c.retries ≤ s.phase.used r := by
  cases h with
  | @fail r _ attempt _ hp hlast =>
    refine .inr ⟨rfl, r, ?_⟩
    rw [hp, Phase.used, if_pos rfl]
    rcases hlast with hlast | hlast
    · exact absurd hlast (by simp [show s.interrupted = false from hi])
    · exact Nat.lt_succ_iff.mp hlast
  | interruptFinished | interruptMoving => cases hi
  | _ => exact .inl rfl

theorem Move.interrupted (h : Move number c files s a files' s' returned) :
    s'.interrupted = true ↔ s.interrupted = true ∨ note (files, s) a = some .interrupted := by
  cases h with
  | interrupt | interruptTest | interruptFinished | interruptMoving =>
    exact ⟨fun _ => .inr rfl, fun _ => rfl⟩
  | begin hp => simp [note, hp]
  | write hp | exit hp => simp [note]
  | _ hp => simp [note, hp]

/-- Where the script ends, it is as it stands, or because of a report that it took for invalid. -/
def Script.Ends (s : Script) : Prop :=
  ∀ e, s.phase = .exited e → e = s.outcome ∨ ∃ r, e = .invalid r

theorem Move.ends (h : Move number c files s a files' s' returned) (hold : s.Ends) : s'.Ends := by
  intro e he
  cases h with
  | last | never =>
    cases he
    exact .inl rfl
  | stop _ hi =>
    cases he
    exact .inl (if_pos hi).symm
  | die | interruptTest =>
    cases he
    exact .inr ⟨_, rfl⟩
  | write => exact hold e he
  | interrupt hp => exact absurd he (hp e)
  | _ => cases he

theorem outcome_eq_interrupted (h : s.outcome = .interrupted) : s.interrupted = true := by
  unfold Script.outcome at h
  split at h
  · next hi => exact hi
  · split at h <;> cases h

theorem outcome_eq_complete (h : s.outcome = .complete) :
    s.interrupted = false ∧ s.failures = 0 := by
  unfold Script.outcome at h
  split at h
  · cases h
  · next hi =>
    split at h
    · cases h
    · next hf => exact ⟨Bool.eq_false_iff.mpr hi, not_not.mp hf⟩

theorem outcome_eq_failures {n : Nat} (h : s.outcome = .failures n) :
    s.interrupted = false ∧ s.failures ≠ 0 := by
  unfold Script.outcome at h
  split at h
  · cases h
  · next hi =>
    split at h
    · next hf => exact ⟨Bool.eq_false_iff.mpr hi, hf⟩
    · cases h

/-- What has become of the calls that returned. -/
structure Upshot (number : Int → κ) (c : Config) (files : Files) (s : Script) (log : List Note)
    (done : List Run) : Prop where
  marked : s.interrupted = true ↔ .interrupted ∈ log
  ends : s.Ends
  inPlace : s.interrupted = false → s.failures = 0 → ∀ r ∈ done, InPlace number files r
  exhausted : s.interrupted = false → s.failures ≠ 0 → ∃ r, c.retries ≤ log.count (.started r)

theorem Upshot.move (h : Upshot number c files s log done) (hcounts : Counts c s log done)
    (htidy : s.Tidy number files) (hm : Move number c files s a files' s' returned) :
    Upshot number c files' s' (log ++ (note (files, s) a).toList) (done ++ returned.toList) := by
  have hbefore : s'.interrupted = false → s.interrupted = false := fun hi =>
    Bool.eq_false_iff.mpr fun hs => Bool.eq_false_iff.mp hi (hm.interrupted.mpr (.inl hs))
  refine ⟨?_, hm.ends h.ends, fun hi hf r hr => ?_, fun hi hf => ?_⟩
  · rw [hm.interrupted, h.marked, List.mem_append, Option.mem_toList]
  · have hsame : s'.failures = s.failures := by
      rcases hm.failures hi with hsame | ⟨hone, -⟩
      · exact hsame
      · omega
    rcases List.mem_append.mp hr with hr | hr
    · obtain ⟨contents, hfile, hok⟩ := h.inPlace (hbefore hi) (hsame ▸ hf) r hr
      exact ⟨contents, (hm.preserves htidy).keeps hfile, hok⟩
    · rw [Option.mem_toList] at hr
      cases hr
      rcases hm.inPlace htidy with hplace | hone | hi'
      · exact hplace
      · omega
      · exact absurd hi' (Bool.eq_false_iff.mp hi)
  · rcases hm.failures hi with hsame | ⟨-, r, hr⟩
    · obtain ⟨r, hr⟩ := h.exhausted (hbefore hi) (hsame ▸ hf)
      exact ⟨r, hr.trans (List.Sublist.count_le _ (List.sublist_append_left _ _))⟩
    · exact ⟨r, (hr.trans (hcounts.used r)).trans
        (List.Sublist.count_le _ (List.sublist_append_left _ _))⟩

/-- After an interrupt no more than one benchmark is started, and none when one has been. -/
def After (s : Script) (log : List Note) : Prop :=
  ∀ l l', log = l ++ .interrupted :: l' → l'.countP (· ≠ .interrupted) ≤ 1 ∧
    (s.phase.waiting = true → l'.countP (· ≠ .interrupted) = 0)

/-- A benchmark may be waited for only if it was before, or there was no interrupt. -/
theorem Move.waiting (h : Move number c files s a files' s' returned)
    (hw : s'.phase.waiting = true) : s.phase.waiting = true ∨ s.interrupted = false := by
  cases h with
  | attempt _ hi | retry _ hi => exact .inr hi
  | wake hp => exact .inl (by rw [hp]; rfl)
  | write | interrupt => exact .inl hw
  | _ => cases hw

theorem After.move (h : After s log) (hmarked : s.interrupted = true ↔ .interrupted ∈ log)
    (hm : Move number c files s a files' s' returned) :
    After s' (log ++ (note (files, s) a).toList) := by
  have hquiet : ∀ l l', log = l ++ .interrupted :: l' → s'.phase.waiting = true →
      l'.countP (· ≠ .interrupted) = 0 := by
    intro l l' hlog hw
    rcases hm.waiting hw with hw | hi
    · exact (h l l' hlog).2 hw
    · have hmem := hmarked.mpr (by rw [hlog]; exact List.mem_append_right _ List.mem_cons_self)
      rw [hi] at hmem
      cases hmem
  intro l l' hlog
  cases hn : note (files, s) a with
  | none =>
    rw [hn, Option.toList_none, List.append_nil] at hlog
    exact ⟨(h l l' hlog).1, hquiet l l' hlog⟩
  | some n =>
    rw [hn, Option.toList_some] at hlog
    -- the note is the last of `l'`, unless it is the interrupt itself
    rcases List.eq_nil_or_concat l' with rfl | ⟨l₁, n', rfl⟩
    · exact ⟨Nat.zero_le _, fun _ => rfl⟩
    · rw [List.concat_eq_append, ← List.cons_append, ← List.append_assoc] at hlog
      obtain ⟨hlog', hn'⟩ := List.append_inj' hlog rfl
      cases hn'
      rw [List.concat_eq_append, List.countP_append]
      obtain ⟨hle, hzero⟩ := h l l₁ hlog'
      cases n with
      | interrupted => exact ⟨hle, hquiet l l₁ hlog'⟩
      | started r =>
        obtain ⟨-, hwaiting, hrunning⟩ := note_started hm hn
        rw [hzero hwaiting]
        exact ⟨Nat.le_refl 1, fun hw => absurd hw (Bool.eq_false_iff.mp hrunning)⟩

/-- A script that makes no sense of its options has done nothing. -/
structure Unread (c : Config) (files₀ files : Files) (s : Script) (log : List Note) : Prop where
  files : files = files₀
  started : ∀ r, log.count (.started r) = 0
  failures : s.failures = 0
  phase : s.phase = .starting ∨ s.phase = .exited .complete ∨ s.phase = .exited .interrupted

theorem outcome_of_failures (h : s.failures = 0) :
    s.outcome = .complete ∨ s.outcome = .interrupted := by
  unfold Script.outcome
  split
  · exact .inr rfl
  · rw [if_neg (not_not.mpr h)]
    exact .inl rfl

theorem Unread.move {files₀ : Files} (h : Unread c files₀ files s log) (hc : ¬ c.Readable)
    (hm : Move number c files s a files' s' returned) :
    Unread c files₀ files' s' (log ++ (note (files, s) a).toList) := by
  have hdead : s.phase.live = false := by
    rcases h.phase with hp | hp | hp <;> rw [hp] <;> rfl
  cases hm with
  | first _ henter => exact absurd (enter_eq_some henter).2.2 hc
  | never hp =>
    have hnote : note (files, s) .next = none := by rw [note, hp]
    rw [hnote, Option.toList_none, List.append_nil]
    refine ⟨h.files, h.started, h.failures, .inr ?_⟩
    rcases outcome_of_failures h.failures with ho | ho
    · exact .inl (congrArg _ ho)
    · exact .inr (congrArg _ ho)
  | interrupt =>
    refine ⟨h.files, fun r => ?_, h.failures, h.phase⟩
    rw [List.count_append, h.started r]
    rfl
  | round hp | last hp | stop hp | attempt hp | skip hp | die hp | begin hp | pass hp | keep hp
  | fail hp | retry hp | wake hp | write hp | exit hp | interruptTest hp | interruptFinished hp
  | interruptMoving hp =>
    rw [hp] at hdead
    cases hdead

/-- All there is to know of one start of the script. -/
structure Progress (number : Int → κ) (c : Config) (files₀ files : Files) (s : Script)
    (log : List Note) (done : List Run) : Prop where
  tidy : s.Tidy number files
  kept : ∀ r contents, files₀ r.finalPath = some contents →
    files r.finalPath = some contents ∧ log.count (.started r) = 0
  counts : Counts c s log done
  course : Course c s done
  upshot : Upshot number c files s log done
  after : After s log
  unread : ¬ c.Readable → Unread c files₀ files s log

variable {files₀ : Files}

theorem Progress.initial : Progress number c files₀ files₀ .initial [] [] where
  tidy := ⟨nofun, nofun⟩
  kept _ _ h := ⟨h, rfl⟩
  counts := ⟨nofun, fun _ => Nat.le_refl 0, fun _ => Nat.zero_le _⟩
  course := ⟨fun _ => ⟨rfl, rfl⟩, nofun, List.nil_prefix, nofun, nofun⟩
  upshot := ⟨⟨nofun, nofun⟩, nofun, fun _ _ _ hr => absurd hr List.not_mem_nil,
    fun _ hf => absurd rfl hf⟩
  after l l' h := absurd h.symm (by simp)
  unread _ := ⟨rfl, fun _ => rfl, rfl, .inl rfl⟩

theorem Progress.move (h : Progress number c files₀ files s log done)
    (hm : Move number c files s a files' s' returned) :
    Progress number c files₀ files' s' (log ++ (note (files, s) a).toList)
      (done ++ returned.toList) where
  tidy := hm.tidy h.tidy
  kept r contents hr := by
    obtain ⟨hfile, hcount⟩ := h.kept r contents hr
    refine ⟨(hm.preserves h.tidy).keeps hfile, ?_⟩
    rw [List.count_append, hcount, Nat.zero_add, List.count_eq_zero, Option.mem_toList]
    intro hstarted
    rw [h.tidy.absent r (note_started hm hstarted).1] at hfile
    cases hfile
  counts := h.counts.move hm
  course := h.course.move hm
  upshot := h.upshot.move h.counts h.tidy hm
  after := h.after.move h.upshot.marked hm
  unread hc := (h.unread hc).move hc hm

theorem reachable_progress
    (h : ((scriptMachine number c files₀).record note).Reachable ((files, s), log)) :
    ∃ done, Progress number c files₀ files s log done := by
  refine h.record_invariant (P := fun x log => ∃ done, Progress number c files₀ x.1 x.2 log done)
    ⟨[], .initial⟩ fun x log a x' hprogress hs => ?_
  obtain ⟨done, hprogress⟩ := hprogress
  obtain ⟨returned, hm⟩ := step_move hs
  exact ⟨_, hprogress.move hm⟩

/-- One start of the script, in any directory and up to any point. It never starts a benchmark for a
report that was there before, and for the others no more than its retries for every time that the
run was due so far. After an interrupt it starts one more at most. If it ends as complete, the good
reports of all its runs are there; if it counts failures, some run has had all its retries; and it
ends as interrupted only if it was. All this is for options that the shell makes sense of: with
others it starts nothing, leaves the directory as it is, and ends as complete, unless it was
interrupted. -/
theorem benchmarks_bounded
    (h : ((scriptMachine number c files₀).record note).Reachable ((files, s), log)) :
    (∀ r contents, files₀ r.finalPath = some contents → log.count (.started r) = 0) ∧
    (∀ r, log.count (.started r) ≤ c.retries * (c.runs (s.round + 1)).count r) ∧
    (∀ l l', log = l ++ .interrupted :: l' → l'.countP (· ≠ .interrupted) ≤ 1) ∧
    (c.Readable → s.phase = .exited .complete → ∀ r ∈ c.runs c.rounds, InPlace number files r) ∧
    (∀ n, s.phase = .exited (.failures n) → ∃ r, c.retries ≤ log.count (.started r)) ∧
    (s.phase = .exited .interrupted → .interrupted ∈ log) ∧
    (¬ c.Readable → files = files₀ ∧ (∀ r, log.count (.started r) = 0) ∧
      ∀ e, s.phase = .exited e → e = .complete ∨ e = .interrupted) := by
  obtain ⟨done, hp⟩ := reachable_progress h
  refine ⟨fun r contents hr => (hp.kept r contents hr).2, fun r => ?_,
    fun l l' hlog => (hp.after l l' hlog).1, fun hc he => ?_, fun n he => ?_, fun he => ?_,
    fun hc => ?_⟩
  · calc log.count (.started r)
        ≤ c.retries * done.count r + c.retries * s.phase.current.toList.count r :=
          (hp.counts.bound r).trans (Nat.add_le_add_left (hp.counts.used_le r) _)
      _ = c.retries * (done ++ s.phase.current.toList).count r := by
          rw [List.count_append, Nat.mul_add]
      _ ≤ c.retries * (c.runs (s.round + 1)).count r :=
          Nat.mul_le_mul_left _ (hp.course.due.sublist.count_le r)
  · obtain ⟨hi, hf⟩ := outcome_eq_complete ((hp.upshot.ends _ he).resolve_right nofun).symm
    rw [← hp.course.complete hc he]
    exact hp.upshot.inPlace hi hf
  · obtain ⟨hi, hf⟩ := outcome_eq_failures ((hp.upshot.ends _ he).resolve_right nofun).symm
    exact hp.upshot.exhausted hi hf
  · have hi := outcome_eq_interrupted ((hp.upshot.ends _ he).resolve_right nofun).symm
    exact hp.upshot.marked.mp hi
  · have hunread := hp.unread hc
    refine ⟨hunread.files, hunread.started, fun e he => ?_⟩
    rcases hunread.phase with hphase | hphase | hphase
    · cases hphase.symm.trans he
    · exact .inl (Phase.exited.inj (he.symm.trans hphase))
    · exact .inr (Phase.exited.inj (he.symm.trans hphase))

/-- A start seed that is no octal number. -/
def unreadConfig : Config :=
  { sampleConfig with startSeed := "08", startSeed_digits := by decide }

/-- The script ends as complete after a first attempt that fails; with a start seed that is no octal
number it does so at once. -/
theorem benchmarks_bounded_sample : (∃ files s,
    ((scriptMachine (id : Int → Int) sampleConfig fun _ => none).record note).Reachable ((files, s),
      [.started ⟨"realistic", 1, .signal⟩, .started ⟨"realistic", 1, .signal⟩,
        .started ⟨"realistic", 1, .control⟩]) ∧
    s.phase = .exited .complete ∧ ∀ r ∈ sampleConfig.runs 1, InPlace (id : Int → Int) files r) ∧
    ∃ files s,
      ((scriptMachine (id : Int → Int) unreadConfig fun _ => none).record note).Reachable
        ((files, s), []) ∧
      s.phase = .exited .complete ∧ files = fun _ => none := by
  have hrun : (((scriptMachine (id : Int → Int) sampleConfig fun _ => none).record note).run
      ((scriptMachine (id : Int → Int) sampleConfig fun _ => none).record note).init
      [.next, .next, .next, .exit 1, .next, .next, .next, .write (some (sampleReport .signal)),
        .exit 0, .next, .next, .next, .next, .write (some (sampleReport .control)), .exit 0, .next,
        .next, .next]).any
      (fun x => x.2 = [.started ⟨"realistic", 1, .signal⟩, .started ⟨"realistic", 1, .signal⟩,
        .started ⟨"realistic", 1, .control⟩] ∧ x.1.2.phase = .exited .complete) = true := by
    decide +kernel
  have hunread : (((scriptMachine (id : Int → Int) unreadConfig fun _ => none).record note).run
      ((scriptMachine (id : Int → Int) unreadConfig fun _ => none).record note).init [.next]).any
      (fun x => x.2 = [] ∧ x.1.2.phase = .exited .complete) = true := by
    decide +kernel
  obtain ⟨⟨⟨files, s⟩, log⟩, hrun, hend⟩ := (Option.any_eq_true _ _).mp hrun
  obtain ⟨rfl, hphase⟩ := of_decide_eq_true hend
  have hreach := Machine.Reachable.run .init hrun
  obtain ⟨⟨⟨files', s'⟩, log'⟩, hrun', hend'⟩ := (Option.any_eq_true _ _).mp hunread
  obtain ⟨rfl, hphase'⟩ := of_decide_eq_true hend'
  have hreach' := Machine.Reachable.run .init hrun'
  exact ⟨⟨files, s, hreach, hphase,
      (benchmarks_bounded hreach).2.2.2.1 (by decide +kernel) hphase⟩,
    files', s', hreach', hphase',
    ((benchmarks_bounded hreach').2.2.2.2.2.2 (by decide +kernel)).1⟩

end Step

end LongBench
