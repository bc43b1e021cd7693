import IshtarOxide.Lib.Wasm

/-!
# Accesses of WebAssembly code

The loads and stores of a run, in their order, and exact numbers of steps.

* `Takes n c log f`: the configuration `c` takes `n` steps, and no fewer, to finish in the frame
  `f`, and its accesses to the memory are `log`.
* `Takes.ops`, `Takes.next`, `Takes.forLoop`: the rules for straight-line code, for one step
  of control and for a loop of so many rounds, whose frames are known.
-/

namespace Wasm

/-! ## Accesses -/

/-- A load or a store of so many bytes from an address on. -/
structure Access where
  isStore : Bool
  address : Nat
  bytes : Nat
deriving DecidableEq, Repr

/-- The access of an instruction. -/
def Op.access (o : Op) (f : Frame) : List Access :=
  match o, f.stack with
  | .load8U offset, a :: _ => [⟨false, a.toNat + offset, 1⟩]
  | .store8 offset, _ :: a :: _ => [⟨true, a.toNat + offset, 1⟩]
  | .load offset, a :: _ => [⟨false, a.toNat + offset, 4⟩]
  | .store offset, _ :: a :: _ => [⟨true, a.toNat + offset, 4⟩]
  | _, _ => []

/-- The accesses of straight-line code. -/
def accessOps : List Op → Frame → List Access
  | [], _ => []
  | o :: os, f => o.access f ++ (o.exec f).elim [] (accessOps os)

theorem accessOps_append {os os' : List Op} {f g : Frame} (h : execOps os f = some g) :
    accessOps (os ++ os') f = accessOps os f ++ accessOps os' g := by
  induction os generalizing f with
  | nil =>
    cases h
    rfl
  | cons o os ih =>
    simp only [execOps, List.foldlM_cons, Option.bind_eq_bind, Option.bind_eq_some_iff] at h
    obtain ⟨f', hf', h⟩ := h
    rw [List.cons_append, accessOps, accessOps, hf', Option.elim_some, Option.elim_some, ih h,
      List.append_assoc]

/-- The access of the next step. -/
def access (c : Config) : List Access :=
  match c.code with
  | .op o :: _ => o.access c.frame
  | _ => []

/-- The accesses of at most `fuel` steps. -/
def trace : Nat → Config → List Access
  | 0, _ => []
  | fuel + 1, c =>
    match step c with
    | .next d => access c ++ trace fuel d
    | .halt _ | .trap => access c

/-! ## Exact runs -/

/-- `c` takes `n` steps, and no fewer, to finish in the frame `f`, with the accesses `log`. -/
structure Takes (n : Nat) (c : Config) (log : List Access) (f : Frame) : Prop where
  done : run n c = .done f
  trace : trace n c = log
  exact : ∀ k < n, run k c = .outOfFuel

namespace Takes

variable {c d : Config} {f g g' : Frame} {log : List Access} {n k : Nat}
  {labels : List Label}

theorem halt (h : step c = .halt f) : Takes 1 c (access c) f where
  done := by simp [run, h]
  trace := by simp [Wasm.trace, h]
  exact := by
    intro k hk
    obtain rfl : k = 0 := by omega
    rfl

theorem next (h : step c = .next d) (ht : Takes n d log f) :
    Takes (n + 1) c (access c ++ log) f where
  done := by simp [run, h, ht.done]
  trace := by simp [Wasm.trace, h, ht.trace]
  exact := by
    intro k hk
    cases k with
    | zero => rfl
    | succ k => simp [run, h, ht.exact k (by omega)]

/-- A step of control. -/
theorem control (h : step c = .next d) (haccess : access c = []) (ht : Takes n d log f) :
    Takes (n + 1) c log f := by
  have hnext := ht.next h
  rwa [haccess, List.nil_append] at hnext

/-- Straight-line code in front. -/
theorem ops (os : List Op) (rest : List Instr) (h : execOps os f = some g)
    (ht : Takes n ⟨g, rest, labels⟩ log g') :
    Takes (n + os.length) ⟨f, os.map .op ++ rest, labels⟩ (accessOps os f ++ log) g' := by
  induction os generalizing f with
  | nil =>
    cases h
    exact ht
  | cons o os ih =>
    simp only [execOps, List.foldlM_cons, Option.bind_eq_bind, Option.bind_eq_some_iff] at h
    obtain ⟨f', hf', h⟩ := h
    have hstep : step ⟨f, (o :: os).map .op ++ rest, labels⟩ =
        .next ⟨f', os.map .op ++ rest, labels⟩ := by
      simp [step, hf']
    have hnext := (ih h).next hstep
    rw [accessOps, hf', Option.elim_some, List.append_assoc]
    exact hnext

/-- More fuel is left over. -/
theorem run_of_le (h : Takes n c log f) (hn : n ≤ k) : run k c = .done f := by
  obtain ⟨m, rfl⟩ := Nat.exists_eq_add_of_le hn
  exact run_mono h.done

theorem trace_of_le (h : Takes n c log f) (hn : n ≤ k) : Wasm.trace k c = log := by
  rw [← h.trace]
  have hdone := h.done
  clear h
  induction n generalizing c k with
  | zero => cases hdone
  | succ n ih =>
    obtain ⟨k, rfl⟩ := Nat.exists_eq_add_of_le hn
    rw [Nat.succ_add]
    unfold run at hdone
    unfold Wasm.trace
    cases hs : step c with
    | next d =>
      rw [hs] at hdone
      simp only [ih (Nat.le_add_right n k) hdone]
    | halt g => rfl
    | trap => rfl

/-- A loop of so many rounds, when its frames and accesses are known. -/
theorem forLoop (test body : List Op) {rounds : Nat} (frame : Nat → Frame)
    (logs : Nat → List Access) {leave : Value} {rest : List Instr}
    (hstack : ∀ k ≤ rounds, (frame k).stack = [])
    (hsilent : ∀ k ≤ rounds, accessOps test (frame k) = [])
    (hround : ∀ k < rounds, execOps test (frame k) = some { frame k with stack := [0] } ∧
      execOps body (frame k) = some (frame (k + 1)) ∧ accessOps body (frame k) = logs k)
    (hlast : execOps test (frame rounds) = some { frame rounds with stack := [leave] })
    (hleave : leave ≠ 0) (ht : Takes n ⟨frame rounds, rest, labels⟩ log f) :
    Takes ((test.length + body.length + 3) * rounds + test.length + n + 3)
      ⟨frame 0, whileLoop test body :: rest, labels⟩
      ((List.range rounds).flatMap logs ++ log) f := by
  have hframe : ∀ k ≤ rounds, ∃ locals memory, frame k = ⟨[], locals, memory⟩ := fun k hk =>
    ⟨(frame k).locals, (frame k).memory, by rw [← hstack k hk]⟩
  -- from the head of the loop, with `j` rounds to go
  have hloop : ∀ j ≤ rounds, Takes ((test.length + body.length + 3) * j + test.length + n + 2)
      ⟨frame (rounds - j), [.loop (test.map .op ++ .brIf 1 :: (body.map .op ++ [.br 0]))],
        ⟨rest, [], rest⟩ :: labels⟩
      ((List.range' (rounds - j) j).flatMap logs ++ log) f := by
    intro j
    induction j with
    | zero =>
      intro _
      obtain ⟨locals, memory, hf⟩ := hframe rounds (Nat.le_refl _)
      have hsilent' := hsilent rounds (Nat.le_refl _)
      rw [hf] at hlast hsilent' ht
      rw [Nat.sub_zero, hf]
      have hbranch : step ⟨⟨[leave], locals, memory⟩, .brIf 1 :: (body.map .op ++ [.br 0]),
          ⟨[.loop (test.map .op ++ .brIf 1 :: (body.map .op ++ [.br 0]))], [], []⟩ ::
            ⟨rest, [], rest⟩ :: labels⟩ = .next ⟨⟨[], locals, memory⟩, rest, labels⟩ := by
        simp only [step, hleave, ne_eq, not_false_eq_true, if_true]
        rfl
      have hhead := ops test _ hlast (control hbranch rfl ht)
      rw [hsilent', List.nil_append] at hhead
      have hall := control (c := ⟨⟨[], locals, memory⟩,
        [.loop (test.map .op ++ .brIf 1 :: (body.map .op ++ [.br 0]))],
        ⟨rest, [], rest⟩ :: labels⟩) rfl rfl hhead
      have hfuel : (test.length + body.length + 3) * 0 + test.length + n + 2 =
          n + 1 + test.length + 1 := by omega
      rw [hfuel]
      exact hall
    | succ j ih =>
      intro hj
      have hlt : rounds - (j + 1) < rounds := by omega
      have hsucc : rounds - (j + 1) + 1 = rounds - j := by omega
      obtain ⟨locals, memory, hf⟩ := hframe (rounds - (j + 1)) (Nat.le_of_lt hlt)
      obtain ⟨locals', memory', hf'⟩ := hframe (rounds - j) (Nat.sub_le _ _)
      obtain ⟨htest, hbody, hlog⟩ := hround _ hlt
      have hsilent' := hsilent _ (Nat.le_of_lt hlt)
      have hrest := ih (by omega)
      rw [hsucc, hf'] at hbody
      rw [hf'] at hrest
      rw [List.range'_succ, List.flatMap_cons, hsucc, List.append_assoc]
      rw [← hlog]
      rw [hf] at htest hbody hsilent' ⊢
      have hagain := ops body [.br 0] hbody (control (c := ⟨⟨[], locals', memory'⟩, [.br 0],
        ⟨[.loop (test.map .op ++ .brIf 1 :: (body.map .op ++ [.br 0]))], [], []⟩ ::
          ⟨rest, [], rest⟩ :: labels⟩) rfl rfl hrest)
      have hhead := ops test _ htest (control (c := ⟨⟨[0], locals, memory⟩,
        .brIf 1 :: (body.map .op ++ [.br 0]),
        ⟨[.loop (test.map .op ++ .brIf 1 :: (body.map .op ++ [.br 0]))], [], []⟩ ::
          ⟨rest, [], rest⟩ :: labels⟩) rfl rfl hagain)
      rw [hsilent', List.nil_append] at hhead
      have hall := control (c := ⟨⟨[], locals, memory⟩,
        [.loop (test.map .op ++ .brIf 1 :: (body.map .op ++ [.br 0]))],
        ⟨rest, [], rest⟩ :: labels⟩) rfl rfl hhead
      have hfuel : (test.length + body.length + 3) * (j + 1) + test.length + n + 2 =
          (test.length + body.length + 3) * j + test.length + n + 2 + 1 + body.length + 1 +
            test.length + 1 := by
        rw [Nat.mul_add]
        omega
      rw [hfuel]
      exact hall
  have hwhole := hloop rounds (Nat.le_refl _)
  obtain ⟨locals, memory, hf⟩ := hframe 0 (Nat.zero_le _)
  rw [Nat.sub_self, ← List.range_eq_range', hf] at hwhole
  rw [hf]
  exact control (c := ⟨⟨[], locals, memory⟩, whileLoop test body :: rest, labels⟩) rfl rfl hwhole

end Takes

end Wasm
