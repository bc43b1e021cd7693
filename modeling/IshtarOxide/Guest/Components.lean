import IshtarOxide.Guest.Validate

/-!
# What module validation lets through

Both `validate` refuse a list of payloads and let all others pass. With the payloads of
wasmparser written out, that is enough for core modules, but of a component only some of its
sections are on the list, and its header is not looked at.

* `checkPayload_eq_ok_iff`: what is refused.
* `validate_admits_core_iff`: when an accepted binary is a core module within the policy.
* `validate_admits_components`: components that both accept.
-/

namespace Guest

/-! ## Payloads -/

/-- `wasmparser::Encoding`. -/
inductive Encoding
  | module
  | component
deriving DecidableEq, Repr

/-- `wasmparser::Payload`, with what is looked at. A memory that cannot be read is `none`. -/
inductive WasmPayload
  | version (encoding : Encoding)
  | typeSection
  | importSection (count : Nat)
  | functionSection
  | tableSection
  | memorySection (memories : List (Option MemoryType))
  | tagSection
  | globalSection
  | exportSection
  | startSection
  | elementSection
  | dataCountSection
  | dataSection
  | codeSectionStart
  | codeSectionEntry
  | moduleSection
  | instanceSection
  | coreTypeSection
  | componentSection
  | componentInstanceSection
  | componentAliasSection
  | componentTypeSection
  | componentCanonicalSection
  | componentStartSection
  | componentImportSection
  | componentExportSection
  | customSection
  | unknownSection
  | endOfBinary
deriving DecidableEq, Repr

/-- The arm of `validate` that a payload goes to. -/
def WasmPayload.arm : WasmPayload → Payload
  | .importSection count => .importSection count
  | .startSection => .startSection
  | .memorySection memories => .memorySection memories
  | .componentSection
  | .componentInstanceSection
  | .componentAliasSection
  | .componentTypeSection
  | .componentCanonicalSection
  | .componentStartSection
  | .componentImportSection
  | .componentExportSection => .component
  | _ => .other

/-- `Validator::new().validate_all` and `Parser::new(0).parse_all`. A payload that cannot be
parsed is `none`. -/
structure Parser where
  validateAll : List UInt8 → Bool
  parseAll : List UInt8 → List (Option WasmPayload)

/-- What `validate` makes of wasmparser. -/
def Parser.wasmparser (p : Parser) : Wasmparser where
  validateAll := p.validateAll
  parseAll bytes := (p.parseAll bytes).map (Option.map WasmPayload.arm)

/-- The payloads of a binary that the validator accepts begin with its header. -/
def Parser.HeaderFirst (p : Parser) : Prop :=
  ∀ bytes, p.validateAll bytes = true →
    ∃ encoding rest, p.parseAll bytes = some (.version encoding) :: rest

/-! ## What is refused -/

/-- An unshared 32-bit memory of the default page size that is not too large. -/
structure Admissible (maxMemoryPages : Nat) (m : MemoryType) : Prop where
  unshared : m.shared = false
  memory32 : m.memory64 = false
  pageSize : m.pageSizeLog2 = none
  initial : m.initial ≤ maxMemoryPages
  maximum : ∀ pages, m.maximum = some pages → pages ≤ maxMemoryPages

/-- The payloads that `validate` refuses; `start` is whether start functions are allowed. -/
def Refused (start : Bool) (maxMemoryPages : Nat) : Option WasmPayload → Prop
  | none => True
  | some (.importSection count) => count ≠ 0
  | some .startSection => start = false
  | some (.memorySection memories) =>
    ∃ memory ∈ memories, ∀ m, memory = some m → ¬ Admissible maxMemoryPages m
  | some .componentSection
  | some .componentInstanceSection
  | some .componentAliasSection
  | some .componentTypeSection
  | some .componentCanonicalSection
  | some .componentStartSection
  | some .componentImportSection
  | some .componentExportSection => True
  | some _ => False

theorem checkMemory_eq_ok_iff {maxMemoryPages : Nat} {memory : Option MemoryType} :
    checkMemory maxMemoryPages memory = .ok () ↔
      ∃ m, memory = some m ∧ Admissible maxMemoryPages m := by
  cases memory with
  | none => simp [checkMemory]
  | some m =>
    obtain ⟨shared, memory64, pageSizeLog2, initial, maximum⟩ := m
    have hform : (shared || memory64 || pageSizeLog2.isSome) = false ↔
        shared = false ∧ memory64 = false ∧ pageSizeLog2 = none := by
      rw [Bool.or_eq_false_iff, Bool.or_eq_false_iff, Option.isSome_eq_false_iff,
        Option.isNone_iff_eq_none, and_assoc]
    have hmaximum : maximum.any (maxMemoryPages < ·) = true ↔
        ¬ ∀ pages, maximum = some pages → pages ≤ maxMemoryPages := by
      cases maximum <;> simp
    simp only [checkMemory, Option.some.injEq, exists_eq_left']
    constructor
    · intro h
      split at h
      · cases h
      · next hf =>
        split at h
        · cases h
        · next hlimit =>
          obtain ⟨hshared, hmemory64, hsize⟩ := hform.mp (Bool.eq_false_iff.mpr hf)
          rw [hmaximum, not_or, not_lt, not_not] at hlimit
          exact ⟨hshared, hmemory64, hsize, hlimit.1, hlimit.2⟩
    · rintro ⟨hshared, hmemory64, hsize, hinitial, hlimit⟩
      rw [if_neg (Bool.eq_false_iff.mp (hform.mpr ⟨hshared, hmemory64, hsize⟩)), if_neg]
      rw [hmaximum, not_or, not_lt, not_not]
      exact ⟨hinitial, hlimit⟩

theorem checkPayload_eq_ok_iff {start : Bool} {maxMemoryPages : Nat}
    {payload : Option WasmPayload} :
    checkPayload start maxMemoryPages (payload.map WasmPayload.arm) = .ok () ↔
      ¬ Refused start maxMemoryPages payload := by
  rcases payload with _ | payload
  · simp [checkPayload, Refused]
  · cases payload with
    | importSection count => simp [checkPayload, Refused, WasmPayload.arm]
    | startSection => cases start <;> simp [checkPayload, Refused, WasmPayload.arm]
    | memorySection memories =>
      show memories.forM (checkMemory maxMemoryPages) = .ok () ↔ _
      simp only [Except.forM_eq_ok_iff, checkMemory_eq_ok_iff, Refused]
      push Not
      rfl
    | _ => simp [checkPayload, Refused, WasmPayload.arm]

/-! ## What is let through -/

/-- A core module without imports whose memories are admissible. -/
structure CoreWithinPolicy (payloads : List (Option WasmPayload)) (maxMemoryPages : Nat) :
    Prop where
  core : ∃ rest, payloads = some (.version .module) :: rest
  imports : ∀ count, some (.importSection count) ∈ payloads → count = 0
  memories : ∀ memories, some (.memorySection memories) ∈ payloads → ∀ memory ∈ memories,
    ∃ m, memory = some m ∧ Admissible maxMemoryPages m

/-- The number of memories of a payload. -/
def declared : Option WasmPayload → Nat
  | some (.memorySection memories) => memories.length
  | _ => 0

theorem memoriesOf_arm (payload : Option WasmPayload) :
    memoriesOf (payload.map WasmPayload.arm) = declared payload := by
  rcases payload with _ | payload
  · rfl
  · cases payload <;> rfl

/-- A component that the validator accepts, with nothing in it that is refused. -/
structure Overlooked (p : Parser) (bytes : List UInt8) (start : Bool) (maxMemoryPages : Nat) :
    Prop where
  accepted : p.validateAll bytes = true
  component : ∃ rest, p.parseAll bytes = some (.version .component) :: rest
  unlisted : ∀ payload ∈ p.parseAll bytes, ¬ Refused start maxMemoryPages payload

section Admits

variable {p : Parser} {bytes : List UInt8} {start : Bool} {maxMemoryPages : Nat}

theorem forM_checkPayload_iff :
    (p.wasmparser.parseAll bytes).forM (checkPayload start maxMemoryPages) = .ok () ↔
      ∀ payload ∈ p.parseAll bytes, ¬ Refused start maxMemoryPages payload := by
  rw [Except.forM_eq_ok_iff]
  simp only [Parser.wasmparser, List.forall_mem_map, checkPayload_eq_ok_iff]

theorem schedulerValidate_eq_ok_iff :
    Scheduler.validate p.wasmparser bytes maxMemoryPages = .ok () ↔
      p.validateAll bytes = true ∧
        ∀ payload ∈ p.parseAll bytes, ¬ Refused true maxMemoryPages payload := by
  rw [← forM_checkPayload_iff]
  unfold Scheduler.validate
  cases h : p.validateAll bytes with
  | false => simp [Parser.wasmparser, h]
  | true => simp [Parser.wasmparser, h]

theorem labValidate_eq_ok_iff :
    Lab.validate p.wasmparser bytes maxMemoryPages = .ok () ↔
      (p.validateAll bytes = true ∧
        ∀ payload ∈ p.parseAll bytes, ¬ Refused false maxMemoryPages payload) ∧
        ((p.parseAll bytes).map declared).sum = 1 := by
  have hcount : (p.wasmparser.parseAll bytes).map memoriesOf =
      (p.parseAll bytes).map declared := by
    simp only [Parser.wasmparser, List.map_map, Function.comp_def, memoriesOf_arm]
  rw [← forM_checkPayload_iff]
  unfold Lab.validate
  rw [hcount]
  cases h : p.validateAll bytes with
  | false => simp [Parser.wasmparser, h]
  | true =>
    have haccepted : p.wasmparser.validateAll bytes = true := h
    simp only [haccepted, Bool.true_eq_false, if_false, Except.pure_eq_ok,
      Except.bind_eq_ok, true_and]
    constructor
    · rintro ⟨⟨⟩, hchecked, hsum⟩
      refine ⟨hchecked, ?_⟩
      by_contra hne
      rw [if_pos hne] at hsum
      cases hsum
    · rintro ⟨hchecked, hsum⟩
      exact ⟨(), hchecked, if_neg (not_not_intro hsum)⟩

/-- Of what is not refused, only the header is left to look at. -/
theorem coreWithinPolicy_iff
    (h : ∀ payload ∈ p.parseAll bytes, ¬ Refused start maxMemoryPages payload) :
    CoreWithinPolicy (p.parseAll bytes) maxMemoryPages ↔
      ∃ rest, p.parseAll bytes = some (.version .module) :: rest := by
  refine ⟨fun hcore => hcore.core, fun hcore => ⟨hcore, ?_, ?_⟩⟩
  · intro count hmem
    exact not_not.mp (h _ hmem)
  · intro memories hmem memory hmemory
    by_contra hnone
    exact h _ hmem ⟨memory, hmemory, fun m hm hadmissible => hnone ⟨m, hm, hadmissible⟩⟩

/-- Accepted and not refused, a binary is a core module within the policy, or a component that is
overlooked. -/
theorem core_iff_not_overlooked (hheader : p.HeaderFirst)
    (haccepted : p.validateAll bytes = true)
    (h : ∀ payload ∈ p.parseAll bytes, ¬ Refused start maxMemoryPages payload) :
    CoreWithinPolicy (p.parseAll bytes) maxMemoryPages ↔
      ¬ Overlooked p bytes start maxMemoryPages := by
  obtain ⟨encoding, rest, hparse⟩ := hheader bytes haccepted
  rw [coreWithinPolicy_iff h]
  constructor
  · rintro ⟨_, hmodule⟩ hoverlooked
    obtain ⟨_, hcomponent⟩ := hoverlooked.component
    rw [hmodule] at hcomponent
    cases hcomponent
  · intro hnot
    cases encoding with
    | module => exact ⟨rest, hparse⟩
    | component => exact absurd ⟨haccepted, ⟨rest, hparse⟩, h⟩ hnot

/-- What either `validate` accepts is a core module within the policy unless it is an overlooked
component; the lab's count of memories is one more thing that such a component has to meet. -/
theorem validate_admits_core_iff (hheader : p.HeaderFirst) :
    ((Scheduler.validate p.wasmparser bytes maxMemoryPages = .ok () →
        CoreWithinPolicy (p.parseAll bytes) maxMemoryPages) ↔
      ¬ Overlooked p bytes true maxMemoryPages) ∧
    ((Lab.validate p.wasmparser bytes maxMemoryPages = .ok () →
        CoreWithinPolicy (p.parseAll bytes) maxMemoryPages) ↔
      ¬ (Overlooked p bytes false maxMemoryPages ∧
        ((p.parseAll bytes).map declared).sum = 1)) := by
  rw [schedulerValidate_eq_ok_iff, labValidate_eq_ok_iff]
  constructor
  · constructor
    · intro hcore hoverlooked
      have haccepted := hoverlooked.accepted
      have hunlisted := hoverlooked.unlisted
      exact (core_iff_not_overlooked hheader haccepted hunlisted).mp
        (hcore ⟨haccepted, hunlisted⟩) hoverlooked
    · rintro hnot ⟨haccepted, hunlisted⟩
      exact (core_iff_not_overlooked hheader haccepted hunlisted).mpr hnot
  · constructor
    · rintro hcore ⟨hoverlooked, hsum⟩
      have haccepted := hoverlooked.accepted
      have hunlisted := hoverlooked.unlisted
      exact (core_iff_not_overlooked hheader haccepted hunlisted).mp
        (hcore ⟨⟨haccepted, hunlisted⟩, hsum⟩) hoverlooked
    · rintro hnot ⟨⟨haccepted, hunlisted⟩, hsum⟩
      refine (core_iff_not_overlooked hheader haccepted hunlisted).mpr ?_
      exact fun hoverlooked => hnot ⟨hoverlooked, hsum⟩

end Admits

/-! ## Two components -/

/-- A component of nothing but its header. -/
def emptyComponent : List UInt8 := [0, 0x61, 0x73, 0x6d, 0x0d, 0, 1, 0]

/-- A component around a core module with one memory of one page. -/
def nestedModule : List UInt8 :=
  emptyComponent ++ [1, 13, 0, 0x61, 0x73, 0x6d, 1, 0, 0, 0, 5, 3, 1, 0, 1]

/-- wasmparser, of these two. -/
def componentParser : Parser where
  validateAll bytes := bytes == emptyComponent || bytes == nestedModule
  parseAll bytes :=
    if bytes = emptyComponent then [some (.version .component), some .endOfBinary]
    else if bytes = nestedModule then
      [some (.version .component), some .moduleSection, some (.version .module),
        some (.memorySection [some ⟨false, false, none, 1, none⟩]), some .endOfBinary,
        some .endOfBinary]
    else [none]

theorem componentParser_headerFirst : componentParser.HeaderFirst := by
  intro bytes h
  simp only [componentParser, Bool.or_eq_true, beq_iff_eq] at h
  rcases h with rfl | rfl
  · exact ⟨.component, _, rfl⟩
  · exact ⟨.component, _, rfl⟩

/-- The scheduler accepts the empty component, the lab the one with a module in it. -/
theorem validate_admits_components :
    componentParser.HeaderFirst ∧
      (Scheduler.validate componentParser.wasmparser emptyComponent 1 = .ok () ∧
        ¬ CoreWithinPolicy (componentParser.parseAll emptyComponent) 1) ∧
      (Lab.validate componentParser.wasmparser nestedModule 1 = .ok () ∧
        ¬ CoreWithinPolicy (componentParser.parseAll nestedModule) 1) := by
  refine ⟨componentParser_headerFirst, ⟨by decide, ?_⟩, ⟨by decide, ?_⟩⟩
  · rintro ⟨⟨_, h⟩, _, _⟩
    cases h
  · rintro ⟨⟨_, h⟩, _, _⟩
    cases h

/-- The empty component at either. -/
theorem validate_admits_core_emptyComponent :
    componentParser.HeaderFirst ∧
      ((Scheduler.validate componentParser.wasmparser emptyComponent 1 = .ok () →
          CoreWithinPolicy (componentParser.parseAll emptyComponent) 1) ↔
        ¬ Overlooked componentParser emptyComponent true 1) ∧
      ((Lab.validate componentParser.wasmparser emptyComponent 1 = .ok () →
          CoreWithinPolicy (componentParser.parseAll emptyComponent) 1) ↔
        ¬ (Overlooked componentParser emptyComponent false 1 ∧
          ((componentParser.parseAll emptyComponent).map declared).sum = 1)) :=
  ⟨componentParser_headerFirst, validate_admits_core_iff componentParser_headerFirst⟩

end Guest
