import IshtarOxide.Lab.Process

/-!
# The stream runner end to end

From the arguments and the input that the parent sends, through the decimal
arguments, the split of stdin, the injection into guest memory and the byte
loop, back to the parent's test of the output.

* `stream_success`: what the driver returns as a success is the previous state
  followed by the chunk in upper case.
* `stream_end_to_end`: with the shipped module every admissible chunk gets there,
  up to the one that fills all 16 pages of guest memory.
-/

open Linux Sandbox Guest

namespace Lab

/-! ## From the parent to the guest and back -/

section StreamRunner

variable {host : Host} {policy : Policy} (hp : policy.Served) {previous chunk : List UInt8}
  (hship : Ships host.toolchain host.streamModule streamMemory
    StreamCapitalize.streamCapitalize)
  (hc : 1 ≤ chunk.length) (hc' : chunk.length ≤ maxChunkBytes)
  (hcap : previous.length + chunk.length ≤ streamStateBytes)

include hp hship hc hc' hcap

/-- `stream_runner_main` on the parent's arguments and input: what remains is the
sandbox, and then the guest. -/
theorem streamRunnerMain_eq :
    streamRunnerMain host (executeStreamProcess host policy previous chunk).argv
      (executeStreamProcess host policy previous chunk).stdin = (do
        let _ ← (setup host.kernel ⟨policy.addressSpaceBytes, policy.cpuSeconds⟩
          host.process).mapError .sandbox
        .ok (previous ++ upperAll chunk)) := by
  have hfuel : StreamCapitalize.processFuel chunk.length ≤ policy.fuel := by
    have hchunk : maxChunkBytes = 1024 := rfl
    rw [hp.fuel]
    unfold StreamCapitalize.processFuel
    omega
  have hpages : 16 ≤ policy.maxMemoryPages := by
    rw [hp.maxMemoryPages]
    decide
  have hrun := executeStream_eq hship hpages hcap hfuel
  unfold streamRunnerMain executeStreamProcess
  rw [streamInvocation_eq hp hship.nonempty hship.size hc hc' hcap, Except.mapError_ok,
    Except.ok_bind]
  simp only [hrun, Except.mapError_ok]

/-- Whatever part of its input reaches it, the stream runner writes nothing else. -/
theorem streamMain_ok {n : Nat} {stdout : List UInt8}
    (h : main host (executeStreamProcess host policy previous chunk).argv
      ((executeStreamProcess host policy previous chunk).stdin.take n) = .ok stdout) :
    stdout = previous ++ upperAll chunk := by
  have hmain : main host (executeStreamProcess host policy previous chunk).argv =
      streamRunnerMain host (executeStreamProcess host policy previous chunk).argv := rfl
  rw [hmain] at h
  by_cases hn : (executeStreamProcess host policy previous chunk).stdin.length ≤ n
  · rw [List.take_of_length_le hn, streamRunnerMain_eq hp hship hc hc' hcap] at h
    obtain ⟨_, _, h⟩ := Except.bind_eq_ok.mp h
    cases h
    rfl
  · unfold streamRunnerMain executeStreamProcess at h
    rw [streamInvocation_short hp hship.nonempty hship.size hc hc' hcap host.executable] at h
    · cases h
    · exact Nat.lt_of_le_of_lt (List.length_take_le _ _) (Nat.not_le.mp hn)

/-- What the driver of the stream runner returns as a success. -/
theorem stream_success {output : List UInt8}
    (h : (executeStreamProcess host policy previous chunk).Succeeds host output) :
    output = previous ++ upperAll chunk := by
  obtain ⟨⟨n, stdout, hmain, rfl⟩, _⟩ := h
  rw [streamMain_ok hp hship hc hc' hcap hmain]
  refine List.take_of_length_le ?_
  rw [List.length_append, length_upperAll]
  exact Nat.le_succ_of_le hcap

end StreamRunner

/-! ## Every admissible chunk -/

/-- The kernel and the spawned process let the sandbox be set up. -/
structure Host.Confines (host : Host) (policy : Policy) : Prop where
  standardOpen : StandardOpen host.process
  landlock : 3 ≤ host.kernel.landlockAbi
  lowerable : Lowerable ⟨policy.addressSpaceBytes, policy.cpuSeconds, 3⟩ host.process
  openFiles : 3 < (host.process.limits .openFiles).cur
  seccomp : host.kernel.hasSeccomp
  arch : host.kernel.knownArch

theorem Host.Confines.setup_ok {host : Host} {policy : Policy} (h : host.Confines policy) :
    ∃ q, setup host.kernel ⟨policy.addressSpaceBytes, policy.cpuSeconds⟩ host.process = .ok q :=
  Lab.setup_ok h.standardOpen h.landlock h.lowerable rfl h.openFiles h.seccomp h.arch

/-- In a sandbox that can be set up, the stream runner returns. -/
theorem streamMain_eq {host : Host} {policy : Policy} (hp : policy.Served)
    {previous chunk : List UInt8}
    (hship : Ships host.toolchain host.streamModule streamMemory
      StreamCapitalize.streamCapitalize)
    (hconf : host.Confines policy) (hc : 1 ≤ chunk.length) (hc' : chunk.length ≤ maxChunkBytes)
    (hcap : previous.length + chunk.length ≤ streamStateBytes) :
    main host (executeStreamProcess host policy previous chunk).argv
      (executeStreamProcess host policy previous chunk).stdin =
    .ok (previous ++ upperAll chunk) := by
  obtain ⟨q, hq⟩ := hconf.setup_ok
  show streamRunnerMain host _ _ = _
  rw [streamRunnerMain_eq hp hship hc hc' hcap, hq]
  rfl

/-- The parent accepts only an output of the combined length. -/
theorem stream_verdict_length {host : Host} {policy : Policy}
    {previous chunk output out : List UInt8} {status : ExitStatus}
    (h : (executeStreamProcess host policy previous chunk).verdict status output = .success out) :
    out.length = previous.length + chunk.length := by
  obtain ⟨rfl, _, hlen, _⟩ := verdict_eq_success h
  exact hlen

/-- For every previous state and every chunk of 1 to `MAX_CHUNK_BYTES` bytes that
fits: the runner accepts the parent's arguments and input and gets exactly that
state and chunk; with enough fuel, of which the policy has plenty, the guest
returns the state followed by the chunk in upper case, which the runner writes if
its sandbox can be set up, and the parent accepts. So a chunk may be processed in
two parts, and an output of another length is never accepted. -/
theorem stream_end_to_end {args : ServeArgs} {policy : Policy} (hargs : serve args = .ok policy)
    {host : Host}
    (hship : Ships host.toolchain host.streamModule streamMemory
      StreamCapitalize.streamCapitalize)
    {previous chunk : List UInt8} (hc : 1 ≤ chunk.length) (hc' : chunk.length ≤ maxChunkBytes)
    (hcap : previous.length + chunk.length ≤ streamStateBytes) :
    let job := executeStreamProcess host policy previous
    streamInvocation (job chunk).argv (job chunk).stdin =
      .ok ⟨host.streamModule, previous, chunk, streamStateBytes, policy.fuel,
        policy.maxMemoryPages, policy.addressSpaceBytes, policy.cpuSeconds⟩ ∧
    (∀ fuel ≥ StreamCapitalize.processFuel chunk.length,
      executeStream host.toolchain host.streamModule previous chunk streamStateBytes fuel
        policy.maxMemoryPages = .ok (previous ++ upperAll chunk)) ∧
    (host.Confines policy →
      main host (job chunk).argv (job chunk).stdin = .ok (previous ++ upperAll chunk)) ∧
    (job chunk).verdict (.code 0) ((previous ++ upperAll chunk).take (job chunk).limit) =
      .success (previous ++ upperAll chunk) ∧
    (host.Confines policy → ∀ c₁ c₂, c₁ ≠ [] → c₂ ≠ [] → chunk = c₁ ++ c₂ → ∃ middle,
      main host (job c₁).argv (job c₁).stdin = .ok middle ∧
      main host (executeStreamProcess host policy middle c₂).argv
        (executeStreamProcess host policy middle c₂).stdin =
      main host (job chunk).argv (job chunk).stdin) ∧
    ∀ (p c : List UInt8) status output out,
      (executeStreamProcess host policy p c).verdict status output = .success out →
      out.length = p.length + c.length := by
  have hp := serve_served hargs
  have hpages : 16 ≤ policy.maxMemoryPages := by
    rw [hp.maxMemoryPages]
    decide
  have hlen : (previous ++ upperAll chunk).length = previous.length + chunk.length := by simp
  refine ⟨streamInvocation_eq hp hship.nonempty hship.size hc hc' hcap host.executable,
    fun fuel hfuel => executeStream_eq hship hpages hcap hfuel,
    fun hconf => streamMain_eq hp hship hconf hc hc' hcap, ?_, ?_,
    fun p c status output out h => stream_verdict_length h⟩
  · rw [List.take_of_length_le (by rw [hlen]; exact Nat.le_succ_of_le hcap)]
    exact if_pos ⟨rfl, hlen, by rw [hlen]; exact hcap⟩
  · -- the state after the first part has room for the second
    rintro hconf c₁ c₂ h₁ h₂ rfl
    have hpos₁ := List.length_pos_iff.mpr h₁
    have hpos₂ := List.length_pos_iff.mpr h₂
    rw [List.length_append] at hc' hcap
    refine ⟨_, streamMain_eq hp hship hconf hpos₁ (by omega) (by omega), ?_⟩
    rw [streamMain_eq hp hship hconf hpos₂ (by omega)
        (by rw [List.length_append, length_upperAll]; omega),
      streamMain_eq hp hship hconf (by rw [List.length_append]; omega)
        (by rw [List.length_append]; exact hc') (by rw [List.length_append]; exact hcap),
      List.append_assoc, upperAll, upperAll, upperAll, List.map_append]

/-- `stream_capitalize.wat` in binary form. -/
def streamBytes : List UInt8 :=
  [0, 97, 115, 109, 1, 0, 0, 0, 1, 8, 1, 96, 3, 127, 127, 127, 1, 127, 3, 2, 1, 0, 5, 4, 1, 1, 16,
    16, 7, 20, 2, 6, 109, 101, 109, 111, 114, 121, 2, 0, 7, 112, 114, 111, 99, 101, 115, 115, 0,
    0, 10, 91, 1, 89, 1, 3, 127, 32, 0, 32, 1, 106, 33, 4, 32, 4, 32, 0, 73, 32, 4, 32, 2, 75,
    114, 4, 64, 65, 127, 15, 11, 32, 0, 33, 3, 2, 64, 3, 64, 32, 3, 32, 4, 79, 13, 1, 32, 3, 45,
    0, 0, 33, 5, 32, 5, 65, 225, 0, 79, 32, 5, 65, 250, 0, 77, 113, 4, 64, 32, 3, 32, 5, 65, 32,
    107, 58, 0, 0, 11, 32, 3, 65, 1, 106, 33, 3, 12, 0, 11, 11, 32, 4, 11]

/-- The wasm crates, as they are on this module. -/
def streamToolchain : Toolchain where
  wasmparser := {
    validateAll := fun bytes => bytes == streamBytes
    parseAll := fun bytes =>
      if bytes = streamBytes then
        List.replicate 3 (some .other) ++ some (.memorySection [some streamMemory]) ::
          List.replicate 4 (some .other)
      else [none] }
  compile := fun bytes =>
    if bytes = streamBytes then some StreamCapitalize.streamCapitalize else none

/-- SHA-256 of the token of sixteen "a", of nothing and of "LO". -/
def knownDigest (bytes : List UInt8) : List UInt8 :=
  if bytes = List.replicate 16 97 then
    [12, 11, 234, 206, 248, 135, 123, 191, 36, 22, 235, 0, 242, 181, 220, 150, 53, 78, 38, 221, 29,
      245, 81, 115, 32, 69, 155, 18, 54, 134, 15, 140]
  else if bytes = [] then
    [227, 176, 196, 66, 152, 252, 28, 20, 154, 251, 244, 200, 153, 111, 185, 36, 39, 174, 65, 228,
      100, 155, 147, 76, 164, 149, 153, 27, 120, 82, 184, 85]
  else if bytes = [76, 79] then
    [236, 11, 173, 233, 238, 125, 1, 189, 149, 40, 31, 199, 77, 29, 120, 221, 21, 216, 182, 34,
      245, 12, 23, 112, 8, 85, 68, 0, 37, 248, 236, 19]
  else []

/-- A container with Landlock; only the stream module is compiled. -/
def streamHost : Host where
  executable := "lab"
  module := []
  streamModule := streamBytes
  kernel := landlockKernel
  process := spawnedChild
  toolchain := streamToolchain
  sha256 := knownDigest

theorem streamHost_ships :
    Ships streamHost.toolchain streamHost.streamModule streamMemory
      StreamCapitalize.streamCapitalize where
  nonempty := by simp [streamHost, streamBytes]
  size := by simp [streamHost, streamBytes]
  valid := by simp [streamHost, streamToolchain]
  payloads := ⟨3, 4, by simp [streamHost, streamToolchain]⟩
  compiles := by simp [streamHost, streamToolchain]

theorem streamHost_confines : streamHost.Confines (defaultPolicy 131072) where
  standardOpen := by decide
  landlock := by decide
  lowerable := spawnedChild_lowerable (by decide) (by decide)
  openFiles := by decide
  seccomp := rfl
  arch := rfl

/-- A chunk that fills the state to its last byte. -/
theorem stream_end_to_end_full_state :
    main streamHost
      (executeStreamProcess streamHost (defaultPolicy 131072)
        (List.replicate (streamStateBytes - 2) 65) [108, 33]).argv
      (executeStreamProcess streamHost (defaultPolicy 131072)
        (List.replicate (streamStateBytes - 2) 65) [108, 33]).stdin =
    .ok (List.replicate (streamStateBytes - 2) 65 ++ [76, 33]) :=
  (stream_end_to_end (serve_defaultArgs 131072) streamHost_ships (by decide) (by decide)
    (by rw [List.length_replicate]; decide)).2.2.1 streamHost_confines

end Lab
