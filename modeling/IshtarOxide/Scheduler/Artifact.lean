import IshtarOxide.Lib.Aead
import IshtarOxide.Scheduler.Runner

/-!
# The encrypted artifact

How a worker module gets from the packaging tool to the runner: the
`encrypt-artifact` example writes the envelope, `pull_and_decrypt` collects it
chunk by chunk and opens it at startup (crates/scheduler/src/artifact.rs), and
`runner_main` reads the module back with a bound of its own.

* `decrypt_eq_ok`, `decrypt_envelope`: what `decrypt` accepts is an envelope, of a
  module that is not empty and within the limit.
* `receive_foldlM`, `receive_foldlM_error`: the loop over the chunks depends on the whole
  body only, and how it fails.
* `takeFromEnvironment_eq_ok`: where the secrets come from, and that they do not stay there.
* `artifact_exact`: the way of a module from one end to the other.
-/

namespace Scheduler

/-! ## Sizes and failures -/

/-- `usize::MAX`. -/
def usizeMax : Nat := 2 ^ 64 - 1

/-- `isize::MAX`, the most bytes that a `Vec` holds. -/
def isizeMax : Nat := 2 ^ 63 - 1

/-- How a function of the artifact path ends without a result: with an error, of
which this is the outermost context, or with a panic. -/
inductive Failure
  | error (context : String)
  | panic
deriving DecidableEq, Repr

/-- `usize::checked_add`. -/
def checkedAdd (a b : Nat) : Option Nat := if a + b ≤ usizeMax then some (a + b) else none

/-- `usize::saturating_add`. -/
def saturatingAdd (a b : Nat) : Nat := min (a + b) usizeMax

/-- `&bytes[start..stop]`. -/
def slice (bytes : List UInt8) (start stop : Nat) : Except Failure (List UInt8) :=
  if start ≤ stop ∧ stop ≤ bytes.length then .ok ((bytes.take stop).drop start) else .error .panic

/-- `Vec::extend_from_slice`. -/
def extendFromSlice (buffer chunk : List UInt8) : Except Failure (List UInt8) :=
  if buffer.length + chunk.length ≤ isizeMax then .ok (buffer ++ chunk) else .error .panic

/-- `MAGIC`: "ISHTAR1" and a zero byte. -/
def magic : List UInt8 := [0x49, 0x53, 0x48, 0x54, 0x41, 0x52, 0x31, 0x00]

/-- `NONCE_BYTES`. -/
def nonceBytes : Nat := 12

/-- `TAG_BYTES`. -/
def tagBytes : Nat := 16

/-- `HEADER_BYTES`. -/
def headerBytes : Nat := magic.length + nonceBytes

/-! ## Packaging -/

/-- Magic, nonce and sealed module. -/
def envelope (aead : Aead) (key nonce module : List UInt8) : List UInt8 :=
  magic ++ nonce ++ aead.sealInPlace key nonce magic module

@[simp] theorem length_envelope (aead : Aead) (key nonce module : List UInt8) :
    (envelope aead key nonce module).length = 8 + nonce.length + (module.length + 16) := by
  simp only [envelope, List.length_append, Aead.length_sealInPlace]
  rfl

/-- What a run of `encrypt-artifact` finds: its arguments, `WASM_DECRYPTION_KEY`,
what `getrandom` fills in, the files it can read, and whether it can write. -/
structure Packaging where
  args : List String
  decryptionKey : Option String
  randomness : Option (Vector UInt8 12)
  read : String → Option (List UInt8)
  writable : Bool

/-- `main` of `encrypt-artifact`: the path and the contents of the file it writes.
`decode` is the standard base64 alphabet's. -/
def encryptArtifact (aead : Aead) (decode : String → Option (List UInt8)) (p : Packaging) :
    Except Failure (String × List UInt8) := do
  let some input := p.args[0]? | throw (.error "input WASM path is required")
  let some output := p.args[1]? | throw (.error "output artifact path is required")
  if 2 < p.args.length then throw (.error "usage: encrypt-artifact <input.wasm> <output.enc>")
  let some encodedKey := p.decryptionKey | throw (.error "WASM_DECRYPTION_KEY is required")
  let some keyBytes := decode encodedKey | throw (.error "WASM_DECRYPTION_KEY must be base64")
  if keyBytes.length ≠ 32 then throw (.error "WASM_DECRYPTION_KEY must decode to 32 bytes")
  let some nonce := p.randomness | throw (.error "OS randomness unavailable")
  let some module := p.read input | throw (.error "read input WASM")
  if p.writable = false then throw (.error "write encrypted artifact")
  return (output, envelope aead keyBytes nonce.toList module)

theorem encryptArtifact_ok {aead : Aead} {decode : String → Option (List UInt8)} {p : Packaging}
    {input output encodedKey : String} {key module : List UInt8} {nonce : Vector UInt8 12}
    (hargs : p.args = [input, output]) (hkey : p.decryptionKey = some encodedKey)
    (hdecode : decode encodedKey = some key) (hlen : key.length = 32)
    (hnonce : p.randomness = some nonce) (hread : p.read input = some module)
    (hwrite : p.writable = true) :
    encryptArtifact aead decode p = .ok (output, envelope aead key nonce.toList module) := by
  simp [encryptArtifact, hargs, hkey, hdecode, hlen, hnonce, hread, hwrite]

/-! ## Opening the envelope -/

/-- `LoadedArtifact`. -/
structure LoadedArtifact where
  module : List UInt8
  sha256Hex : String
deriving DecidableEq, Repr

/-- `decrypt`. `sha256Hex` is the hexadecimal SHA-256 digest. -/
def decrypt (aead : Aead) (sha256Hex : List UInt8 → String) (encrypted keyBytes : List UInt8)
    (maxModuleBytes : Nat) : Except Failure LoadedArtifact := do
  if encrypted.length ≤ headerBytes + tagBytes then
    throw (.error "invalid encrypted artifact envelope")
  let start ← slice encrypted 0 magic.length
  if start ≠ magic then throw (.error "invalid encrypted artifact envelope")
  let nonce ← slice encrypted magic.length headerBytes
  if nonce.length ≠ nonceBytes then throw (.error "invalid artifact nonce")
  if keyBytes.length ≠ 32 then throw (.error "invalid artifact decryption key")
  let inOut ← slice encrypted headerBytes encrypted.length
  let some plaintext := aead.openInPlace keyBytes nonce magic inOut
    | throw (.error "artifact authentication failed")
  if plaintext.isEmpty ∨ maxModuleBytes < plaintext.length then
    throw (.error "decrypted module size violates policy")
  return ⟨plaintext, sha256Hex plaintext⟩

variable {aead : Aead} {sha256Hex : List UInt8 → String} {encrypted key : List UInt8}
  {maxModuleBytes : Nat} {artifact : LoadedArtifact}

theorem slice_ok {bytes : List UInt8} {start stop : Nat} (h : start ≤ stop)
    (hstop : stop ≤ bytes.length) : slice bytes start stop = .ok ((bytes.take stop).drop start) :=
  if_pos ⟨h, hstop⟩

/-- The checks of `decrypt` in order, once the length check has passed: none of
the slices is out of range. -/
theorem decrypt_of_length (h : headerBytes + tagBytes < encrypted.length) :
    decrypt aead sha256Hex encrypted key maxModuleBytes =
      if encrypted.take 8 ≠ magic then .error (.error "invalid encrypted artifact envelope")
      else if key.length ≠ 32 then .error (.error "invalid artifact decryption key")
      else match aead.openInPlace key ((encrypted.take 20).drop 8) magic (encrypted.drop 20) with
        | none => .error (.error "artifact authentication failed")
        | some plaintext =>
          if plaintext.isEmpty ∨ maxModuleBytes < plaintext.length then
            .error (.error "decrypted module size violates policy")
          else .ok ⟨plaintext, sha256Hex plaintext⟩ := by
  have hlen : 36 < encrypted.length := h
  have hstart : slice encrypted 0 magic.length = .ok (encrypted.take 8) :=
    slice_ok (Nat.zero_le _) (show 8 ≤ _ by omega)
  have hnonce : slice encrypted magic.length headerBytes = .ok ((encrypted.take 20).drop 8) :=
    slice_ok (by decide) (show 20 ≤ _ by omega)
  have hsealed : slice encrypted headerBytes encrypted.length = .ok (encrypted.drop 20) := by
    rw [slice_ok (Nat.le_of_lt (Nat.lt_of_le_of_lt (by decide) hlen)) (Nat.le_refl _),
      List.take_length]
    rfl
  have hnonceLen : ((encrypted.take 20).drop 8).length = nonceBytes := by
    simp only [List.length_drop, List.length_take, nonceBytes]
    omega
  simp only [decrypt, if_neg (Nat.not_le.mpr h), hstart, hnonce, hsealed, Except.ok_bind,
    Except.pure_eq_ok, hnonceLen, ne_eq, not_true_eq_false, if_false]
  cases aead.openInPlace key ((encrypted.take 20).drop 8) magic (encrypted.drop 20) <;> rfl

theorem decrypt_of_short (h : encrypted.length ≤ headerBytes + tagBytes) :
    decrypt aead sha256Hex encrypted key maxModuleBytes =
      .error (.error "invalid encrypted artifact envelope") := by
  simp [decrypt, h]

/-- No slice of `decrypt` is out of range. -/
theorem decrypt_ne_panic : decrypt aead sha256Hex encrypted key maxModuleBytes ≠ .error .panic := by
  intro h
  rcases Nat.lt_or_ge (headerBytes + tagBytes) encrypted.length with hlen | hlen
  · rw [decrypt_of_length hlen] at h
    repeat' split at h
    all_goals cases h
  · rw [decrypt_of_short hlen] at h
    cases h

/-- What `decrypt` accepts is the envelope of its result under the nonce it carries. -/
theorem decrypt_eq_ok (h : decrypt aead sha256Hex encrypted key maxModuleBytes = .ok artifact) :
    encrypted = envelope aead key ((encrypted.take 20).drop 8) artifact.module ∧
      1 ≤ artifact.module.length ∧ artifact.module.length ≤ maxModuleBytes ∧
      artifact.sha256Hex = sha256Hex artifact.module := by
  have hlen : headerBytes + tagBytes < encrypted.length := by
    by_contra hshort
    rw [decrypt_of_short (Nat.not_lt.mp hshort)] at h
    cases h
  rw [decrypt_of_length hlen] at h
  obtain ⟨hmagic, h⟩ := (ite_eq_iff.mp h).resolve_left (by simp)
  obtain ⟨-, h⟩ := (ite_eq_iff.mp h).resolve_left (by simp)
  cases hopen : aead.openInPlace key ((encrypted.take 20).drop 8) magic (encrypted.drop 20) with
  | none =>
    rw [hopen] at h
    cases h
  | some plaintext =>
    rw [hopen] at h
    obtain ⟨hsize, h⟩ := (ite_eq_iff.mp h).resolve_left (by simp)
    cases h
    simp only [List.isEmpty_iff, not_or, Nat.not_lt] at hsize
    refine ⟨?_, List.length_pos_iff.mpr hsize.1, hsize.2, rfl⟩
    have hheader : encrypted.take 8 ++ (encrypted.take 20).drop 8 = encrypted.take 20 := by
      have h := List.take_append_drop 8 (encrypted.take 20)
      rwa [List.take_take] at h
    rw [envelope, ← aead.openInPlace_eq_some.mp hopen, ← not_not.mp hmagic, hheader,
      List.take_append_drop]

/-- The envelope of a module opens to that module, if its size is allowed. -/
theorem decrypt_envelope {nonce module : List UInt8} (hkey : key.length = 32)
    (hnonce : nonce.length = 12) :
    decrypt aead sha256Hex (envelope aead key nonce module) key maxModuleBytes = .ok artifact ↔
      1 ≤ module.length ∧ module.length ≤ maxModuleBytes ∧
        artifact = ⟨module, sha256Hex module⟩ := by
  have hheader : (magic ++ nonce).length = 20 := by
    rw [List.length_append, hnonce]
    rfl
  have hmagic : (envelope aead key nonce module).take 8 = magic := by
    rw [envelope, List.append_assoc]
    exact List.take_left' rfl
  have hcarried : ((envelope aead key nonce module).take 20).drop 8 = nonce := by
    rw [envelope, List.take_left' hheader]
    exact List.drop_left' rfl
  have hsealed : (envelope aead key nonce module).drop 20 =
      aead.sealInPlace key nonce magic module := List.drop_left' hheader
  rcases Nat.eq_zero_or_pos module.length with hempty | hpos
  · -- the envelope of nothing is one byte too short to be one
    rw [decrypt_of_short (by rw [length_envelope, hnonce, hempty]; decide)]
    simp [hempty]
  · rw [decrypt_of_length (by rw [length_envelope, hnonce]; show 36 < _; omega), hmagic, hcarried,
      hsealed, Aead.openInPlace_sealInPlace]
    have hne : module.isEmpty = false := by
      rw [List.isEmpty_eq_false_iff]
      exact List.length_pos_iff.mp hpos
    by_cases hmax : module.length ≤ maxModuleBytes
    · simp [hkey, hne, hmax, Nat.not_lt.mpr hmax, eq_comm, Nat.succ_le_of_lt hpos]
    · simp [hkey, hmax, Nat.not_le.mp hmax]

/-! ## Pulling -/

/-- What the scheduler reads from an HTTP response: the length it announces, the
chunks of its body, and whether reading fails after them. -/
structure Download where
  contentLength : Option Nat
  chunks : List (List UInt8)
  broken : Bool

/-- The whole body. -/
def Download.body (d : Download) : List UInt8 := d.chunks.flatten

/-- The announced length, if there is one, is that of the body. -/
def Download.Truthful (d : Download) : Prop := ∀ n ∈ d.contentLength, n = d.body.length

/-- What becomes of the request. -/
inductive Fetch
  | pullFailed
  | errorStatus
  | response (download : Download)

/-- `StartupSecrets`. -/
structure StartupSecrets where
  url : String
  key : List UInt8
  apiToken : String
  key_length : key.length = 32
  apiToken_length : 1 ≤ apiToken.utf8ByteSize ∧ apiToken.utf8ByteSize ≤ 4096

/-- `AUTHORIZED_HOST`. -/
def authorizedHost : String := "artifacts.kkbr.ai"

/-- What `take_from_environment` reads of a parsed URL. -/
structure Url where
  scheme : String
  host : Option String
  portOrKnownDefault : Option Nat
  username : String
  password : Option String

/-- An `https` URL of the authorized host, without credentials. -/
def Url.Authorized (url : Url) : Prop :=
  url.scheme = "https" ∧ url.host = some authorizedHost ∧ url.portOrKnownDefault = some 443 ∧
    url.username = "" ∧ url.password = none

instance (url : Url) : Decidable url.Authorized := inferInstanceAs (Decidable (_ ∧ _))

section Environment

variable (parse : String → Option Url) (decode : String → Option (List UInt8))

/-- What `take_from_environment` does once it has taken the three values. `parse` is the URL
parser and `decode` the base64 decoder. -/
def StartupSecrets.check (url encodedKey apiToken : String) : Except Failure StartupSecrets :=
  match parse url with
  | none => .error (.error "WASM_PULL_URL is invalid")
  | some parsed =>
    if ¬ parsed.Authorized then
      .error (.error "WASM_PULL_URL must be an HTTPS URL on artifacts.kkbr.ai port 443")
    else
      match decode encodedKey with
      | none => .error (.error "WASM_DECRYPTION_KEY must be base64")
      | some key =>
        if hkey : key.length = 32 then
          if htoken : 1 ≤ apiToken.utf8ByteSize ∧ apiToken.utf8ByteSize ≤ 4096 then
            .ok ⟨url, key, apiToken, hkey, htoken⟩
          else .error (.error "WASM_PULL_API_TOKEN must contain 1..=4096 bytes")
        else .error (.error "WASM_DECRYPTION_KEY must decode to 32 bytes")

/-- The variables that are removed. -/
def secretNames : List String := ["WASM_PULL_URL", "WASM_DECRYPTION_KEY", "WASM_PULL_API_TOKEN"]

/-- `StartupSecrets::take_from_environment`, with the environment that it leaves. -/
def StartupSecrets.takeFromEnvironment (env : String → Option String) :
    Except Failure StartupSecrets × (String → Option String) :=
  match env "WASM_PULL_URL", env "WASM_DECRYPTION_KEY", env "WASM_PULL_API_TOKEN" with
  | none, _, _ => (.error (.error "WASM_PULL_URL secret is required"), env)
  | _, none, _ => (.error (.error "WASM_DECRYPTION_KEY secret is required"), env)
  | _, _, none => (.error (.error "WASM_PULL_API_TOKEN secret is required"), env)
  | some url, some encodedKey, some apiToken =>
    (check parse decode url encodedKey apiToken,
      fun name => if name ∈ secretNames then none else env name)

end Environment

/-- `bearer_header`. `fromStr` is `HeaderValue::from_str`. -/
def bearerHeader {ν : Type} (fromStr : String → Option ν) (token : String) : Except Failure ν :=
  match fromStr ("Bearer " ++ token) with
  | some header => .ok header
  | none => .error (.error "WASM_PULL_API_TOKEN is not a valid HTTP bearer token")

/-- One turn of the loop over the chunks. -/
def receive (maxEncryptedBytes : Nat) (encrypted chunk : List UInt8) :
    Except Failure (List UInt8) := do
  if maxEncryptedBytes < saturatingAdd encrypted.length chunk.length then
    throw (.error "encrypted artifact exceeds policy")
  extendFromSlice encrypted chunk

/-- The body of the response, within a limit that is checked against the announced
length and again at every chunk. -/
def Download.read (d : Download) (maxEncryptedBytes : Nat) : Except Failure (List UInt8) := do
  if d.contentLength.any (maxEncryptedBytes < ·) then
    throw (.error "encrypted artifact exceeds policy")
  let encrypted ← d.chunks.foldlM (receive maxEncryptedBytes) []
  if d.broken then throw (.error "artifact body read failed")
  return encrypted

/-- The HTTP client with the network behind it: whether it can be built, its
`HeaderValue::from_str`, and what becomes of a request to a URL with an authorization header. -/
structure Client (ν : Type) where
  built : Bool
  headerFromStr : String → Option ν
  send : (url : String) → (authorization : ν) → Fetch

/-- `pull_and_decrypt`. -/
def pullAndDecrypt {ν : Type} (aead : Aead) (sha256Hex : List UInt8 → String) (client : Client ν)
    (secrets : StartupSecrets) (maxModuleBytes : Nat) : Except Failure LoadedArtifact := do
  let some maxEncryptedBytes := checkedAdd maxModuleBytes (headerBytes + tagBytes)
    | throw (.error "artifact size limit overflow")
  if client.built = false then throw (.error "build artifact pull client")
  let authorization ← bearerHeader client.headerFromStr secrets.apiToken
  match client.send secrets.url authorization with
  | .pullFailed => throw (.error "artifact pull failed")
  | .errorStatus => throw (.error "artifact source returned an error")
  | .response download =>
    let encrypted ← download.read maxEncryptedBytes
    decrypt aead sha256Hex encrypted secrets.key maxModuleBytes

/-- One chunk is appended as long as the buffer stays within the limit and within
what a `Vec` holds. -/
theorem receive_ok_iff {max : Nat} {buffer chunk result : List UInt8} :
    receive max buffer chunk = .ok result ↔
      result = buffer ++ chunk ∧ result.length ≤ min max isizeMax := by
  have hmax : isizeMax < usizeMax := by decide
  by_cases hlimit : max < saturatingAdd buffer.length chunk.length
  · simp only [receive, hlimit, if_true, Except.throw_bind, reduceCtorEq, false_iff, not_and]
    rintro rfl
    simp only [saturatingAdd, List.length_append] at hlimit ⊢
    omega
  · simp only [receive, hlimit, if_false, extendFromSlice]
    simp only [saturatingAdd] at hlimit
    by_cases hcap : buffer.length + chunk.length ≤ isizeMax
    · simp only [hcap, if_true, Except.ok.injEq]
      constructor
      · rintro rfl
        refine ⟨rfl, ?_⟩
        rw [List.length_append]
        omega
      · exact fun h => h.1.symm
    · simp only [hcap, if_false, reduceCtorEq, false_iff, not_and]
      rintro rfl
      rw [List.length_append]
      omega

/-- The loop over the chunks: whatever the chunks are, the buffer is their
concatenation, and it is there exactly when it is within the limit. -/
theorem receive_foldlM {max : Nat} {chunks : List (List UInt8)} {buffer result : List UInt8}
    (hbuffer : buffer.length ≤ min max isizeMax) :
    chunks.foldlM (receive max) buffer = .ok result ↔
      result = buffer ++ chunks.flatten ∧ result.length ≤ min max isizeMax := by
  induction chunks generalizing buffer with
  | nil =>
    simp only [List.foldlM_nil, Except.pure_eq_ok, Except.ok.injEq, List.flatten_nil,
      List.append_nil]
    constructor
    · rintro rfl
      exact ⟨rfl, hbuffer⟩
    · exact fun h => h.1.symm
  | cons chunk chunks ih =>
    rw [List.foldlM_cons, Except.bind_eq_ok, List.flatten_cons, ← List.append_assoc]
    constructor
    · rintro ⟨next, hnext, hrest⟩
      obtain ⟨rfl, hlen⟩ := receive_ok_iff.mp hnext
      exact (ih hlen).mp hrest
    · rintro ⟨rfl, hlen⟩
      have hnext : (buffer ++ chunk).length ≤ min max isizeMax := by
        rw [List.length_append] at hlen
        omega
      exact ⟨buffer ++ chunk, receive_ok_iff.mpr ⟨rfl, hnext⟩, (ih hnext).mpr ⟨rfl, hlen⟩⟩

/-- Reading succeeds exactly on a truthful, complete body that fits, whatever its
chunks are. -/
theorem Download.read_eq_ok {d : Download} {max : Nat} {encrypted : List UInt8}
    (hlength : d.Truthful) (hbroken : d.broken = false) :
    d.read max = .ok encrypted ↔ encrypted = d.body ∧ d.body.length ≤ min max isizeMax := by
  have hchunks : d.chunks.foldlM (receive max) [] = .ok encrypted ↔
      encrypted = d.body ∧ d.body.length ≤ min max isizeMax := by
    rw [receive_foldlM (Nat.zero_le _), List.nil_append, Download.body]
    constructor
    · rintro ⟨rfl, h⟩
      exact ⟨rfl, h⟩
    · rintro ⟨rfl, h⟩
      exact ⟨rfl, h⟩
  have hannounced : d.contentLength.any (max < ·) = true → max < d.body.length := by
    cases hc : d.contentLength with
    | none => simp
    | some n =>
      have hn : n = d.body.length := hlength n hc
      simp [hn]
  by_cases hc : d.contentLength.any (max < ·) = true
  · have := hannounced hc
    simp only [Download.read, hc, if_true, Except.throw_bind, reduceCtorEq, false_iff]
    omega
  · simp only [Download.read, hc, hbroken, Bool.false_eq_true, if_false, bind_pure, hchunks]

/-- What the loop fails with: with the error of its limit, or with a panic where the limit
is more than a `Vec` holds. -/
theorem receive_foldlM_error {max : Nat} {chunks : List (List UInt8)} {buffer : List UInt8}
    {failure : Failure} (h : chunks.foldlM (receive max) buffer = .error failure) :
    failure = .error "encrypted artifact exceeds policy" ∨ failure = .panic ∧ isizeMax < max := by
  induction chunks generalizing buffer with
  | nil => cases h
  | cons chunk chunks ih =>
    rw [List.foldlM_cons] at h
    by_cases hlimit : max < saturatingAdd buffer.length chunk.length
    · simp only [receive, hlimit, if_true, Except.throw_bind, Except.error_bind,
        Except.error.injEq] at h
      exact .inl h.symm
    · by_cases hroom : buffer.length + chunk.length ≤ isizeMax
      · have hnext := receive_ok_iff.mpr ⟨rfl, show (buffer ++ chunk).length ≤ min max isizeMax by
          simp only [saturatingAdd] at hlimit
          have hmax : isizeMax < usizeMax := by decide
          rw [List.length_append]
          omega⟩
        rw [hnext, Except.ok_bind] at h
        exact ih h
      · simp only [receive, hlimit, if_false, extendFromSlice, hroom, Except.error_bind,
          Except.error.injEq] at h
        simp only [saturatingAdd] at hlimit
        have hmax : isizeMax < usizeMax := by decide
        exact .inr ⟨h.symm, by omega⟩

/-- A body that does not fit is refused. -/
theorem Download.read_eq_error {d : Download} {max : Nat} (hlength : d.Truthful)
    (hbroken : d.broken = false) (hexceeds : min max isizeMax < d.body.length) :
    d.read max = .error (.error "encrypted artifact exceeds policy") ∨
      d.read max = .error .panic ∧ isizeMax < max := by
  cases hread : d.read max with
  | ok encrypted =>
    exact absurd ((d.read_eq_ok hlength hbroken).mp hread).2 (Nat.not_le.mpr hexceeds)
  | error failure =>
    by_cases hc : d.contentLength.any (max < ·) = true
    · simp only [Download.read, hc, if_true, Except.throw_bind, Except.error.injEq] at hread
      exact .inl (congrArg _ hread.symm)
    · simp only [Download.read, hc, hbroken, Bool.false_eq_true, if_false, bind_pure] at hread
      rcases receive_foldlM_error hread with rfl | ⟨rfl, hmax⟩
      · exact .inl rfl
      · exact .inr ⟨rfl, hmax⟩

section Pull

variable {ν : Type} {client : Client ν} {secrets : StartupSecrets} {download : Download}

/-- The client gets as far as a response. -/
def Client.Downloads (client : Client ν) (secrets : StartupSecrets) (download : Download) : Prop :=
  client.built = true ∧ ∃ authorization,
    bearerHeader client.headerFromStr secrets.apiToken = .ok authorization ∧
      client.send secrets.url authorization = .response download

theorem pullAndDecrypt_overflow (h : usizeMax < maxModuleBytes + 36) :
    pullAndDecrypt aead sha256Hex client secrets maxModuleBytes =
      .error (.error "artifact size limit overflow") := by
  have hadd : checkedAdd maxModuleBytes (headerBytes + tagBytes) = none :=
    if_neg (Nat.not_le.mpr h)
  simp only [pullAndDecrypt, hadd]
  rfl

theorem pullAndDecrypt_response (hlimit : maxModuleBytes + 36 ≤ usizeMax)
    (hsource : client.Downloads secrets download) :
    pullAndDecrypt aead sha256Hex client secrets maxModuleBytes =
      download.read (maxModuleBytes + 36) >>= fun encrypted =>
        decrypt aead sha256Hex encrypted secrets.key maxModuleBytes := by
  obtain ⟨hbuilt, authorization, hauth, hsend⟩ := hsource
  have hadd : checkedAdd maxModuleBytes (headerBytes + tagBytes) = some (maxModuleBytes + 36) :=
    if_pos hlimit
  simp only [pullAndDecrypt, hadd, hbuilt, hauth, hsend, Except.ok_bind, Bool.true_eq_false,
    if_false]

/-- What was accepted at startup went through `decrypt`. -/
theorem pullAndDecrypt_eq_ok
    (h : pullAndDecrypt aead sha256Hex client secrets maxModuleBytes = .ok artifact) :
    ∃ encrypted, decrypt aead sha256Hex encrypted secrets.key maxModuleBytes = .ok artifact := by
  unfold pullAndDecrypt at h
  split at h
  · split at h
    · cases h
    · obtain ⟨authorization, -, h⟩ := Except.bind_eq_ok.mp h
      split at h
      · cases h
      · cases h
      · obtain ⟨encrypted, -, h⟩ := Except.bind_eq_ok.mp h
        exact ⟨encrypted, h⟩
  · cases h

section Whole

variable (aead sha256Hex) (hlimit : maxModuleBytes + 36 ≤ usizeMax)
  (hsource : client.Downloads secrets download)
  (hlength : download.Truthful) (hbroken : download.broken = false)

include hlimit hsource hlength hbroken

/-- A body that fits is opened whole, whatever its chunks are. -/
theorem pullAndDecrypt_fits (hfits : download.body.length ≤ min (maxModuleBytes + 36) isizeMax) :
    pullAndDecrypt aead sha256Hex client secrets maxModuleBytes =
      decrypt aead sha256Hex download.body secrets.key maxModuleBytes := by
  rw [pullAndDecrypt_response hlimit hsource,
    (download.read_eq_ok hlength hbroken).mpr ⟨rfl, hfits⟩, Except.ok_bind]

theorem pullAndDecrypt_exceeds
    (hexceeds : min (maxModuleBytes + 36) isizeMax < download.body.length) :
    pullAndDecrypt aead sha256Hex client secrets maxModuleBytes =
        .error (.error "encrypted artifact exceeds policy") ∨
      pullAndDecrypt aead sha256Hex client secrets maxModuleBytes = .error .panic ∧
        isizeMax < maxModuleBytes + 36 := by
  rw [pullAndDecrypt_response hlimit hsource]
  refine (download.read_eq_error hlength hbroken hexceeds).imp (fun h => ?_)
    (And.imp_left fun h => ?_)
  · rw [h, Except.error_bind]
  · rw [h, Except.error_bind]

end Whole

end Pull

/-! ## Startup -/

section Startup

variable {parse : String → Option Url} {decode : String → Option (List UInt8)}
  {env env' : String → Option String} {secrets : StartupSecrets}

theorem check_eq_ok {url encodedKey apiToken : String}
    (h : StartupSecrets.check parse decode url encodedKey apiToken = .ok secrets) :
    secrets.url = url ∧ secrets.apiToken = apiToken ∧ decode encodedKey = some secrets.key ∧
      ∃ parsed, parse url = some parsed ∧ parsed.Authorized := by
  unfold StartupSecrets.check at h
  split at h
  · cases h
  · next parsed hparsed =>
    obtain ⟨hauthorized, h⟩ := (ite_eq_iff.mp h).resolve_left (by simp)
    split at h
    · cases h
    · next key hkey =>
      split at h
      · split at h
        · cases h
          exact ⟨rfl, rfl, hkey, parsed, hparsed, not_not.mp hauthorized⟩
        · cases h
      · cases h

/-- The secrets are those of the environment, which has none of them afterwards. -/
theorem takeFromEnvironment_eq_ok
    (h : StartupSecrets.takeFromEnvironment parse decode env = (.ok secrets, env')) :
    env "WASM_PULL_URL" = some secrets.url ∧ env "WASM_PULL_API_TOKEN" = some secrets.apiToken ∧
      (∃ encodedKey, env "WASM_DECRYPTION_KEY" = some encodedKey ∧
        decode encodedKey = some secrets.key) ∧
      (∃ parsed, parse secrets.url = some parsed ∧ parsed.Authorized) ∧
      ∀ name, env' name = if name ∈ secretNames then none else env name := by
  unfold StartupSecrets.takeFromEnvironment at h
  split at h
  · cases h
  · cases h
  · cases h
  · next url encodedKey apiToken hurl hkey htoken =>
    obtain ⟨hcheck, rfl⟩ := Prod.mk.inj h
    obtain ⟨hurl', htoken', hdecode, hparsed⟩ := check_eq_ok hcheck
    exact ⟨hurl'.symm ▸ hurl, htoken'.symm ▸ htoken, ⟨encodedKey, hkey, hdecode⟩,
      hurl'.symm ▸ hparsed, fun _ => rfl⟩

end Startup

/-! ## From packaging to the runner -/

/-- From packaging to the runner, for every limit `maxModuleBytes`. What
`encrypt-artifact` writes is opened exactly when the module is not empty and
within the limit, and what is opened is an envelope. A body is opened whole,
whatever its chunks are, if it fits, and is refused otherwise; the buffer stays
within the limit and the overhead of the envelope. A module that was accepted at
startup passes the bounded read of the runner unchanged. So a scheduler that takes the key of
the packaging from its environment, and pulls what was packaged, starts exactly with the
module. -/
theorem artifact_exact (aead : Aead) (sha256Hex : List UInt8 → String)
    (decode : String → Option (List UInt8)) (maxModuleBytes : Nat) :
    (∀ (p : Packaging) (input output encodedKey : String) (key module : List UInt8)
        (nonce : Vector UInt8 12),
      p.args = [input, output] → p.decryptionKey = some encodedKey →
      decode encodedKey = some key → key.length = 32 → p.randomness = some nonce →
      p.read input = some module → p.writable = true →
      ∃ encrypted, encryptArtifact aead decode p = .ok (output, encrypted) ∧
        encrypted = magic ++ nonce.toList ++ aead.sealInPlace key nonce.toList magic module ∧
        ∀ artifact, decrypt aead sha256Hex encrypted key maxModuleBytes = .ok artifact ↔
          1 ≤ module.length ∧ module.length ≤ maxModuleBytes ∧
            artifact = ⟨module, sha256Hex module⟩) ∧
    (∀ encrypted key,
      decrypt aead sha256Hex encrypted key maxModuleBytes ≠ .error .panic ∧
      ∀ artifact, decrypt aead sha256Hex encrypted key maxModuleBytes = .ok artifact →
        encrypted = envelope aead key ((encrypted.take 20).drop 8) artifact.module) ∧
    (∀ (ν : Type) (client : Client ν) (secrets : StartupSecrets) (download : Download),
      client.Downloads secrets download → download.Truthful → download.broken = false →
      (usizeMax < maxModuleBytes + 36 →
        pullAndDecrypt aead sha256Hex client secrets maxModuleBytes =
          .error (.error "artifact size limit overflow")) ∧
      (maxModuleBytes + 36 ≤ usizeMax →
        (download.body.length ≤ min (maxModuleBytes + 36) isizeMax →
          pullAndDecrypt aead sha256Hex client secrets maxModuleBytes =
            decrypt aead sha256Hex download.body secrets.key maxModuleBytes) ∧
        (maxModuleBytes + 36 ≤ isizeMax → maxModuleBytes + 36 < download.body.length →
          pullAndDecrypt aead sha256Hex client secrets maxModuleBytes =
            .error (.error "encrypted artifact exceeds policy")) ∧
        (isizeMax < maxModuleBytes + 36 → isizeMax < download.body.length →
          pullAndDecrypt aead sha256Hex client secrets maxModuleBytes =
              .error (.error "encrypted artifact exceeds policy") ∨
            pullAndDecrypt aead sha256Hex client secrets maxModuleBytes = .error .panic) ∧
        ∀ received rest buffer, download.chunks = received ++ rest →
          received.foldlM (receive (maxModuleBytes + 36)) [] = .ok buffer →
          buffer.length ≤ maxModuleBytes + 36)) ∧
    (∀ (ν : Type) (client : Client ν) (secrets : StartupSecrets) (artifact : LoadedArtifact),
      pullAndDecrypt aead sha256Hex client secrets maxModuleBytes = .ok artifact →
      readModule maxModuleBytes (some artifact.module) = .ok artifact.module) ∧
    (∀ (p : Packaging) (input output : String) (module : List UInt8) (nonce : Vector UInt8 12)
        (parse : String → Option Url) (env env' : String → Option String)
        (secrets : StartupSecrets) (ν : Type) (client : Client ν) (download : Download),
      p.args = [input, output] → p.decryptionKey = env "WASM_DECRYPTION_KEY" →
      p.randomness = some nonce → p.read input = some module → p.writable = true →
      StartupSecrets.takeFromEnvironment parse decode env = (.ok secrets, env') →
      client.Downloads secrets download → download.Truthful → download.broken = false →
      encryptArtifact aead decode p = .ok (output, download.body) →
      module.length + 36 ≤ isizeMax → maxModuleBytes + 36 ≤ usizeMax →
      (∀ name ∈ secretNames, env' name = none) ∧
      ∀ artifact, pullAndDecrypt aead sha256Hex client secrets maxModuleBytes = .ok artifact ↔
        1 ≤ module.length ∧ module.length ≤ maxModuleBytes ∧
          artifact = ⟨module, sha256Hex module⟩) := by
  refine ⟨?_, ?_, ?_, ?_, ?_⟩
  · intro p input output encodedKey key module nonce hargs hkey hdecode hlen hnonce hread hwrite
    exact ⟨_, encryptArtifact_ok hargs hkey hdecode hlen hnonce hread hwrite, rfl,
      fun artifact => decrypt_envelope hlen nonce.length_toList⟩
  · intro encrypted key
    exact ⟨decrypt_ne_panic, fun artifact h => (decrypt_eq_ok h).1⟩
  · intro ν client secrets download hsource hlength hbroken
    refine ⟨pullAndDecrypt_overflow, fun hlimit =>
      ⟨pullAndDecrypt_fits aead sha256Hex hlimit hsource hlength hbroken, fun hmax hexceeds => ?_,
        fun _ hexceeds => ?_, ?_⟩⟩
    · rcases pullAndDecrypt_exceeds aead sha256Hex hlimit hsource hlength hbroken (by omega) with
        h | ⟨-, hlarge⟩
      · exact h
      · omega
    · exact (pullAndDecrypt_exceeds aead sha256Hex hlimit hsource hlength hbroken
        (by omega)).imp id And.left
    · intro received rest buffer _ hbuffer
      -- the loop keeps within its limit from one chunk to the next
      have hlen := ((receive_foldlM (Nat.zero_le _)).mp hbuffer).2
      omega
  · intro ν client secrets artifact h
    obtain ⟨encrypted, h⟩ := pullAndDecrypt_eq_ok h
    -- the checks of `decrypt` are those of the runner
    obtain ⟨-, hpos, hmax, -⟩ := decrypt_eq_ok h
    exact readModule_ok (List.length_pos_iff.mp hpos) hmax
  · intro p input output module nonce parse env env' secrets ν client download hargs hkey hnonce
      hread hwrite hsecrets hsource hlength hbroken hpackaged hroom hlimit
    obtain ⟨-, -, ⟨encodedKey, henv, hdecode⟩, -, henv'⟩ := takeFromEnvironment_eq_ok hsecrets
    refine ⟨fun name hname => by rw [henv', if_pos hname], fun artifact => ?_⟩
    -- both sides have the same key, so the body is the envelope of the module under it
    have hwritten : encryptArtifact aead decode p = _ :=
      encryptArtifact_ok hargs (hkey.trans henv) hdecode secrets.key_length hnonce hread hwrite
    have hbody : download.body = envelope aead secrets.key nonce.toList module :=
      (Prod.mk.inj (Except.ok.inj (hpackaged.symm.trans hwritten))).2
    have hsize : download.body.length = module.length + 36 := by
      rw [hbody, length_envelope, nonce.length_toList]
      omega
    rw [← decrypt_envelope secrets.key_length nonce.length_toList, ← hbody]
    by_cases hfits : module.length ≤ maxModuleBytes
    · rw [pullAndDecrypt_fits aead sha256Hex hlimit hsource hlength hbroken (by omega)]
    · -- what the loop refuses, `decrypt` would refuse as well
      have hrefused : decrypt aead sha256Hex download.body secrets.key maxModuleBytes ≠
          .ok artifact := by
        rw [hbody]
        exact fun h => hfits ((decrypt_envelope secrets.key_length nonce.length_toList).mp h).2.1
      refine iff_of_false (fun hok => ?_) hrefused
      rcases pullAndDecrypt_exceeds aead sha256Hex hlimit hsource hlength hbroken (by omega) with
        h | ⟨h, -⟩
      · cases h.symm.trans hok
      · cases h.symm.trans hok

/-! ## A sample artifact -/

/-- Agrees with AES-256-GCM on the module "wasm", a key of threes and a nonce of
sevens. -/
def sampleAead : Aead :=
  .ofStream (fun _ _ i => [20, 45, 196, 163].getD i 0) fun _ _ _ _ =>
    #v[133, 95, 29, 156, 155, 250, 96, 250, 139, 164, 8, 7, 146, 228, 133, 190]

/-- "wasm". -/
def sampleModule : List UInt8 := [119, 97, 115, 109]

/-- Agrees with SHA-256 on "wasm". -/
def sampleDigest (_ : List UInt8) : String :=
  "336154bf67f765f8f75d16a0accee61b5ee5f6a75b2a2905703df913bd550f3e"

/-- Base64 of the key of threes. -/
def sampleDecode (s : String) : Option (List UInt8) :=
  if s = "AwMDAwMDAwMDAwMDAwMDAwMDAwMDAwMDAwMDAwMDAwM=" then some (List.replicate 32 3) else none

def samplePackaging : Packaging where
  args := ["worker.wasm", "worker.enc"]
  decryptionKey := some "AwMDAwMDAwMDAwMDAwMDAwMDAwMDAwMDAwMDAwMDAwM="
  randomness := some (Vector.replicate 12 7)
  read := fun path => if path = "worker.wasm" then some sampleModule else none
  writable := true

def sampleSecrets : StartupSecrets where
  url := "https://artifacts.kkbr.ai/worker.enc"
  key := List.replicate 32 3
  apiToken := "secret-token"
  key_length := by decide
  apiToken_length := by decide

/-- The envelope of "wasm" in two chunks, without an announced length. -/
def sampleDownload : Download where
  contentLength := none
  chunks := [magic ++ List.replicate 12 7,
    [99, 76, 183, 206, 133, 95, 29, 156, 155, 250, 96, 250, 139, 164, 8, 7, 146, 228, 133, 190]]
  broken := false

/-- A client that gets this response. `HeaderValue::from_str` refuses control characters other
than a tab. -/
def sampleClient (download : Download) : Client String where
  built := true
  headerFromStr := fun s =>
    if s.toList.all fun c => c = '\t' ∨ ' ' ≤ c ∧ c ≠ '\x7f' then some s else none
  send := fun _ _ => .response download

theorem sampleClient_downloads (download : Download) :
    (sampleClient download).Downloads sampleSecrets download := by
  have haccepted : ("Bearer " ++ sampleSecrets.apiToken).toList.all
      fun c => c = '\t' ∨ ' ' ≤ c ∧ c ≠ '\x7f' := by decide
  refine ⟨rfl, "Bearer secret-token", ?_, rfl⟩
  simp only [bearerHeader, sampleClient, if_pos haccepted]
  rfl

def sampleEnvironment (name : String) : Option String :=
  if name = "WASM_PULL_URL" then some "https://artifacts.kkbr.ai/worker.enc"
  else if name = "WASM_DECRYPTION_KEY" then some "AwMDAwMDAwMDAwMDAwMDAwMDAwMDAwMDAwMDAwMDAwM="
  else if name = "WASM_PULL_API_TOKEN" then some "secret-token"
  else none

/-- Agrees with the URL parser on the sample. -/
def sampleParse (_ : String) : Option Url :=
  some ⟨"https", some "artifacts.kkbr.ai", some 443, "", none⟩

theorem takeFromEnvironment_sample :
    StartupSecrets.takeFromEnvironment sampleParse sampleDecode sampleEnvironment =
      (.ok sampleSecrets,
        fun name => if name ∈ secretNames then none else sampleEnvironment name) := by
  rfl

/-- A module of exactly the size limit. -/
theorem artifact_exact_wasm :
    (∃ encrypted, encryptArtifact sampleAead sampleDecode samplePackaging =
        .ok ("worker.enc", encrypted) ∧
      decrypt sampleAead sampleDigest encrypted (List.replicate 32 3) 4 =
        .ok ⟨sampleModule, sampleDigest sampleModule⟩) ∧
    pullAndDecrypt sampleAead sampleDigest (sampleClient sampleDownload) sampleSecrets 4 =
      .ok ⟨sampleModule, sampleDigest sampleModule⟩ ∧
    readModule 4 (some sampleModule) = .ok sampleModule ∧
    pullAndDecrypt sampleAead sampleDigest (sampleClient sampleDownload) sampleSecrets 3 =
      .error (.error "encrypted artifact exceeds policy") := by
  obtain ⟨hpackage, -, -, hrun, hstart⟩ := artifact_exact sampleAead sampleDigest sampleDecode 4
  obtain ⟨encrypted, hwritten, -, hopen⟩ := hpackage samplePackaging "worker.wasm" "worker.enc"
    "AwMDAwMDAwMDAwMDAwMDAwMDAwMDAwMDAwMDAwMDAwM=" (List.replicate 32 3) sampleModule
    (Vector.replicate 12 7) rfl rfl (by decide) (by decide) rfl (by decide) rfl
  have hloaded := ((hstart samplePackaging "worker.wasm" "worker.enc" sampleModule
    (Vector.replicate 12 7) sampleParse sampleEnvironment _ sampleSecrets String
    (sampleClient sampleDownload) sampleDownload rfl rfl rfl (by decide) rfl
    takeFromEnvironment_sample (sampleClient_downloads sampleDownload) nofun rfl (by decide)
    (by decide) (by decide)).2 ⟨sampleModule, sampleDigest sampleModule⟩).mpr
      ⟨by decide, by decide, rfl⟩
  have hlarge := ((artifact_exact sampleAead sampleDigest sampleDecode 3).2.2.1 String
    (sampleClient sampleDownload) sampleSecrets sampleDownload
    (sampleClient_downloads sampleDownload) nofun rfl).2 (by decide)
  exact ⟨⟨encrypted, hwritten, (hopen _).mpr ⟨by decide, by decide, rfl⟩⟩, hloaded,
    hrun String (sampleClient sampleDownload) sampleSecrets _ hloaded,
    hlarge.2.1 (by decide) (by decide)⟩

/-- Zeros in two chunks. -/
def zeros (n : Nat) : Download := ⟨none, [List.replicate n 0, List.replicate n 0], false⟩

theorem body_zeros (n : Nat) : (zeros n).body = List.replicate (n + n) 0 := by
  simp [Download.body, zeros]

theorem decrypt_zeros {n : Nat} (h : 36 < n + n) :
    decrypt aead sha256Hex (zeros n).body key maxModuleBytes =
      .error (.error "invalid encrypted artifact envelope") := by
  have hlen : headerBytes + tagBytes < (zeros n).body.length := by
    rw [body_zeros, List.length_replicate]
    exact h
  rw [decrypt_of_length hlen, body_zeros, List.take_replicate, Nat.min_eq_left (by omega)]
  exact if_pos (by decide)

/-- With a limit whose sum with the overhead is not a `usize`, nothing is pulled at
all, also not an envelope that `decrypt` opens; and a body within the limit that no `Vec` holds
is not given to `decrypt`. -/
theorem pullAndDecrypt_largest_limit :
    (sampleDownload.contentLength = none ∧ sampleDownload.broken = false ∧
      sampleDownload.body.length ≤ usizeMax + 36 ∧
      decrypt sampleAead sampleDigest sampleDownload.body sampleSecrets.key usizeMax =
        .ok ⟨sampleModule, sampleDigest sampleModule⟩ ∧
      pullAndDecrypt sampleAead sampleDigest (sampleClient sampleDownload) sampleSecrets usizeMax =
        .error (.error "artifact size limit overflow")) ∧
    (zeros (2 ^ 62)).body.length ≤ isizeMax + 36 ∧
      pullAndDecrypt sampleAead sampleDigest (sampleClient (zeros (2 ^ 62))) sampleSecrets
          isizeMax ≠
        decrypt sampleAead sampleDigest (zeros (2 ^ 62)).body sampleSecrets.key isizeMax := by
  have hlen : (zeros (2 ^ 62)).body.length = 2 ^ 62 + 2 ^ 62 := by
    rw [body_zeros, List.length_replicate]
  refine ⟨by decide, ?_, ?_⟩
  · rw [hlen]
    decide
  · rw [decrypt_zeros (by decide)]
    have hexceeds : min (isizeMax + 36) isizeMax < (zeros (2 ^ 62)).body.length := by
      rw [hlen]
      decide
    rcases pullAndDecrypt_exceeds sampleAead sampleDigest (by decide)
      (sampleClient_downloads (zeros (2 ^ 62))) nofun rfl hexceeds with h | ⟨h, -⟩
    · rw [h]
      simp
    · rw [h]
      simp

end Scheduler
