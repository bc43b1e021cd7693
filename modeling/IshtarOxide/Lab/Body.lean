import IshtarOxide.Lib.Json
import IshtarOxide.Lab.RunnerProtocol

/-!
# Request bodies

The client of crates/sequential-lab sends its requests as JSON, and `serve` puts two layers
that limit the body in front of its routes. The limit is one of encoded bytes, and that of
`stream_chunk` one of the bytes that they decode to.

* `length_body`: how long the body of a chunk is.
* `chunk_fits_iff`: when the layers let it through.
* `chunk_fits_of_few_controls`: how many control characters an acceptable chunk may always have.
-/

namespace Lab

/-- `MAX_REQUEST_BYTES`. -/
def maxRequestBytes : Nat := 4096

/-- The bytes of an ASCII text. -/
def ascii (s : String) : List UInt8 := s.toList.map fun c => UInt8.ofNat c.toNat

/-- The body of `.json(&StreamChunkRequest { .. })`. -/
def StreamChunkRequest.body (request : StreamChunkRequest) : List UInt8 :=
  Json.writeObject [
    (ascii "session_slot", .number request.sessionSlot.toNat),
    (ascii "sequence", .number request.sequence.toNat),
    (ascii "chunk", .string request.chunk)]

/-! ## The layers -/

/-- `RequestBodyLimitLayer::new`. It looks at the length that is declared, and then at the bytes
that are read. -/
def requestBodyLimit (max : Nat) (contentLength : Option Nat) (body : List UInt8) : Bool :=
  !contentLength.any (max < ·) && body.length ≤ max

/-- `DefaultBodyLimit::max`, on the bytes that an extractor reads. -/
def defaultBodyLimit (max : Nat) (body : List UInt8) : Bool := body.length ≤ max

/-- The layers of `serve`, on a body that is sent with its length. -/
def passesLimits (body : List UInt8) : Bool :=
  requestBodyLimit maxRequestBytes (some body.length) body && defaultBodyLimit maxRequestBytes body

theorem passesLimits_iff {body : List UInt8} :
    passesLimits body = true ↔ body.length ≤ maxRequestBytes := by
  simp [passesLimits, requestBodyLimit, defaultBodyLimit]

/-! ## The length of a chunk's body -/

variable (request : StreamChunkRequest)

theorem length_body : request.body.length =
    40 + (Nat.toDigits 10 request.sessionSlot.toNat).length +
      (Nat.toDigits 10 request.sequence.toNat).length + request.chunk.length +
      request.chunk.countP Json.twoBytes + 5 * request.chunk.countP Json.sixBytes := by
  have hslot : (Json.writeString (ascii "session_slot")).length = 14 := by decide
  have hsequence : (Json.writeString (ascii "sequence")).length = 10 := by decide
  have hchunk : (Json.writeString (ascii "chunk")).length = 7 := by decide
  simp only [StreamChunkRequest.body, Json.writeObject, Json.writeField, Json.Value.write,
    List.intercalate, List.map_cons, List.map_nil, List.intersperse_cons_cons,
    List.intersperse_singleton, List.flatten_cons, List.flatten_nil, List.length_cons,
    List.length_append, List.length_nil, Json.length_writeNat, hslot, hsequence, hchunk,
    Json.length_writeString]
  omega

example : (⟨3, 120, ascii "a\"\n\x1f"⟩ : StreamChunkRequest).body =
    ascii "\x7b\"session_slot\":3,\"sequence\":120,\"chunk\":\"a\\\"\\n\\u001f\"\x7d" := by decide

/-- A chunk's body fits as long as its digits, bytes and escapes do. -/
theorem chunk_fits_iff :
    (request.body.length ≤ maxRequestBytes ∧ passesLimits request.body = true) ↔
      (Nat.toDigits 10 request.sessionSlot.toNat).length +
        (Nat.toDigits 10 request.sequence.toNat).length + request.chunk.length +
        request.chunk.countP Json.twoBytes + 5 * request.chunk.countP Json.sixBytes ≤ 4056 := by
  rw [passesLimits_iff, and_self, length_body, maxRequestBytes]
  omega

/-- An acceptable chunk fits unless it has more than 495 of the control characters that take
six bytes. -/
theorem chunk_fits_of_few_controls {policy : Policy} (hvalid : request.valid policy = true)
    (hfew : request.chunk.countP Json.sixBytes ≤ 495) : passesLimits request.body = true := by
  have hslot := Json.length_writeNat_le (k := 5) (by decide)
    (Nat.lt_of_lt_of_le request.sessionSlot.toNat_lt (by decide))
  have hsequence := Json.length_writeNat_le (k := 20) (by decide)
    (Nat.lt_of_lt_of_le request.sequence.toNat_lt (by decide))
  have hlen : request.chunk.length ≤ maxChunkBytes := by
    simp only [StreamChunkRequest.valid, decide_eq_true_eq, not_or] at hvalid
    exact Nat.not_lt.mp hvalid.2.2.1
  have hescapes := Json.countP_escapes_le request.chunk
  rw [Json.length_writeNat] at hslot hsequence
  rw [maxChunkBytes] at hlen
  rw [passesLimits_iff, length_body, maxRequestBytes]
  omega

/-- A chunk of the largest size that is nothing but control characters. -/
def controlChunk : StreamChunkRequest := ⟨0, 0, List.replicate maxChunkBytes 1⟩

theorem control_chunk_rejected :
    controlChunk.valid (defaultPolicy 131072) = true ∧
      maxRequestBytes < controlChunk.body.length ∧ passesLimits controlChunk.body = false := by
  have hlen : controlChunk.body.length = 6186 := by
    rw [length_body]
    simp only [controlChunk, List.length_replicate, List.countP_replicate]
    rfl
  refine ⟨?_, by rw [hlen]; decide, ?_⟩
  · simp only [StreamChunkRequest.valid, controlChunk, List.all_replicate, List.length_replicate]
    rfl
  · rw [Bool.eq_false_iff, ne_eq, passesLimits_iff, hlen]
    decide

end Lab
