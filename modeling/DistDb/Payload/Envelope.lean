import DistDb.Lib.Codec

/-! # Encrypted row payload envelopes

An encrypted row payload is a serialized envelope. Nothing marks it as one: a payload counts as
encrypted if its bytes happen to decode as a valid envelope. -/

namespace DistDb
open Lib

def maxDecodeBytes : Nat := 256 * 1024 * 1024

def encryptedRowPayloadNonceSizeBytes : Nat := 12

def encryptedRowPayloadAuthTagSizeBytes : Nat := 16

def encryptedRowPayloadEnvelopeVersion : UInt8 := 1

structure EncryptedRowPayloadEnvelope where
  keyVersion : UInt32
  nonce : Bytes
  authTag : Bytes
  ciphertext : Bytes
  deriving DecidableEq, Repr

structure LegacyEncryptedRowPayloadEnvelope where
  magic : UInt8 × UInt8 × UInt8 × UInt8
  version : UInt8
  keyVersion : UInt32
  nonce : Bytes
  authTag : Bytes
  ciphertext : Bytes
  deriving DecidableEq, Repr

def encryptedRowPayloadMagic : UInt8 × UInt8 × UInt8 × UInt8 := (0x64, 0x62, 0x72, 0x77)

def EncryptedRowPayloadEnvelope.codec : Codec EncryptedRowPayloadEnvelope :=
  (Codec.u32.pair (Codec.bytes.pair (Codec.bytes.pair Codec.bytes))).refine
    (fun e => (e.keyVersion, e.nonce, e.authTag, e.ciphertext))
    (fun t => some ⟨t.1, t.2.1, t.2.2.1, t.2.2.2⟩)
    (fun _ => rfl)
    (fun t e h => by cases h; rfl)

def LegacyEncryptedRowPayloadEnvelope.codec : Codec LegacyEncryptedRowPayloadEnvelope :=
  ((Codec.u8.pair (Codec.u8.pair (Codec.u8.pair Codec.u8))).pair
    (Codec.u8.pair (Codec.u32.pair (Codec.bytes.pair (Codec.bytes.pair Codec.bytes))))).refine
    (fun e => (e.magic, e.version, e.keyVersion, e.nonce, e.authTag, e.ciphertext))
    (fun t => some ⟨t.1, t.2.1, t.2.2.1, t.2.2.2.1, t.2.2.2.2.1, t.2.2.2.2.2⟩)
    (fun _ => rfl)
    (fun t e h => by cases h; rfl)

def LegacyEncryptedRowPayloadEnvelope.toEnvelope (legacy : LegacyEncryptedRowPayloadEnvelope) :
    EncryptedRowPayloadEnvelope :=
  ⟨legacy.keyVersion, legacy.nonce, legacy.authTag, legacy.ciphertext⟩

inductive EnvelopeError where
  | unsupportedVersion (version : UInt8)
  deriving DecidableEq, Repr

def EnvelopeError.message : EnvelopeError → String
  | unsupportedVersion version => s!"unsupported encrypted row payload version {version}"

def looksLikeValidEncryptedPayloadEnvelope (envelope : EncryptedRowPayloadEnvelope) : Bool :=
  envelope.keyVersion > 0 &&
  envelope.nonce.length == encryptedRowPayloadNonceSizeBytes &&
  envelope.authTag.length == encryptedRowPayloadAuthTagSizeBytes &&
  !envelope.ciphertext.isEmpty

def encodeEncryptedRowPayloadEnvelope (envelope : EncryptedRowPayloadEnvelope) : Bytes :=
  EncryptedRowPayloadEnvelope.codec.encode envelope

/-- The second half of the decoder: what does not decode as a current envelope may be a legacy
one. -/
def decodeLegacyEncryptedRowPayloadEnvelope (payload : Bytes) :
    Except EnvelopeError (Option EncryptedRowPayloadEnvelope) :=
  match LegacyEncryptedRowPayloadEnvelope.codec.deserialize maxDecodeBytes payload with
  | none => .ok none
  | some legacy =>
    if legacy.magic ≠ encryptedRowPayloadMagic then .ok none
    else if legacy.version ≠ encryptedRowPayloadEnvelopeVersion then
      .error (.unsupportedVersion legacy.version)
    else
      if looksLikeValidEncryptedPayloadEnvelope legacy.toEnvelope then .ok (some legacy.toEnvelope)
      else .ok none

def decodeEncryptedRowPayloadEnvelope (payload : Bytes) :
    Except EnvelopeError (Option EncryptedRowPayloadEnvelope) :=
  match EncryptedRowPayloadEnvelope.codec.deserialize maxDecodeBytes payload with
  | some envelope =>
    if looksLikeValidEncryptedPayloadEnvelope envelope then .ok (some envelope)
    else decodeLegacyEncryptedRowPayloadEnvelope payload
  | none => decodeLegacyEncryptedRowPayloadEnvelope payload

def looksLikeEncryptedRowPayload (payload : Bytes) : Bool :=
  match decodeEncryptedRowPayloadEnvelope payload with
  | .ok (some _) => true
  | _ => false

def hasUnsupportedEnvelopeVersion (payload : Bytes) : Bool :=
  match decodeEncryptedRowPayloadEnvelope payload with
  | .error _ => true
  | .ok _ => false

/-! ## What the decoder accepts -/

variable {payload : Bytes}

theorem looksLikeEncryptedRowPayload_iff : looksLikeEncryptedRowPayload payload = true ↔
      ∃ envelope, decodeEncryptedRowPayloadEnvelope payload = .ok (some envelope) := by
  unfold looksLikeEncryptedRowPayload
  split <;> simp_all

theorem length_encodeEncryptedRowPayloadEnvelope (envelope : EncryptedRowPayloadEnvelope) :
    (encodeEncryptedRowPayloadEnvelope envelope).length =
      28 + envelope.nonce.length + envelope.authTag.length + envelope.ciphertext.length := by
  simp only [encodeEncryptedRowPayloadEnvelope, EncryptedRowPayloadEnvelope.codec, Codec.refine,
    Codec.pair, Codec.bytes, Codec.u32, Codec.nat, List.length_append, length_leBytes]
  omega

variable {envelope : EncryptedRowPayloadEnvelope}

theorem decode_encodeEncryptedRowPayloadEnvelope (hvalid : looksLikeValidEncryptedPayloadEnvelope envelope = true)
    (hlen : (encodeEncryptedRowPayloadEnvelope envelope).length ≤ maxDecodeBytes) :
    decodeEncryptedRowPayloadEnvelope (encodeEncryptedRowPayloadEnvelope envelope) = .ok (some envelope) := by
  have hround := Codec.deserialize_encode_of_le EncryptedRowPayloadEnvelope.codec
    (by decide : maxDecodeBytes < 2 ^ 64) hlen
  rw [decodeEncryptedRowPayloadEnvelope, encodeEncryptedRowPayloadEnvelope, hround]
  simp [hvalid]

theorem decode_eq_some (h : decodeEncryptedRowPayloadEnvelope payload = .ok (some envelope)) :
    looksLikeValidEncryptedPayloadEnvelope envelope = true ∧
      (EncryptedRowPayloadEnvelope.codec.deserialize maxDecodeBytes payload = some envelope ∨
        ∃ legacy, LegacyEncryptedRowPayloadEnvelope.codec.deserialize maxDecodeBytes payload =
          some legacy ∧ legacy.toEnvelope = envelope) := by
  have hlegacy : decodeLegacyEncryptedRowPayloadEnvelope payload = .ok (some envelope) →
      looksLikeValidEncryptedPayloadEnvelope envelope = true ∧
        ∃ legacy, LegacyEncryptedRowPayloadEnvelope.codec.deserialize maxDecodeBytes payload =
          some legacy ∧ legacy.toEnvelope = envelope := by
    intro h
    unfold decodeLegacyEncryptedRowPayloadEnvelope at h
    split at h
    · cases h
    · rename_i legacy hl
      split_ifs at h with _ _ hv
      · simp at h
      · obtain rfl : legacy.toEnvelope = envelope := by simpa using h
        exact ⟨hv, legacy, hl, rfl⟩
      · simp at h
  unfold decodeEncryptedRowPayloadEnvelope at h
  split at h
  · split_ifs at h with hv
    · cases h
      exact ⟨hv, Or.inl ‹_›⟩
    · exact (hlegacy h).imp id Or.inr
  · exact (hlegacy h).imp id Or.inr

theorem length_ciphertext_lt (h : decodeEncryptedRowPayloadEnvelope payload = .ok (some envelope)) :
    envelope.ciphertext.length < payload.length := by
  rcases (decode_eq_some h).2 with hd | ⟨legacy, hd, rfl⟩
  · obtain ⟨-, rest, hd⟩ := Codec.deserialize_eq_some.mp hd
    rw [← Codec.encode_decode _ _ _ _ hd, List.length_append, ← encodeEncryptedRowPayloadEnvelope,
      length_encodeEncryptedRowPayloadEnvelope]
    omega
  · obtain ⟨-, rest, hd⟩ := Codec.deserialize_eq_some.mp hd
    rw [← Codec.encode_decode _ _ _ _ hd]
    simp only [LegacyEncryptedRowPayloadEnvelope.codec, LegacyEncryptedRowPayloadEnvelope.toEnvelope,
      Codec.refine, Codec.pair, Codec.bytes, Codec.u32, Codec.u8, Codec.nat, List.length_append,
      length_leBytes]
    omega

theorem length_ciphertext_le (h : decodeEncryptedRowPayloadEnvelope payload = .ok (some envelope)) :
    envelope.ciphertext ≠ [] ∧ 56 + envelope.ciphertext.length ≤ maxDecodeBytes := by
  obtain ⟨hvalid, hfrom⟩ := decode_eq_some h
  simp only [looksLikeValidEncryptedPayloadEnvelope, Bool.and_eq_true, beq_iff_eq,
    encryptedRowPayloadNonceSizeBytes, encryptedRowPayloadAuthTagSizeBytes, Bool.not_eq_true',
    List.isEmpty_eq_false_iff] at hvalid
  obtain ⟨⟨⟨-, hnonce⟩, htag⟩, hcipher⟩ := hvalid
  refine ⟨hcipher, ?_⟩
  rcases hfrom with hd | ⟨legacy, hd, rfl⟩
  · have hle := (Codec.deserialize_eq_some.mp hd).1
    rw [← encodeEncryptedRowPayloadEnvelope, length_encodeEncryptedRowPayloadEnvelope] at hle
    omega
  · have hle := (Codec.deserialize_eq_some.mp hd).1
    simp only [LegacyEncryptedRowPayloadEnvelope.codec, Codec.refine, Codec.pair, Codec.bytes,
      Codec.u32, Codec.u8, Codec.nat, List.length_append, length_leBytes] at hle
    simp only [LegacyEncryptedRowPayloadEnvelope.toEnvelope] at hnonce htag ⊢
    omega

end DistDb
