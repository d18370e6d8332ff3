import DistDb.Lib.Base64
import DistDb.Payload.Envelope
import DistDb.Transaction.Record

/-! # Records between nodes

A record travels with the id of its stream, as the base64 text of their bytes. Older nodes send hexadecimal text. -/

namespace DistDb.Wal
open Lib

def frameCodec : Codec (String × TransactionRecord) := Codec.string.pair TransactionRecord.codec

inductive WalFrameError where
  | deserialize
  | encoding
  | utf8
  | hex (chunk : Bytes)
  deriving DecidableEq, Repr

def decodeWalFrameBytes (bytes : Bytes) : Except WalFrameError (String × TransactionRecord) :=
  match frameCodec.deserialize maxDecodeBytes bytes with
  | some frame => .ok frame
  | none => .error .deserialize

def encodeWalFrame (frame : String × TransactionRecord) : Bytes := b64EncodeBytes (frameCodec.encode frame)

def b64Decode (text : Bytes) : Bytes := (b64DecodeImpl text).getD []

def decodeHexPairs : Bytes → Except WalFrameError Bytes
  | high :: low :: text =>
    if String.fromUTF8? ⟨#[high, low]⟩ = none then .error .utf8
    else
      match hexByteOf high low with
      | none => .error (.hex [high, low])
      | some byte => (decodeHexPairs text).map (byte :: ·)
  | _ => .ok []

/-- Base64 first; what is no frame in base64 is read as hexadecimal text. -/
def decodeWalFrame (encoded : Bytes) : Except WalFrameError (String × TransactionRecord) :=
  let base64Bytes := b64Decode encoded
  match if base64Bytes ≠ [] then (decodeWalFrameBytes base64Bytes).toOption else none with
  | some frame => .ok frame
  | none =>
    if encoded.length % 2 ≠ 0 then .error .encoding else (decodeHexPairs encoded).bind decodeWalFrameBytes

variable {frame : String × TransactionRecord} {bytes : Bytes}

theorem decodeWalFrameBytes_eq_ok : decodeWalFrameBytes bytes = .ok frame ↔
    frameCodec.deserialize maxDecodeBytes bytes = some frame := by
  unfold decodeWalFrameBytes
  split <;> simp_all

theorem decodeHexPairs_hexText (upper : Bool) (bytes : Bytes) : decodeHexPairs (hexText upper bytes) = .ok bytes := by
  have hutf8 : ∀ upper, ∀ high < 16, ∀ low < 16,
      String.fromUTF8? ⟨#[hexDigit upper high, hexDigit upper low]⟩ ≠ none := by decide +kernel
  induction bytes with
  | nil => rfl
  | cons byte bytes ih =>
    have hbyte := byte.toNat_lt
    rw [hexText, List.flatMap_cons, ← hexText]
    simp only [List.cons_append, List.nil_append, decodeHexPairs, hexByteOf_digits, ih]
    rw [if_neg (hutf8 upper _ (by omega) _ (by omega))]
    rfl

theorem decodeWalFrame_eq (encoded : Bytes) : decodeWalFrame encoded =
    match frameCodec.deserialize maxDecodeBytes (b64Decode encoded) with
    | some frame => .ok frame
    | none =>
      if encoded.length % 2 ≠ 0 then .error .encoding else (decodeHexPairs encoded).bind decodeWalFrameBytes := by
  unfold decodeWalFrame
  by_cases hnil : b64Decode encoded = []
  · have hnone : frameCodec.deserialize maxDecodeBytes [] = none := rfl
    simp only [hnil, hnone, ne_eq, not_true, if_false]
  · simp only [ne_eq, hnil, not_false_eq_true, if_true, decodeWalFrameBytes]
    cases frameCodec.deserialize maxDecodeBytes (b64Decode encoded) <;> rfl

theorem length_le_of_decodeWalFrame {encoded : Bytes} (h : decodeWalFrame encoded = .ok frame) :
    (frameCodec.encode frame).length ≤ maxDecodeBytes := by
  have hbytes : ∃ bytes, frameCodec.deserialize maxDecodeBytes bytes = some frame := by
    rw [decodeWalFrame_eq] at h
    split at h
    · rename_i hbase64
      cases h
      exact ⟨_, hbase64⟩
    · split at h
      · cases h
      · cases hpairs : decodeHexPairs encoded with
        | error e =>
          rw [hpairs] at h
          cases h
        | ok bytes =>
          rw [hpairs] at h
          exact ⟨bytes, decodeWalFrameBytes_eq_ok.mp h⟩
  obtain ⟨bytes, hbytes⟩ := hbytes
  exact (Codec.deserialize_eq_some.mp hbytes).1

/-! ## Hexadecimal text as base64 -/

theorem encode_frame (frame : String × TransactionRecord) : frameCodec.encode frame =
    leBytes 8 (utf8Bytes frame.1).length ++ (utf8Bytes frame.1 ++ TransactionRecord.codec.encode frame.2) := by
  rw [← List.append_assoc]
  rfl

theorem encode_frame_last_count {rest : Bytes} (h : (frameCodec.encode frame).length ≤ maxDecodeBytes) :
    (frameCodec.encode frame ++ rest)[7]? = some 0 := by
  have hcount : (utf8Bytes frame.1).length < 2 ^ 56 := by
    rw [encode_frame, List.length_append, List.length_append] at h
    have hlimit : maxDecodeBytes < 2 ^ 56 := by decide
    omega
  have hzero : (utf8Bytes frame.1).length / 256 / 256 / 256 / 256 / 256 / 256 / 256 % 256 = 0 := by omega
  rw [encode_frame]
  simp [leBytes, hzero]

theorem decodeSextets_zeros {a b c d e f g h : UInt8} {text : Bytes}
    (hbytes : decodeSextets (a :: b :: c :: d :: e :: f :: g :: h :: 48 :: 48 :: 48 :: 48 :: text) = some bytes) :
    bytes[7]? = some 0x4d := by
  simp only [decodeSextets, Option.bind_eq_bind, Option.bind_eq_some_iff, Option.pure_def, Option.some.injEq] at hbytes
  obtain ⟨_, -, _, -, _, -, _, -, _, ⟨_, -, _, -, _, -, _, -, _, ⟨_, h1, _, h2, _, h3, _, h4, _, -, rfl⟩, rfl⟩, rfl⟩ :=
    hbytes
  cases h1
  cases h2
  cases h3
  cases h4
  rfl

theorem deserialize_hexText (upper : Bool) (h : (frameCodec.encode frame).length ≤ maxDecodeBytes) :
    frameCodec.deserialize maxDecodeBytes (b64Decode (hexText upper (frameCodec.encode frame))) = none := by
  have hpadding : 61 ∉ hexText upper (frameCodec.encode frame) := by
    intro hmem
    obtain ⟨byte, -, hchar⟩ := List.mem_flatMap.mp hmem
    have hbyte := byte.toNat_lt
    simp only [List.mem_cons, List.not_mem_nil, or_false] at hchar
    rcases hchar with hchar | hchar
    · exact (hexDigit_ne upper (by omega)).2 hchar.symm
    · exact (hexDigit_ne upper (by omega)).2 hchar.symm
  have hcount : (utf8Bytes frame.1).length < 2 ^ 32 := by
    rw [encode_frame, List.length_append, List.length_append] at h
    have hlimit : maxDecodeBytes < 2 ^ 32 := by decide
    omega
  have hfifth : (utf8Bytes frame.1).length / 256 / 256 / 256 / 256 % 256 = 0 := by omega
  have hsixth : (utf8Bytes frame.1).length / 256 / 256 / 256 / 256 / 256 % 256 = 0 := by omega
  have htext : ∃ a b c d e f g h text, hexText upper (frameCodec.encode frame) =
      a :: b :: c :: d :: e :: f :: g :: h :: 48 :: 48 :: 48 :: 48 :: text := by
    rw [encode_frame]
    simp [hexText, leBytes, hfifth, hsixth, hexDigit]
  obtain ⟨a, b, c, d, e, f, g, h, text, htext⟩ := htext
  rw [b64Decode, b64DecodeImpl_of_not_padded hpadding]
  cases hbytes : decodeSextets (hexText upper (frameCodec.encode frame)) with
  | none => rfl
  | some bytes =>
    rw [htext] at hbytes
    rw [Option.getD_some]
    refine Option.eq_none_iff_forall_not_mem.mpr fun other hother => ?_
    obtain ⟨hlength, rest, hdecode⟩ := Codec.deserialize_eq_some.mp hother
    have hzero : bytes[7]? = some 0 := by
      rw [← frameCodec.encode_decode _ _ _ hdecode]
      exact encode_frame_last_count hlength
    rw [decodeSextets_zeros hbytes] at hzero
    cases hzero

/-! ## Round trips -/

/-- Bytes come back from their base64 text, and a frame from its base64 text and from its hexadecimal text if and only
if its bytes are within the limit of the decoder. -/
theorem wal_frame_round_trip_iff (frame : String × TransactionRecord) :
    (∀ bytes, b64Decode (b64EncodeBytes bytes) = bytes) ∧
    (decodeWalFrame (encodeWalFrame frame) = .ok frame ↔ (frameCodec.encode frame).length ≤ maxDecodeBytes) ∧
    ∀ upper, decodeWalFrame (hexText upper (frameCodec.encode frame)) = .ok frame ↔
      (frameCodec.encode frame).length ≤ maxDecodeBytes := by
  have hbase64 : ∀ bytes, b64Decode (b64EncodeBytes bytes) = bytes := fun bytes => by
    rw [b64Decode, b64DecodeImpl_b64EncodeBytes, Option.getD_some]
  have hdecode : (frameCodec.encode frame).length ≤ maxDecodeBytes →
      frameCodec.deserialize maxDecodeBytes (frameCodec.encode frame) = some frame :=
    frameCodec.deserialize_encode_of_le (by decide)
  refine ⟨hbase64, ⟨length_le_of_decodeWalFrame, fun h => ?_⟩, fun upper => ⟨length_le_of_decodeWalFrame, fun h => ?_⟩⟩
  · rw [decodeWalFrame_eq, encodeWalFrame, hbase64, hdecode h]
  · have heven : (hexText upper (frameCodec.encode frame)).length % 2 = 0 := by
      simp [hexText, List.length_flatMap]
    rw [decodeWalFrame_eq, deserialize_hexText upper h, decodeHexPairs_hexText]
    simp only [heven, ne_eq, not_true, if_false, Except.bind]
    rw [decodeWalFrameBytes_eq_ok]
    exact hdecode h

/-- A payload as long as the limit makes the frame longer. -/
theorem long_frame_refused :
    let frame : String × TransactionRecord :=
      ("d:t", ⟨⟨1⟩, none, none, 0, ⟨"server"⟩, .insert, some (List.replicate maxDecodeBytes 0)⟩)
    decodeWalFrame (encodeWalFrame frame) ≠ .ok frame := by
  have hpayload : (List.replicate maxDecodeBytes (0 : UInt8)).length = maxDecodeBytes := List.length_replicate
  generalize List.replicate maxDecodeBytes (0 : UInt8) = payload at hpayload ⊢
  intro frame hframe
  have hlength := length_le_of_decodeWalFrame hframe
  have hrecord := TransactionRecord.length_encode_payload ⟨⟨1⟩, none, none, 0, ⟨"server"⟩, .insert, none⟩ payload
  rw [encode_frame, List.length_append, List.length_append, hrecord] at hlength
  omega

end DistDb.Wal
