import DistDb.Wal.Lemmas.Storage
import DistDb.Wal.Manager

/-! # Files of whole frames

A file whose frames all decode loads as the records they were made from. -/

namespace DistDb.Wal
open Lib

variable {env : WalEnv} {context : TransactionPayloadContext}

/-- A record that, written under `context`, hydrates back under the default context: it is not
encrypted, it is not an envelope kept uncompressed behind a zlib header, and its frame is within both
limits of the reader. -/
def DurableUnder (env : WalEnv) (context : TransactionPayloadContext) (record : TransactionRecord) :
    Prop :=
  (∀ payload ∈ record.payload, encryptsPayload record context payload = false ∧
    (shouldSkipPayloadCompression record payload && looksLikeZlibPayload payload) = false) ∧
  encodedLength env.prims record context ≤ env.maxFrameBytes ∧
  encodedLength env.prims record context ≤ maxDecodeBytes

instance (record : TransactionRecord) : Decidable (DurableUnder env context record) :=
  inferInstanceAs (Decidable (_ ∧ _))

theorem loadRecordsFromPath_header (prims : PayloadPrimitives) (maxFrameSize : Nat) (body : Bytes) :
    loadRecordsFromPath prims maxFrameSize (some (makeHeader ++ body)) =
      decodeRecordsSequential prims maxFrameSize default (makeHeader ++ body).length body := by
  have hheader : verifyHeader (makeHeader ++ body) = true := rfl
  have hbody : (makeHeader ++ body).drop headerSize = body := rfl
  rw [loadRecordsFromPath, if_pos hheader, hbody]

theorem frameRecords_singleton {record : TransactionRecord} (prims : PayloadPrimitives) (rand : Nat → Option Nonce) :
    frameRecords prims context rand [record] = frameRecordWithContext prims (rand 0) record context := by
  rw [frameRecords]
  cases frameRecordWithContext prims (rand 0) record context with
  | error e => rfl
  | ok frame => simp [frameRecords]

/-- The bytes are frames that are read as these records. -/
inductive Framed (env : WalEnv) : List TransactionRecord → Bytes → Prop where
  | nil : Framed env [] []
  | cons {record records encoded frames} (hlen : encoded.length ≤ env.maxFrameBytes)
      (hfits : encoded.length < 256 ^ 8)
      (hdecode : decodeRecordFromStorageWithContext env.prims encoded default = .ok record)
      (rest : Framed env records frames) :
      Framed env (record :: records) ((leBytes 8 encoded.length ++ encoded) ++ frames)

namespace Framed

variable {records records' : List TransactionRecord} {frames frames' : Bytes}

theorem append (h : Framed env records frames) (h' : Framed env records' frames') :
    Framed env (records ++ records') (frames ++ frames') := by
  induction h with
  | nil => exact h'
  | cons hlen hfits hdecode _ ih =>
    rw [List.append_assoc]
    exact cons hlen hfits hdecode ih

theorem length_le (h : Framed env records frames) : records.length ≤ frames.length := by
  induction h with
  | nil => exact Nat.le_refl 0
  | cons _ _ _ _ ih =>
    simp only [List.length_cons, List.length_append, length_leBytes]
    omega

theorem decodeRecordsSequential_eq (h : Framed env records frames) : ∀ {fuel}, records.length ≤ fuel →
      decodeRecordsSequential env.prims env.maxFrameBytes default fuel frames = records := by
  induction h with
  | nil =>
    intro fuel _
    cases fuel <;> rfl
  | @cons record records encoded frames hlen hfits hdecode _ ih =>
    intro fuel hfuel
    cases fuel with
    | zero => simp at hfuel
    | succ fuel =>
      have hcount := takeExact_append (leBytes 8 encoded.length) (encoded ++ frames)
      rw [length_leBytes] at hcount
      rw [decodeRecordsSequential, List.append_assoc, hcount]
      simp only [leNat_leBytes hfits, if_neg (Nat.not_lt.mpr hlen), takeExact_append, hdecode]
      rw [ih (by simpa using hfuel)]

theorem loadRecordsFromPath_eq (h : Framed env records frames) :
    loadRecordsFromPath env.prims env.maxFrameBytes (some (makeHeader ++ frames)) = records := by
  rw [loadRecordsFromPath_header]
  refine h.decodeRecordsSequential_eq (h.length_le.trans ?_)
  simp

end Framed

/-! ## Writing durable records -/

theorem encode_of_durableUnder (hp : env.prims.Correct) {rand : Option Nonce}
    {record : TransactionRecord} (hd : DurableUnder env context record) {bytes : Bytes}
    (henc : encodeRecordForStorageWithContext env.prims rand record context = .ok bytes) :
    bytes.length = encodedLength env.prims record context ∧
      decodeRecordFromStorageWithContext env.prims bytes default = .ok record := by
  obtain ⟨hpayload, -, hlimit⟩ := hd
  obtain ⟨written, hwrite, rfl⟩ := encodeRecord_eq_ok henc
  cases hcase : record.payload with
  | none =>
    rw [hcase] at hwrite
    cases hwrite
    have hrecord : ({ record with payload := none } : TransactionRecord) = record := by rw [← hcase]
    have hlen : (TransactionRecord.codec.encode record).length = encodedLength env.prims record context := by
      simp [encodedLength, hcase]
    refine ⟨by rw [hrecord, hlen], ?_⟩
    conv_rhs => rw [← hrecord]
    refine (decodeRecord_encode_iff ?_).mpr ⟨?_, rfl⟩
    · rw [hrecord, hlen]
      exact lt_of_le_of_lt hlimit (by decide)
    · rwa [hrecord, hlen]
  | some payload =>
    rw [hcase] at hwrite
    obtain ⟨hplain, hlook⟩ := hpayload payload hcase
    obtain ⟨plain, stored, rfl, henc', hversion, hstored⟩ := writeWalStoragePayload_eq_ok hwrite
    rcases henc' with ⟨-, rfl⟩ | ⟨hencrypts, -⟩
    · have hlen := encodedLength_of_plain hcase hplain hstored
      have hrecord : record = { ({ record with payload := some stored } : TransactionRecord) with
          payload := some plain } := by rw [← hcase]
      refine ⟨hlen, ?_⟩
      conv_rhs => rw [hrecord]
      refine (decodeRecord_encode_iff ?_).mpr ⟨by rwa [hlen], ?_⟩
      · rw [hlen]
        exact lt_of_le_of_lt hlimit (by decide)
      · rw [resolveWalStoragePayload_eq_ok hp hversion hstored hlook, resolveUncompressed_self_iff hp hversion]
        intro keyRef hkey
        cases hkey
    · rw [hplain] at hencrypts
      cases hencrypts

theorem Framed.of_frameRecords (hp : env.prims.Correct) {records : List TransactionRecord}
    (hd : ∀ record ∈ records, DurableUnder env context record) :
    ∀ {rand frames}, frameRecords env.prims context rand records = .ok frames → Framed env records frames := by
  induction records with
  | nil =>
    intro rand frames h
    cases h
    exact nil
  | cons record records ih =>
    intro rand frames h
    rw [frameRecords, frameRecordWithContext] at h
    cases henc : encodeRecordForStorageWithContext env.prims (rand 0) record context with
    | error e => simp [henc] at h
    | ok encoded =>
      simp only [henc] at h
      cases hrest : frameRecords env.prims context (fun i => rand (i + 1)) records with
      | error e => simp [hrest] at h
      | ok rest =>
        simp only [hrest, Except.ok.injEq] at h
        subst h
        have hrecord := hd record (List.mem_cons_self ..)
        obtain ⟨hlen, hdecode⟩ := encode_of_durableUnder hp hrecord henc
        refine cons (hlen ▸ hrecord.2.1) ?_ hdecode (ih (fun r hr => hd r (List.mem_cons_of_mem _ hr)) hrest)
        rw [hlen]
        exact lt_of_le_of_lt hrecord.2.2 (by decide)

end DistDb.Wal
