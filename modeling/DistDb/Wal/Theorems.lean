import DistDb.Wal.Lemmas.Durability
import DistDb.Wal.Requests

/-! # Theorems about the write-ahead log -/

namespace DistDb.Wal
open Lib

/-! ## The stream keeps what was acknowledged -/

/-- Over any run of append requests the stream stays in id order and holds each acknowledged record
once, provided no record is requested again after a different record with its id; and if every
request was acknowledged, only then. -/
theorem Worker.run_keepsAcknowledged (env : WalEnv) (walFile : Option WalFile)
    (requests : List (AppendRequest × IoOutcome)) :
    (NoReturn TransactionRecord.key (requested requests) →
      KeepsAcknowledged ((fresh walFile).run env requests).entries
        ((fresh walFile).acknowledged env requests)) ∧
    ((fresh walFile).acknowledged env requests = requested requests →
      (KeepsAcknowledged ((fresh walFile).run env requests).entries
          ((fresh walFile).acknowledged env requests) ↔
        NoReturn TransactionRecord.key (requested requests))) := by
  constructor
  · intro h
    exact run_keepsAcknowledged_iff.mpr (h.sublist (acknowledged_sublist requests))
  · intro h
    rw [run_keepsAcknowledged_iff, h]

def recordAt (id timestampEpochMs : UInt64) : TransactionRecord :=
  ⟨⟨id⟩, none, none, timestampEpochMs, ⟨"user"⟩, .insert, none⟩

def appendRequest (record : TransactionRecord) : AppendRequest × IoOutcome :=
  (.append record default, .success)

theorem Worker.run_keepsAcknowledged_ordered :
    KeepsAcknowledged
      ((fresh none).run (.unset .plain) [appendRequest (recordAt 2 0), appendRequest (recordAt 1 0)]).entries
      ((fresh none).acknowledged (.unset .plain)
        [appendRequest (recordAt 2 0), appendRequest (recordAt 1 0)]) := by
  refine (run_keepsAcknowledged (.unset .plain) none _).1 ?_
  intro r x h hk
  have := h.length_le
  simp [requested, appendRequest, AppendRequest.records] at this

/-- Two different records with one id, then the first again: it is stored a second time. -/
theorem Worker.run_not_keepsAcknowledged :
    ¬ KeepsAcknowledged
      ((fresh none).run (.unset .plain) [appendRequest (recordAt 1 0), appendRequest (recordAt 1 1),
        appendRequest (recordAt 1 0)]).entries
      ((fresh none).acknowledged (.unset .plain) [appendRequest (recordAt 1 0),
        appendRequest (recordAt 1 1), appendRequest (recordAt 1 0)]) := by
  decide

/-! ## Appending again -/

/-- An acknowledged request leaves the stream unchanged exactly if each of its records is the latest
entry with its id; and inside a batch such a record has no effect. -/
theorem Worker.append_again_iff {env : WalEnv} {worker : Worker} (hw : worker.Reachable env)
    (io : IoOutcome) :
    (∀ request : AppendRequest, (worker.step env request.command io).2 = .ok () →
      ((worker.step env request.command io).1.entries = worker.entries ↔
        ∀ r ∈ request.records, IsLatest TransactionRecord.key r worker.entries)) ∧
    (∀ pre r post context, IsLatest TransactionRecord.key r (worker.entries ++ pre) →
      (worker.step env (.appendBatch (pre ++ r :: post) context) io).2 = .ok () →
      (worker.step env (.appendBatch (pre ++ post) context) io).2 = .ok () →
      (worker.step env (.appendBatch (pre ++ r :: post) context) io).1.entries =
        (worker.step env (.appendBatch (pre ++ post) context) io).1.entries) := by
  obtain ⟨log, hlog⟩ := hw.exists_log
  have hstep : ∀ request : AppendRequest, (worker.step env request.command io).2 = .ok () →
      (worker.step env request.command io).1.entries = (log.mergeAll request.records).entries := by
    intro request hack
    rcases step_merges env io request hlog with ⟨-, h⟩ | ⟨e, he, -⟩
    · exact h
    · rw [he] at hack
      cases hack
  constructor
  · intro request hack
    rw [hstep request hack, hlog, KeyedLog.mergeAll_eq_self_iff]
  · intro pre r post context hlatest hwith hwithout
    rw [hlog] at hlatest
    calc _ = (log.mergeAll (pre ++ r :: post)).entries := hstep (.appendBatch _ context) hwith
      _ = (log.mergeAll (pre ++ post)).entries := by rw [KeyedLog.mergeAll_skip hlatest]
      _ = _ := (hstep (.appendBatch _ context) hwithout).symm

/-- A stream that holds two records of one id. -/
def sharedIdWorker : Worker :=
  (Worker.fresh none).run (.unset .plain)
    [appendRequest (recordAt 1 0), appendRequest (recordAt 1 1)]

/-- The second of the two can be appended again. -/
theorem sharedIdWorker_append_latest :
    (sharedIdWorker.step (.unset .plain) (.append (recordAt 1 1) default) .success).1.entries =
      sharedIdWorker.entries :=
  ((Worker.append_again_iff ⟨none, _, rfl⟩ .success).1 (.append (recordAt 1 1) default)
    (by decide)).mpr (by decide)

/-- The first of the two cannot: the scan starts at the second and only goes forward. -/
theorem sharedIdWorker_append_earlier :
    recordAt 1 0 ∈ sharedIdWorker.entries ∧
      (sharedIdWorker.step (.unset .plain) (.append (recordAt 1 0) default) .success).1.entries ≠
        sharedIdWorker.entries := by
  decide

/-! ## Storage round trip -/

/-- A record that was encoded under a context decodes under it to itself exactly if its payload
survives encryption there and the stored record is within the decoder's limit. This leaves out
envelopes stored uncompressed whose first bytes are a zlib header: what becomes of those is up to
what zlib makes of the rest of their bytes. -/
theorem decode_encode_iff {prims : PayloadPrimitives} (hp : prims.Correct) (rand : Option Nonce)
    {record : TransactionRecord} {context : TransactionPayloadContext} {bytes : Bytes}
    (henc : encodeRecordForStorageWithContext prims rand record context = .ok bytes)
    (hlen : bytes.length < 2 ^ 64) (hlook : storesZlibLookalike record context = false) :
    decodeRecordFromStorageWithContext prims bytes context = .ok record ↔
      PayloadReadsBack record context ∧ encodedLength prims record context ≤ maxDecodeBytes := by
  obtain ⟨written, hwrite, rfl⟩ := encodeRecord_eq_ok henc
  cases hpayload : record.payload with
  | none =>
    rw [hpayload] at hwrite
    cases hwrite
    have hrecord : ({ record with payload := none } : TransactionRecord) = record := by rw [← hpayload]
    rw [hrecord] at hlen ⊢
    rw [← hrecord, decodeRecord_encode_iff (by rwa [hrecord])]
    simp [PayloadReadsBack, encodedLength, resolveWalStoragePayload]
  | some payload =>
    rw [hpayload] at hwrite
    obtain ⟨plain, stored, rfl, hplain, hversion, hstored⟩ := writeWalStoragePayload_eq_ok hwrite
    rcases hplain with ⟨hnot, rfl⟩ | ⟨hencrypts, hok⟩
    · exact decode_encode_plain_iff hp hpayload hnot hversion hstored hlook hlen
    · exact decode_encode_encrypted_iff hp hpayload hencrypts hok hversion hstored hlook hlen

def encryptionContext (keyVersion : UInt32) : TransactionPayloadContext :=
  { (default : TransactionPayloadContext) with
    encryptionKeyRef := some "key", encryptionKeyVersion := some keyVersion }

def insertRecord (payload : Bytes) : TransactionRecord :=
  ⟨⟨1⟩, none, none, 0, ⟨"user"⟩, .insert, some payload⟩

theorem decode_encode_keyVersion_one :
    ∃ bytes, encodeRecordForStorageWithContext .plain (IoOutcome.success.rand 0) (insertRecord [1])
        (encryptionContext 1) = .ok bytes ∧
      decodeRecordFromStorageWithContext .plain bytes (encryptionContext 1) = .ok (insertRecord [1]) :=
  ⟨_, rfl, (decode_encode_iff PayloadPrimitives.plain_correct (IoOutcome.success.rand 0) rfl
    (by decide) (by decide)).mpr ⟨by decide, by decide⟩⟩

/-- Key version 376 is `78 01` in little-endian bytes, a zlib header. -/
theorem decode_encode_keyVersion_zlib :
    ∃ bytes, encodeRecordForStorageWithContext .plain (IoOutcome.success.rand 0) (insertRecord [1])
        (encryptionContext 376) = .ok bytes ∧
      decodeRecordFromStorageWithContext .plain bytes (encryptionContext 376) =
        .error "failed to decompress WAL payload" :=
  ⟨_, rfl, by decide⟩

/-! ## Durability -/

/-- After any run of acknowledged operations that write durably, a stream that is discarded and
hydrated from its file has the entries it had in memory. -/
theorem Stream.run_rehydrates (env : WalEnv) (hp : env.prims.Correct)
    (ops : List (StreamOp × StreamIo)) (hack : Along (next env) (Acknowledged env) fresh ops)
    (hd : Along (next env) (fun s input => s.WritesDurably env input.1 input.2) fresh ops)
    {entries : List TransactionRecord} (hmem : (runFrom (next env) fresh ops).entries = some entries) :
    (runFrom (next env) fresh ops).rehydrated env = entries := by
  have hholds := run_holds hp hack hd
  rw [hholds.rehydrated_eq]
  rcases hholds.memory with hnone | hsome
  · rw [hnone] at hmem
    cases hmem
  · exact Option.some.inj (hsome.symm.trans hmem)

/-- Three appends of which the second comes out of order and rewrites the file, and a batch. -/
def outOfOrder : List (StreamOp × StreamIo) :=
  [(.append (recordAt 2 0) default, .success), (.append (recordAt 1 0) default, .success),
    (.append (recordAt 3 0) default, .success), (.appendBatch [recordAt 5 0, recordAt 4 0] default, .success)]

theorem Stream.run_rehydrates_append : (runFrom (next (.unset .plain)) fresh outOfOrder).rehydrated (.unset .plain) =
    [recordAt 1 0, recordAt 2 0, recordAt 3 0, recordAt 4 0, recordAt 5 0] := by
  refine run_rehydrates (.unset .plain) PayloadPrimitives.plain_correct outOfOrder ⟨rfl, rfl, rfl, rfl, trivial⟩
    ⟨?_, ?_, ?_, ?_, trivial⟩ rfl
  all_goals exact ⟨fun _ => rfl, fun _ => rfl, Or.inl rfl, by decide⟩

/-- A record whose encoding is over the reader's frame limit, which the writer does not check: the
append is acknowledged, the record is in memory, and hydration gives an empty stream. -/
theorem Stream.fresh_append_lost {env : WalEnv} {record : TransactionRecord}
    {context : TransactionPayloadContext} {encoded : Bytes}
    (henc : encodeRecordForStorageWithContext env.prims (IoOutcome.success.rand 0) record context = .ok encoded)
    (hover : env.maxFrameBytes < encoded.length) (hlen : encoded.length < 256 ^ 8) :
    Acknowledged env fresh (.append record context, .success) ∧
      (next env fresh (.append record context, .success)).entries = some [record] ∧
      (next env fresh (.append record context, .success)).rehydrated env = [] := by
  have hframe : frameRecordWithContext env.prims (IoOutcome.success.rand 0) record context =
      .ok (leBytes 8 encoded.length ++ encoded) := by rw [frameRecordWithContext, henc]
  have happend : ∀ bytes, (⟨some makeHeader, true⟩ : WalFile).appendWalBytes env .success bytes =
      (⟨some (makeHeader ++ bytes), true⟩, .ok ()) := by
    intro bytes
    simp [WalFile.appendWalBytes, WalFile.appendHandle, WalFile.writeAll, WalFile.syncData, IoOutcome.success]
  have hstep : (⟨[], some ⟨some makeHeader, true⟩, true⟩ : Worker).step env (.append record context)
      .success = (⟨[record], some ⟨some (makeHeader ++ (leBytes 8 encoded.length ++ encoded)), true⟩,
        true⟩, .ok ()) := by
    have hordered : isOrdered [] record = true := rfl
    have hlocks : (IoOutcome.success.storageLock && IoOutcome.success.entriesLock) = true := rfl
    simp only [Worker.step, Worker.withLocks, hlocks, Worker.handleAppend, hordered, hframe, happend]
    rfl
  have happly : fresh.apply env (.append record context) .success = (⟨some [record], some ⟨true, true⟩,
        some (makeHeader ++ (leBytes 8 encoded.length ++ encoded))⟩, .ok ()) := by
    have hsend : fresh.apply env (.append record context) .success =
        (ofWorker .success ⟨some [], some ⟨true, true⟩, some makeHeader⟩
          ((⟨[], some ⟨some makeHeader, true⟩, true⟩ : Worker).step env (.append record context) .success).1,
        ((⟨[], some ⟨some makeHeader, true⟩, true⟩ : Worker).step env (.append record context) .success).2) := rfl
    rw [hsend, hstep]
    rfl
  have hload : decodeRecordsSequential env.prims env.maxFrameBytes default
      (makeHeader ++ (leBytes 8 encoded.length ++ encoded)).length
      (leBytes 8 encoded.length ++ encoded) = [] := by
    have hcount := takeExact_append (leBytes 8 encoded.length) encoded
    rw [length_leBytes] at hcount
    simp only [makeHeader, List.cons_append, List.length_cons, decodeRecordsSequential, hcount,
      leNat_leBytes hlen, if_pos hover]
  refine ⟨by rw [Acknowledged, happly], by rw [next, happly], ?_⟩
  rw [next, happly, rehydrated_eq_load, loadRecordsFromPath_header, hload]

/-- A row that is an envelope already. Envelopes are not compressed, so the length of its frame does
not depend on zlib. -/
def envelopeRecord (ciphertext : Bytes) : TransactionRecord :=
  insertRecord (encodeEncryptedRowPayloadEnvelope
    ⟨1, List.replicate 12 0, List.replicate 16 0, ciphertext⟩)

theorem encode_envelopeRecord (prims : PayloadPrimitives) (rand : Option Nonce) {ciphertext : Bytes}
    (hne : ciphertext ≠ []) (hle : 56 + ciphertext.length ≤ maxDecodeBytes) :
    encodeRecordForStorageWithContext prims rand (envelopeRecord ciphertext) default =
        .ok (TransactionRecord.codec.encode (envelopeRecord ciphertext)) ∧
      (TransactionRecord.codec.encode (envelopeRecord ciphertext)).length = 99 + ciphertext.length := by
  have hlength := length_encodeEncryptedRowPayloadEnvelope ⟨1, List.replicate 12 0, List.replicate 16 0, ciphertext⟩
  simp only [List.length_replicate] at hlength
  have hvalid : looksLikeValidEncryptedPayloadEnvelope
      ⟨1, List.replicate 12 0, List.replicate 16 0, ciphertext⟩ = true := by
    simp [looksLikeValidEncryptedPayloadEnvelope, encryptedRowPayloadNonceSizeBytes,
      encryptedRowPayloadAuthTagSizeBytes, hne]
  have hdecode := decode_encodeEncryptedRowPayloadEnvelope hvalid (by omega)
  unfold envelopeRecord
  generalize encodeEncryptedRowPayloadEnvelope _ = payload at hdecode hlength
  have hencrypt : rowPayloadEncryptionWriteTransform prims rand (insertRecord payload) default payload =
      .ok none := rowPayloadEncryptionWriteTransform_of_not (Bool.and_false _)
  have hpreserve : encryptedRowPayloadWriteTransform .preserveOpaque payload = .ok none := by
    simp [preserveOpaque_write, hasUnsupportedEnvelopeVersion, hdecode]
  have hskip : walCompressionPayloadWriteTransform prims (insertRecord payload) payload = .ok none := by
    simp [walCompressionPayloadWriteTransform, shouldSkipPayloadCompression, insertRecord,
      looksLikeEncryptedRowPayload_iff.mpr ⟨_, hdecode⟩]
  have hwrite : writeWalStoragePayload prims rand (insertRecord payload) default
      (some payload) = .ok (some payload) := by
    rw [writeWalStoragePayload, chainPayload, runTransforms_of_none hencrypt,
      runTransforms_of_none hpreserve, runTransforms_of_none hskip]
    rfl
  have hpayload : (insertRecord payload).payload = some payload := rfl
  constructor
  · rw [encodeRecordForStorageWithContext, hpayload, hwrite]
    rfl
  · have hrecord : (TransactionRecord.codec.encode (insertRecord payload)).length = 43 + payload.length :=
      TransactionRecord.length_encode_payload (insertRecord []) payload
    omega

theorem Stream.append_envelope_lost (prims : PayloadPrimitives) {ciphertext : Bytes}
    (hlen : ciphertext.length = 64 * 1024 * 1024) :
    Acknowledged (.unset prims) fresh (.append (envelopeRecord ciphertext) default, .success) ∧
      (next (.unset prims) fresh (.append (envelopeRecord ciphertext) default, .success)).entries =
        some [envelopeRecord ciphertext] ∧
      (next (.unset prims) fresh (.append (envelopeRecord ciphertext) default, .success)).rehydrated
        (.unset prims) = [] := by
  have hne : ciphertext ≠ [] := by
    intro hnil
    rw [hnil] at hlen
    cases hlen
  obtain ⟨henc, hlength⟩ := encode_envelopeRecord prims (IoOutcome.success.rand 0) hne (by rw [hlen]; decide)
  rw [hlen] at hlength
  refine fresh_append_lost henc ?_ ?_
  · rw [hlength]
    exact Nat.lt_add_of_pos_left (by decide)
  · rw [hlength]
    decide

theorem Stream.oversized_append_lost :
    Acknowledged (.unset .plain) fresh
        (.append (envelopeRecord (List.replicate (64 * 1024 * 1024) 0)) default, .success) ∧
      (next (.unset .plain) fresh
        (.append (envelopeRecord (List.replicate (64 * 1024 * 1024) 0)) default, .success)).entries =
        some [envelopeRecord (List.replicate (64 * 1024 * 1024) 0)] ∧
      (next (.unset .plain) fresh
        (.append (envelopeRecord (List.replicate (64 * 1024 * 1024) 0)) default, .success)).rehydrated
        (.unset .plain) = [] :=
  append_envelope_lost .plain List.length_replicate

end DistDb.Wal
