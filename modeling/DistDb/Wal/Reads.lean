import DistDb.Wal.Batches
import DistDb.Wal.Lemmas.Durability
import DistDb.Wal.Readers

/-! # Reading a stream back

`since_with_context` resolves the payloads of the entries once more: the bytes decide what is decompressed or
decrypted, not where they came from. -/

namespace DistDb.Wal
open Lib
open AesGcmRowPayloadCryptoProvider

variable {env : WalEnv} {prims : PayloadPrimitives} {context : TransactionPayloadContext}
  {record : TransactionRecord} {payload : Bytes}

/-! ## Reading -/

def Stream.since (env : WalEnv) (io : StreamIo) (stream : Stream) (minId : Option TransactionId) :
    List TransactionRecord :=
  match (stream.hydrateStreamIfNeeded env io).entries with
  | none => []
  | some entries => if io.entriesLock then entriesSince entries minId else []

def resolveRecord (prims : PayloadPrimitives) (context : TransactionPayloadContext)
    (record : TransactionRecord) : Except String TransactionRecord :=
  match resolveWalStoragePayload prims context record.payload with
  | .error e => .error (mapPayloadTransformError e)
  | .ok payload => .ok { record with payload := payload }

def resolveRecords (prims : PayloadPrimitives) (context : TransactionPayloadContext) :
    List TransactionRecord → Except String (List TransactionRecord)
  | [] => .ok []
  | record :: records =>
    match resolveRecord prims context record with
    | .error e => .error e
    | .ok record =>
      match resolveRecords prims context records with
      | .error e => .error e
      | .ok records => .ok (record :: records)

def Stream.sinceWithContext (env : WalEnv) (io : StreamIo) (stream : Stream)
    (minId : Option TransactionId) (context : TransactionPayloadContext) :
    Except String (List TransactionRecord) :=
  if context = default then .ok (stream.since env io minId)
  else resolveRecords env.prims context (stream.since env io minId)

/-! ## One record -/

def readRecord (prims : PayloadPrimitives) (context : TransactionPayloadContext)
    (record : TransactionRecord) : Except String TransactionRecord :=
  if context = default then .ok record else resolveRecord prims context record

theorem resolveRecord_eq_ok {resolved : TransactionRecord} : resolveRecord prims context record = .ok resolved ↔
      ∃ payload, resolveWalStoragePayload prims context record.payload = .ok payload ∧
        resolved = { record with payload := payload } := by
  rw [resolveRecord]
  cases resolveWalStoragePayload prims context record.payload with
  | error e => simp
  | ok payload => simp [eq_comm]

theorem resolveWalStoragePayload_of_plain (hcontext : context ≠ default)
    (hzlib : looksLikeZlibPayload payload = false) {out : Bytes} :
    resolveWalStoragePayload prims context (some payload) = .ok (some out) ↔
      resolveUncompressed prims context payload = .ok out := by
  have hnone : walCompressionPayloadTransform prims payload = .ok none := by
    simp [walCompressionPayloadTransform, hzlib]
  rw [resolveWalStoragePayload, if_neg fun h => hcontext h.1, chainPayload_some_eq_ok, runTransforms_of_none hnone]
  simp [resolveUncompressed]

/-- The bytes of a payload that a read under a context leaves as they are: no zlib header, no envelope of a version the
reader refuses and, under a key, no envelope at all and a key that can be used. -/
def ReadsAsIs (context : TransactionPayloadContext) (payload : Bytes) : Prop :=
  looksLikeZlibPayload payload = false ∧ hasUnsupportedEnvelopeVersion payload = false ∧
    ∀ keyRef ∈ context.encryptionKeyRef, (context.encryptionKeyVersion.getD 0 ≠ 0 ∧ keyRef ≠ "") ∧
      looksLikeEncryptedRowPayload payload = false

instance (payload : Bytes) : Decidable (ReadsAsIs context payload) :=
  inferInstanceAs (Decidable (_ ∧ _ ∧ ∀ keyRef ∈ context.encryptionKeyRef, _))

/-- A payload that is compressed data for itself. -/
def InflatesToItself (prims : PayloadPrimitives) (context : TransactionPayloadContext) (payload : Bytes) : Prop :=
  looksLikeZlibPayload payload = true ∧
    ∃ inflated ∈ prims.zlibDecode payload, resolveUncompressed prims context inflated = .ok payload

theorem resolve_self_iff (hp : prims.Correct) (hcontext : context ≠ default)
    (hinflates : ¬ InflatesToItself prims context payload) :
    resolveWalStoragePayload prims context (some payload) = .ok (some payload) ↔ ReadsAsIs context payload := by
  cases hzlib : looksLikeZlibPayload payload with
  | true =>
    refine iff_of_false (fun h => hinflates ⟨hzlib, ?_⟩) fun h => absurd (hzlib.symm.trans h.1) (by simp)
    rw [resolveWalStoragePayload, if_neg fun h => hcontext h.1, chainPayload_some_eq_ok] at h
    obtain ⟨out, hrun, hout⟩ := h
    obtain rfl := Option.some.inj hout
    obtain ⟨next, hnext, hrest⟩ := runTransforms_cons_eq_ok.mp hrun
    rw [walCompressionPayloadTransform, if_pos hzlib] at hnext
    cases hdecode : prims.zlibDecode payload with
    | none => simp [hdecode] at hnext
    | some inflated =>
      obtain rfl : next = inflated := by simpa [hdecode, eq_comm] using hnext
      exact ⟨next, rfl, hrest⟩
  | false =>
    rw [resolveWalStoragePayload_of_plain hcontext hzlib, ReadsAsIs, hzlib]
    constructor
    · intro hself
      have hversion := (resolveUncompressed_eq_ok.mp hself).2
      exact ⟨rfl, hversion, (resolveUncompressed_self_iff hp hversion).mp hself⟩
    · rintro ⟨-, hversion, hkeys⟩
      exact (resolveUncompressed_self_iff hp hversion).mpr hkeys

theorem readRecord_self_iff (hp : prims.Correct)
    (hinflates : ∀ payload ∈ record.payload, ¬ InflatesToItself prims context payload) :
    readRecord prims context record = .ok record ↔
      (context = default ∨ ∀ payload ∈ record.payload, ReadsAsIs context payload) := by
  rw [readRecord]
  split_ifs with hcontext
  · simp [hcontext]
  · have hresolved : resolveRecord prims context record = .ok record ↔
        resolveWalStoragePayload prims context record.payload = .ok record.payload := by
      rw [resolveRecord_eq_ok]
      constructor
      · rintro ⟨resolved, hresolved, hrecord⟩
        rw [hresolved]
        exact congrArg Except.ok (congrArg TransactionRecord.payload hrecord).symm
      · exact fun h => ⟨record.payload, h, rfl⟩
    rw [or_iff_right hcontext, hresolved]
    cases hpayload : record.payload with
    | none => exact iff_of_true rfl (by simp)
    | some payload => simpa using resolve_self_iff hp hcontext (hinflates payload hpayload)

/-! ## One stored record -/

/-- The record is encoded so with some nonce. -/
def EncodedAs (prims : PayloadPrimitives) (context : TransactionPayloadContext)
    (record : TransactionRecord) (encoded : Bytes) : Prop :=
  ∃ rand, encodeRecordForStorageWithContext prims rand record context = .ok encoded

def frameBytes (encoded : Bytes) : Bytes := leBytes 8 encoded.length ++ encoded

def StoredReads (env : WalEnv) (context : TransactionPayloadContext) (record : TransactionRecord)
    (encoded : Bytes) : Prop :=
  encoded.length ≤ env.maxFrameBytes ∧
    ∃ hydrated, decodeRecordFromStorageWithContext env.prims encoded default = .ok hydrated ∧
      readRecord env.prims context hydrated = .ok record

theorem resolve_default_stored (hp : prims.Correct) {plain stored : Bytes}
    (hversion : hasUnsupportedEnvelopeVersion plain = false)
    (hstored : shouldSkipPayloadCompression record plain = true ∧ stored = plain ∨
      shouldSkipPayloadCompression record plain = false ∧ prims.zlibEncode plain = .ok stored)
    (hlook : (shouldSkipPayloadCompression record plain && looksLikeZlibPayload plain) = false) :
    resolveWalStoragePayload prims default (some stored) = .ok (some plain) := by
  refine (resolveWalStoragePayload_eq_ok hp hversion hstored hlook).mpr ?_
  refine (resolveUncompressed_self_iff hp hversion).mpr ?_
  intro keyRef hkey
  cases hkey

theorem decode_default_iff {stored : TransactionRecord} {resolved : Option Bytes}
    (hlen : (TransactionRecord.codec.encode stored).length < 2 ^ 64)
    (hresolved : resolveWalStoragePayload prims default stored.payload = .ok resolved)
    {hydrated : TransactionRecord} :
    decodeRecordFromStorageWithContext prims (TransactionRecord.codec.encode stored) default = .ok hydrated ↔
      (TransactionRecord.codec.encode stored).length ≤ maxDecodeBytes ∧
        hydrated = { stored with payload := resolved } := by
  rw [decodeRecordFromStorageWithContext, Codec.deserialize_encode _ hlen]
  split_ifs with hle
  · simp [hresolved, hle, eq_comm]
  · simp [hle]

/-- A record reads back from disk and from memory: its frame is within the limits of the reader and,
if it is read under a context, a read leaves the bytes of its payload as they are and they are not none at all where
they are encrypted. -/
def ReadsBothWays (env : WalEnv) (context : TransactionPayloadContext) (record : TransactionRecord) :
    Prop :=
  encodedLength env.prims record context ≤ env.maxFrameBytes ∧
    encodedLength env.prims record context ≤ maxDecodeBytes ∧
    (context = default ∨ ∀ payload ∈ record.payload, ReadsAsIs context payload ∧
      (encryptsPayload record context payload = true → payload ≠ []))

instance (record : TransactionRecord) : Decidable (ReadsBothWays env context record) :=
  inferInstanceAs (Decidable (_ ∧ _ ∧ (_ ∨ ∀ payload ∈ record.payload, _ ∧ (_ → _))))

variable {rand : Option Nonce} {encoded : Bytes}

theorem readsBothWays_of_none (hpayload : record.payload = none)
    (henc : encodeRecordForStorageWithContext env.prims rand record context = .ok encoded)
    (hlen : encoded.length < 2 ^ 64) :
    (readRecord env.prims context record = .ok record ∧ StoredReads env context record encoded) ↔
      ReadsBothWays env context record := by
  obtain ⟨written, hwrite, rfl⟩ := encodeRecord_eq_ok henc
  rw [hpayload] at hwrite
  cases hwrite
  have hrecord : ({ record with payload := none } : TransactionRecord) = record := by rw [← hpayload]
  rw [hrecord] at hlen ⊢
  have hself : readRecord env.prims context record = .ok record := by
    rw [readRecord]
    split_ifs
    · rfl
    · exact resolveRecord_eq_ok.mpr ⟨none, by rw [hpayload]; rfl, hrecord.symm⟩
  have hresolved : resolveWalStoragePayload env.prims default record.payload = .ok none := by
    rw [hpayload]
    rfl
  have hdecode : ∀ {hydrated}, _ ↔ _ := @decode_default_iff _ _ _ hlen hresolved
  have hlength : encodedLength env.prims record context = (TransactionRecord.codec.encode record).length := by
    rw [encodedLength, hpayload]
  rw [ReadsBothWays, hlength]
  constructor
  · rintro ⟨-, hframe, hydrated, hhydrated, -⟩
    exact ⟨hframe, (hdecode.mp hhydrated).1, Or.inr fun payload hmem => by rw [hpayload] at hmem; cases hmem⟩
  · rintro ⟨hframe, hlimit, -⟩
    exact ⟨hself, hframe, record, hdecode.mpr ⟨hlimit, hrecord.symm⟩, hself⟩

theorem readsBothWays_of_plain (hp : env.prims.Correct) (hpayload : record.payload = some payload)
    (hplain : encryptsPayload record context payload = false)
    (henc : encodeRecordForStorageWithContext env.prims rand record context = .ok encoded)
    (hlen : encoded.length < 2 ^ 64) (hlook : storesZlibLookalike record context = false)
    (hinflates : ∀ payload ∈ record.payload, ¬ InflatesToItself env.prims context payload) :
    (readRecord env.prims context record = .ok record ∧ StoredReads env context record encoded) ↔
      ReadsBothWays env context record := by
  obtain ⟨written, hwrite, rfl⟩ := encodeRecord_eq_ok henc
  rw [hpayload] at hwrite
  obtain ⟨plain, stored, rfl, henc', hversion, hstored⟩ := writeWalStoragePayload_eq_ok hwrite
  obtain rfl : plain = payload := by
    rcases henc' with ⟨-, heq⟩ | ⟨hencrypts, -⟩
    · exact heq
    · exact absurd (hplain.symm.trans hencrypts) Bool.false_ne_true
  simp only [storesZlibLookalike, hpayload, hplain, Bool.false_eq_true, if_false] at hlook
  have hlength := encodedLength_of_plain hpayload hplain hstored
  have hrecord : ({ record with payload := some plain } : TransactionRecord) = record := by rw [← hpayload]
  have hdecode : ∀ {hydrated}, _ ↔ _ :=
    @decode_default_iff _ { record with payload := some stored } _ hlen
      (resolve_default_stored hp hversion hstored hlook)
  have hself : (context = default ∨ ∀ payload ∈ record.payload, ReadsAsIs context payload ∧
        (encryptsPayload record context payload = true → payload ≠ [])) ↔
      readRecord env.prims context record = .ok record := by
    rw [readRecord_self_iff hp hinflates, hpayload]
    simp [hplain]
  rw [ReadsBothWays, hself, ← hlength]
  constructor
  · rintro ⟨hmemory, hframe, hydrated, hhydrated, -⟩
    exact ⟨hframe, (hdecode.mp hhydrated).1, hmemory⟩
  · rintro ⟨hframe, hlimit, hmemory⟩
    exact ⟨hmemory, hframe, record, hdecode.mpr ⟨hlimit, hrecord.symm⟩, hmemory⟩

theorem readsBothWays_of_encrypts (hp : env.prims.Correct) (hpayload : record.payload = some payload)
    (hencrypts : encryptsPayload record context payload = true)
    (henc : encodeRecordForStorageWithContext env.prims rand record context = .ok encoded)
    (hlen : encoded.length < 2 ^ 64) (hlook : storesZlibLookalike record context = false)
    (hinflates : ∀ payload ∈ record.payload, ¬ InflatesToItself env.prims context payload) :
    (readRecord env.prims context record = .ok record ∧ StoredReads env context record encoded) ↔
      ReadsBothWays env context record := by
  obtain ⟨keyRef, hkey⟩ : ∃ keyRef, context.encryptionKeyRef = some keyRef :=
    Option.isSome_iff_exists.mp (Bool.and_eq_true_iff.mp hencrypts).2
  have hcontext : context ≠ default := by
    rintro rfl
    cases hkey
  obtain ⟨written, hwrite, rfl⟩ := encodeRecord_eq_ok henc
  rw [hpayload] at hwrite
  obtain ⟨plain, stored, rfl, henc', hversion, hstored⟩ := writeWalStoragePayload_eq_ok hwrite
  have hencrypted : encryptRowPayload env.prims rand context payload = .ok plain := by
    rcases henc' with ⟨hplain, -⟩ | ⟨-, hok⟩
    · exact absurd (hplain.symm.trans hencrypts) Bool.false_ne_true
    · exact hok
  have hzlib : looksLikeZlibPayload plain = false := by
    simp only [storesZlibLookalike, hpayload, hencrypts, if_true] at hlook
    rw [looksLikeZlibPayload_of_encryptRowPayload hencrypted, hlook]
  have hdecode : ∀ {hydrated}, _ ↔ _ :=
    @decode_default_iff _ { record with payload := some stored } _ hlen
      (resolve_default_stored hp hversion hstored (by rw [hzlib, Bool.and_false]))
  have hread : readRecord env.prims context { record with payload := some plain } = .ok record ↔
      (payload ≠ [] ∧ context.encryptionKeyRef ≠ some "" ∧
        hasUnsupportedEnvelopeVersion payload = false) ∧ 56 + payload.length ≤ maxDecodeBytes := by
    rw [← resolveUncompressed_encrypted_iff hp hencrypts hencrypted,
      ← resolveWalStoragePayload_of_plain hcontext hzlib, readRecord, if_neg hcontext,
      resolveRecord_eq_ok]
    constructor
    · rintro ⟨resolved, hresolved, hrecord⟩
      rw [hresolved, ← hpayload]
      exact congrArg Except.ok (congrArg TransactionRecord.payload hrecord).symm
    · intro hresolved
      exact ⟨some payload, hresolved, by rw [← hpayload]⟩
  have hlength : payload ≠ [] → 56 + payload.length ≤ maxDecodeBytes →
      (TransactionRecord.codec.encode { record with payload := some stored }).length =
        encodedLength env.prims record context := by
    intro hne hle
    rw [TransactionRecord.length_encode_payload, length_stored_of_encrypts hp hencrypts hencrypted hstored
      hne hle, encodedLength, hpayload]
    simp [storedLength, hencrypts]
  have hmemory : readRecord env.prims context record = .ok record ↔ ReadsAsIs context payload := by
    rw [readRecord_self_iff hp hinflates, or_iff_right hcontext, hpayload]
    simp
  rw [ReadsBothWays, or_iff_right hcontext, hpayload, hmemory]
  constructor
  · rintro ⟨hkeeps, hframe, hydrated, hhydrated, hreads⟩
    obtain ⟨hlimit, rfl⟩ := hdecode.mp hhydrated
    obtain ⟨⟨hne, -⟩, hle⟩ := hread.mp hreads
    rw [hlength hne hle] at hframe hlimit
    refine ⟨hframe, hlimit, fun other hother => ?_⟩
    obtain rfl := Option.some.inj hother
    exact ⟨hkeeps, fun _ => hne⟩
  · rintro ⟨hframe, hlimit, hpayloads⟩
    obtain ⟨hkeeps, hne⟩ := hpayloads payload rfl
    have hle : 56 + payload.length ≤ maxDecodeBytes := by
      rw [encodedLength, hpayload] at hlimit
      simp only [storedLength, hencrypts, if_true] at hlimit
      omega
    rw [← hlength (hne hencrypts) hle] at hframe hlimit
    refine ⟨hkeeps, hframe, _, hdecode.mpr ⟨hlimit, rfl⟩, hread.mpr ⟨⟨hne hencrypts, ?_, hkeeps.2.1⟩, hle⟩⟩
    rw [hkey]
    exact fun heq => (hkeeps.2.2 keyRef hkey).1.2 (Option.some.inj heq)

theorem readsBothWays_iff (hp : env.prims.Correct)
    (henc : encodeRecordForStorageWithContext env.prims rand record context = .ok encoded)
    (hlen : encoded.length < 2 ^ 64) (hlook : storesZlibLookalike record context = false)
    (hinflates : ∀ payload ∈ record.payload, ¬ InflatesToItself env.prims context payload) :
    (readRecord env.prims context record = .ok record ∧ StoredReads env context record encoded) ↔
      ReadsBothWays env context record := by
  cases hpayload : record.payload with
  | none => exact readsBothWays_of_none hpayload henc hlen
  | some payload =>
    cases hencrypts : encryptsPayload record context payload with
    | false => exact readsBothWays_of_plain hp hpayload hencrypts henc hlen hlook hinflates
    | true => exact readsBothWays_of_encrypts hp hpayload hencrypts henc hlen hlook hinflates

/-! ## The entries of a stream -/

def readRecords (prims : PayloadPrimitives) (context : TransactionPayloadContext)
    (records : List TransactionRecord) : Except String (List TransactionRecord) :=
  if context = default then .ok records else resolveRecords prims context records

variable {records read : List TransactionRecord}

theorem readRecords_eq_ok : readRecords prims context records = .ok read ↔
      List.Forall₂ (fun record read => readRecord prims context record = .ok read) records read := by
  simp only [readRecords, readRecord]
  split_ifs with hcontext
  · simp [List.forall₂_eq_eq_eq]
  · induction records generalizing read with
    | nil => simp [resolveRecords, eq_comm]
    | cons record records ih =>
      rw [resolveRecords, List.forall₂_cons_left_iff]
      cases resolveRecord prims context record with
      | error e => simp
      | ok first =>
        simp only [Except.ok.injEq, ← ih]
        cases resolveRecords prims context records with
        | error e => simp
        | ok rest => simp [eq_comm]

theorem readRecords_nil : readRecords prims context [] = .ok [] := readRecords_eq_ok.mpr .nil

theorem readRecords_cons_eq_ok {readFirst : TransactionRecord} :
    readRecords prims context (record :: records) = .ok (readFirst :: read) ↔
      readRecord prims context record = .ok readFirst ∧ readRecords prims context records = .ok read := by
  rw [readRecords_eq_ok, readRecords_eq_ok, List.forall₂_cons]

theorem readRecords_self_iff : readRecords prims context records = .ok records ↔
      ∀ record ∈ records, readRecord prims context record = .ok record := by
  rw [readRecords_eq_ok, List.forall₂_same]

theorem nextRecord_frame (hlen : encoded.length < 256 ^ 8) (maxFrameSize : Nat) (rest : Bytes) :
    nextRecord prims maxFrameSize context (frameBytes encoded ++ rest) =
      if maxFrameSize < encoded.length then none
      else
        match decodeRecordFromStorageWithContext prims encoded context with
        | .error _ => none
        | .ok record => some (record, rest) := by
  have hbuf : takeExact 8 (leBytes 8 encoded.length ++ (encoded ++ rest)) =
      some (leBytes 8 encoded.length, encoded ++ rest) := by
    have := takeExact_append (leBytes 8 encoded.length) (encoded ++ rest)
    rwa [length_leBytes] at this
  rw [nextRecord, frameBytes, List.append_assoc, hbuf]
  cases hrecord : decodeRecordFromStorageWithContext prims encoded context with
  | error e => simp only [leNat_leBytes hlen, takeExact_append, hrecord]
  | ok record => simp only [leNat_leBytes hlen, takeExact_append, hrecord]

variable {stored : List Bytes}

theorem readRecords_reader_iff (h : List.Forall₂ (EncodedAs env.prims context) records stored)
    (hlen : (stored.map frameBytes).flatten.length < 256 ^ 8) :
    readRecords env.prims context (decodeRecordsSequentialFromReaderWithContext env.prims
        env.maxFrameBytes default (stored.map frameBytes).flatten) = .ok records ↔
      List.Forall₂ (StoredReads env context) records stored := by
  induction h with
  | nil =>
    have hempty : decodeRecordsSequentialFromReaderWithContext env.prims env.maxFrameBytes default
        ((([] : List Bytes).map frameBytes).flatten) = [] := rfl
    rw [hempty, readRecords_nil]
    exact iff_of_true rfl .nil
  | @cons record encoded records stored _ _ ih =>
    rw [List.map_cons, List.flatten_cons] at hlen ⊢
    have hencoded : encoded.length < 256 ^ 8 := by
      rw [List.length_append, frameBytes, List.length_append] at hlen
      omega
    have hrest : (stored.map frameBytes).flatten.length < 256 ^ 8 := by
      rw [List.length_append] at hlen
      omega
    have hstop : ¬ readRecords env.prims context [] = .ok (record :: records) := by
      simp [readRecords_nil]
    rw [reader_eq, nextRecord_frame hencoded, List.forall₂_cons, ← ih hrest]
    by_cases hlimit : env.maxFrameBytes < encoded.length
    · rw [if_pos hlimit]
      exact iff_of_false hstop fun hreads => absurd hreads.1.1 (Nat.not_le.mpr hlimit)
    · rw [if_neg hlimit]
      cases hdecode : decodeRecordFromStorageWithContext env.prims encoded default with
      | error e =>
        refine iff_of_false hstop fun hreads => ?_
        obtain ⟨hydrated, hhydrated, -⟩ := hreads.1.2
        exact absurd (hdecode.symm.trans hhydrated) (by simp)
      | ok hydrated =>
        have hreads : StoredReads env context record encoded ↔ readRecord env.prims context hydrated = .ok record := by
          rw [StoredReads, hdecode]
          simp [Nat.not_lt.mp hlimit]
        rw [hreads]
        exact readRecords_cons_eq_ok

/-! ## From any position -/

theorem id_of_readRecord {read : TransactionRecord} (h : readRecord prims context record = .ok read) :
    read.id = record.id := by
  rw [readRecord] at h
  split_ifs at h
  · rw [← Except.ok.inj h]
  · obtain ⟨payload, -, rfl⟩ := resolveRecord_eq_ok.mp h
    rfl

theorem readRecords_entriesSince (h : readRecords prims context records = .ok read)
    (hsorted : SortedBy TransactionRecord.key read) (minId : Option TransactionId) :
    readRecords prims context (entriesSince records minId) = .ok (entriesSince read minId) := by
  rw [readRecords_eq_ok] at h ⊢
  have hkeys : records.map TransactionRecord.key = read.map TransactionRecord.key := by
    rw [← List.forall₂_eq_eq_eq, List.forall₂_map_left_iff, List.forall₂_map_right_iff]
    exact h.imp fun record read hread => congrArg (·.val.toNat) (id_of_readRecord hread).symm
  have hsorted' : SortedBy TransactionRecord.key records := by
    rw [SortedBy, ← List.pairwise_map, hkeys, List.pairwise_map]
    exact hsorted
  rw [entriesSince_of_sorted hsorted, entriesSince_of_sorted hsorted']
  exact List.rel_filter (fun record read hread => by simp only [id_of_readRecord hread]) h

/-! ## What appends leave -/

/-- The file has the entries, each as it is encoded under the context. -/
def Worker.Stores (env : WalEnv) (context : TransactionPayloadContext) (worker : Worker) : Prop :=
  ∃ file stored, worker.walFile = some file ∧
    file.contents = some (makeHeader ++ (stored.map frameBytes).flatten) ∧
    List.Forall₂ (EncodedAs env.prims context) worker.entries stored

theorem frameRecord_eq_ok {frame : Bytes} (h : frameRecordWithContext prims rand record context = .ok frame) :
    ∃ encoded, EncodedAs prims context record encoded ∧ frame = frameBytes encoded := by
  rw [frameRecordWithContext] at h
  cases henc : encodeRecordForStorageWithContext prims rand record context with
  | error e => simp [henc] at h
  | ok encoded => exact ⟨encoded, ⟨rand, henc⟩, by simpa [henc, frameBytes] using h.symm⟩

theorem frameRecords_eq_ok :
    ∀ {rand : Nat → Option Nonce} {frames : Bytes}, frameRecords prims context rand records = .ok frames →
      ∃ stored, frames = (stored.map frameBytes).flatten ∧ List.Forall₂ (EncodedAs prims context) records stored := by
  induction records with
  | nil =>
    intro rand frames h
    exact ⟨[], (Except.ok.inj h).symm, .nil⟩
  | cons record records ih =>
    intro rand frames h
    rw [frameRecords] at h
    cases hframe : frameRecordWithContext prims (rand 0) record context with
    | error e => simp [hframe] at h
    | ok frame =>
      cases hrest : frameRecords prims context (fun i => rand (i + 1)) records with
      | error e => simp [hframe, hrest] at h
      | ok rest =>
        obtain ⟨encoded, hencoded, rfl⟩ := frameRecord_eq_ok hframe
        obtain ⟨stored, rfl, hstored⟩ := ih hrest
        refine ⟨encoded :: stored, ?_, .cons hencoded hstored⟩
        simpa [hframe, hrest] using h.symm

/-- Contexts that encrypt alike: the same one, or two without a key. -/
def EncryptsAs (context context' : TransactionPayloadContext) : Prop :=
  context = context' ∨ context.encryptionKeyRef = none ∧ context'.encryptionKeyRef = none

theorem EncryptsAs.frameRecords {context' : TransactionPayloadContext} (h : EncryptsAs context context')
    (rand : Nat → Option Nonce) (records : List TransactionRecord) :
    frameRecords prims context rand records = frameRecords prims context' rand records := by
  rcases h with rfl | ⟨hnone, hnone'⟩
  · rfl
  · have htransform : ∀ rand record, rowPayloadEncryptionWriteTransform prims rand record context =
        rowPayloadEncryptionWriteTransform prims rand record context' := by
      intro rand record
      funext payload
      simp [rowPayloadEncryptionWriteTransform, hnone, hnone']
    have hframe : ∀ rand record, frameRecordWithContext prims rand record context =
        frameRecordWithContext prims rand record context' := by
      intro rand record
      rw [frameRecordWithContext, frameRecordWithContext, encodeRecordForStorageWithContext,
        encodeRecordForStorageWithContext, writeWalStoragePayload, writeWalStoragePayload, htransform]
    induction records generalizing rand with
    | nil => rfl
    | cons record records ih => rw [Wal.frameRecords, Wal.frameRecords, hframe, ih]

namespace Worker

variable {worker worker' : Worker} {io : IoOutcome}

theorem Stores.wrote {context' : TransactionPayloadContext} {written : List TransactionRecord}
    (hw : worker.Stores env context) (huntorn : io.write = .stored ∨ io.write = .failed 0)
    (halike : EncryptsAs context' context) (h : worker.Wrote env io context' written worker') :
    worker'.Stores env context := by
  cases h with
  | nothing => exact hw
  | appended _ hfile hframes happend =>
    obtain ⟨file, stored, hfile', hcontents, hstored⟩ := hw
    obtain rfl := Option.some.inj (hfile.symm.trans hfile')
    rw [halike.frameRecords] at hframes
    obtain ⟨added, rfl, hadded⟩ := frameRecords_eq_ok hframes
    refine ⟨_, stored ++ added, rfl, ?_, List.rel_append hstored hadded⟩
    rw [WalFile.appendWalBytes_ok hcontents huntorn happend, List.map_append, List.flatten_append, List.append_assoc]
  | rewritten _ hrewrite hcontents =>
    obtain ⟨frames, hframes, hrewritten⟩ := WalFile.rewriteWalFile_ok hrewrite
    rw [halike.frameRecords] at hframes
    obtain ⟨stored, rfl, hstored⟩ := frameRecords_eq_ok hframes
    exact ⟨_, stored, rfl, hcontents _ hrewritten, hstored⟩

theorem Stores.isSome_walFile (hw : worker.Stores env context) : worker.walFile.isSome = true := by
  obtain ⟨file, -, hfile, -⟩ := hw
  rw [hfile]
  rfl

def next (env : WalEnv) (worker : Worker) (request : AppendRequest × IoOutcome) : Worker :=
  (worker.step env request.1.command request.2).1

/-- The request is acknowledged and its write was not torn, and it encrypts as the stream does. -/
def Appends (env : WalEnv) (context : TransactionPayloadContext) (worker : Worker)
    (request : AppendRequest × IoOutcome) : Prop :=
  (worker.step env request.1.command request.2).2 = .ok () ∧
    (request.2.write = .stored ∨ request.2.write = .failed 0) ∧ EncryptsAs request.1.context context

theorem Stores.next {request : AppendRequest × IoOutcome} (hw : worker.Stores env context)
    (h : worker.Appends env context request) : (worker.next env request).Stores env context := by
  obtain ⟨request, io⟩ := request
  obtain ⟨hack, huntorn, halike⟩ := h
  have hstep : worker.step env request.command io = (worker.next env (request, io), .ok ()) := Prod.ext rfl hack
  cases request with
  | append record context' =>
    exact hw.wrote huntorn halike (handleAppend_wrote hw.isSome_walFile (Stream.step_append_ok hstep)).1
  | appendBatch records context' =>
    by_cases hnil : records = []
    · have hkept : worker.next env (.appendBatch records context', io) = worker := by
        rw [Worker.next, AppendRequest.command, hnil, step]
        cases worker.running with
        | false => rfl
        | true => rfl
      rw [hkept]
      exact hw
    · exact hw.wrote huntorn halike
        (handleAppendBatch_wrote hw.isSome_walFile (Stream.step_appendBatch_ok hnil hstep)).1

theorem run_eq_runFrom (requests : List (AppendRequest × IoOutcome)) :
    worker.run env requests = runFrom (Worker.next env) worker requests := by
  induction requests generalizing worker with
  | nil => rfl
  | cons request requests ih => exact ih

theorem acknowledged_eq_requested {requests : List (AppendRequest × IoOutcome)}
    (h : Along (Worker.next env) (Appends env context) worker requests) :
    worker.acknowledged env requests = requested requests := by
  induction requests generalizing worker with
  | nil => rfl
  | cons request requests ih =>
    have hack : (worker.step env request.1.command request.2).2 = .ok () := h.1.1
    have hrest : (worker.step env request.1.command request.2).1.acknowledged env requests = requested requests :=
      ih h.2
    simp only [acknowledged, hack, hrest]
    rfl

def contents (worker : Worker) : Option Bytes := worker.walFile.bind (·.contents)

def loaded (worker : Worker) : Stream := ⟨some worker.entries, none, worker.contents⟩

def unloaded (worker : Worker) : Stream := ⟨none, none, worker.contents⟩

end Worker

theorem forall₂_and_iff {E S : TransactionRecord → Bytes → Prop} {A C : TransactionRecord → Prop}
    (h : List.Forall₂ E records stored)
    (hiff : ∀ record ∈ records, ∀ encoded ∈ stored, E record encoded → (A record ∧ S record encoded ↔ C record)) :
    ((∀ record ∈ records, A record) ∧ List.Forall₂ S records stored) ↔ ∀ record ∈ records, C record := by
  induction h with
  | nil => simp
  | @cons record encoded records stored hfirst _ ih =>
    have hrest := ih fun r hr e he => hiff r (List.mem_cons_of_mem _ hr) e (List.mem_cons_of_mem _ he)
    have hhead := hiff record (List.mem_cons_self ..) encoded (List.mem_cons_self ..) hfirst
    rw [List.forall_mem_cons, List.forall_mem_cons, List.forall₂_cons, ← hrest, ← hhead]
    tauto

theorem length_le_of_mem_flatten (h : encoded ∈ stored) : encoded.length ≤ (stored.map frameBytes).flatten.length := by
  have hframe : (frameBytes encoded).length ≤ (stored.map frameBytes).flatten.length :=
    (List.sublist_flatten_of_mem (List.mem_map_of_mem h)).length_le
  rw [frameBytes, List.length_append] at hframe
  omega

def tableContext : TransactionPayloadContext := { (default : TransactionPayloadContext) with
  tableId := some "t" }

def rowRecord (id : UInt64) (payload : Bytes) : TransactionRecord :=
  ⟨⟨id⟩, none, none, 0, ⟨"user"⟩, .insert, some payload⟩

/-- A batch of two rows under a table's context, and an earlier row without one: the file is written anew. -/
def threeRows : List (AppendRequest × IoOutcome) :=
  [(.appendBatch [rowRecord 2 [2], rowRecord 3 [3]] tableContext, .success),
    (.append (rowRecord 1 [1]) default, .success)]

end DistDb.Wal
