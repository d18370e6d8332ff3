import DistDb.Wal.Storage

/-! # What a stored payload reads back as

The read chain undoes the compression first, so all that matters afterwards is what the decryption makes of the bytes
before compression. -/

namespace DistDb.Wal
open Lib
open AesGcmRowPayloadCryptoProvider

variable {prims : PayloadPrimitives} {rand : Option Nonce} {record : TransactionRecord}
  {context : TransactionPayloadContext} {payload stored : Bytes}

def encryptsPayload (record : TransactionRecord) (context : TransactionPayloadContext)
    (payload : Bytes) : Bool :=
  (record.kind == .insert || record.kind == .update) && !looksLikeEncryptedRowPayload payload &&
    context.encryptionKeyRef.isSome

def resolveUncompressed (prims : PayloadPrimitives) (context : TransactionPayloadContext)
    (payload : Bytes) : Except PayloadTransformError Bytes :=
  runTransforms [rowPayloadDecryptionTransform prims context,
    encryptedRowPayloadReadTransform .preserveOpaque] payload

/-! ## Writing -/

theorem preserveOpaque_write : encryptedRowPayloadWriteTransform .preserveOpaque payload =
      if hasUnsupportedEnvelopeVersion payload then .error .unsupportedFormat else .ok none := by
  unfold encryptedRowPayloadWriteTransform encryptedRowPayloadTransform hasUnsupportedEnvelopeVersion
  split <;> simp_all

theorem preserveOpaque_read : encryptedRowPayloadReadTransform .preserveOpaque payload =
      if hasUnsupportedEnvelopeVersion payload then .error .unsupportedFormat else .ok none := by
  unfold encryptedRowPayloadReadTransform encryptedRowPayloadTransform hasUnsupportedEnvelopeVersion
  split <;> simp_all

theorem encryptRowPayload_eq_ok (h : encryptRowPayload prims rand context payload = .ok stored) :
    ∃ keyBytes keyVersion nonce ciphertext authTag, resolveKeyBytes prims context = .ok (keyBytes, keyVersion) ∧
      nonce.length = encryptedRowPayloadNonceSizeBytes ∧
      prims.aesGcmEncrypt keyBytes nonce (associatedData context) payload = some (ciphertext, authTag) ∧
      stored = encodeEncryptedRowPayloadEnvelope ⟨keyVersion, nonce, authTag, ciphertext⟩ := by
  unfold encryptRowPayload at h
  split at h
  · cases h
  · rename_i keyBytes keyVersion hkey
    split at h
    · cases h
    · rename_i nonce
      split at h
      · cases h
      · rename_i ciphertext authTag haes
        cases h
        exact ⟨keyBytes, keyVersion, nonce.val, ciphertext, authTag, hkey, nonce.property, haes, rfl⟩

theorem resolveKeyBytes_eq_ok {keyBytes : Bytes} {keyVersion : UInt32}
    (h : resolveKeyBytes prims context = .ok (keyBytes, keyVersion)) :
    keyVersion = context.encryptionKeyVersion.getD 0 ∧ keyVersion ≠ 0 := by
  unfold resolveKeyBytes at h
  split at h
  · cases h
  · dsimp only at h
    split_ifs at h with hv
    cases h
    exact ⟨rfl, hv⟩

theorem rowPayloadEncryptionWriteTransform_of_not (h : encryptsPayload record context payload = false) :
    rowPayloadEncryptionWriteTransform prims rand record context payload = .ok none := by
  unfold rowPayloadEncryptionWriteTransform
  split_ifs with hkind hlooks hkey
  · rfl
  · rfl
  · rfl
  all_goals
    simp [encryptsPayload, hlooks] at h
    have hk : record.kind = .insert ∨ record.kind = .update := by
      by_contra hno
      exact hkind (not_or.mp hno)
    simp_all

theorem rowPayloadEncryptionWriteTransform_of_encrypts
    (h : encryptsPayload record context payload = true) {result : Option Bytes}
    (hok : rowPayloadEncryptionWriteTransform prims rand record context payload = .ok result) :
    ∃ envelope, result = some envelope ∧ encryptRowPayload prims rand context payload = .ok envelope := by
  simp only [encryptsPayload, Bool.and_eq_true, Bool.or_eq_true, beq_iff_eq, Bool.not_eq_true'] at h
  obtain ⟨⟨hkind, hlooks⟩, hkey⟩ := h
  unfold rowPayloadEncryptionWriteTransform at hok
  have hkind' : ¬ (record.kind ≠ .insert ∧ record.kind ≠ .update) := by tauto
  rw [if_neg hkind', if_neg (by simp [hlooks]), if_neg (by simpa [Option.isSome_iff_ne_none] using hkey)] at hok
  split_ifs at hok
  cases henc : encryptRowPayload prims rand context payload with
  | error e => simp [henc, Except.map] at hok
  | ok envelope =>
    refine ⟨envelope, ?_, rfl⟩
    simpa [henc, Except.map] using hok.symm

theorem writeWalStoragePayload_eq_ok {written : Option Bytes}
    (h : writeWalStoragePayload prims rand record context (some payload) = .ok written) :
    ∃ plain stored, written = some stored ∧ (encryptsPayload record context payload = false ∧ plain = payload ∨
        encryptsPayload record context payload = true ∧ encryptRowPayload prims rand context payload = .ok plain) ∧
      hasUnsupportedEnvelopeVersion plain = false ∧
      (shouldSkipPayloadCompression record plain = true ∧ stored = plain ∨
        shouldSkipPayloadCompression record plain = false ∧ prims.zlibEncode plain = .ok stored) := by
  obtain ⟨stored, hrun, rfl⟩ := chainPayload_some_eq_ok.mp h
  obtain ⟨plain, hencrypt, hrun⟩ := runTransforms_cons_eq_ok.mp hrun
  obtain ⟨kept, hpreserve, hrun⟩ := runTransforms_cons_eq_ok.mp hrun
  obtain ⟨out, hcompress, hrun⟩ := runTransforms_cons_eq_ok.mp hrun
  cases hrun
  rw [preserveOpaque_write] at hpreserve
  obtain ⟨hversion, rfl⟩ : hasUnsupportedEnvelopeVersion plain = false ∧ kept = plain := by
    split_ifs at hpreserve with hv <;> simp_all
  refine ⟨kept, stored, rfl, ?_, hversion, ?_⟩
  · cases henc : encryptsPayload record context payload with
    | false =>
      rw [rowPayloadEncryptionWriteTransform_of_not henc] at hencrypt
      simpa using hencrypt
    | true =>
      rcases hencrypt with ⟨hnone, -⟩ | hsome
      · obtain ⟨_, hne, -⟩ := rowPayloadEncryptionWriteTransform_of_encrypts henc hnone
        cases hne
      · obtain ⟨envelope, heq, hok⟩ := rowPayloadEncryptionWriteTransform_of_encrypts henc hsome
        cases heq
        exact Or.inr ⟨rfl, hok⟩
  · unfold walCompressionPayloadWriteTransform at hcompress
    split_ifs at hcompress with hskip
    · exact Or.inl ⟨hskip, by simpa using hcompress⟩
    · refine Or.inr ⟨by simpa using hskip, ?_⟩
      split at hcompress <;> simp_all

/-! ## Reading -/

theorem resolveUncompressed_eq_ok {out : Bytes} : resolveUncompressed prims context payload = .ok out ↔
      (rowPayloadDecryptionTransform prims context payload = .ok none ∧ out = payload ∨
        rowPayloadDecryptionTransform prims context payload = .ok (some out)) ∧
      hasUnsupportedEnvelopeVersion out = false := by
  have hpreserve : ∀ next, runTransforms [encryptedRowPayloadReadTransform .preserveOpaque] next =
      .ok out ↔ next = out ∧ hasUnsupportedEnvelopeVersion next = false := by
    intro next
    rw [runTransforms_cons_eq_ok]
    simp only [preserveOpaque_read, runTransforms_nil]
    split_ifs with hv <;> simp_all
  rw [resolveUncompressed, runTransforms_cons_eq_ok]
  simp only [hpreserve]
  constructor
  · rintro ⟨next, hnext, rfl, hv⟩
    exact ⟨hnext, hv⟩
  · rintro ⟨hnext, hv⟩
    exact ⟨out, hnext, rfl, hv⟩

theorem resolveWalStoragePayload_eq_ok (hp : prims.Correct) {plain out : Bytes}
    (hversion : hasUnsupportedEnvelopeVersion plain = false)
    (hstored : shouldSkipPayloadCompression record plain = true ∧ stored = plain ∨
      shouldSkipPayloadCompression record plain = false ∧ prims.zlibEncode plain = .ok stored)
    (hlook : (shouldSkipPayloadCompression record plain && looksLikeZlibPayload plain) = false) :
    resolveWalStoragePayload prims context (some stored) = .ok (some out) ↔
      resolveUncompressed prims context plain = .ok out := by
  rcases hstored with ⟨hskip, rfl⟩ | ⟨-, hzlib⟩
  · have hplain : looksLikeZlibPayload stored = false := by simpa [hskip] using hlook
    have hnone : walCompressionPayloadTransform prims stored = .ok none := by
      simp [walCompressionPayloadTransform, hplain]
    rw [resolveWalStoragePayload]
    split_ifs with hhot
    · -- The hot path agrees with the chain it skips: no key, and no version to refuse.
      rw [hhot.1, resolveUncompressed_eq_ok]
      have hkey : rowPayloadDecryptionTransform prims default stored = .ok none := rfl
      simp only [hkey, Except.ok.injEq, Option.some.injEq, reduceCtorEq, or_false, true_and]
      exact ⟨fun h => h ▸ ⟨rfl, hversion⟩, fun h => h.1.symm⟩
    · rw [chainPayload_some_eq_ok, runTransforms_of_none hnone]
      simp [resolveUncompressed]
  · have hsome : walCompressionPayloadTransform prims stored = .ok (some plain) := by
      simp [walCompressionPayloadTransform, hp.zlib_header hzlib, hp.zlib_decode hzlib]
    rw [resolveWalStoragePayload, if_neg fun h => by simp [hp.zlib_header hzlib] at h,
      chainPayload_some_eq_ok, runTransforms_of_some hsome]
    simp [resolveUncompressed]

theorem length_of_decryptRowPayload (hp : prims.Correct) {envelope : EncryptedRowPayloadEnvelope}
    {plaintext : Bytes} (h : decryptRowPayload prims context envelope = .ok plaintext) :
    plaintext.length = envelope.ciphertext.length := by
  unfold decryptRowPayload at h
  split at h
  · cases h
  · split_ifs at h
    split at h
    · cases h
    · rename_i haes
      cases h
      exact hp.aes_decrypt_length haes

theorem rowPayloadDecryptionTransform_of_key {keyRef : String} (hkey : context.encryptionKeyRef = some keyRef)
    (husable : context.encryptionKeyVersion.getD 0 ≠ 0 ∧ keyRef ≠ "") :
    rowPayloadDecryptionTransform prims context payload =
      match decodeEncryptedRowPayloadEnvelope payload with
      | .ok (some envelope) => (decryptRowPayload prims context envelope).map some
      | .ok none => .ok none
      | .error (.unsupportedVersion _) => .error .unsupportedFormat := by
  unfold rowPayloadDecryptionTransform
  rw [hkey]
  dsimp only
  exact if_neg (by tauto)

theorem rowPayloadDecryptionTransform_of_refused {keyRef : String} (hkey : context.encryptionKeyRef = some keyRef)
    (hrefused : ¬ (context.encryptionKeyVersion.getD 0 ≠ 0 ∧ keyRef ≠ "")) :
    rowPayloadDecryptionTransform prims context payload = .error .encryptionNotConfigured := by
  unfold rowPayloadDecryptionTransform
  rw [hkey]
  dsimp only
  rw [if_pos (by tauto)]

theorem map_some_eq_ok {x : Except PayloadTransformError Bytes} {result : Option Bytes} :
    x.map some = .ok result ↔ ∃ out, x = .ok out ∧ result = some out := by
  cases x with
  | error e => simp [Except.map]
  | ok out => simp [Except.map, eq_comm]

theorem resolveUncompressed_self_iff (hp : prims.Correct) (hversion : hasUnsupportedEnvelopeVersion payload = false) :
    resolveUncompressed prims context payload = .ok payload ↔ ∀ keyRef ∈ context.encryptionKeyRef,
        (context.encryptionKeyVersion.getD 0 ≠ 0 ∧ keyRef ≠ "") ∧ looksLikeEncryptedRowPayload payload = false := by
  rw [resolveUncompressed_eq_ok]
  simp only [hversion, and_true]
  cases hkey : context.encryptionKeyRef with
  | none => simp [rowPayloadDecryptionTransform, hkey]
  | some keyRef =>
    simp only [Option.mem_def, Option.some.injEq, forall_eq']
    by_cases husable : context.encryptionKeyVersion.getD 0 ≠ 0 ∧ keyRef ≠ ""
    · rw [rowPayloadDecryptionTransform_of_key hkey husable]
      cases hd : decodeEncryptedRowPayloadEnvelope payload with
      | error e => simp [hasUnsupportedEnvelopeVersion, hd] at hversion
      | ok found =>
        cases found with
        | none => simp [husable, looksLikeEncryptedRowPayload, hd]
        | some envelope =>
          -- Decrypting gives fewer bytes than the envelope has.
          have hshort : ¬ decryptRowPayload prims context envelope = .ok payload := fun h =>
            absurd (length_of_decryptRowPayload hp h) (length_ciphertext_lt hd).ne'
          simp [looksLikeEncryptedRowPayload, hd, map_some_eq_ok, hshort]
    · rw [rowPayloadDecryptionTransform_of_refused hkey husable]
      simp [husable]

/-! ## Encrypted payloads -/

variable {plain : Bytes}

theorem length_of_encryptRowPayload (hp : prims.Correct)
    (henc : encryptRowPayload prims rand context payload = .ok plain) :
    plain.length = 56 + payload.length := by
  obtain ⟨keyBytes, keyVersion, nonce, ciphertext, authTag, -, hnonce, haes, rfl⟩ :=
    encryptRowPayload_eq_ok henc
  rw [length_encodeEncryptedRowPayloadEnvelope, hnonce, hp.aes_tag haes, hp.aes_encrypt_length haes]
  rfl

theorem looksLikeZlibPayload_of_encryptRowPayload (henc : encryptRowPayload prims rand context payload = .ok plain) :
    looksLikeZlibPayload plain = looksLikeZlibPayload (leBytes 4 (context.encryptionKeyVersion.getD 0).toNat) := by
  obtain ⟨keyBytes, keyVersion, nonce, ciphertext, authTag, hkeys, -, -, rfl⟩ :=
    encryptRowPayload_eq_ok henc
  rw [← (resolveKeyBytes_eq_ok hkeys).1]
  simp [encodeEncryptedRowPayloadEnvelope, EncryptedRowPayloadEnvelope.codec, Codec.refine, Codec.pair,
    Codec.u32, Codec.nat, leBytes, looksLikeZlibPayload]

theorem decode_of_encryptRowPayload (hp : prims.Correct)
    (henc : encryptRowPayload prims rand context payload = .ok plain) (hne : payload ≠ [])
    (hle : 56 + payload.length ≤ maxDecodeBytes) :
    ∃ envelope, decodeEncryptedRowPayloadEnvelope plain = .ok (some envelope) ∧
      decryptRowPayload prims context envelope = .ok payload := by
  have hlength := length_of_encryptRowPayload hp henc
  obtain ⟨keyBytes, keyVersion, nonce, ciphertext, authTag, hkeys, hnonce, haes, rfl⟩ :=
    encryptRowPayload_eq_ok henc
  have hvalid : looksLikeValidEncryptedPayloadEnvelope ⟨keyVersion, nonce, authTag, ciphertext⟩ = true := by
    have hpos : 0 < keyVersion := UInt32.pos_iff_ne_zero.mpr (resolveKeyBytes_eq_ok hkeys).2
    have hcipher : ciphertext ≠ [] := fun h =>
      hne (List.length_eq_zero_iff.mp (by simp [← hp.aes_encrypt_length haes, h]))
    simp [looksLikeValidEncryptedPayloadEnvelope, hpos, hnonce, hp.aes_tag haes, hcipher]
  refine ⟨_, decode_encodeEncryptedRowPayloadEnvelope hvalid (by omega), ?_⟩
  simp [decryptRowPayload, hkeys, hp.aes_decrypt haes]

theorem resolveUncompressed_encrypted_iff (hp : prims.Correct)
    (hencrypts : encryptsPayload record context payload = true)
    (henc : encryptRowPayload prims rand context payload = .ok plain) :
    resolveUncompressed prims context plain = .ok payload ↔ (payload ≠ [] ∧ context.encryptionKeyRef ≠ some "" ∧
        hasUnsupportedEnvelopeVersion payload = false) ∧ 56 + payload.length ≤ maxDecodeBytes := by
  have hlength := length_of_encryptRowPayload hp henc
  obtain ⟨keyBytes, keyVersion, -, -, -, hkeys, -⟩ := encryptRowPayload_eq_ok henc
  obtain ⟨hver, hver0⟩ := resolveKeyBytes_eq_ok hkeys
  obtain ⟨keyRef, hkey⟩ : ∃ keyRef, context.encryptionKeyRef = some keyRef := by
    simp only [encryptsPayload, Bool.and_eq_true] at hencrypts
    exact Option.isSome_iff_exists.mp hencrypts.2
  rw [resolveUncompressed_eq_ok, hkey]
  by_cases hempty : keyRef = ""
  · rw [rowPayloadDecryptionTransform_of_refused hkey (fun h => h.2 hempty)]
    simp [hempty]
  · rw [rowPayloadDecryptionTransform_of_key hkey ⟨hver ▸ hver0, hempty⟩]
    constructor
    · rintro ⟨⟨-, hself⟩ | hout, hpayload⟩
      · have := congrArg List.length hself
        omega
      · cases hd : decodeEncryptedRowPayloadEnvelope plain with
        | error e => simp [hd] at hout
        | ok found =>
          cases found with
          | none => simp [hd] at hout
          | some envelope =>
            simp only [hd, map_some_eq_ok, Option.some.injEq] at hout
            obtain ⟨_, hdec, rfl⟩ := hout
            have hdeclen := length_of_decryptRowPayload hp hdec
            obtain ⟨hne, hle⟩ := length_ciphertext_le hd
            refine ⟨⟨fun hnil => hne ?_, by simpa using hempty, hpayload⟩, by omega⟩
            rw [hnil, List.length_nil] at hdeclen
            exact List.length_eq_zero_iff.mp hdeclen.symm
    · rintro ⟨⟨hne, -, hpayload⟩, hle⟩
      obtain ⟨envelope, hd, hdec⟩ := decode_of_encryptRowPayload hp henc hne hle
      rw [hd]
      exact ⟨Or.inr (map_some_eq_ok.mpr ⟨payload, hdec, rfl⟩), hpayload⟩

/-! ## Records -/

def storedLength (prims : PayloadPrimitives) (record : TransactionRecord)
    (context : TransactionPayloadContext) (payload : Bytes) : Nat :=
  if encryptsPayload record context payload then 56 + payload.length
  else if shouldSkipPayloadCompression record payload then payload.length
  else
    match prims.zlibEncode payload with
    | .ok compressed => compressed.length
    | .error _ => 0

def encodedLength (prims : PayloadPrimitives) (record : TransactionRecord)
    (context : TransactionPayloadContext) : Nat :=
  match record.payload with
  | none => (TransactionRecord.codec.encode record).length
  | some payload =>
    (TransactionRecord.codec.encode { record with payload := none }).length + 8 +
      storedLength prims record context payload

/-- The payload is stored uncompressed, as an envelope whose first bytes are a zlib header: those of
its key version, or of an envelope the caller passed in. -/
def storesZlibLookalike (record : TransactionRecord) (context : TransactionPayloadContext) : Bool :=
  match record.payload with
  | none => false
  | some payload =>
    if encryptsPayload record context payload then
      looksLikeZlibPayload (leBytes 4 (context.encryptionKeyVersion.getD 0).toNat)
    else shouldSkipPayloadCompression record payload && looksLikeZlibPayload payload

/-- The payload survives the encryption of its context, or is not taken for an encrypted one. -/
def PayloadReadsBack (record : TransactionRecord) (context : TransactionPayloadContext) : Prop :=
  ∀ payload ∈ record.payload,
    if encryptsPayload record context payload then
      payload ≠ [] ∧ context.encryptionKeyRef ≠ some "" ∧ hasUnsupportedEnvelopeVersion payload = false
    else
      ∀ keyRef ∈ context.encryptionKeyRef,
        (context.encryptionKeyVersion.getD 0 ≠ 0 ∧ keyRef ≠ "") ∧
          looksLikeEncryptedRowPayload payload = false

instance (record : TransactionRecord) (context : TransactionPayloadContext) :
    Decidable (PayloadReadsBack record context) :=
  inferInstanceAs (Decidable (∀ _ ∈ _, _))

theorem decodeRecord_encode_iff {stored : TransactionRecord} {payload : Option Bytes}
    (hlen : (TransactionRecord.codec.encode stored).length < 2 ^ 64) :
    decodeRecordFromStorageWithContext prims (TransactionRecord.codec.encode stored) context =
        .ok { stored with payload := payload } ↔
      (TransactionRecord.codec.encode stored).length ≤ maxDecodeBytes ∧
        resolveWalStoragePayload prims context stored.payload = .ok payload := by
  rw [decodeRecordFromStorageWithContext, Codec.deserialize_encode _ hlen]
  split_ifs with hle
  · cases hres : resolveWalStoragePayload prims context stored.payload with
    | error e => simp [hres]
    | ok resolved => simp [hres, hle]
  · simp [hle]

theorem encodeRecord_eq_ok {bytes : Bytes}
    (h : encodeRecordForStorageWithContext prims rand record context = .ok bytes) :
    ∃ written, writeWalStoragePayload prims rand record context record.payload = .ok written ∧
      bytes = TransactionRecord.codec.encode { record with payload := written } := by
  unfold encodeRecordForStorageWithContext at h
  split at h
  · cases h
  · cases h
    exact ⟨_, ‹_›, rfl⟩

theorem encodedLength_of_plain (hpayload : record.payload = some payload)
    (hplain : encryptsPayload record context payload = false)
    (hstored : shouldSkipPayloadCompression record payload = true ∧ stored = payload ∨
      shouldSkipPayloadCompression record payload = false ∧ prims.zlibEncode payload = .ok stored) :
    (TransactionRecord.codec.encode { record with payload := some stored }).length =
      encodedLength prims record context := by
  rw [TransactionRecord.length_encode_payload]
  rcases hstored with ⟨hskip, rfl⟩ | ⟨hskip, hzlib⟩
  · simp [encodedLength, hpayload, storedLength, hplain, hskip]
  · simp [encodedLength, hpayload, storedLength, hplain, hskip, hzlib]

theorem decode_encode_plain_iff (hp : prims.Correct) (hpayload : record.payload = some payload)
    (hplain : encryptsPayload record context payload = false)
    (hversion : hasUnsupportedEnvelopeVersion payload = false)
    (hstored : shouldSkipPayloadCompression record payload = true ∧ stored = payload ∨
      shouldSkipPayloadCompression record payload = false ∧ prims.zlibEncode payload = .ok stored)
    (hlook : storesZlibLookalike record context = false)
    (hlen : (TransactionRecord.codec.encode { record with payload := some stored }).length < 2 ^ 64) :
    decodeRecordFromStorageWithContext prims
        (TransactionRecord.codec.encode { record with payload := some stored }) context = .ok record ↔
      PayloadReadsBack record context ∧ encodedLength prims record context ≤ maxDecodeBytes := by
  have hrecord : record = { ({ record with payload := some stored } : TransactionRecord) with
      payload := some payload } := by rw [← hpayload]
  simp only [storesZlibLookalike, hpayload, hplain] at hlook
  conv_lhs => rw [hrecord]
  rw [decodeRecord_encode_iff hlen, resolveWalStoragePayload_eq_ok hp hversion hstored hlook,
    resolveUncompressed_self_iff hp hversion, encodedLength_of_plain hpayload hplain hstored, and_comm]
  simp [PayloadReadsBack, hpayload, hplain]

theorem length_stored_of_encrypts (hp : prims.Correct) (hencrypts : encryptsPayload record context payload = true)
    (henc : encryptRowPayload prims rand context payload = .ok plain)
    (hstored : shouldSkipPayloadCompression record plain = true ∧ stored = plain ∨
      shouldSkipPayloadCompression record plain = false ∧ prims.zlibEncode plain = .ok stored)
    (hne : payload ≠ []) (hle : 56 + payload.length ≤ maxDecodeBytes) :
    stored.length = 56 + payload.length := by
  obtain ⟨envelope, hd, -⟩ := decode_of_encryptRowPayload hp henc hne hle
  have hskip : shouldSkipPayloadCompression record plain = true := by
    simp only [encryptsPayload, Bool.and_eq_true] at hencrypts
    simp [shouldSkipPayloadCompression, looksLikeEncryptedRowPayload_iff.mpr ⟨envelope, hd⟩, hencrypts.1.1]
  rcases hstored with ⟨-, rfl⟩ | ⟨hno, -⟩
  · exact length_of_encryptRowPayload hp henc
  · rw [hskip] at hno
    cases hno

theorem decode_encode_encrypted_iff (hp : prims.Correct) (hpayload : record.payload = some payload)
    (hencrypts : encryptsPayload record context payload = true)
    (henc : encryptRowPayload prims rand context payload = .ok plain)
    (hversion : hasUnsupportedEnvelopeVersion plain = false)
    (hstored : shouldSkipPayloadCompression record plain = true ∧ stored = plain ∨
      shouldSkipPayloadCompression record plain = false ∧ prims.zlibEncode plain = .ok stored)
    (hlook : storesZlibLookalike record context = false)
    (hlen : (TransactionRecord.codec.encode { record with payload := some stored }).length < 2 ^ 64) :
    decodeRecordFromStorageWithContext prims
        (TransactionRecord.codec.encode { record with payload := some stored }) context = .ok record ↔
      PayloadReadsBack record context ∧ encodedLength prims record context ≤ maxDecodeBytes := by
  have hrecord : record = { ({ record with payload := some stored } : TransactionRecord) with
      payload := some payload } := by rw [← hpayload]
  have hlook' : (shouldSkipPayloadCompression record plain && looksLikeZlibPayload plain) = false := by
    simp only [storesZlibLookalike, hpayload, hencrypts, if_true] at hlook
    rw [looksLikeZlibPayload_of_encryptRowPayload henc, hlook, Bool.and_false]
  have hlength := length_stored_of_encrypts hp hencrypts henc hstored
  conv_lhs => rw [hrecord]
  rw [decodeRecord_encode_iff hlen, resolveWalStoragePayload_eq_ok hp hversion hstored hlook',
    resolveUncompressed_encrypted_iff hp hencrypts henc, TransactionRecord.length_encode_payload]
  simp only [PayloadReadsBack, encodedLength, hpayload, hencrypts, storedLength, Option.mem_def,
    Option.some.injEq, forall_eq', if_true]
  constructor
  · rintro ⟨hfits, hreads, hle⟩
    rw [hlength hreads.1 hle] at hfits
    exact ⟨hreads, hfits⟩
  · rintro ⟨hreads, hfits⟩
    have hle : 56 + payload.length ≤ maxDecodeBytes := by omega
    exact ⟨by rw [hlength hreads.1 hle]; exact hfits, hreads, hle⟩

end DistDb.Wal
