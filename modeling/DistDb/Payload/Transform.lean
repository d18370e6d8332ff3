import DistDb.Payload.Envelope
import DistDb.Transaction.Record

/-! # Payload transforms

The read and write transforms a record's payload passes through on its way to and from storage. -/

namespace DistDb
open Lib

structure TransactionPayloadContext where
  streamId : Option String
  databaseId : Option String
  tableId : Option String
  encryptionKeyRef : Option String
  encryptionKeyVersion : Option UInt32
  deriving DecidableEq, Repr, Inhabited

inductive PayloadTransformError where
  | unsupportedFormat
  | invalidCompressedPayload
  | invalidEncryptedPayload
  | decryptFailed
  | encryptionNotConfigured
  | integrityCheckFailed
  | internalTransformError (message : String)
  deriving DecidableEq, Repr

abbrev TransformResult := Except PayloadTransformError (Option Bytes)

def Nonce := { bytes : Bytes // bytes.length = encryptedRowPayloadNonceSizeBytes }

inductive ZlibStage where
  | write
  | finish
  deriving DecidableEq, Repr

structure PayloadPrimitives where
  zlibEncode : Bytes → Except ZlibStage Bytes
  zlibDecode : Bytes → Option Bytes
  sha256 : Bytes → Bytes
  aesGcmEncrypt : (key nonce aad plaintext : Bytes) → Option (Bytes × Bytes)
  aesGcmDecrypt : (key nonce aad authTag ciphertext : Bytes) → Option Bytes

def looksLikeZlibPayload : Bytes → Bool
  | b₀ :: b₁ :: _ => b₀ == 0x78 && (b₀.toNat * 256 + b₁.toNat) % 31 == 0
  | _ => false

/-- The primitives are inverses: zlib output starts with a zlib header and decodes to its input,
AES-GCM output decrypts under the same key, nonce and associated data, a tag has its sixteen bytes,
and GCM being a stream mode neither direction changes a length. -/
structure PayloadPrimitives.Correct (prims : PayloadPrimitives) : Prop where
  zlib_header : ∀ {x y}, prims.zlibEncode x = .ok y → looksLikeZlibPayload y = true
  zlib_decode : ∀ {x y}, prims.zlibEncode x = .ok y → prims.zlibDecode y = some x
  aes_decrypt : ∀ {key nonce aad x c t}, prims.aesGcmEncrypt key nonce aad x = some (c, t) →
    prims.aesGcmDecrypt key nonce aad t c = some x
  aes_tag : ∀ {key nonce aad x c t}, prims.aesGcmEncrypt key nonce aad x = some (c, t) →
    t.length = encryptedRowPayloadAuthTagSizeBytes
  aes_encrypt_length : ∀ {key nonce aad x c t}, prims.aesGcmEncrypt key nonce aad x = some (c, t) →
    c.length = x.length
  aes_decrypt_length : ∀ {key nonce aad t c x}, prims.aesGcmDecrypt key nonce aad t c = some x →
    x.length = c.length

/-- The simplest correct primitives: zlib frames its input without compressing it, AES-GCM leaves it
as it is. -/
def PayloadPrimitives.plain : PayloadPrimitives where
  zlibEncode x := .ok (0x78 :: 0x9c :: x)
  zlibDecode
    | 0x78 :: 0x9c :: x => some x
    | _ => none
  sha256 _ := List.replicate 32 0
  aesGcmEncrypt _ _ _ x := some (x, List.replicate encryptedRowPayloadAuthTagSizeBytes 0)
  aesGcmDecrypt _ _ _ _ x := some x

theorem PayloadPrimitives.plain_correct : PayloadPrimitives.plain.Correct where
  zlib_header h := by cases h; simp [looksLikeZlibPayload]
  zlib_decode h := by cases h; rfl
  aes_decrypt h := by cases h; rfl
  aes_tag h := by cases h; rfl
  aes_encrypt_length h := by cases h; rfl
  aes_decrypt_length h := by cases h; rfl

/-! ## Chains -/

def runTransforms : List (Bytes → TransformResult) → Bytes → Except PayloadTransformError Bytes
  | [], current => .ok current
  | transform :: transforms, current =>
    match transform current with
    | .error e => .error e
    | .ok none => runTransforms transforms current
    | .ok (some transformed) => runTransforms transforms transformed

@[simp] theorem runTransforms_nil (current : Bytes) : runTransforms [] current = .ok current := rfl

variable {transform : Bytes → TransformResult}

theorem runTransforms_of_none {current : Bytes}
    (h : transform current = .ok none) (transforms : List (Bytes → TransformResult)) :
    runTransforms (transform :: transforms) current = runTransforms transforms current := by
  rw [runTransforms, h]

theorem runTransforms_of_some {current next : Bytes}
    (h : transform current = .ok (some next)) (transforms : List (Bytes → TransformResult)) :
    runTransforms (transform :: transforms) current = runTransforms transforms next := by
  rw [runTransforms, h]

theorem runTransforms_cons_eq_ok {transforms : List (Bytes → TransformResult)} {current out : Bytes} :
    runTransforms (transform :: transforms) current = .ok out ↔
      ∃ next, (transform current = .ok none ∧ next = current ∨ transform current = .ok (some next)) ∧
        runTransforms transforms next = .ok out := by
  rw [runTransforms]
  split <;> simp_all

def chainPayload (transforms : List (Bytes → TransformResult)) :
    Option Bytes → Except PayloadTransformError (Option Bytes)
  | none => .ok none
  | some payload => (runTransforms transforms payload).map some

theorem chainPayload_some_eq_ok {transforms : List (Bytes → TransformResult)} {payload : Bytes}
    {written : Option Bytes} :
    chainPayload transforms (some payload) = .ok written ↔
      ∃ out, runTransforms transforms payload = .ok out ∧ written = some out := by
  rw [chainPayload]
  cases runTransforms transforms payload with
  | error e => simp [Except.map]
  | ok out => simp [Except.map, eq_comm]

/-! ## Opaque envelopes -/

inductive EncryptedRowPayloadTransformPolicy where
  | preserveOpaque
  | rejectEncrypted
  deriving DecidableEq, Repr

def encryptedRowPayloadTransform (rejected : PayloadTransformError)
    (policy : EncryptedRowPayloadTransformPolicy) (payload : Bytes) : TransformResult :=
  match decodeEncryptedRowPayloadEnvelope payload with
  | .ok (some _) =>
    match policy with
    | .preserveOpaque => .ok none
    | .rejectEncrypted => .error rejected
  | .ok none => .ok none
  | .error (.unsupportedVersion _) => .error .unsupportedFormat

def encryptedRowPayloadReadTransform := encryptedRowPayloadTransform .decryptFailed

def encryptedRowPayloadWriteTransform := encryptedRowPayloadTransform .invalidEncryptedPayload

/-! ## Encryption -/

namespace AesGcmRowPayloadCryptoProvider

def resolveKeyBytes (prims : PayloadPrimitives) (context : TransactionPayloadContext) :
    Except PayloadTransformError (Bytes × UInt32) :=
  match context.encryptionKeyRef with
  | none => .error .encryptionNotConfigured
  | some keyRef =>
    let keyVersion := context.encryptionKeyVersion.getD 0
    if keyVersion = 0 then .error .encryptionNotConfigured
    else .ok (prims.sha256 (utf8Bytes s!"distdb-at-rest|{keyRef}|{keyVersion}"), keyVersion)

def associatedData (context : TransactionPayloadContext) : Bytes :=
  let databaseId := context.databaseId.getD ""
  let tableId := context.tableId.getD ""
  let streamId := context.streamId.getD ""
  utf8Bytes s!"db={databaseId};table={tableId};stream={streamId}"

/-- `rand` is what `rand_bytes` gave, `none` if it failed. -/
def encryptRowPayload (prims : PayloadPrimitives) (rand : Option Nonce)
    (context : TransactionPayloadContext) (plaintext : Bytes) : Except PayloadTransformError Bytes :=
  match resolveKeyBytes prims context with
  | .error e => .error e
  | .ok (keyBytes, keyVersion) =>
    match rand with
    | none => .error (.internalTransformError "failed to generate nonce")
    | some nonce =>
      match prims.aesGcmEncrypt keyBytes nonce.val (associatedData context) plaintext with
      | none => .error (.internalTransformError "payload encrypt failed")
      | some (ciphertext, authTag) =>
        .ok (encodeEncryptedRowPayloadEnvelope ⟨keyVersion, nonce.val, authTag, ciphertext⟩)

def decryptRowPayload (prims : PayloadPrimitives) (context : TransactionPayloadContext)
    (envelope : EncryptedRowPayloadEnvelope) : Except PayloadTransformError Bytes :=
  match resolveKeyBytes prims context with
  | .error e => .error e
  | .ok (keyBytes, keyVersion) =>
    if envelope.keyVersion ≠ keyVersion then .error .decryptFailed
    else
      match prims.aesGcmDecrypt keyBytes envelope.nonce (associatedData context) envelope.authTag
          envelope.ciphertext with
      | none => .error .decryptFailed
      | some plaintext => .ok plaintext

end AesGcmRowPayloadCryptoProvider

open AesGcmRowPayloadCryptoProvider

def rowPayloadEncryptionWriteTransform (prims : PayloadPrimitives) (rand : Option Nonce)
    (record : TransactionRecord) (context : TransactionPayloadContext) (payload : Bytes) :
    TransformResult :=
  if record.kind ≠ .insert ∧ record.kind ≠ .update then .ok none
  else if looksLikeEncryptedRowPayload payload then .ok none
  else if context.encryptionKeyRef.isNone then .ok none
  else if context.encryptionKeyVersion.getD 0 = 0 then .error .encryptionNotConfigured
  else (encryptRowPayload prims rand context payload).map some

def rowPayloadDecryptionTransform (prims : PayloadPrimitives) (context : TransactionPayloadContext)
    (payload : Bytes) : TransformResult :=
  match context.encryptionKeyRef with
  | none => .ok none
  | some keyRef =>
    if context.encryptionKeyVersion.getD 0 = 0 ∨ keyRef = "" then .error .encryptionNotConfigured
    else
      match decodeEncryptedRowPayloadEnvelope payload with
      | .ok (some envelope) => (decryptRowPayload prims context envelope).map some
      | .ok none => .ok none
      | .error (.unsupportedVersion _) => .error .unsupportedFormat

end DistDb
