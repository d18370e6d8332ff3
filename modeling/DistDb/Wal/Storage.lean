import DistDb.Payload.Transform

/-! # Record storage

Records to bytes and back: the payload transforms of the log, the record encoding, and the frames
and header a log file is made of. -/

namespace DistDb.Wal
open Lib

/-! ## Payloads -/

def walCompressionPayloadTransform (prims : PayloadPrimitives) (payload : Bytes) : TransformResult :=
  if looksLikeZlibPayload payload then
    match prims.zlibDecode payload with
    | some decoded => .ok (some decoded)
    | none => .error .invalidCompressedPayload
  else .ok none

def shouldSkipPayloadCompression (record : TransactionRecord) (payload : Bytes) : Bool :=
  (record.kind == .insert || record.kind == .update || record.kind == .delete) &&
    looksLikeEncryptedRowPayload payload

def walCompressionPayloadWriteTransform (prims : PayloadPrimitives) (record : TransactionRecord)
    (payload : Bytes) : TransformResult :=
  if shouldSkipPayloadCompression record payload then .ok none
  else
    match prims.zlibEncode payload with
    | .ok compressed => .ok (some compressed)
    | .error .write => .error (.internalTransformError "failed to compress WAL payload")
    | .error .finish => .error (.internalTransformError "failed to finish WAL payload compression")

def writeWalStoragePayload (prims : PayloadPrimitives) (rand : Option Nonce)
    (record : TransactionRecord) (context : TransactionPayloadContext) :
    Option Bytes → Except PayloadTransformError (Option Bytes) :=
  chainPayload
    [rowPayloadEncryptionWriteTransform prims rand record context,
      encryptedRowPayloadWriteTransform .preserveOpaque,
      walCompressionPayloadWriteTransform prims record]

def resolveWalStoragePayload (prims : PayloadPrimitives) (context : TransactionPayloadContext) :
    Option Bytes → Except PayloadTransformError (Option Bytes)
  | none => .ok none
  | some payload =>
    if context = default ∧ looksLikeZlibPayload payload = false then .ok (some payload)
    else
      chainPayload
        [walCompressionPayloadTransform prims, rowPayloadDecryptionTransform prims context,
          encryptedRowPayloadReadTransform .preserveOpaque]
        (some payload)

/-! ## Records -/

def mapPayloadTransformError : PayloadTransformError → String
  | .invalidCompressedPayload => "failed to decompress WAL payload"
  | .integrityCheckFailed => "decompressed WAL payload length mismatch"
  | .unsupportedFormat => "unsupported WAL payload format"
  | .invalidEncryptedPayload => "failed to deserialize WAL record"
  | .decryptFailed => "failed to deserialize WAL record"
  | .encryptionNotConfigured => "failed to deserialize WAL record"
  | .internalTransformError _ => "failed to deserialize WAL record"

def mapPayloadWriteTransformError : PayloadTransformError → String
  | .internalTransformError message =>
    if message = "failed to compress WAL payload" then "failed to compress WAL payload"
    else if message = "failed to finish WAL payload compression" then
      "failed to finish WAL payload compression"
    else "failed to serialize WAL record"
  | .unsupportedFormat => "unsupported WAL payload format"
  | .integrityCheckFailed => "decompressed WAL payload length mismatch"
  | .invalidCompressedPayload => "failed to compress WAL payload"
  | .invalidEncryptedPayload => "failed to serialize WAL record"
  | .decryptFailed => "failed to serialize WAL record"
  | .encryptionNotConfigured => "failed to serialize WAL record"

/-- Whether the transformed payload is borrowed or owned only saves a copy: the bytes written are
those of the record with the transformed payload. -/
def encodeRecordForStorageWithContext (prims : PayloadPrimitives) (rand : Option Nonce)
    (record : TransactionRecord) (context : TransactionPayloadContext) : Except String Bytes :=
  match writeWalStoragePayload prims rand record context record.payload with
  | .error e => .error (mapPayloadWriteTransformError e)
  | .ok payload => .ok (TransactionRecord.codec.encode { record with payload := payload })

def decodeRecordFromStorageWithContext (prims : PayloadPrimitives) (encoded : Bytes)
    (context : TransactionPayloadContext) : Except String TransactionRecord :=
  match TransactionRecord.codec.deserialize maxDecodeBytes encoded with
  | none => .error "failed to deserialize WAL record"
  | some record =>
    match resolveWalStoragePayload prims context record.payload with
    | .error e => .error (mapPayloadTransformError e)
    | .ok payload => .ok { record with payload := payload }

def frameRecordWithContext (prims : PayloadPrimitives) (rand : Option Nonce)
    (record : TransactionRecord) (context : TransactionPayloadContext) : Except String Bytes :=
  match encodeRecordForStorageWithContext prims rand record context with
  | .error e => .error e
  | .ok encoded => .ok (leBytes 8 encoded.length ++ encoded)

/-! ## Files -/

def headerSize : Nat := 5

/-- `DTBL` and the format version. -/
def makeHeader : Bytes := [0x44, 0x54, 0x42, 0x4c, 1]

def verifyHeader (bytes : Bytes) : Bool := bytes.take headerSize == makeHeader

/-- The frame loop of `decode_records_sequential_from_reader_with_context`: it stops, keeping what it
has, at the end of the file, at a frame longer than `maxFrameSize`, at a truncated frame and at a
frame that does not decode. Every round consumes at least eight bytes. -/
def decodeRecordsSequential (prims : PayloadPrimitives) (maxFrameSize : Nat)
    (context : TransactionPayloadContext) : (fuel : Nat) → Bytes → List TransactionRecord
  | 0, _ => []
  | fuel + 1, bytes =>
    match takeExact 8 bytes with
    | none => []
    | some (lenBuf, rest) =>
      if maxFrameSize < leNat lenBuf then []
      else
        match takeExact (leNat lenBuf) rest with
        | none => []
        | some (frame, rest) =>
          match decodeRecordFromStorageWithContext prims frame context with
          | .error _ => []
          | .ok record =>
            record :: decodeRecordsSequential prims maxFrameSize context fuel rest

def loadRecordsFromPath (prims : PayloadPrimitives) (maxFrameSize : Nat) :
    Option Bytes → List TransactionRecord
  | none => []
  | some bytes =>
    if verifyHeader bytes then
      decodeRecordsSequential prims maxFrameSize default bytes.length (bytes.drop headerSize)
    else []

/-- Frames of several records, in order; the first error wins. `rand i` is the nonce drawn for the
`i`-th record. -/
def frameRecords (prims : PayloadPrimitives) (context : TransactionPayloadContext) :
    (rand : Nat → Option Nonce) → List TransactionRecord → Except String Bytes
  | _, [] => .ok []
  | rand, record :: records =>
    match frameRecordWithContext prims (rand 0) record context with
    | .error e => .error e
    | .ok frame =>
      match frameRecords prims context (fun i => rand (i + 1)) records with
      | .error e => .error e
      | .ok frames => .ok (frame ++ frames)

end DistDb.Wal
