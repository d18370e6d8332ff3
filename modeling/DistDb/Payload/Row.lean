import DistDb.Payload.Envelope
import DistDb.Table.Value

/-! # Row payloads

A row is stored as its values in the order of the schema's fields. The decoder also takes two older
shapes, and tells the three apart by which of them decodes first. -/

namespace DistDb
open Lib

abbrev RowMap := Finmap fun _ : String => Bytes

abbrev OrdinalRowPayload := List (Option Bytes)

namespace OrdinalRowPayload

theorem encode_slot_ne_nil (slot : Option Bytes) : (Codec.option Codec.bytes).encode slot ≠ [] := by
  cases slot with
  | none => exact List.cons_ne_nil _ _
  | some value => exact List.cons_ne_nil _ _

def codec : Codec OrdinalRowPayload := (Codec.option Codec.bytes).vec encode_slot_ne_nil

end OrdinalRowPayload

theorem encode_bytes_ne_nil (value : Bytes) : Codec.bytes.encode value ≠ [] := by
  intro h
  have hlen := congrArg List.length h
  simp [Codec.bytes] at hlen

def legacyOrdinalCodec : Codec (List Bytes) := Codec.bytes.vec encode_bytes_ne_nil

def legacyMapCodec : Codec (List (String × Bytes)) :=
  (Codec.string.pair Codec.bytes).vec fun entry h =>
    encode_bytes_ne_nil entry.2 (List.append_eq_nil_iff.mp h).2

def collectMap {α : Type*} (pairs : List (String × α)) : Finmap fun _ : String => α :=
  pairs.foldl (fun map pair => map.insert pair.1 pair.2) ∅

/-- The order of fields in a payload: by `seqno`, then by name. -/
def fieldNamesByOrdinal (schema : TableSchema) : List String :=
  ((schema.fields.map fun field => (field.seqno.toNat, field.fieldName)).insertionSort
    fun lhs rhs => lhs.1 < rhs.1 ∨ (lhs.1 = rhs.1 ∧ lhs.2 ≤ rhs.2)).map Prod.snd

structure RowPayloadSchemaCache where
  orderedFieldNames : List String
  fieldNameIndex : Finmap fun _ : String => Nat
  fieldSeqnoIndex : Finmap fun _ : String => Nat
  maxSeqno : Nat

def rowPayloadSchemaCache (schema : TableSchema) : RowPayloadSchemaCache where
  orderedFieldNames := fieldNamesByOrdinal schema
  fieldNameIndex := collectMap (fieldNamesByOrdinal schema).zipIdx
  fieldSeqnoIndex := collectMap (schema.fields.filterMap fun field =>
    if field.seqno = 0 then none else some (field.fieldName, field.seqno.toNat - 1))
  maxSeqno := (schema.fields.map fun field => field.seqno.toNat).foldl max 0

def useSeqnoSlotDecoding (payloadLen orderedFieldCount maxSeqno : Nat) : Bool :=
  payloadLen > orderedFieldCount && maxSeqno > orderedFieldCount && maxSeqno ≥ payloadLen

def rowIndexForField (cache : RowPayloadSchemaCache) (fieldName : String) (payloadLen : Nat) :
    Option Nat :=
  if useSeqnoSlotDecoding payloadLen cache.orderedFieldNames.length cache.maxSeqno then
    cache.fieldSeqnoIndex.lookup fieldName
  else
    cache.fieldNameIndex.lookup fieldName

inductive CompatibleRowPayload where
  | ordinal (row : OrdinalRowPayload)
  | legacyMap (row : RowMap)
  | legacyOrdinal (row : List Bytes)

def decodeCompatibleRowPayloadShape (payload : Bytes) : Except String CompatibleRowPayload :=
  match OrdinalRowPayload.codec.deserialize maxDecodeBytes payload with
  | some row => .ok (.ordinal row)
  | none =>
  match legacyMapCodec.deserialize maxDecodeBytes payload with
  | some entries => .ok (.legacyMap (collectMap entries))
  | none =>
  match legacyOrdinalCodec.deserialize maxDecodeBytes payload with
  | some row => .ok (.legacyOrdinal row)
  | none =>
  match decodeEncryptedRowPayloadEnvelope payload with
  | .error e => .error e.message
  | .ok (some _) => .error "row payload is encrypted at rest and must be decrypted before decode"
  | .ok none => .error "row payload decode failed"

/-- The row whose field at slot `i` has the value `slot i`; both ordinal shapes are read so. -/
def rowOfSlots (cache : RowPayloadSchemaCache) (payloadLen : Nat) (slot : Nat → Option Bytes) :
    RowMap :=
  cache.orderedFieldNames.foldl (fun row fieldName =>
    match (rowIndexForField cache fieldName payloadLen).bind slot with
    | some value => row.insert fieldName value
    | none => row) ∅

def decodeRowPayloadWithSchemaCache (cache : RowPayloadSchemaCache) (payload : Bytes) :
    Except String RowMap :=
  match decodeCompatibleRowPayloadShape payload with
  | .error e => .error e
  | .ok (.legacyMap row) => .ok row
  | .ok (.ordinal row) => .ok (rowOfSlots cache row.length fun i => row[i]?.join)
  | .ok (.legacyOrdinal row) => .ok (rowOfSlots cache row.length fun i => row[i]?)

def decodeRowPayload (schema : TableSchema) (payload : Bytes) : Except String RowMap :=
  decodeRowPayloadWithSchemaCache (rowPayloadSchemaCache schema) payload

def storedSlot (prims : ValuePrimitives) (schema : TableSchema) (fieldName : String) (value : Bytes) :
    Bytes :=
  match schema.field fieldName with
  | some field => (convertValueToFieldType prims value field.fieldType .safe).getD value
  | none => value

/-- A hash map without fields to order it by is serialized in its iteration order; here by key. -/
def encodeRowPayload (prims : ValuePrimitives) (schema : TableSchema) (row : RowMap) : Bytes :=
  if fieldNamesByOrdinal schema = [] ∧ row ≠ ∅ then
    legacyMapCodec.encode
      ((sortTexts row.keys).filterMap fun key => (row.lookup key).map (key, ·))
  else
    OrdinalRowPayload.codec.encode ((fieldNamesByOrdinal schema).map fun fieldName =>
      (row.lookup fieldName).map (storedSlot prims schema fieldName))

end DistDb
