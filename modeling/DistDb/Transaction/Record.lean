import DistDb.Lib.Codec

/-! # Transaction records

A record's `payload_shadow` is not kept: only `resolve_payload_with_context` fills it, and no writer or reader of the
log calls that. -/

namespace DistDb
open Lib

structure TransactionId where
  val : UInt64
  deriving DecidableEq, Repr

structure UserId where
  val : String
  deriving DecidableEq, Repr

inductive TransactionKind where
  | ignore
  | writeBegin
  | writeCommit
  | writeAbort
  | insert
  | update
  | delete
  | truncate
  | tableLifecycle
  | indexLifecycle
  | schemaChange
  | metadataChange
  | sqlDefinitionChange
  | securityChange
  deriving DecidableEq, Repr

structure TransactionRecord where
  id : TransactionId
  groupid : Option TransactionId
  refid : Option TransactionId
  timestampEpochMs : UInt64
  actor : UserId
  kind : TransactionKind
  payload : Option Bytes
  deriving DecidableEq, Repr

namespace TransactionKind

def variants : List TransactionKind :=
  [ignore, writeBegin, writeCommit, writeAbort, insert, update, delete, truncate, tableLifecycle,
    indexLifecycle, schemaChange, metadataChange, sqlDefinitionChange, securityChange]

def variantIndex : TransactionKind → UInt32
  | ignore => 0
  | writeBegin => 1
  | writeCommit => 2
  | writeAbort => 3
  | insert => 4
  | update => 5
  | delete => 6
  | truncate => 7
  | tableLifecycle => 8
  | indexLifecycle => 9
  | schemaChange => 10
  | metadataChange => 11
  | sqlDefinitionChange => 12
  | securityChange => 13

def ofVariantIndex (n : UInt32) : Option TransactionKind := variants.find? (·.variantIndex = n)

theorem ofVariantIndex_variantIndex (kind : TransactionKind) : ofVariantIndex kind.variantIndex = some kind := by
  cases kind <;> decide

def codec : Codec TransactionKind :=
  Codec.u32.refine variantIndex ofVariantIndex ofVariantIndex_variantIndex fun n kind h => by
    simpa using List.find?_some h

end TransactionKind

namespace TransactionId

def codec : Codec TransactionId :=
  Codec.u64.refine (·.val) (fun n => some ⟨n⟩) (fun _ => rfl) (fun n id h => by cases h; rfl)

@[simp] theorem length_encode (id : TransactionId) : (codec.encode id).length = 8 := by
  simp [codec, Codec.refine, Codec.u64, Codec.nat]

end TransactionId

namespace UserId

def codec : Codec UserId :=
  Codec.string.refine (·.val) (fun s => some ⟨s⟩) (fun _ => rfl) (fun s user h => by cases h; rfl)

end UserId

namespace TransactionRecord

def key (record : TransactionRecord) : Nat := record.id.val.toNat

def codec : Codec TransactionRecord :=
  ((((((TransactionId.codec.pair (Codec.option TransactionId.codec)).pair
    (Codec.option TransactionId.codec)).pair Codec.u64).pair UserId.codec).pair
      TransactionKind.codec).pair (Codec.option Codec.bytes)).refine
    (fun r => ((((((r.id, r.groupid), r.refid), r.timestampEpochMs), r.actor), r.kind), r.payload))
    (fun t => some ⟨t.1.1.1.1.1.1, t.1.1.1.1.1.2, t.1.1.1.1.2, t.1.1.1.2, t.1.1.2, t.1.2, t.2⟩)
    (fun _ => rfl)
    (fun t r h => by cases h; rfl)

theorem length_encode (record : TransactionRecord) : (codec.encode record).length =
    (TransactionId.codec.encode record.id).length + ((Codec.option TransactionId.codec).encode record.groupid).length +
      ((Codec.option TransactionId.codec).encode record.refid).length +
      (Codec.u64.encode record.timestampEpochMs).length + (UserId.codec.encode record.actor).length +
      (TransactionKind.codec.encode record.kind).length +
      ((Codec.option Codec.bytes).encode record.payload).length := by
  simp only [codec, Codec.pair]
  simp only [Codec.refine, List.length_append]

theorem length_encode_payload (record : TransactionRecord) (payload : Bytes) :
    (codec.encode { record with payload := some payload }).length =
      (codec.encode { record with payload := none }).length + 8 + payload.length := by
  rw [length_encode, length_encode]
  simp only [Codec.option, Codec.bytes, Option.elim_some, Option.elim_none, List.length_cons,
    List.length_append, List.length_nil, length_leBytes]
  omega

end TransactionRecord

end DistDb
