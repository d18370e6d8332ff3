import DistDb.Payload.RoundTrip

/-! # Reading one field of a payload

One decoder returns the value of a field, another the whole row if the value compares equal to a given one. -/

namespace DistDb
open Lib

def decodeRowFieldValueWithSchemaCache (cache : RowPayloadSchemaCache) (payload : Bytes) (fieldName : String) :
    Except String (Option Bytes) :=
  match decodeCompatibleRowPayloadShape payload with
  | .error e => .error e
  | .ok (.ordinal row) => .ok ((rowIndexForField cache fieldName row.length).bind fun i => row[i]?.join)
  | .ok (.legacyMap row) => .ok (row.lookup fieldName)
  | .ok (.legacyOrdinal row) => .ok ((rowIndexForField cache fieldName row.length).bind fun i => row[i]?)

def decodeRowPayloadIfFieldEqualsWithSchemaCache (prims : ValuePrimitives) (cache : RowPayloadSchemaCache)
    (payload : Bytes) (fieldName : String) (lookupValue : Bytes) : Except String (Option RowMap) :=
  match decodeCompatibleRowPayloadShape payload with
  | .error e => .error e
  | .ok (.ordinal row) =>
    if ((rowIndexForField cache fieldName row.length).bind fun i => row[i]?.join).any
        (storedFieldValuesEqual prims · lookupValue) then
      .ok (some (rowOfSlots cache row.length fun i => row[i]?.join))
    else .ok none
  | .ok (.legacyMap row) =>
    if (row.lookup fieldName).any (storedFieldValuesEqual prims · lookupValue) then .ok (some row) else .ok none
  | .ok (.legacyOrdinal row) =>
    if ((rowIndexForField cache fieldName row.length).bind fun i => row[i]?).any
        (storedFieldValuesEqual prims · lookupValue) then
      .ok (some (rowOfSlots cache row.length fun i => row[i]?))
    else .ok none

variable {prims : ValuePrimitives} {schema : TableSchema} {payload lookupValue : Bytes} {fieldName : String}

theorem mem_of_rowIndexForField {payloadLen i : Nat}
    (h : rowIndexForField (rowPayloadSchemaCache schema) fieldName payloadLen = some i) :
    fieldName ∈ fieldNamesByOrdinal schema := by
  unfold rowIndexForField at h
  split at h
  · obtain ⟨field, hfield, hpair⟩ := List.mem_filterMap.mp (mem_of_lookup_collectMap h)
    split at hpair
    · cases hpair
    · obtain ⟨rfl, -⟩ := Prod.mk.inj (Option.some.inj hpair)
      exact (perm_fieldNamesByOrdinal schema).mem_iff.mpr (List.mem_map_of_mem hfield)
  · exact List.fst_mem_of_mem_zipIdx (mem_of_lookup_collectMap h)

theorem lookup_rowOfSlots_schema (payloadLen : Nat) (slot : Nat → Option Bytes) :
    (rowOfSlots (rowPayloadSchemaCache schema) payloadLen slot).lookup fieldName =
      (rowIndexForField (rowPayloadSchemaCache schema) fieldName payloadLen).bind slot := by
  by_cases hname : fieldName ∈ (rowPayloadSchemaCache schema).orderedFieldNames
  · exact lookup_rowOfSlots hname
  · rw [lookup_rowOfSlots_eq_none hname]
    cases hindex : rowIndexForField (rowPayloadSchemaCache schema) fieldName payloadLen with
    | none => rfl
    | some i => exact absurd (mem_of_rowIndexForField hindex) hname

theorem decodeRowFieldValue_eq : decodeRowFieldValueWithSchemaCache (rowPayloadSchemaCache schema) payload fieldName =
      (decodeRowPayload schema payload).map fun row => row.lookup fieldName := by
  unfold decodeRowFieldValueWithSchemaCache decodeRowPayload decodeRowPayloadWithSchemaCache
  cases decodeCompatibleRowPayloadShape payload with
  | error e => rfl
  | ok shape =>
    cases shape with
    | legacyMap row => rfl
    | ordinal row => simp [Except.map, lookup_rowOfSlots_schema]
    | legacyOrdinal row => simp [Except.map, lookup_rowOfSlots_schema]

theorem decodeRowPayloadIfFieldEquals_eq :
    decodeRowPayloadIfFieldEqualsWithSchemaCache prims (rowPayloadSchemaCache schema) payload fieldName lookupValue =
      (decodeRowPayload schema payload).map fun row =>
        if (row.lookup fieldName).any (storedFieldValuesEqual prims · lookupValue) then some row else none := by
  unfold decodeRowPayloadIfFieldEqualsWithSchemaCache decodeRowPayload decodeRowPayloadWithSchemaCache
  cases decodeCompatibleRowPayloadShape payload with
  | error e => rfl
  | ok shape =>
    cases shape with
    | legacyMap row =>
      simp only [Except.map]
      split <;> rfl
    | ordinal row =>
      simp only [Except.map, lookup_rowOfSlots_schema]
      split <;> rfl
    | legacyOrdinal row =>
      simp only [Except.map, lookup_rowOfSlots_schema]
      split <;> rfl

/-- Reading one field of any payload agrees with decoding the row, errors included. -/
theorem field_decoding_agrees (prims : ValuePrimitives) (schema : TableSchema) (payload : Bytes) (fieldName : String)
    (lookupValue : Bytes) :
    decodeRowFieldValueWithSchemaCache (rowPayloadSchemaCache schema) payload fieldName =
        (decodeRowPayload schema payload).map (·.lookup fieldName) ∧
      decodeRowPayloadIfFieldEqualsWithSchemaCache prims (rowPayloadSchemaCache schema) payload fieldName lookupValue =
        (decodeRowPayload schema payload).map fun row =>
          (some row).filter fun row => (row.lookup fieldName).any
            fun value => compareStoredFieldValues prims value lookupValue = .eq := by
  refine ⟨decodeRowFieldValue_eq, ?_⟩
  rw [decodeRowPayloadIfFieldEquals_eq]
  congr 1
  funext row
  simp only [Option.filter_some, ← storedFieldValuesEqual_iff, Bool.decide_eq_true]

end DistDb
