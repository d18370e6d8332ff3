import DistDb.Lib.Maps
import DistDb.Payload.Stored

/-! # Round trips of row payloads

Without columns the payload is a serialized map, and the decoder tries the ordinal shape first. -/

namespace DistDb
open Lib

def restrictedRow (prims : ValuePrimitives) (schema : TableSchema) (row : RowMap) : RowMap :=
  collectMap ((fieldNamesByOrdinal schema).filterMap fun fieldName =>
    (row.lookup fieldName).map fun value => (fieldName, storedSlot prims schema fieldName value))

/-- An iteration over the row gives these entries. -/
structure IteratesAs (row : RowMap) (entries : List (String × Bytes)) : Prop where
  nodup_keys : (entries.map Prod.fst).Nodup
  mem_iff : ∀ key value, (key, value) ∈ entries ↔ row.lookup key = some value

/-- What `encode_row_payload` may return: a map is serialized in whatever order it is iterated. -/
inductive IsRowPayload (prims : ValuePrimitives) (schema : TableSchema) (row : RowMap) : Bytes → Prop
  | map (entries : List (String × Bytes)) (hfields : schema.fields = []) (hrow : row ≠ ∅)
      (hentries : IteratesAs row entries) : IsRowPayload prims schema row (legacyMapCodec.encode entries)
  | ordinal (h : schema.fields ≠ [] ∨ row = ∅) :
      IsRowPayload prims schema row (OrdinalRowPayload.codec.encode ((fieldNamesByOrdinal schema).map
        fun fieldName => (row.lookup fieldName).map (storedSlot prims schema fieldName)))

variable {prims : ValuePrimitives} {schema : TableSchema} {row : RowMap} {payload : Bytes}

/-! ## Maps and their entries -/

theorem lookup_collectMap_of_nodup {α : Type*} {pairs : List (String × α)} (hnodup : (pairs.map Prod.fst).Nodup)
    {key : String} {value : α} : (collectMap pairs).lookup key = some value ↔ (key, value) ∈ pairs := by
  constructor
  · exact mem_of_lookup_collectMap
  · intro h
    obtain ⟨value', hlookup⟩ := Option.isSome_iff_exists.mp (isSome_lookup_collectMap (List.mem_map_of_mem h))
    cases List.inj_on_of_nodup_map hnodup (mem_of_lookup_collectMap hlookup) h rfl
    exact hlookup

variable {entries : List (String × Bytes)}

theorem IteratesAs.collectMap_eq (h : IteratesAs row entries) : collectMap entries = row := by
  apply Finmap.ext_lookup
  intro key
  cases hrow : row.lookup key with
  | some value => exact (lookup_collectMap_of_nodup h.nodup_keys).mpr ((h.mem_iff key value).mpr hrow)
  | none =>
    cases hentries : (collectMap entries).lookup key with
    | none => rfl
    | some value =>
      have hmem := (h.mem_iff key value).mp (mem_of_lookup_collectMap hentries)
      rw [hrow] at hmem
      cases hmem

theorem iteratesAs_sorted (row : RowMap) :
    IteratesAs row ((sortTexts row.keys).filterMap fun key => (row.lookup key).map (key, ·)) :=
  ⟨nodup_byKey, fun _ _ => mem_byKey⟩

theorem fieldNamesByOrdinal_eq_nil : fieldNamesByOrdinal schema = [] ↔ schema.fields = [] := by
  rw [← List.length_eq_zero_iff, ← List.length_eq_zero_iff]
  simp [fieldNamesByOrdinal, List.length_insertionSort]

theorem isRowPayload_encodeRowPayload (prims : ValuePrimitives) (schema : TableSchema) (row : RowMap) :
    IsRowPayload prims schema row (encodeRowPayload prims schema row) := by
  unfold encodeRowPayload
  split
  · next h => exact .map _ (fieldNamesByOrdinal_eq_nil.mp h.1) h.2 (iteratesAs_sorted row)
  · next h =>
      refine .ordinal ?_
      rw [fieldNamesByOrdinal_eq_nil] at h
      tauto

/-! ## Ordinal payloads -/

theorem lookup_restrictedRow (key : String) : (restrictedRow prims schema row).lookup key =
    if key ∈ fieldNamesByOrdinal schema then (row.lookup key).map (storedSlot prims schema key) else none := by
  cases hlookup : (restrictedRow prims schema row).lookup key with
  | some value =>
    obtain ⟨name, hname, hvalue⟩ := List.mem_filterMap.mp (mem_of_lookup_collectMap hlookup)
    obtain ⟨value', hvalue', heq⟩ := Option.map_eq_some_iff.mp hvalue
    cases heq
    rw [if_pos hname, hvalue', Option.map_some]
  | none =>
    split
    · next hname =>
        cases hrow : row.lookup key with
        | none => rfl
        | some value =>
          have hmem : key ∈ ((fieldNamesByOrdinal schema).filterMap fun fieldName =>
              (row.lookup fieldName).map fun value =>
                (fieldName, storedSlot prims schema fieldName value)).map Prod.fst :=
            List.mem_map.mpr ⟨(key, storedSlot prims schema key value),
              List.mem_filterMap.mpr ⟨key, hname, by rw [hrow]; rfl⟩, rfl⟩
          have hsome := isSome_lookup_collectMap hmem
          rw [← restrictedRow, hlookup] at hsome
          cases hsome
    · rfl

theorem lookup_rowOfSlots_eq_none {cache : RowPayloadSchemaCache} {payloadLen : Nat} {slot : Nat → Option Bytes}
    {key : String} (h : key ∉ cache.orderedFieldNames) : (rowOfSlots cache payloadLen slot).lookup key = none := by
  refine (lookup_foldl_insert fun name => (rowIndexForField cache name payloadLen).bind slot).trans ?_
  rw [if_neg h]
  rfl

theorem rowOfSlots_eq_restrictedRow (prims : ValuePrimitives) (schema : TableSchema) (row : RowMap) :
    rowOfSlots (rowPayloadSchemaCache schema) (fieldNamesByOrdinal schema).length (fun i =>
      (((fieldNamesByOrdinal schema).map fun name => (row.lookup name).map (storedSlot prims schema name))[i]?).join) =
      restrictedRow prims schema row := by
  apply Finmap.ext_lookup
  intro key
  rw [lookup_restrictedRow]
  split
  · next hkey =>
      obtain ⟨i, hindex, hi⟩ := rowIndexForField_eq_some hkey
      rw [lookup_rowOfSlots hkey, hindex, Option.bind_some, List.getElem?_map, hi]
      rfl
  · next hkey => exact lookup_rowOfSlots_eq_none hkey

theorem decodeRowPayload_of_ordinal {slots : OrdinalRowPayload}
    (h : OrdinalRowPayload.codec.deserialize maxDecodeBytes payload = some slots) :
    decodeRowPayload schema payload =
      .ok (rowOfSlots (rowPayloadSchemaCache schema) slots.length fun i => slots[i]?.join) := by
  rw [decodeRowPayload, decodeRowPayloadWithSchemaCache, decodeCompatibleRowPayloadShape, h]

theorem decodeRowPayload_of_columns (h : schema.fields ≠ [] ∨ row = ∅)
    (hpayload : IsRowPayload prims schema row payload) (hlimit : payload.length ≤ maxDecodeBytes) :
    decodeRowPayload schema payload = .ok (restrictedRow prims schema row) := by
  cases hpayload with
  | map entries hfields hrow _ => exact absurd h (not_or.mpr ⟨not_not.mpr hfields, hrow⟩)
  | ordinal _ =>
    have hshape := OrdinalRowPayload.codec.deserialize_encode_of_le (by decide) hlimit
    rw [decodeRowPayload_of_ordinal hshape, List.length_map, rowOfSlots_eq_restrictedRow]

/-! ## Serialized maps -/

theorem restrictedRow_of_no_columns (h : schema.fields = []) : restrictedRow prims schema row = ∅ := by
  rw [restrictedRow, fieldNamesByOrdinal_eq_nil.mpr h]
  rfl

theorem decodeRowPayload_of_map (hfields : schema.fields = [])
    (hentries : IteratesAs row entries) (hlimit : (legacyMapCodec.encode entries).length ≤ maxDecodeBytes) :
    decodeRowPayload schema (legacyMapCodec.encode entries) =
      if OrdinalRowPayload.codec.deserialize maxDecodeBytes (legacyMapCodec.encode entries) = none then .ok row
      else .ok ∅ := by
  cases hshape : OrdinalRowPayload.codec.deserialize maxDecodeBytes (legacyMapCodec.encode entries) with
  | some slots =>
    rw [decodeRowPayload_of_ordinal hshape, if_neg (by simp), rowOfSlots]
    simp only [rowPayloadSchemaCache, fieldNamesByOrdinal_eq_nil.mpr hfields]
    rfl
  | none =>
    have hmap := legacyMapCodec.deserialize_encode_of_le (by decide) hlimit
    rw [decodeRowPayload, decodeRowPayloadWithSchemaCache, decodeCompatibleRowPayloadShape, hshape, hmap, if_pos rfl]
    exact congrArg Except.ok hentries.collectMap_eq

theorem no_ordinal_of_first_key {key : String} {value : Bytes}
    (hlimit : (legacyMapCodec.encode ((key, value) :: entries)).length ≤ maxDecodeBytes)
    (hkey : 1 < (utf8Bytes key).length % 256) :
    OrdinalRowPayload.codec.deserialize maxDecodeBytes (legacyMapCodec.encode ((key, value) :: entries)) = none := by
  have hcount : ((key, value) :: entries).length < 256 ^ 8 := by
    have hle := (Codec.string.pair Codec.bytes).length_le_length_flatMap (fun entry h =>
      encode_bytes_ne_nil entry.2 (List.append_eq_nil_iff.mp h).2) ((key, value) :: entries)
    have hmax : maxDecodeBytes < 256 ^ 8 := by decide
    simp only [legacyMapCodec, Codec.vec, List.length_append] at hlimit
    omega
  have htag : ∀ n, n % 256 ≠ 0 → n % 256 ≠ 1 → UInt8.ofNat (n % 256) ≠ 0 ∧ UInt8.ofNat (n % 256) ≠ 1 := by
    intro n h0 h1
    have hn : (UInt8.ofNat (n % 256)).toNat = n % 256 := by simp
    exact ⟨fun h => h0 (by rw [← hn, h]; rfl), fun h => h1 (by rw [← hn, h]; rfl)⟩
  obtain ⟨h0, h1⟩ := htag (utf8Bytes key).length (by omega) (by omega)
  have hdecode : OrdinalRowPayload.codec.decode (legacyMapCodec.encode ((key, value) :: entries)) = none := by
    have htake := takeExact_append (leBytes 8 ((key, value) :: entries).length)
      (((key, value) :: entries).flatMap (Codec.string.pair Codec.bytes).encode)
    rw [length_leBytes] at htake
    simp only [OrdinalRowPayload.codec, legacyMapCodec, Codec.vec]
    rw [htake, Option.bind_some, leNat_leBytes hcount, List.length_cons, Codec.decodeMany]
    simp [Codec.pair, Codec.string, Codec.refine, Codec.bytes, leBytes, Codec.option, h0, h1]
  rw [Codec.deserialize, hdecode]

/-! ## Round trips -/

/-- A payload decodes to the row restricted to the columns if and only if there are columns, or the row is empty,
or the bytes of its map read as slots; and to the whole row of a schema without columns if and only if they do not.
They do not where no name is empty, of one byte, or some multiple of 256 bytes longer. -/
theorem row_payload_restored_iff (prims : ValuePrimitives) (schema : TableSchema) (row : RowMap) (payload : Bytes)
    (hpayload : IsRowPayload prims schema row payload) (hlimit : payload.length ≤ maxDecodeBytes) :
    (decodeRowPayload schema payload = .ok (restrictedRow prims schema row) ↔
      schema.fields ≠ [] ∨ row = ∅ ∨ OrdinalRowPayload.codec.deserialize maxDecodeBytes payload ≠ none) ∧
    (schema.fields = [] → (decodeRowPayload schema payload = .ok row ↔
      row = ∅ ∨ OrdinalRowPayload.codec.deserialize maxDecodeBytes payload = none)) ∧
    (schema.fields = [] → row ≠ ∅ → (∀ key ∈ row, 1 < (utf8Bytes key).length % 256) →
      OrdinalRowPayload.codec.deserialize maxDecodeBytes payload = none) := by
  by_cases h : schema.fields ≠ [] ∨ row = ∅
  · have hdecode := decodeRowPayload_of_columns h hpayload hlimit
    refine ⟨⟨fun _ => ?_, fun _ => hdecode⟩, fun hfields => ?_, fun hfields hrow => ?_⟩
    · tauto
    · have hrow : row = ∅ := h.resolve_left (not_not.mpr hfields)
      rw [hdecode, restrictedRow_of_no_columns hfields, hrow]
      simp
    · exact absurd h (not_or.mpr ⟨not_not.mpr hfields, hrow⟩)
  · obtain ⟨hfields, hrow⟩ := not_or.mp h
    rw [not_not] at hfields
    cases hpayload with
    | ordinal h' => exact absurd h' h
    | map entries _ _ hentries =>
      have hdecode := decodeRowPayload_of_map hfields hentries hlimit
      refine ⟨?_, fun _ => ?_, fun _ _ hkeys => ?_⟩
      · rw [hdecode, restrictedRow_of_no_columns hfields]
        split
        · next hshape => simp [hfields, hrow, hshape]
        · next hshape => simp [hshape]
      · rw [hdecode]
        split
        · next hshape => simp [hshape]
        · next hshape => simp [hrow, hshape, Ne.symm hrow]
      · cases entries with
        | nil => exact absurd hentries.collectMap_eq.symm hrow
        | cons entry entries =>
          obtain ⟨key, value⟩ := entry
          have hlookup := (hentries.mem_iff key value).mp List.mem_cons_self
          exact no_ordinal_of_first_key hlimit (hkeys key (Finmap.mem_of_lookup_eq_some hlookup))

theorem note_payload_restored :
    decodeRowPayload noteSchema (encodeRowPayload .plain noteSchema (noteRow "abc")) =
      .ok (restrictedRow .plain noteSchema (noteRow "abc")) ∧
    restrictedRow .plain noteSchema (noteRow "abc") ≠ ∅ := by
  have hrestored := (row_payload_restored_iff .plain noteSchema (noteRow "abc") _
    (isRowPayload_encodeRowPayload .plain noteSchema (noteRow "abc")) (by decide +kernel)).1
  exact ⟨hrestored.mpr (.inl (by decide)), by decide +kernel⟩

/-- Without columns a row comes back whole, although no column restricts it, unless its map reads as slots. -/
theorem map_payloads_not_restricted :
    decodeRowPayload ⟨[]⟩ (encodeRowPayload .plain ⟨[]⟩ (noteRow "abc")) = .ok (noteRow "abc") ∧
    restrictedRow .plain ⟨[]⟩ (noteRow "abc") = ∅ ∧ noteRow "abc" ≠ ∅ ∧
    decodeRowPayload ⟨[]⟩ (encodeRowPayload .plain ⟨[]⟩ ((∅ : RowMap).insert "" [7])) = .ok ∅ := by
  refine ⟨?_, ?_, ?_, ?_⟩ <;> decide +kernel

end DistDb
