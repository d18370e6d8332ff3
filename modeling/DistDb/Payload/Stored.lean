import DistDb.Lib.Numerals
import DistDb.Payload.Row

/-! # What is read of a stored row

A row payload decodes to the stored values, and when a stored text is rendered as it was written. -/

namespace DistDb
open Lib

/-! ## Slots -/

section Slots

theorem collectMap_concat {α : Type*} (pairs : List (String × α)) (pair : String × α) :
    collectMap (pairs ++ [pair]) = (collectMap pairs).insert pair.1 pair.2 := by
  simp [collectMap]

variable {key : String}

theorem mem_of_lookup_collectMap {α : Type*} {pairs : List (String × α)} {value : α}
    (h : (collectMap pairs).lookup key = some value) : (key, value) ∈ pairs := by
  induction pairs using List.reverseRecOn with
  | nil => simp [collectMap] at h
  | append_singleton pairs pair ih =>
    rw [collectMap_concat] at h
    by_cases hkey : key = pair.1
    · subst hkey
      rw [Finmap.lookup_insert, Option.some.injEq] at h
      subst h
      exact List.mem_append_right _ List.mem_cons_self
    · rw [Finmap.lookup_insert_of_ne _ hkey] at h
      exact List.mem_append_left _ (ih h)

theorem isSome_lookup_collectMap {α : Type*} {pairs : List (String × α)}
    (h : key ∈ pairs.map Prod.fst) : ((collectMap pairs).lookup key).isSome = true := by
  induction pairs using List.reverseRecOn with
  | nil => simp at h
  | append_singleton pairs pair ih =>
    rw [collectMap_concat]
    by_cases hkey : key = pair.1
    · subst hkey
      simp
    · rw [Finmap.lookup_insert_of_ne _ hkey]
      rw [List.map_append, List.mem_append] at h
      exact ih (h.resolve_right (by simpa using hkey))

theorem lookup_foldl_insert (value : String → Option Bytes) {names : List String} {row : RowMap} :
    (names.foldl (fun row name => match value name with
      | some value => row.insert name value
      | none => row) row).lookup key =
      if key ∈ names then (value key).or (row.lookup key) else row.lookup key := by
  induction names generalizing row with
  | nil => simp
  | cons name names ih =>
    rw [List.foldl_cons, ih]
    by_cases hkey : key = name
    · subst hkey
      cases hvalue : value key <;> simp
    · cases value name with
      | none => simp [hkey]
      | some value =>
        simp only [List.mem_cons, hkey, false_or]
        rw [Finmap.lookup_insert_of_ne _ hkey]

variable {prims : ValuePrimitives} {schema : TableSchema} {row : RowMap}

theorem lookup_rowOfSlots {cache : RowPayloadSchemaCache} {payloadLen : Nat} {slot : Nat → Option Bytes}
    (h : key ∈ cache.orderedFieldNames) :
    (rowOfSlots cache payloadLen slot).lookup key = (rowIndexForField cache key payloadLen).bind slot := by
  refine (lookup_foldl_insert fun name => (rowIndexForField cache name payloadLen).bind slot).trans ?_
  simp [h]

theorem perm_fieldNamesByOrdinal (schema : TableSchema) :
    (fieldNamesByOrdinal schema).Perm (schema.fields.map (·.fieldName)) := by
  have hperm := (List.perm_insertionSort (fun lhs rhs : Nat × String => lhs.1 < rhs.1 ∨ (lhs.1 = rhs.1 ∧ lhs.2 ≤ rhs.2))
    (schema.fields.map fun field => (field.seqno.toNat, field.fieldName))).map Prod.snd
  rwa [List.map_map] at hperm

theorem rowIndexForField_eq_some {name : String} (h : name ∈ fieldNamesByOrdinal schema) :
    ∃ i, rowIndexForField (rowPayloadSchemaCache schema) name (fieldNamesByOrdinal schema).length = some i ∧
      (fieldNamesByOrdinal schema)[i]? = some name := by
  have hmem : name ∈ (fieldNamesByOrdinal schema).zipIdx.map Prod.fst := by simpa using h
  obtain ⟨i, hi⟩ := Option.isSome_iff_exists.mp (isSome_lookup_collectMap hmem)
  have hindex := List.mem_zipIdx (mem_of_lookup_collectMap hi)
  refine ⟨i, ?_, ?_⟩
  · rw [rowIndexForField, if_neg (by simp [useSeqnoSlotDecoding, rowPayloadSchemaCache])]
    exact hi
  · rw [List.getElem?_eq_some_iff]
    exact ⟨by simpa using hindex.2.1, by simpa using hindex.2.2.symm⟩

theorem decode_encodeRowPayload (hfields : fieldNamesByOrdinal schema ≠ [])
    (hlimit : (encodeRowPayload prims schema row).length ≤ maxDecodeBytes) :
    ∃ decoded, decodeRowPayload schema (encodeRowPayload prims schema row) = .ok decoded ∧
      ∀ name ∈ fieldNamesByOrdinal schema,
        decoded.lookup name = (row.lookup name).map (storedSlot prims schema name) := by
  have hencode : encodeRowPayload prims schema row =
      OrdinalRowPayload.codec.encode ((fieldNamesByOrdinal schema).map fun name =>
        (row.lookup name).map (storedSlot prims schema name)) := by
    rw [encodeRowPayload, if_neg (fun h => hfields h.1)]
  rw [hencode] at hlimit ⊢
  have hshape := OrdinalRowPayload.codec.deserialize_encode_of_le (by decide) hlimit
  refine ⟨rowOfSlots (rowPayloadSchemaCache schema) (fieldNamesByOrdinal schema).length fun i =>
    (((fieldNamesByOrdinal schema).map fun name => (row.lookup name).map (storedSlot prims schema name))[i]?).join,
    ?_, fun name hname => ?_⟩
  · rw [decodeRowPayload, decodeRowPayloadWithSchemaCache, decodeCompatibleRowPayloadShape, hshape]
    simp only [List.length_map]
  · obtain ⟨i, hindex, hi⟩ := rowIndexForField_eq_some hname
    rw [lookup_rowOfSlots hname, hindex, Option.bind_some, List.getElem?_map, hi]
    rfl

end Slots

/-! ## Rendering -/

section Rendering

variable {prims : ValuePrimitives}

/-- What is needed of the primitives: the text of a uuid is no tagged uuid and no number, and the text of a
float reads as a float with the same text. -/
structure ValuePrimitives.Lawful (prims : ValuePrimitives) : Prop where
  length_uuid : ∀ bytes, (utf8Bytes (prims.renderUuid bytes)).length ≠ 17
  uuid_no_number : ∀ bytes, decodeNumericValue prims (utf8Bytes (prims.renderUuid bytes)) = none
  render_float : ∀ bits bits', decodeNumericValue prims (utf8Bytes (prims.renderF64 bits)) = some (.float bits') →
    prims.renderF64 bits' = prims.renderF64 bits

def StoredNumericValue.numeral (prims : ValuePrimitives) : StoredNumericValue → String
  | .signed v => toString v
  | .unsigned v => toString v
  | .float bits => prims.renderF64 bits

/-- A text that is neither a tagged uuid nor a number, or the numeral of the number it is. -/
def RendersAsWritten (prims : ValuePrimitives) (value : Bytes) : Prop :=
  decodeTaggedDbUuidBinary value = none ∧
    ∀ number, decodeNumericValue prims value = some number → utf8Bytes (number.numeral prims) = value

theorem renderStoredFieldValue_eq (value : Bytes) : renderStoredFieldValue prims value =
    match decodeTaggedDbUuidBinary value with
    | some bytes => utf8Bytes (prims.renderUuid bytes)
    | none => match decodeNumericValue prims value with
      | some number => utf8Bytes (number.numeral prims)
      | none => value := by
  unfold renderStoredFieldValue
  cases decodeTaggedDbUuidBinary value with
  | some bytes => rfl
  | none =>
    cases decodeNumericValue prims value with
    | none => rfl
    | some number => cases number <;> rfl

variable {value : Bytes}

theorem decodeTaggedDbUuidBinary_eq_none (h : value.length ≠ 17) : decodeTaggedDbUuidBinary value = none := by
  unfold decodeTaggedDbUuidBinary
  split
  · rw [if_neg]
    rintro ⟨-, hlength⟩
    simp [hlength] at h
  · rfl

theorem length_of_decodeTaggedDbUuidBinary {value bytes : Bytes} (h : decodeTaggedDbUuidBinary value = some bytes) :
    value.length = 17 := by
  by_contra hlength
  rw [decodeTaggedDbUuidBinary_eq_none hlength] at h
  cases h

theorem renderStoredFieldValue_eq_self_iff (hprims : prims.Lawful) :
    renderStoredFieldValue prims value = value ↔ RendersAsWritten prims value := by
  rw [renderStoredFieldValue_eq, RendersAsWritten]
  cases htag : decodeTaggedDbUuidBinary value with
  | some bytes =>
    have hlength := length_of_decodeTaggedDbUuidBinary htag
    simp only [reduceCtorEq, false_and, iff_false]
    intro heq
    exact hprims.length_uuid bytes (heq ▸ hlength)
  | none =>
    cases decodeNumericValue prims value with
    | none => simp
    | some number => simp

/-! ### Numerals -/

theorem decodeTaggedNumericValue_eq_none {tag : UInt8} {bytes : Bytes} (h : 0x23 ≤ tag.toNat) :
    decodeTaggedNumericValue prims tag bytes = none := by
  unfold decodeTaggedNumericValue
  split <;> first | omega | rfl

theorem decodeNumericValue_of_head {text : String} {c : Char} {cs : List Char} (htext : text.toList = c :: cs)
    (hc : 0x23 ≤ c.toNat ∧ c.toNat < 128) :
    decodeNumericValue prims (utf8Bytes text) = decodeLegacyNumericValue prims (utf8Bytes text) := by
  have hbytes : utf8Bytes text = c.toNat.toUInt8 :: cs.flatMap String.utf8EncodeChar := by
    rw [utf8Bytes_eq_flatMap, htext, List.flatMap_cons, utf8EncodeChar_of_ascii hc.2]
    rfl
  have htag : 0x23 ≤ c.toNat.toUInt8.toNat := by
    simp only [Nat.toUInt8, UInt8.toNat_ofNat']
    omega
  rw [hbytes, decodeNumericValue, decodeTaggedNumericValue_eq_none htag]

theorem exists_head_toString (v : Int) : ∃ c cs, (toString v).toList = c :: cs ∧ 0x23 ≤ c.toNat ∧ c.toNat < 128 := by
  have hdigits : ∀ n, ∃ c cs, Nat.toDigits 10 n = c :: cs ∧ 0x23 ≤ c.toNat ∧ c.toNat < 128 := by
    intro n
    obtain ⟨c, cs, hcs⟩ := List.exists_cons_of_ne_nil (Nat.toDigits_ne_nil (n := n) (b := 10))
    have hdigit : c.isDigit = true :=
      Nat.isDigit_of_mem_toDigits (by decide) (by decide) (hcs ▸ List.mem_cons_self)
    have hrange : 48 ≤ c.toNat ∧ c.toNat ≤ 57 := by
      simpa [Char.isDigit, UInt32.le_iff_toNat_le] using hdigit
    exact ⟨c, cs, hcs, by omega, by omega⟩
  rw [toString_int]
  split
  · exact hdigits _
  · exact ⟨'-', _, rfl, by decide, by decide⟩

theorem decodeNumericValue_toString {v : Int} (h : -(2 ^ 127) ≤ v ∧ v < 2 ^ 127) :
    decodeNumericValue prims (utf8Bytes (toString v)) = some (.signed v) := by
  obtain ⟨c, cs, htext, hc⟩ := exists_head_toString v
  have hparse : parseI128Bytes (utf8Bytes (toString v)) = some v := by
    rw [parseI128Bytes, fromUtf8_utf8Bytes, Option.bind_some, trim_eq_self (isTrimmed_toString_int v)]
    exact parseSigned_toString h
  rw [decodeNumericValue_of_head htext hc, decodeLegacyNumericValue, hparse]

def StoredNumericValue.InRange : StoredNumericValue → Prop
  | .signed v => -(2 ^ 127) ≤ v ∧ v < 2 ^ 127
  | .unsigned n => n < 2 ^ 128
  | .float _ => True

variable {number : StoredNumericValue}

theorem inRange_of_decodeLegacyNumericValue
    (h : decodeLegacyNumericValue prims value = some number) : number.InRange := by
  unfold decodeLegacyNumericValue at h
  cases hsigned : parseI128Bytes value with
  | some v =>
    obtain ⟨text, -, hparse⟩ := Option.bind_eq_some_iff.mp hsigned
    rw [hsigned] at h
    cases h
    exact bounds_of_parseSigned hparse
  | none =>
    cases hunsigned : parseU128Bytes value with
    | some n =>
      obtain ⟨text, -, hparse⟩ := Option.bind_eq_some_iff.mp hunsigned
      rw [hsigned, hunsigned] at h
      cases h
      exact lt_of_parseUnsigned hparse
    | none =>
      rw [hsigned, hunsigned] at h
      obtain ⟨bits, -, rfl⟩ := Option.map_eq_some_iff.mp h
      trivial

theorem decodeTaggedNumericValue_cases {tag : UInt8} {bytes : Bytes}
    (h : decodeTaggedNumericValue prims tag bytes = some number) :
    bytes.length ≤ 16 ∧
      (number = .signed (leInt bytes) ∨ number = .unsigned (leNat bytes) ∨ ∃ bits, number = .float bits) := by
  unfold decodeTaggedNumericValue at h
  split at h <;> cases h <;> exact ⟨by omega, by simp⟩

theorem inRange_of_decodeTaggedNumericValue {tag : UInt8} {bytes : Bytes}
    (h : decodeTaggedNumericValue prims tag bytes = some number) : number.InRange := by
  obtain ⟨hlength, rfl | rfl | ⟨bits, rfl⟩⟩ := decodeTaggedNumericValue_cases h
  · have hpow : (256 ^ bytes.length : Int) ≤ 256 ^ 16 := pow_le_pow_right₀ (by decide) hlength
    have hbounds := leInt_bounds bytes
    refine ⟨?_, ?_⟩ <;> norm_num at hpow ⊢ <;> omega
  · exact lt_of_lt_of_le (leNat_lt bytes) ((Nat.pow_le_pow_right (by decide) hlength).trans (by decide))
  · trivial

theorem inRange_of_decodeNumericValue (h : decodeNumericValue prims value = some number) : number.InRange := by
  cases value with
  | nil =>
    rw [decodeNumericValue] at h
    exact inRange_of_decodeLegacyNumericValue h
  | cons tag bytes =>
    rw [decodeNumericValue] at h
    cases htag : decodeTaggedNumericValue prims tag bytes with
    | none => exact inRange_of_decodeLegacyNumericValue (by rwa [htag] at h)
    | some number' =>
      rw [htag] at h
      cases h
      exact inRange_of_decodeTaggedNumericValue htag

theorem decodeNumericValue_numeral (prims : ValuePrimitives) (hrange : number.InRange)
    (hfloat : ∀ bits, number ≠ .float bits) :
    ∃ number', decodeNumericValue prims (utf8Bytes (number.numeral prims)) = some number' ∧
      number'.numeral prims = number.numeral prims ∧ ∀ bits, number' ≠ .float bits := by
  cases number with
  | signed v => exact ⟨.signed v, decodeNumericValue_toString hrange, rfl, by simp⟩
  | float bits => exact absurd rfl (hfloat bits)
  | unsigned n =>
    by_cases hsmall : n < 2 ^ 127
    · refine ⟨.signed n, ?_, rfl, by simp⟩
      have hn : -(2 ^ 127) ≤ (n : Int) ∧ (n : Int) < 2 ^ 127 := by
        constructor
        · omega
        · exact_mod_cast hsmall
      exact decodeNumericValue_toString hn
    · obtain ⟨c, cs, htext, hc⟩ := exists_head_toString n
      rw [toString_natCast] at htext
      have htrim : trim (toString n) = toString n := trim_eq_self (isTrimmed_toString_int n)
      have hsigned : parseI128Bytes (utf8Bytes (toString n)) = none := by
        rw [parseI128Bytes, fromUtf8_utf8Bytes, Option.bind_some, htrim, Option.eq_none_iff_forall_ne_some]
        intro v hv
        have hn : parseSigned (2 ^ 128) (toString n) = some (n : Int) :=
          parseSigned_of_parseUnsigned (parseUnsigned_toString hrange) hrange
        have hv' := parseSigned_mono (2 ^ 128) (by decide) hv
        obtain rfl : (n : Int) = v := Option.some.inj (hn.symm.trans hv')
        exact hsmall (by exact_mod_cast (bounds_of_parseSigned hv).2)
      have hunsigned : parseU128Bytes (utf8Bytes (toString n)) = some n := by
        rw [parseU128Bytes, fromUtf8_utf8Bytes, Option.bind_some, htrim]
        exact parseUnsigned_toString hrange
      refine ⟨.unsigned n, ?_, rfl, by simp⟩
      rw [StoredNumericValue.numeral, decodeNumericValue_of_head htext hc, decodeLegacyNumericValue, hsigned, hunsigned]

theorem renderStoredFieldValue_render (hprims : prims.Lawful)
    (h : renderStoredFieldValue prims (renderStoredFieldValue prims value) = value) :
    renderStoredFieldValue prims value = value := by
  have huuid : ∀ bytes, renderStoredFieldValue prims (utf8Bytes (prims.renderUuid bytes)) =
      utf8Bytes (prims.renderUuid bytes) := by
    intro bytes
    rw [renderStoredFieldValue_eq, decodeTaggedDbUuidBinary_eq_none (hprims.length_uuid bytes),
      hprims.uuid_no_number bytes]
  rw [renderStoredFieldValue_eq value] at h ⊢
  cases htag : decodeTaggedDbUuidBinary value with
  | some bytes =>
    rw [htag] at h
    exact (huuid bytes).symm.trans h
  | none =>
    cases hnumber : decodeNumericValue prims value with
    | none => rfl
    | some number =>
      simp only [htag, hnumber] at h ⊢
      rw [renderStoredFieldValue_eq] at h
      cases htag' : decodeTaggedDbUuidBinary (utf8Bytes (number.numeral prims)) with
      | some bytes =>
        simp only [htag'] at h
        rw [← h, hprims.uuid_no_number bytes] at hnumber
        cases hnumber
      | none =>
        cases hnumber' : decodeNumericValue prims (utf8Bytes (number.numeral prims)) with
        | none => simpa only [htag', hnumber'] using h
        | some number' =>
          simp only [htag', hnumber'] at h
          rw [← h]
          by_cases hfloat : ∃ bits, number = .float bits
          · obtain ⟨bits, rfl⟩ := hfloat
            by_cases hfloat' : ∃ bits, number' = .float bits
            · obtain ⟨bits', rfl⟩ := hfloat'
              exact congrArg utf8Bytes (hprims.render_float bits bits' hnumber').symm
            · obtain ⟨read, hread, -, hint⟩ := decodeNumericValue_numeral prims
                (inRange_of_decodeNumericValue hnumber') (not_exists.mp hfloat')
              rw [h, hnumber] at hread
              cases hread
              exact absurd rfl (hint bits)
          · obtain ⟨read, hread, hsame, -⟩ := decodeNumericValue_numeral prims
              (inRange_of_decodeNumericValue hnumber) (not_exists.mp hfloat)
            rw [hnumber'] at hread
            cases hread
            rw [hsame]

/-! ### Text columns -/

/-- Columns whose values are kept as texts. -/
def IsTextLike : FieldKind → Prop
  | .stringFixed _ | .text | .enum _ => True
  | _ => False

theorem storedSlot_of_textLike {schema : TableSchema} {name : String}
    (htype : ∀ field, schema.field name = some field → IsTextLike field.fieldType) :
    storedSlot prims schema name value = value ∨
      storedSlot prims schema name value = renderStoredFieldValue prims value := by
  unfold storedSlot
  cases hfield : schema.field name with
  | none => exact .inl rfl
  | some field =>
    have htype := htype field hfield
    have hconvert : convertValueToFieldType prims value field.fieldType .safe =
        (fromUtf8 (renderStoredFieldValue prims value)).map utf8Bytes := by
      cases hkind : field.fieldType <;> simp only [hkind, IsTextLike] at htype <;>
        simp only [convertValueToFieldType] <;>
        cases fromUtf8 (renderStoredFieldValue prims value) <;> rfl
    simp only [hconvert]
    cases htext : fromUtf8 (renderStoredFieldValue prims value) with
    | none => exact .inl rfl
    | some text => exact .inr (utf8Bytes_of_fromUtf8 htext)

/-- What a text column gives back of a value that it stored is the value if and only if the value is no tagged
uuid and no number, or the numeral of the number it is. -/
theorem text_value_stored_iff (hprims : prims.Lawful) (schema : TableSchema) (row : RowMap) (name text : String)
    (hname : name ∈ fieldNamesByOrdinal schema)
    (htype : ∀ field, schema.field name = some field → IsTextLike field.fieldType)
    (hvalue : row.lookup name = some (utf8Bytes text))
    (hlimit : (encodeRowPayload prims schema row).length ≤ maxDecodeBytes) :
    ∃ decoded, decodeRowPayload schema (encodeRowPayload prims schema row) = .ok decoded ∧
      ((decoded.lookup name).map (renderStoredFieldValue prims) = some (utf8Bytes text) ↔
        RendersAsWritten prims (utf8Bytes text)) := by
  obtain ⟨decoded, hdecode, hread⟩ := decode_encodeRowPayload (List.ne_nil_of_mem hname) hlimit
  refine ⟨decoded, hdecode, ?_⟩
  rw [hread name hname, hvalue, Option.map_some, Option.map_some, Option.some.injEq,
    ← renderStoredFieldValue_eq_self_iff hprims]
  rcases storedSlot_of_textLike htype with hslot | hslot
  · rw [hslot]
  · rw [hslot]
    constructor
    · exact renderStoredFieldValue_render hprims
    · intro hrender
      rw [hrender, hrender]

theorem ValuePrimitives.lawful_plain : ValuePrimitives.plain.Lawful where
  length_uuid := fun _ => (by decide : (utf8Bytes "").length ≠ 17)
  uuid_no_number := fun _ => (by decide : decodeNumericValue .plain (utf8Bytes "") = none)
  render_float := fun _ _ _ => rfl

def noteSchema : TableSchema where
  fields := [⟨1, "note", .text, false, .none, none, none⟩]

def noteRow (note : String) : RowMap := (∅ : RowMap).insert "note" (utf8Bytes note)

theorem word_stored_as_written :
    ∃ decoded, decodeRowPayload noteSchema (encodeRowPayload .plain noteSchema (noteRow "abc")) = .ok decoded ∧
      (decoded.lookup "note").map (renderStoredFieldValue .plain) = some (utf8Bytes "abc") := by
  have htype : ∀ field, noteSchema.field "note" = some field → IsTextLike field.fieldType := by
    intro field h
    cases h
    trivial
  have hword : decodeNumericValue .plain (utf8Bytes "abc") = none := by decide +kernel
  obtain ⟨decoded, hdecode, hiff⟩ := text_value_stored_iff ValuePrimitives.lawful_plain noteSchema (noteRow "abc")
    "note" "abc" (by decide +kernel) htype (by decide +kernel) (by decide +kernel)
  exact ⟨decoded, hdecode, hiff.mpr ⟨by decide +kernel, by simp [hword]⟩⟩

theorem leading_zeros_lost :
    ∃ decoded, decodeRowPayload noteSchema (encodeRowPayload .plain noteSchema (noteRow "007")) = .ok decoded ∧
      (decoded.lookup "note").map (renderStoredFieldValue .plain) = some (utf8Bytes "7") := by
  refine ⟨_, rfl, ?_⟩
  decide +kernel

end Rendering

end DistDb
