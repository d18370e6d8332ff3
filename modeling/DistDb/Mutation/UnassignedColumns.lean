import DistDb.Mutation.Log
import DistDb.Mutation.Statement
import DistDb.Payload.Typed

/-! # Columns that an update does not assign

An update decodes a row, replaces the assigned columns and encodes all of them again, so a stored value is converted to
the type of its column at every update of the row. -/

namespace DistDb.Mutation
open Lib

/-! ## Values that are converted again -/

section Values

variable {prims : ValuePrimitives} {value stored : Bytes}

def storesText : FieldKind → Bool
  | .stringFixed _ | .text | .date | .dateTime | .timestamp | .enum _ => true
  | _ => false

/-- A number in a column of text is written as a numeral, which has to be read as a number with this numeral, and not
as a uuid. -/
def Settles (prims : ValuePrimitives) (kind : FieldKind) (value : Bytes) : Prop :=
  storesText kind = true → decodeTaggedDbUuidBinary value = none →
    ∀ number, decodeNumericValue prims value = some number →
      RendersAsWritten prims (utf8Bytes (number.numeral prims))

theorem leIntBytes_leInt (bytes : Bytes) : leIntBytes bytes.length (leInt bytes) = bytes := by
  have hlt : (leNat bytes : Int) < 256 ^ bytes.length := by exact_mod_cast leNat_lt bytes
  have hmod : leInt bytes % 256 ^ bytes.length = leNat bytes := by
    unfold leInt
    split
    · exact Int.emod_eq_of_lt (by omega) hlt
    · rw [Int.sub_emod_right]
      exact Int.emod_eq_of_lt (by omega) hlt
  rw [leIntBytes, hmod, Int.toNat_natCast, leBytes_leNat]

theorem convert_int_layout {bits : UInt8} {bytes : Bytes} (h : bytes.length = (integerLayout bits).2) :
    convertValueToFieldType prims ((integerLayout bits).1 :: bytes) (.int bits) .safe =
      some ((integerLayout bits).1 :: bytes) := by
  obtain ⟨stored, hstored⟩ := Option.isSome_iff_exists.mp (isSome_convert_of_holds rfl (@holds_int_layout prims _ _ h))
  have hread : readSigned prims ((integerLayout bits).1 :: bytes) = some (leInt bytes) := by
    rw [readSigned, decodeNumericValue_of_tagged (decodeTaggedNumericValue_layout prims h).1]
    rfl
  have hencode := hstored
  simp only [convertValueToFieldType, hread] at hencode
  rw [hstored, encodeSignedNumeric_eq_some hencode, ← h, leIntBytes_leInt]

theorem convert_uint_layout {bits : UInt8} {bytes : Bytes} (h : bytes.length = (integerLayout bits).2) :
    convertValueToFieldType prims (((integerLayout bits).1 + 0x10) :: bytes) (.uint bits) .safe =
      some (((integerLayout bits).1 + 0x10) :: bytes) := by
  obtain ⟨stored, hstored⟩ := Option.isSome_iff_exists.mp (isSome_convert_of_holds rfl (@holds_uint_layout prims _ _ h))
  have hread : (decodeNumericValue prims (((integerLayout bits).1 + 0x10) :: bytes)).bind (numericAsU128 prims) =
      some (leNat bytes) := by
    rw [decodeNumericValue_of_tagged (decodeTaggedNumericValue_layout prims h).2]
    rfl
  have hencode := hstored
  simp only [convertValueToFieldType, hread] at hencode
  rw [hstored, encodeUnsignedNumeric_eq_some hencode, ← h, leBytes_leNat]

/-- The stored form of an integer is converted to itself. -/
theorem convert_integer_stored {kind : FieldKind} {bits : UInt8} (hkind : kind = .int bits ∨ kind = .uint bits)
    (h : convertValueToFieldType prims value kind .safe = some stored) :
    convertValueToFieldType prims stored kind .safe = some stored := by
  rcases hkind with rfl | rfl
  · simp only [convertValueToFieldType] at h
    split at h
    · rw [encodeSignedNumeric_eq_some h]
      exact convert_int_layout (length_leIntBytes ..)
    · cases h
  · simp only [convertValueToFieldType] at h
    split at h
    · rw [encodeUnsignedNumeric_eq_some h]
      exact convert_uint_layout (length_leBytes ..)
    · cases h

theorem convert_uuid_stored (huuids : prims.ParsesUuids)
    (h : convertValueToFieldType prims value .uuid .safe = some stored) :
    convertValueToFieldType prims stored .uuid .safe = some stored := by
  obtain ⟨bytes, hlength, rfl⟩ := convertToUuid_cases huuids h
  simp [convertValueToFieldType, decodeDbUuidBinaryForConversion, decodeTaggedDbUuidBinary_tagged hlength]

theorem convert_text {kind : FieldKind} (h : storesText kind = true) (value : Bytes) :
    convertValueToFieldType prims value kind .safe = (fromUtf8 (renderStoredFieldValue prims value)).map utf8Bytes := by
  cases kind with
  | stringFixed | text | date | dateTime | timestamp | enum =>
    simp only [convertValueToFieldType]
    cases fromUtf8 (renderStoredFieldValue prims value) <;> rfl
  | int | uint | float | uuid | spatial | blob => cases h

def storedAs (prims : ValuePrimitives) (kind : FieldKind) (value : Bytes) : Bytes :=
  (convertValueToFieldType prims value kind .safe).getD value

theorem storedAs_text {kind : FieldKind} (h : storesText kind = true) (value : Bytes) :
    (fromUtf8 (renderStoredFieldValue prims value) = none ∧ storedAs prims kind value = value) ∨
      storedAs prims kind value = renderStoredFieldValue prims value := by
  rw [storedAs, convert_text h]
  cases htext : fromUtf8 (renderStoredFieldValue prims value) with
  | none => exact .inl ⟨rfl, rfl⟩
  | some text => exact .inr (utf8Bytes_of_fromUtf8 htext)

theorem render_eq_self_of_not_utf8 (h : fromUtf8 (renderStoredFieldValue prims value) = none) :
    renderStoredFieldValue prims value = value := by
  rw [renderStoredFieldValue_eq] at h ⊢
  cases htag : decodeTaggedDbUuidBinary value with
  | some bytes => simp [htag, fromUtf8_utf8Bytes] at h
  | none =>
    cases hnumber : decodeNumericValue prims value with
    | none => rfl
    | some number => simp [htag, hnumber, fromUtf8_utf8Bytes] at h

theorem render_render_iff (hprims : prims.Lawful) : renderStoredFieldValue prims (renderStoredFieldValue prims value) =
    renderStoredFieldValue prims value ↔ (decodeTaggedDbUuidBinary value = none →
      ∀ number, decodeNumericValue prims value = some number →
        RendersAsWritten prims (utf8Bytes (number.numeral prims))) := by
  rw [renderStoredFieldValue_eq_self_iff hprims, renderStoredFieldValue_eq value]
  cases htag : decodeTaggedDbUuidBinary value with
  | some bytes =>
    refine iff_of_true ⟨decodeTaggedDbUuidBinary_eq_none (hprims.length_uuid bytes), ?_⟩ (by simp)
    simp [hprims.uuid_no_number bytes]
  | none =>
    cases hnumber : decodeNumericValue prims value with
    | none => simp [RendersAsWritten, htag, hnumber]
    | some number => simp

theorem storedAs_again_iff (hprims : prims.Lawful) (huuids : prims.ParsesUuids) {kind : FieldKind}
    (hfloat : ∀ bits, kind ≠ .float bits) (value : Bytes) :
    storedAs prims kind (storedAs prims kind value) = storedAs prims kind value ↔ Settles prims kind value := by
  cases htext : storesText kind with
  | true =>
    rw [Settles, forall_prop_of_true htext, ← render_render_iff hprims]
    rcases storedAs_text htext value with ⟨hnone, hstored⟩ | hstored
    · have hrender := render_eq_self_of_not_utf8 hnone
      rw [hstored, hstored, hrender, hrender]
    · rw [hstored]
      rcases storedAs_text htext (renderStoredFieldValue prims value) with ⟨hnone, hagain⟩ | hagain
      · rw [hagain, render_eq_self_of_not_utf8 hnone]
      · rw [hagain]
  | false =>
    refine iff_of_true ?_ fun h => by simp [htext] at h
    cases hconvert : convertValueToFieldType prims value kind .safe with
    | none => simp [storedAs, hconvert]
    | some stored =>
      have hagain : convertValueToFieldType prims stored kind .safe = some stored := by
        cases kind with
        | int bits => exact convert_integer_stored (.inl rfl) hconvert
        | uint bits => exact convert_integer_stored (.inr rfl) hconvert
        | uuid => exact convert_uuid_stored huuids hconvert
        | float bits => exact absurd rfl (hfloat bits)
        | spatial | blob => rfl
        | stringFixed | text | date | dateTime | timestamp | enum => cases htext
      simp [storedAs, hconvert, hagain]

end Values

/-! ## Rows that are updated -/

section Rows

variable (env : WriteEnv)

def updateStored (payload : Bytes) (plan : UpdateRowsPlan) : Bytes :=
  match env.decode payload with
  | .error _ => payload
  | .ok row =>
    match prepareUpdatedRow env plan row with
    | .error _ => payload
    | .ok (encoded, _) => encoded

def storedColumn (payload : Bytes) (name : String) : Option Bytes :=
  (env.decode payload).toOption.bind (·.lookup name)

/-- The row is decoded and updated without error. -/
def IsCarriedOut (payload : Bytes) (plan : UpdateRowsPlan) : Prop :=
  ∃ row updated, env.decode payload = .ok row ∧ prepareUpdatedRow env plan row = .ok updated

/-- The value that the row has in the column settles. -/
def ColumnSettles (row : RowMap) (name : String) : Prop :=
  ∀ field, env.schema.field name = some field → ∀ value, row.lookup name = some value →
    Settles env.values field.fieldType value

variable {env} {name : String} {row : RowMap} {plan : UpdateRowsPlan} {payload : Bytes}

theorem lookup_applyUpdateAssignments {assignments : List UpdateAssignment} {updated : RowMap}
    (h : applyUpdateAssignments assignments row = .ok updated)
    (hname : ∀ assignment ∈ assignments, assignment.fieldName ≠ name) : updated.lookup name = row.lookup name := by
  induction assignments generalizing row with
  | nil =>
    cases h
    rfl
  | cons assignment assignments ih =>
    obtain ⟨hne, hrest⟩ := List.forall_mem_cons.mp hname
    rw [applyUpdateAssignments] at h
    cases hvalue : resolveUpdateAssignment row assignment.value with
    | error e => simp [hvalue] at h
    | ok value =>
      simp only [hvalue] at h
      rw [ih h hrest]
      cases value with
      | none => exact Finmap.lookup_erase_ne hne.symm
      | some value => exact Finmap.lookup_insert_of_ne _ hne.symm

theorem storedSlot_eq {schema : TableSchema} {prims : ValuePrimitives} (value : Bytes) :
    storedSlot prims schema name value =
      (schema.field name).elim value fun field => storedAs prims field.fieldType value := by
  rw [storedSlot]
  cases schema.field name <;> rfl

theorem storedSlot_again_iff (hprims : env.values.Lawful) (huuids : env.values.ParsesUuids)
    (hfloats : ∀ field ∈ env.schema.fields, ∀ bits, field.fieldType ≠ .float bits) :
    ((row.lookup name).map (storedSlot env.values env.schema name)).map (storedSlot env.values env.schema name) =
        (row.lookup name).map (storedSlot env.values env.schema name) ↔ ColumnSettles env row name := by
  unfold ColumnSettles
  cases hvalue : row.lookup name with
  | none => simp
  | some value =>
    simp only [Option.map_some, Option.some.injEq, storedSlot_eq]
    cases hfield : env.schema.field name with
    | none => simp
    | some field =>
      have hmem : field ∈ env.schema.fields := List.mem_of_find?_eq_some hfield
      simpa using storedAs_again_iff hprims huuids (hfloats field hmem) value

def HoldsColumn (env : WriteEnv) (name : String) (row : RowMap) (payload : Bytes) : Prop :=
  ∃ decoded, env.decode payload = .ok decoded ∧
    decoded.lookup name = (row.lookup name).map (storedSlot env.values env.schema name)

theorem holdsColumn_encode (hname : name ∈ fieldNamesByOrdinal env.schema)
    (hlimit : (env.encode row).length ≤ maxDecodeBytes) : HoldsColumn env name row (env.encode row) := by
  obtain ⟨decoded, hdecode, hlookup⟩ := decode_encodeRowPayload (List.ne_nil_of_mem hname) hlimit
  exact ⟨decoded, hdecode, hlookup name hname⟩

theorem HoldsColumn.storedColumn_eq (h : HoldsColumn env name row payload) :
    storedColumn env payload name = (row.lookup name).map (storedSlot env.values env.schema name) := by
  obtain ⟨decoded, hdecode, hlookup⟩ := h
  rw [storedColumn, hdecode]
  exact hlookup

theorem HoldsColumn.updateStored_cases (h : HoldsColumn env name row payload)
    (hname : name ∈ fieldNamesByOrdinal env.schema)
    (hassign : ∀ assignment ∈ plan.assignments, assignment.fieldName ≠ name)
    (hlimit : (updateStored env payload plan).length ≤ maxDecodeBytes) :
    (¬ IsCarriedOut env payload plan ∧ updateStored env payload plan = payload) ∨
      IsCarriedOut env payload plan ∧ ∃ decoded, env.decode (updateStored env payload plan) = .ok decoded ∧
        decoded.lookup name =
          ((row.lookup name).map (storedSlot env.values env.schema name)).map
          (storedSlot env.values env.schema name) := by
  obtain ⟨decoded, hdecode, hlookup⟩ := h
  cases hprepare : prepareUpdatedRow env plan decoded with
  | error e =>
    refine .inl ⟨?_, by simp [updateStored, hdecode, hprepare]⟩
    rintro ⟨row', updated, hrow', hupdated⟩
    cases hdecode.symm.trans hrow'
    cases hprepare.symm.trans hupdated
  | ok updated =>
    have hstored : updateStored env payload plan = updated.1 := by simp [updateStored, hdecode, hprepare]
    obtain ⟨updatedRow, happly, hencoded⟩ := prepareUpdatedRow_fst hprepare
    rw [hstored, hencoded] at hlimit ⊢
    obtain ⟨again, hagain, hlookup'⟩ := holdsColumn_encode hname hlimit
    refine .inr ⟨⟨decoded, updated, hdecode, hprepare⟩, again, hagain, ?_⟩
    rw [hlookup', lookup_applyUpdateAssignments happly hassign, hlookup]

theorem HoldsColumn.updateStored_iff (h : HoldsColumn env name row payload)
    (hprims : env.values.Lawful) (huuids : env.values.ParsesUuids)
    (hfloats : ∀ field ∈ env.schema.fields, ∀ bits, field.fieldType ≠ .float bits)
    (hname : name ∈ fieldNamesByOrdinal env.schema)
    (hassign : ∀ assignment ∈ plan.assignments, assignment.fieldName ≠ name)
    (hlimit : (updateStored env payload plan).length ≤ maxDecodeBytes) :
    ((IsCarriedOut env payload plan → ColumnSettles env row name) →
        HoldsColumn env name row (updateStored env payload plan)) ∧
      (storedColumn env (updateStored env payload plan) name =
        (row.lookup name).map (storedSlot env.values env.schema name) →
          IsCarriedOut env payload plan → ColumnSettles env row name) := by
  have hsettles : ((row.lookup name).map (storedSlot env.values env.schema name)).map
      (storedSlot env.values env.schema name) = (row.lookup name).map (storedSlot env.values env.schema name) ↔
        ColumnSettles env row name := storedSlot_again_iff hprims huuids hfloats
  rcases h.updateStored_cases hname hassign hlimit with ⟨hnot, hsame⟩ | ⟨hcarried, decoded, hdecode, hlookup⟩
  · rw [hsame]
    exact ⟨fun _ => h, fun _ hcarried => absurd hcarried hnot⟩
  · refine ⟨fun hcondition => ⟨decoded, hdecode, ?_⟩, fun hcolumn _ => ?_⟩
    · rw [hlookup, hsettles]
      exact hcondition hcarried
    · rw [storedColumn, hdecode] at hcolumn
      rw [← hsettles, ← hlookup]
      exact hcolumn

end Rows

/-- Throughout a sequence of updates of a stored row that do not assign a column, the column holds what it held at the
start if and only if no update is carried out or the value settles with the first encoding. -/
theorem unassigned_column_kept_iff (env : WriteEnv) (hprims : env.values.Lawful) (huuids : env.values.ParsesUuids)
    (hfloats : ∀ field ∈ env.schema.fields, ∀ bits, field.fieldType ≠ .float bits) (row : RowMap) (name : String)
    (hname : name ∈ fieldNamesByOrdinal env.schema) (plans : List UpdateRowsPlan)
    (hassign : ∀ plan ∈ plans, ∀ assignment ∈ plan.assignments, assignment.fieldName ≠ name)
    (hlimit : ∀ n, (runFrom (updateStored env) (env.encode row) (plans.take n)).length ≤ maxDecodeBytes) :
    (∀ n, storedColumn env (runFrom (updateStored env) (env.encode row) (plans.take n)) name =
        storedColumn env (env.encode row) name) ↔
      Along (updateStored env) (fun payload plan => IsCarriedOut env payload plan → ColumnSettles env row name)
        (env.encode row) plans := by
  have hstart : HoldsColumn env name row (env.encode row) := holdsColumn_encode hname (hlimit 0)
  have hrun : Along (updateStored env) (fun payload plan =>
      (∀ assignment ∈ plan.assignments, assignment.fieldName ≠ name) ∧
        (updateStored env payload plan).length ≤ maxDecodeBytes) (env.encode row) plans :=
    along_of_forall_take (A := fun payload : Bytes => payload.length ≤ maxDecodeBytes) hlimit hassign
  rw [hstart.storedColumn_eq]
  refine Along.forall_take_iff (I := HoldsColumn env name row) (A := fun payload => storedColumn env payload name =
    (row.lookup name).map (storedSlot env.values env.schema name)) (fun payload plan hstep h => ?_)
    (fun payload h => h.storedColumn_eq) hrun hstart
  exact h.updateStored_iff hprims huuids hfloats hname hstep.1 hstep.2

/-! ## A row with a note -/

def uuidText (bytes : Bytes) : String :=
  let digits := bytes.flatMap fun byte => [(byte / 16).toNat.digitChar, (byte % 16).toNat.digitChar]
  .ofList (digits.take 8 ++ '-' :: (digits.drop 8).take 4 ++ '-' :: (digits.drop 12).take 4 ++
    '-' :: (digits.drop 16).take 4 ++ '-' :: digits.drop 20)

def notesTable : DatabaseTable where
  tableId := "notes"
  schema := ⟨[⟨1, "note", .text, true, .none, none, none⟩, ⟨2, "n", .int 32, true, .none, none, none⟩]⟩
  indexes := []
  nodup_indexIds := by decide

def notesEnv (values : ValuePrimitives) : WriteEnv :=
  ⟨notesTable, values, .plain, default, fun _ _ => none, fun _ => 0, 1⟩

def notedRow (note : String) : RowMap := ((∅ : RowMap).insert "note" (utf8Bytes note)).insert "n" (utf8Bytes "1")

/-- `UPDATE notes SET n = …` -/
def countNote (n : String) : UpdateRowsPlan :=
  ⟨⟨fun _ => .ok [], false, fun _ _ => true, none, none⟩, [⟨"n", .literal (some (utf8Bytes n))⟩], none⟩

theorem settles_word : ColumnSettles (notesEnv .plain) (notedRow "abc") "note" := by
  intro field _ value hvalue _ _ number hnumber
  have hword : (notedRow "abc").lookup "note" = some (utf8Bytes "abc") := by decide +kernel
  obtain rfl := Option.some.inj (hword.symm.trans hvalue)
  have hnone : decodeNumericValue .plain (utf8Bytes "abc") = none := by decide +kernel
  cases hnone.symm.trans hnumber

theorem word_kept : "note" ∈ fieldNamesByOrdinal (notesEnv .plain).schema ∧
    ∀ n, storedColumn (notesEnv .plain) (runFrom (updateStored (notesEnv .plain)) ((notesEnv .plain).encode
      (notedRow "abc")) ([countNote "2", countNote "3"].take n)) "note" =
      storedColumn (notesEnv .plain) ((notesEnv .plain).encode (notedRow "abc")) "note" := by
  have hname : "note" ∈ fieldNamesByOrdinal (notesEnv .plain).schema := by decide +kernel
  refine ⟨hname, (unassigned_column_kept_iff (notesEnv .plain) ValuePrimitives.lawful_plain (fun _ _ h => by cases h) ?_
    (notedRow "abc") "note" hname [countNote "2", countNote "3"] ?_ ?_).mpr
      ⟨fun _ => settles_word, fun _ => settles_word, trivial⟩⟩
  · simp [notesEnv, WriteEnv.schema, notesTable]
  · simp [countNote]
  · intro n
    match n with
    | 0 | 1 => decide +kernel
    | n + 2 =>
      rw [List.take_of_length_le (by simp)]
      decide +kernel

/-- A numeral of 17 digits that begins with 1 is taken for a uuid when the row is next encoded. -/
theorem numeral_becomes_uuid :
    let env := notesEnv { ValuePrimitives.plain with renderUuid := uuidText }
    let stored := env.encode (notedRow " 12345678901234567")
    storedColumn env stored "note" = some (utf8Bytes "12345678901234567") ∧
      storedColumn env (updateStored env stored (countNote "2")) "note" =
        some (utf8Bytes "32333435-3637-3839-3031-323334353637") := by
  refine ⟨?_, ?_⟩ <;> decide +kernel

end DistDb.Mutation
