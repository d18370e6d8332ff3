import DistDb.Payload.RoundTrip
import DistDb.Table.RuntimeIndex

/-! # Payloads of earlier schema versions

The decoder knows the newer schema only, and takes the slots of a payload by position or by sequence number. -/

namespace DistDb.Catalog
open Lib

/-! ## Changes of a schema -/

inductive SchemaError where
  | duplicateField
  | fieldNotFound
  | seqnoConflict
  | invalidFieldType
  | invalidFieldName
  deriving DecidableEq, Repr

def normalizeFieldName (name : String) : Except SchemaError String :=
  if toAsciiLowercase (trim name) = "" then .error .invalidFieldName else .ok (toAsciiLowercase (trim name))

def validateFieldKind : FieldKind → Except SchemaError Unit
  | .int bits | .uint bits | .float bits =>
    if bits ∈ [8, 16, 32, 64] then .ok () else .error .invalidFieldType
  | .stringFixed len => if len = 0 then .error .invalidFieldType else .ok ()
  | .enum variants =>
    if variants = [] ∨ variants.any (trim · = "") then .error .invalidFieldType else .ok ()
  | .date | .dateTime | .timestamp | .uuid | .text | .spatial | .blob => .ok ()

def checkedField (field : FieldDef) : Except SchemaError FieldDef := do
  let fieldName ← normalizeFieldName field.fieldName
  validateFieldKind field.fieldType
  return { field with fieldName := fieldName }

def addField (schema : TableSchema) (field : FieldDef) : Except SchemaError TableSchema := do
  let field ← checkedField field
  if schema.fields.any (·.fieldName = field.fieldName) then .error .duplicateField
  else if schema.fields.any (·.seqno = field.seqno) then .error .seqnoConflict
  else .ok ⟨schema.fields ++ [field]⟩

def removeField (schema : TableSchema) (name : String) : Except SchemaError TableSchema :=
  if schema.fields.any (·.fieldName = toAsciiLowercase (trim name)) then
    .ok ⟨schema.fields.eraseP (·.fieldName = toAsciiLowercase (trim name))⟩
  else .error .fieldNotFound

end DistDb.Catalog

namespace DistDb
open Lib Catalog

/-! ## Versions -/

def TableSchema.fieldNames (schema : TableSchema) : List String := schema.fields.map (·.fieldName)

def maxSeqno (schema : TableSchema) : Nat := (schema.fields.map fun field => field.seqno.toNat).foldl max 0

def nextSeqno (schema : TableSchema) : UInt32 := UInt32.ofNat (min (maxSeqno schema + 1) (2 ^ 32 - 1))

inductive ColumnChange where
  | addField (field : FieldDef)
  | dropField (name : String)

/-- A change that is rejected leaves the schema as it was. -/
def ColumnChange.apply (schema : TableSchema) : ColumnChange → TableSchema
  | .addField field =>
    match Catalog.addField schema { field with seqno := nextSeqno schema } with
    | .ok changed => changed
    | .error _ => schema
  | .dropField name =>
    match removeField schema name with
    | .ok changed => changed
    | .error _ => schema

def versionAt (initial : TableSchema) (history : List ColumnChange) (k : Nat) : TableSchema :=
  (history.take k).foldl ColumnChange.apply initial

/-- The column of version `i` is still the column of that name in version `j`: a column that is dropped and added
again is another one. -/
def Survives (initial : TableSchema) (history : List ColumnChange) (i j : Nat) (name : String) : Prop :=
  ∀ k ∈ Finset.Icc i j, name ∈ (versionAt initial history k).fieldNames

instance {initial : TableSchema} {history : List ColumnChange} {i j : Nat} {name : String} :
    Decidable (Survives initial history i j name) :=
  inferInstanceAs (Decidable (∀ k ∈ Finset.Icc i j, name ∈ (versionAt initial history k).fieldNames))

section Names

variable {schema changed : TableSchema} {field : FieldDef} {name : String}

theorem seqno_checkedField {checked : FieldDef} (h : checkedField field = .ok checked) :
    checked.seqno = field.seqno := by
  unfold checkedField at h
  cases hname : normalizeFieldName field.fieldName with
  | error e => rw [hname] at h; cases h
  | ok name =>
    rw [hname] at h
    cases hkind : validateFieldKind field.fieldType with
    | error e => simp [bind, Except.bind, hkind] at h
    | ok _ =>
      simp only [bind, Except.bind, hkind, pure, Except.pure, Except.ok.injEq] at h
      rw [← h]

theorem addField_eq_ok (h : Catalog.addField schema field = .ok changed) :
    ∃ added, added.fieldName ∉ schema.fieldNames ∧ (∀ other ∈ schema.fields, other.seqno ≠ field.seqno) ∧
      added.seqno = field.seqno ∧ changed.fields = schema.fields ++ [added] := by
  unfold Catalog.addField at h
  cases hchecked : checkedField field with
  | error e => rw [hchecked] at h; cases h
  | ok added =>
    rw [hchecked] at h
    simp only [bind, Except.bind] at h
    split at h
    · cases h
    · next hname =>
        split at h
        · cases h
        · next hseqno =>
            cases h
            have hsame := seqno_checkedField hchecked
            refine ⟨added, ?_, ?_, hsame, rfl⟩
            · intro hmem
              obtain ⟨other, hother, heq⟩ := List.mem_map.mp hmem
              exact hname (List.any_eq_true.mpr ⟨other, hother, decide_eq_true heq⟩)
            · intro other hother heq
              exact hseqno (List.any_eq_true.mpr ⟨other, hother, decide_eq_true (heq.trans hsame.symm)⟩)

theorem fields_sublist_of_removeField (h : removeField schema name = .ok changed) :
    changed.fields.Sublist schema.fields := by
  unfold removeField at h
  split at h
  · cases h
    exact List.eraseP_sublist
  · cases h

theorem ColumnChange.nodup_apply (change : ColumnChange) (h : schema.fieldNames.Nodup) :
    (change.apply schema).fieldNames.Nodup := by
  cases change with
  | addField field =>
    simp only [apply]
    split
    · next changed hadd =>
        obtain ⟨added, hname, -, -, hfields⟩ := addField_eq_ok hadd
        rw [TableSchema.fieldNames, hfields, List.map_append]
        exact List.nodup_append.mpr ⟨h, List.nodup_singleton _, fun other hother same hsame => by
          rw [List.map_singleton, List.mem_singleton] at hsame
          rw [hsame]
          exact fun heq => hname (heq ▸ hother)⟩
    · exact h
  | dropField name =>
    simp only [apply]
    split
    · next changed hremove => exact ((fields_sublist_of_removeField hremove).map _).nodup h
    · exact h

theorem nodup_versionAt {initial : TableSchema} (h : initial.fieldNames.Nodup) (history : List ColumnChange) (k : Nat) :
    (versionAt initial history k).fieldNames.Nodup := by
  unfold versionAt
  induction history.take k generalizing initial with
  | nil => exact h
  | cons change changes ih => exact ih (change.nodup_apply h)

end Names

/-! ## Slots -/

/-- Where the decoder under `reader` looks for its columns in a payload of `writer`, it finds those that survived
and nothing for the others. -/
def SlotsAgree (writer reader : TableSchema) (Survives : String → Prop) : Prop :=
  if useSeqnoSlotDecoding writer.fields.length reader.fields.length (maxSeqno reader) then
    ∀ field ∈ reader.fields,
      (Survives field.fieldName → 0 < field.seqno.toNat ∧
        (fieldNamesByOrdinal writer)[field.seqno.toNat - 1]? = some field.fieldName) ∧
      (¬ Survives field.fieldName → field.seqno.toNat = 0 ∨ writer.fields.length < field.seqno.toNat)
  else
    ∀ position name, (fieldNamesByOrdinal reader)[position]? = some name →
      (Survives name → (fieldNamesByOrdinal writer)[position]? = some name) ∧
      (¬ Survives name → writer.fields.length ≤ position)

/-- A row of `writer` is read under `reader` with the stored values of the columns that survived, and no others. -/
def ReadsSurvivors (prims : ValuePrimitives) (writer reader : TableSchema) (Survives : String → Prop) (row : RowMap) :
    Prop :=
  ∃ decoded, decodeRowPayload reader (encodeRowPayload prims writer row) = .ok decoded ∧
    (∀ key ∈ decoded, key ∈ reader.fieldNames) ∧
    ∀ name ∈ reader.fieldNames,
      (Survives name → decoded.lookup name = (row.lookup name).map (storedSlot prims writer name)) ∧
      (¬ Survives name → decoded.lookup name = none)

section Slots

variable {prims : ValuePrimitives} {writer reader : TableSchema} {Surviving : String → Prop} {row : RowMap}
  {name : String} {position : Nat}

theorem length_fieldNamesByOrdinal (schema : TableSchema) :
    (fieldNamesByOrdinal schema).length = schema.fields.length := by
  rw [(perm_fieldNamesByOrdinal schema).length_eq, List.length_map]

theorem rowIndexForField_eq_some_iff (hnodup : reader.fieldNames.Nodup) {payloadLen : Nat} :
    rowIndexForField (rowPayloadSchemaCache reader) name payloadLen = some position ↔
      if useSeqnoSlotDecoding payloadLen reader.fields.length (maxSeqno reader) then
        ∃ field ∈ reader.fields, field.fieldName = name ∧ field.seqno.toNat = position + 1
      else (fieldNamesByOrdinal reader)[position]? = some name := by
  have hcount : (rowPayloadSchemaCache reader).orderedFieldNames.length = reader.fields.length :=
    length_fieldNamesByOrdinal reader
  have hmax : (rowPayloadSchemaCache reader).maxSeqno = maxSeqno reader := rfl
  rw [rowIndexForField, hcount, hmax]
  split
  · have hpairs : ((reader.fields.filterMap fun field => if field.seqno = 0 then none
        else some (field.fieldName, field.seqno.toNat - 1)).map Prod.fst).Nodup := by
      have hfilter : (reader.fields.filterMap fun field => if field.seqno = 0 then none
          else some (field.fieldName, field.seqno.toNat - 1)).map Prod.fst =
          (reader.fields.filter (·.seqno ≠ 0)).map (·.fieldName) := by
        induction reader.fields with
        | nil => rfl
        | cons field fields ih => by_cases hzero : field.seqno = 0 <;> simp [hzero, ih]
      rw [hfilter]
      exact (List.filter_sublist.map _).nodup hnodup
    refine (lookup_collectMap_of_nodup hpairs).trans ?_
    rw [List.mem_filterMap]
    refine exists_congr fun field => and_congr_right fun _ => ?_
    have hzero : field.seqno = 0 ↔ field.seqno.toNat = 0 := by rw [← UInt32.toNat_inj]; rfl
    split
    · next h =>
        have := hzero.mp h
        simp only [reduceCtorEq, false_iff, not_and]
        omega
    · next h =>
        have := mt hzero.mpr h
        rw [Option.some.injEq, Prod.mk.injEq]
        exact and_congr_right fun _ => by omega
  · have hpairs : ((fieldNamesByOrdinal reader).zipIdx.map Prod.fst).Nodup := by
      rw [List.zipIdx_map_fst]
      exact (perm_fieldNamesByOrdinal reader).nodup_iff.mpr hnodup
    refine (lookup_collectMap_of_nodup hpairs).trans ?_
    rw [List.mk_mem_zipIdx_iff_getElem?]

theorem mem_fieldNamesByOrdinal {schema : TableSchema} : name ∈ fieldNamesByOrdinal schema ↔ name ∈ schema.fieldNames :=
  (perm_fieldNamesByOrdinal schema).mem_iff

theorem slotsAgree_iff (hnodup : reader.fieldNames.Nodup) :
    SlotsAgree writer reader Surviving ↔ ∀ name ∈ reader.fieldNames,
      (Surviving name → ∃ position, rowIndexForField (rowPayloadSchemaCache reader) name writer.fields.length =
          some position ∧ (fieldNamesByOrdinal writer)[position]? = some name) ∧
      (¬ Surviving name → ∀ position, rowIndexForField (rowPayloadSchemaCache reader) name writer.fields.length =
          some position → (fieldNamesByOrdinal writer)[position]? = none) := by
  have hnone : ∀ position, (fieldNamesByOrdinal writer)[position]? = none ↔ writer.fields.length ≤ position := by
    intro position
    rw [List.getElem?_eq_none_iff, length_fieldNamesByOrdinal]
  simp only [rowIndexForField_eq_some_iff hnodup, hnone]
  unfold SlotsAgree
  split
  · constructor
    · intro h name hname
      obtain ⟨field, hfield, rfl⟩ := List.mem_map.mp hname
      refine ⟨fun hsurvives => ?_, ?_⟩
      · obtain ⟨hpos, hslot⟩ := (h field hfield).1 hsurvives
        exact ⟨field.seqno.toNat - 1, ⟨field, hfield, rfl, by omega⟩, hslot⟩
      · rintro hsurvives position ⟨other, hother, hname, hseqno⟩
        cases List.inj_on_of_nodup_map hnodup hother hfield hname
        rcases (h field hfield).2 hsurvives with hzero | hlarge
        · omega
        · omega
    · intro h field hfield
      obtain ⟨hfound, hmissing⟩ := h field.fieldName (List.mem_map_of_mem hfield)
      refine ⟨fun hsurvives => ?_, fun hsurvives => ?_⟩
      · obtain ⟨position, ⟨other, hother, hname, hseqno⟩, hslot⟩ := hfound hsurvives
        cases List.inj_on_of_nodup_map hnodup hother hfield hname
        rw [hseqno, Nat.add_sub_cancel]
        exact ⟨Nat.succ_pos _, hslot⟩
      · by_cases hzero : field.seqno.toNat = 0
        · exact .inl hzero
        · have hlarge := hmissing hsurvives (field.seqno.toNat - 1) ⟨field, hfield, rfl, by omega⟩
          exact .inr (by omega)
  · constructor
    · intro h name hname
      obtain ⟨position, hposition⟩ := List.mem_iff_getElem?.mp (mem_fieldNamesByOrdinal.mpr hname)
      exact ⟨fun hsurvives => ⟨position, hposition, (h position name hposition).1 hsurvives⟩,
        fun hsurvives other hother => (h other name hother).2 hsurvives⟩
    · intro h position name hposition
      have hname := mem_fieldNamesByOrdinal.mp (List.mem_of_getElem? hposition)
      refine ⟨fun hsurvives => ?_, fun hsurvives => (h name hname).2 hsurvives position hposition⟩
      obtain ⟨other, hother, hslot⟩ := (h name hname).1 hsurvives
      have horder := (perm_fieldNamesByOrdinal reader).nodup_iff.mpr hnodup
      have hlt := (List.getElem?_eq_some_iff.mp hposition).1
      rwa [(List.getElem?_inj hlt horder).mp (hposition.trans hother.symm)]

def probeRow (name : String) : RowMap := (∅ : RowMap).insert name []

theorem lookup_probeRow (name other : String) :
    (probeRow name).lookup other = if other = name then some [] else none := by
  by_cases h : other = name
  · rw [h, if_pos rfl, probeRow, Finmap.lookup_insert]
  · rw [if_neg h, probeRow, Finmap.lookup_insert_of_ne _ h, Finmap.lookup_empty]

theorem mem_probeRow {name key : String} : key ∈ probeRow name ↔ key = name := by
  simp [probeRow, Finmap.mem_insert, Finmap.notMem_empty]

theorem encodeRowPayload_of_keys (hkeys : ∀ key ∈ row, key ∈ writer.fieldNames) :
    encodeRowPayload prims writer row = OrdinalRowPayload.codec.encode ((fieldNamesByOrdinal writer).map
      fun name => (row.lookup name).map (storedSlot prims writer name)) := by
  rw [encodeRowPayload, if_neg]
  rintro ⟨hfields, hrow⟩
  refine hrow (Finmap.ext_lookup fun key => ?_)
  rw [Finmap.lookup_empty, Finmap.lookup_eq_none]
  intro hkey
  have hmem := mem_fieldNamesByOrdinal.mpr (hkeys key hkey)
  rw [hfields] at hmem
  cases hmem

theorem decode_encode_of_versions (prims : ValuePrimitives) (reader : TableSchema)
    (hkeys : ∀ key ∈ row, key ∈ writer.fieldNames)
    (hlimit : (encodeRowPayload prims writer row).length ≤ maxDecodeBytes) :
    ∃ decoded, decodeRowPayload reader (encodeRowPayload prims writer row) = .ok decoded ∧
      (∀ key ∈ decoded, key ∈ reader.fieldNames) ∧
      ∀ name ∈ reader.fieldNames, decoded.lookup name =
        (rowIndexForField (rowPayloadSchemaCache reader) name writer.fields.length).bind fun position =>
          (fieldNamesByOrdinal writer)[position]?.bind fun written =>
            (row.lookup written).map (storedSlot prims writer written) := by
  rw [encodeRowPayload_of_keys hkeys] at hlimit ⊢
  have hshape := OrdinalRowPayload.codec.deserialize_encode_of_le (by decide) hlimit
  refine ⟨_, decodeRowPayload_of_ordinal hshape, fun key hkey => ?_, fun name hname => ?_⟩
  · by_contra hname
    have hnone : key ∉ (rowPayloadSchemaCache reader).orderedFieldNames := mt mem_fieldNamesByOrdinal.mp hname
    exact Finmap.lookup_eq_none.mp (lookup_rowOfSlots_eq_none hnone) hkey
  · have hordered : name ∈ (rowPayloadSchemaCache reader).orderedFieldNames := mem_fieldNamesByOrdinal.mpr hname
    rw [lookup_rowOfSlots hordered, List.length_map, length_fieldNamesByOrdinal]
    refine Option.bind_congr fun position _ => ?_
    rw [List.getElem?_map]
    cases (fieldNamesByOrdinal writer)[position]? <;> rfl

theorem readsSurvivors_of_slotsAgree (hnodup : reader.fieldNames.Nodup) (h : SlotsAgree writer reader Surviving)
    (hkeys : ∀ key ∈ row, key ∈ writer.fieldNames)
    (hlimit : (encodeRowPayload prims writer row).length ≤ maxDecodeBytes) :
    ReadsSurvivors prims writer reader Surviving row := by
  obtain ⟨decoded, hdecode, honly, hread⟩ := decode_encode_of_versions prims reader hkeys hlimit
  refine ⟨decoded, hdecode, honly, fun name hname => ?_⟩
  obtain ⟨hfound, hmissing⟩ := (slotsAgree_iff hnodup).mp h name hname
  rw [hread name hname]
  constructor
  · intro hsurvives
    obtain ⟨position, hposition, hslot⟩ := hfound hsurvives
    rw [hposition, Option.bind_some, hslot, Option.bind_some]
  · intro hsurvives
    cases hposition : rowIndexForField (rowPayloadSchemaCache reader) name writer.fields.length with
    | none => rfl
    | some position => rw [Option.bind_some, hmissing hsurvives position hposition, Option.bind_none]

theorem slotsAgree_of_probes (hnodup : reader.fieldNames.Nodup)
    (hwritten : ∀ name, Surviving name → name ∈ writer.fieldNames)
    (hlimit : ∀ name ∈ writer.fieldNames, (encodeRowPayload prims writer (probeRow name)).length ≤ maxDecodeBytes)
    (h : ∀ name ∈ writer.fieldNames, ReadsSurvivors prims writer reader Surviving (probeRow name)) :
    SlotsAgree writer reader Surviving := by
  have hprobe : ∀ probe ∈ writer.fieldNames, ∀ name ∈ reader.fieldNames,
      ∃ value : Option Bytes, value = ((rowIndexForField (rowPayloadSchemaCache reader) name writer.fields.length).bind
          fun position => (fieldNamesByOrdinal writer)[position]?.bind fun written =>
            ((probeRow probe).lookup written).map (storedSlot prims writer written)) ∧
        (Surviving name → value = ((probeRow probe).lookup name).map (storedSlot prims writer name)) ∧
        (¬ Surviving name → value = none) := by
    intro probe hmem name hname
    have hkeys : ∀ key ∈ probeRow probe, key ∈ writer.fieldNames := by
      intro key hkey
      rwa [mem_probeRow.mp hkey]
    obtain ⟨decoded, hdecode, -, hread⟩ := decode_encode_of_versions prims reader hkeys (hlimit probe hmem)
    obtain ⟨decoded', hdecode', -, hright⟩ := h probe hmem
    rw [hdecode] at hdecode'
    cases hdecode'
    exact ⟨_, hread name hname, hright name hname⟩
  refine (slotsAgree_iff hnodup).mpr fun name hname => ⟨fun hsurvives => ?_, fun hsurvives position hposition => ?_⟩
  · obtain ⟨value, hslot, hvalue, -⟩ := hprobe name (hwritten name hsurvives) name hname
    rw [hvalue hsurvives, lookup_probeRow, if_pos rfl, Option.map_some] at hslot
    obtain ⟨position, hposition, hbind⟩ := Option.bind_eq_some_iff.mp hslot.symm
    obtain ⟨written, hwritten, hlookup⟩ := Option.bind_eq_some_iff.mp hbind
    have hsame : written = name := by
      by_contra hne
      rw [lookup_probeRow, if_neg hne] at hlookup
      cases hlookup
    exact ⟨position, hposition, hsame ▸ hwritten⟩
  · cases hslot : (fieldNamesByOrdinal writer)[position]? with
    | none => rfl
    | some written =>
      have hmem := mem_fieldNamesByOrdinal.mp (List.mem_of_getElem? hslot)
      obtain ⟨value, hread, -, hvalue⟩ := hprobe written hmem name hname
      rw [hvalue hsurvives, hposition, Option.bind_some, hslot, Option.bind_some, lookup_probeRow, if_pos rfl] at hread
      cases hread

end Slots

/-! ## Additions only -/

section Additions

theorem orderedInsert_concat {α : Type*} {r : α → α → Prop} [DecidableRel r] {a x : α} (h : r a x) (ys : List α) :
    (ys ++ [x]).orderedInsert r a = ys.orderedInsert r a ++ [x] := by
  induction ys with
  | nil => simp [h]
  | cons y ys ih =>
    rw [List.cons_append, List.orderedInsert_cons, List.orderedInsert_cons, ih]
    split <;> rfl

theorem insertionSort_concat {α : Type*} {r : α → α → Prop} [DecidableRel r] {xs : List α} {x : α}
    (h : ∀ a ∈ xs, r a x) : (xs ++ [x]).insertionSort r = xs.insertionSort r ++ [x] := by
  induction xs with
  | nil => rfl
  | cons a xs ih =>
    rw [List.cons_append, List.insertionSort_cons, List.insertionSort_cons,
      ih fun b hb => h b (List.mem_cons_of_mem _ hb), orderedInsert_concat (h a List.mem_cons_self)]

theorem seqno_le_maxSeqno {schema : TableSchema} {field : FieldDef} (h : field ∈ schema.fields) :
    field.seqno.toNat ≤ maxSeqno schema := by
  have hfold : ∀ (seqnos : List Nat) (start : Nat), start ≤ seqnos.foldl max start ∧
      ∀ seqno ∈ seqnos, seqno ≤ seqnos.foldl max start := by
    intro seqnos
    induction seqnos with
    | nil => exact fun start => ⟨le_rfl, fun _ h => absurd h List.not_mem_nil⟩
    | cons first seqnos ih =>
      intro start
      obtain ⟨hstart, hrest⟩ := ih (max start first)
      refine ⟨(le_max_left _ _).trans hstart, fun seqno hseqno => ?_⟩
      rcases List.mem_cons.mp hseqno with rfl | hseqno
      · exact (le_max_right _ _).trans hstart
      · exact hrest seqno hseqno
  exact (hfold _ 0).2 _ (List.mem_map_of_mem h)

theorem fieldNamesByOrdinal_addField (schema : TableSchema) (field : FieldDef) :
    fieldNamesByOrdinal schema <+: fieldNamesByOrdinal ((ColumnChange.addField field).apply schema) := by
  simp only [ColumnChange.apply]
  split
  · next changed hadd =>
      obtain ⟨added, -, hfresh, hseqno, hfields⟩ := addField_eq_ok hadd
      have hlast : ∀ other ∈ schema.fields, other.seqno.toNat < added.seqno.toNat := by
        intro other hother
        have hle := seqno_le_maxSeqno hother
        have hlt := other.seqno.toNat_lt
        have hnext : added.seqno.toNat = min (maxSeqno schema + 1) (2 ^ 32 - 1) := by
          rw [hseqno, nextSeqno, UInt32.toNat_ofNat']
          omega
        have hne : other.seqno.toNat ≠ added.seqno.toNat := by
          rw [hseqno]
          exact fun heq => hfresh other hother (UInt32.toNat_inj.mp heq)
        omega
      refine ⟨[added.fieldName], ?_⟩
      rw [fieldNamesByOrdinal, fieldNamesByOrdinal, hfields, List.map_append, List.map_singleton, insertionSort_concat,
        List.map_append, List.map_singleton]
      intro entry hentry
      obtain ⟨other, hother, rfl⟩ := List.mem_map.mp hentry
      exact .inl (hlast other hother)
  · exact List.prefix_rfl

variable {initial : TableSchema} {history : List ColumnChange} {i j : Nat}

theorem prefix_of_additions (hij : i ≤ j)
    (hadds : ∀ change ∈ (history.take j).drop i, ∃ field, change = ColumnChange.addField field) :
    fieldNamesByOrdinal (versionAt initial history i) <+: fieldNamesByOrdinal (versionAt initial history j) := by
  have hsplit : history.take j = history.take i ++ (history.take j).drop i := by
    conv_lhs => rw [← List.take_append_drop i (history.take j), List.take_take, min_eq_left hij]
  rw [versionAt, versionAt, hsplit, List.foldl_append]
  generalize (history.take i).foldl ColumnChange.apply initial = schema
  generalize (history.take j).drop i = changes at hadds
  induction changes generalizing schema with
  | nil => exact List.prefix_rfl
  | cons change changes ih =>
    obtain ⟨field, rfl⟩ := hadds change List.mem_cons_self
    have hrest := ih ((ColumnChange.addField field).apply schema)
      fun other hother => hadds other (List.mem_cons_of_mem _ hother)
    rw [List.foldl_cons]
    exact (fieldNamesByOrdinal_addField schema field).trans hrest

/-- Since the row was written columns have only been added: the decoder looks in the right slots. -/
theorem slotsAgree_of_additions (hnodup : initial.fieldNames.Nodup) (hij : i ≤ j)
    (hadds : ∀ change ∈ (history.take j).drop i, ∃ field, change = ColumnChange.addField field) :
    SlotsAgree (versionAt initial history i) (versionAt initial history j) (Survives initial history i j) := by
  obtain ⟨added, happend⟩ : fieldNamesByOrdinal (versionAt initial history i) <+:
      fieldNamesByOrdinal (versionAt initial history j) := prefix_of_additions hij hadds
  have hlength := congrArg List.length happend
  rw [List.length_append, length_fieldNamesByOrdinal, length_fieldNamesByOrdinal] at hlength
  have hsurvives : ∀ name ∈ (versionAt initial history i).fieldNames, Survives initial history i j name := by
    intro name hname k hk
    obtain ⟨hik, hkj⟩ := Finset.mem_Icc.mp hk
    have hadds' : ∀ change ∈ (history.take k).drop i, ∃ field, change = ColumnChange.addField field := by
      intro change hchange
      refine hadds change (List.Sublist.subset ?_ hchange)
      rw [← min_eq_left hkj, ← List.take_take]
      exact (List.take_sublist _ _).drop _
    exact mem_fieldNamesByOrdinal.mp ((prefix_of_additions hik hadds').subset (mem_fieldNamesByOrdinal.mpr hname))
  unfold SlotsAgree
  rw [if_neg (by simp only [useSeqnoSlotDecoding, Bool.and_eq_true, decide_eq_true_eq]; omega)]
  intro position name hposition
  refine ⟨fun hname => ?_, fun hname => ?_⟩
  · obtain ⟨written, hwritten⟩ := List.mem_iff_getElem?.mp
      (mem_fieldNamesByOrdinal.mpr (hname i (Finset.mem_Icc.mpr ⟨le_rfl, hij⟩)))
    have hread : (fieldNamesByOrdinal (versionAt initial history j))[written]? = some name := by
      rw [← happend, List.getElem?_append_left (List.getElem?_eq_some_iff.mp hwritten).1, hwritten]
    have horder := (perm_fieldNamesByOrdinal _).nodup_iff.mpr (nodup_versionAt hnodup history j)
    have hlt := (List.getElem?_eq_some_iff.mp hposition).1
    rwa [(List.getElem?_inj hlt horder).mp (hposition.trans hread.symm)]
  · by_contra hlt
    rw [not_le, ← length_fieldNamesByOrdinal] at hlt
    rw [← happend, List.getElem?_append_left hlt] at hposition
    exact hname (hsurvives name (mem_fieldNamesByOrdinal.mp (List.mem_of_getElem? hposition)))

end Additions

/-! ## Reading old payloads -/

/-- The rows of version `i` are read right under version `j` if the slots agree, and, unless the row with one empty
value is already beyond the limit of the decoder, only then. They agree as long as columns are only added. -/
theorem old_payloads_read_iff (prims : ValuePrimitives) (initial : TableSchema) (history : List ColumnChange)
    (i j : Nat) (hnodup : initial.fieldNames.Nodup) (hij : i ≤ j)
    (hlimit : ∀ name ∈ (versionAt initial history i).fieldNames,
      (encodeRowPayload prims (versionAt initial history i) (probeRow name)).length ≤ maxDecodeBytes) :
    ((∀ row : RowMap, (∀ key ∈ row, key ∈ (versionAt initial history i).fieldNames) →
        (encodeRowPayload prims (versionAt initial history i) row).length ≤ maxDecodeBytes →
        ReadsSurvivors prims (versionAt initial history i) (versionAt initial history j)
          (Survives initial history i j) row) ↔
      SlotsAgree (versionAt initial history i) (versionAt initial history j) (Survives initial history i j)) ∧
    ((∀ change ∈ (history.take j).drop i, ∃ field, change = ColumnChange.addField field) →
      SlotsAgree (versionAt initial history i) (versionAt initial history j) (Survives initial history i j)) := by
  have hreader := nodup_versionAt hnodup history j
  refine ⟨⟨fun h => ?_, fun h row hkeys hrow => readsSurvivors_of_slotsAgree hreader h hkeys hrow⟩,
    slotsAgree_of_additions hnodup hij⟩
  refine slotsAgree_of_probes hreader (fun name hname => hname i (Finset.mem_Icc.mpr ⟨le_rfl, hij⟩)) hlimit
    fun name hname => h (probeRow name) (fun key hkey => ?_) (hlimit name hname)
  rwa [mem_probeRow.mp hkey]

def textColumn (seqno : UInt32) (name : String) : FieldDef := ⟨seqno, name, .text, true, .none, none, none⟩

def lettersSchema : TableSchema := ⟨[textColumn 1 "a", textColumn 2 "b", textColumn 3 "c"]⟩

def lettersRow : RowMap :=
  (((∅ : RowMap).insert "a" (utf8Bytes "x")).insert "b" (utf8Bytes "y")).insert "c" (utf8Bytes "z")

theorem letters_read_after_addition :
    ReadsSurvivors .plain lettersSchema (versionAt lettersSchema [.addField (textColumn 0 "d")] 1)
      (Survives lettersSchema [.addField (textColumn 0 "d")] 0 1) lettersRow := by
  obtain ⟨hread, hadditions⟩ := old_payloads_read_iff .plain lettersSchema [.addField (textColumn 0 "d")] 0 1
    (by decide) (by decide) (by decide +kernel)
  have hkeys : ∀ key ∈ lettersRow, key ∈ lettersSchema.fieldNames := by
    intro key hkey
    simp only [lettersRow, Finmap.mem_insert, Finmap.notMem_empty, or_false] at hkey
    rcases hkey with rfl | rfl | rfl <;> decide
  exact hread.mpr (hadditions (by simp)) lettersRow hkeys (by decide +kernel)

/-- The slot of a dropped column is taken for another: of the next one when a column is added since, and of an
earlier one when the last column is dropped as well. -/
theorem letters_misread_after_drop :
    decodeRowPayload (versionAt lettersSchema [.dropField "b", .addField (textColumn 0 "d")] 2)
        (encodeRowPayload .plain lettersSchema lettersRow) =
      .ok ((((∅ : RowMap).insert "a" (utf8Bytes "x")).insert "c" (utf8Bytes "y")).insert "d" (utf8Bytes "z")) ∧
    Survives lettersSchema [.dropField "b", .addField (textColumn 0 "d")] 0 2 "c" ∧
    ¬ Survives lettersSchema [.dropField "b", .addField (textColumn 0 "d")] 0 2 "d" ∧
    decodeRowPayload (versionAt lettersSchema [.dropField "a", .dropField "c"] 2)
        (encodeRowPayload .plain lettersSchema lettersRow) = .ok ((∅ : RowMap).insert "b" (utf8Bytes "x")) ∧
    Survives lettersSchema [.dropField "a", .dropField "c"] 0 2 "b" := by
  refine ⟨?_, ?_, ?_, ?_, ?_⟩ <;> decide +kernel

end DistDb
