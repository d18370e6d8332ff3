import DistDb.Indexing.Multimap
import DistDb.Lib.Maps
import DistDb.Sql.Request

/-! # Clones of the index store for a query

A query works on a clone with the indexes of its tables. With selected fields and values the clone has only what
these are looked up by. -/

namespace DistDb.Indexing
open Lib Sql NonZeroU64

def singleField (index : DatabaseIndex) : Option String :=
  match index.fieldNames with
  | [field] => some field
  | [] => some index.fieldName
  | _ => none

namespace PagedIndexState

variable (prims : ValuePrimitives) (state : PagedIndexState)

def setNumericKind (kind : Option RuntimeIndexNumericKind) : PagedIndexState :=
  { state with
    coding := { state.coding with numericKind := kind }
    orderedEntryKeys := kind.map fun _ => state.entries.keys }

def HasRowRefPostings : Prop :=
  (∃ encoded ∈ state.entries.keys, (state.entries.lookup encoded).join.isSome = true) ∨
    ∃ encoded ∈ state.nonUniqueRowRefs.keys, ∃ postings ∈ state.nonUniqueRowRefs.lookup encoded, postings.len ≠ 0

instance : Decidable state.HasRowRefPostings := inferInstanceAs (Decidable ((∃ encoded ∈ _, _) ∨ ∃ encoded ∈ _, _))

def scopedKeys (values : List Bytes) : List Bytes :=
  values.flatMap fun value =>
    let rendered := renderStoredFieldValue prims value
    state.encodeKey prims [value] :: if rendered = value then [] else [state.encodeKey prims [rendered]]

def addScoped (scopedState : PagedIndexState) (encoded : Bytes) : PagedIndexState :=
  if (state.entries.lookup encoded).isSome then
    { scopedState.withSlot encoded (state.slotAt encoded) with
      orderedEntryKeys := scopedState.orderedEntryKeys.map (insert encoded) }
  else scopedState

def cloneScopedToFieldValues (values : List Bytes) : PagedIndexState :=
  (state.scopedKeys prims values).foldl state.addScoped
    { state with entries := ∅, nonUniqueRowRefs := ∅, orderedEntryKeys := state.orderedEntryKeys.map fun _ => ∅ }

def metadataOnlyClone : PagedIndexState := { state with entries := ∅, nonUniqueRowRefs := ∅, orderedEntryKeys := none }

/-- The body of `clone_for_tables_unique_and_selected_single_field_indexes_with_values` for one index. -/
def cloneSelected (index : DatabaseIndex) (kind : Option RuntimeIndexNumericKind) (fieldIsSelected : Bool)
    (knownValues : Option (List Bytes)) : Option PagedIndexState :=
  if index.isUniqueKey then
    if (singleField index).isSome then
      if fieldIsSelected then some state else some (state.metadataOnlyClone.setNumericKind kind)
    else some (state.setNumericKind kind)
  else if fieldIsSelected then
    match knownValues with
    | some (value :: values) =>
      let scopedState := (state.cloneScopedToFieldValues prims (value :: values)).setNumericKind kind
      if scopedState.HasRowRefPostings then some scopedState else none
    | some [] => if state.HasRowRefPostings then some (state.setNumericKind kind) else none
    | none => if state.HasRowRefPostings then some state else none
  else none

end PagedIndexState

/-! ## Answers of one clone -/

namespace PagedIndexState

variable {prims : ValuePrimitives} {state : PagedIndexState} {index : DatabaseIndex}
  {kind : Option RuntimeIndexNumericKind} {key : KeyTuple}

/-- A state without postings behind a missing entry, and with postings in one of their forms. -/
structure Tidy (state : PagedIndexState) : Prop where
  entered : ∀ encoded, (state.slotAt encoded).entry = none → (state.slotAt encoded).postings = none
  holds : ∀ encoded, ∀ postings ∈ (state.slotAt encoded).postings, ∃ rowRefs, PostingPages.Holds postings rowRefs

theorem kept_forms {answersUnique : Bool} {slot : Slot} {held : Held} (h : Kept answersUnique slot held) :
    (slot.entry = none → slot.postings = none) ∧
      ∀ postings ∈ slot.postings, ∃ rowRefs, PostingPages.Holds postings rowRefs := by
  cases h with
  | absent => simp
  | single rowRef => simp
  | covered rowRef holds => simpa using ⟨_, holds⟩
  | many holds => simpa using ⟨_, holds⟩

theorem tidy_of_keeps {ops : List (KeyTuple × KeyChange)} {given : Option DatabaseIndex} {coding : KeyCoding}
    (h : Along (Mapped.apply prims) (Mapped.Keeps prims) (.start given coding) ops) :
    (runFrom (Mapped.apply prims) (.start given coding) ops).1.Tidy := by
  have hinv := h.invariant (fun _ _ hkeeps h => Mapped.Inv.apply h hkeeps) (Mapped.Inv.start given coding)
  exact ⟨fun encoded => (kept_forms (hinv.kept encoded)).1, fun encoded => (kept_forms (hinv.kept encoded)).2⟩

theorem rowRefs_of_not_hasRowRefPostings (h : state.Tidy) (hnone : ¬ state.HasRowRefPostings) (unique : Bool)
    (limit : Option ℕ) (encoded : Bytes) : (state.slotAt encoded).rowRefs unique limit = [] := by
  unfold Slot.rowRefs
  cases hentry : (state.slotAt encoded).entry.join with
  | some rowRef =>
    refine absurd (.inl ⟨encoded, ?_, ?_⟩) hnone
    · rw [mem_keys]
      cases hslot : (state.slotAt encoded).entry with
      | none => simp [hslot] at hentry
      | some _ => rfl
    · exact Option.isSome_iff_exists.mpr ⟨rowRef, hentry⟩
  | none =>
    cases hpostings : (state.slotAt encoded).postings with
    | none => simp
    | some postings =>
      obtain ⟨rowRefs, holds⟩ := h.holds encoded postings hpostings
      have hlen : postings.len = 0 := by
        by_contra hlen
        refine hnone (.inr ⟨encoded, ?_, postings, hpostings, hlen⟩)
        rw [Finmap.mem_keys, ← Finmap.lookup_isSome]
        exact Option.isSome_iff_exists.mpr ⟨postings, hpostings⟩
      obtain rfl : rowRefs = [] := List.length_eq_zero_iff.mp (holds.len_eq ▸ hlen)
      cases unique <;> cases limit <;> simp [holds.appendRowRefs_nil]

theorem encodeKey_setNumericKind (h : key.length = 1 → state.coding.numericKind = kind) :
    (state.setNumericKind kind).encodeKey prims key = state.encodeKey prims key := by
  unfold encodeKey setNumericKind KeyCoding.encodeKey
  match key, h with
  | [], _ => rfl
  | [_], h => rw [← h rfl]
  | _ :: _ :: _, _ => rfl

theorem rowRefsForKey_setNumericKind (h : key.length = 1 → state.coding.numericKind = kind) (limit : Option ℕ) :
    (state.setNumericKind kind).rowRefsForKey prims key limit = state.rowRefsForKey prims key limit := by
  rw [rowRefsForKey, encodeKey_setNumericKind h]
  rfl

theorem slotAt_addScoped (scopedState : PagedIndexState) (encoded other : Bytes) :
    (state.addScoped scopedState encoded).slotAt other =
      if other = encoded ∧ (state.slotAt other).entry.isSome = true then state.slotAt other
      else scopedState.slotAt other := by
  unfold addScoped
  change (if (state.slotAt encoded).entry.isSome = true then _ else _ : PagedIndexState).slotAt other = _
  by_cases hentry : (state.slotAt encoded).entry.isSome = true
  · rw [if_pos hentry]
    refine slotAt_withSlot.trans ?_
    by_cases heq : other = encoded
    · subst heq
      rw [if_pos rfl, if_pos ⟨rfl, hentry⟩]
    · rw [if_neg heq, if_neg fun h => heq h.1]
  · rw [if_neg hentry, if_neg]
    rintro ⟨rfl, h⟩
    exact hentry h

theorem slotAt_cloneScoped (values : List Bytes) (encoded : Bytes) :
    (state.cloneScopedToFieldValues prims values).slotAt encoded =
      if encoded ∈ state.scopedKeys prims values ∧ (state.slotAt encoded).entry.isSome = true then state.slotAt encoded
      else ⟨none, none⟩ := by
  unfold cloneScopedToFieldValues
  induction state.scopedKeys prims values using List.reverseRecOn with
  | nil => simp [slotAt]
  | append_singleton keys last ih =>
    rw [List.foldl_concat, slotAt_addScoped, ih]
    by_cases hlast : encoded = last
    · subst hlast
      by_cases hentry : (state.slotAt encoded).entry.isSome = true <;> simp [hentry]
    · simp [hlast]

theorem config_cloneScoped (prims : ValuePrimitives) (state : PagedIndexState) (values : List Bytes) :
    (state.cloneScopedToFieldValues prims values).index = state.index ∧
      (state.cloneScopedToFieldValues prims values).coding = state.coding := by
  unfold cloneScopedToFieldValues
  induction state.scopedKeys prims values using List.reverseRecOn with
  | nil => exact ⟨rfl, rfl⟩
  | append_singleton keys last ih =>
    rw [List.foldl_concat, addScoped]
    split
    · exact ih
    · exact ih

theorem Tidy.cloneScoped (h : state.Tidy) (values : List Bytes) :
    ((state.cloneScopedToFieldValues prims values).setNumericKind kind).Tidy := by
  constructor
  · intro encoded hentry
    change ((state.cloneScopedToFieldValues prims values).slotAt encoded).postings = none
    change ((state.cloneScopedToFieldValues prims values).slotAt encoded).entry = none at hentry
    rw [slotAt_cloneScoped] at hentry ⊢
    split at hentry
    · rw [if_pos ‹_›]
      exact h.entered encoded hentry
    · rw [if_neg ‹_›]
  · intro encoded postings hpostings
    change postings ∈ ((state.cloneScopedToFieldValues prims values).slotAt encoded).postings at hpostings
    rw [slotAt_cloneScoped] at hpostings
    split at hpostings
    · exact h.holds encoded postings hpostings
    · cases hpostings

def rowRefsAt (state : PagedIndexState) (encoded : Bytes) (limit : Option ℕ) : List UInt64 :=
  (state.slotAt encoded).rowRefs state.answersUnique limit

theorem Tidy.rowRefsAt_of_entry_none (h : state.Tidy) {encoded : Bytes} (hentry : (state.slotAt encoded).entry = none)
    (limit : Option ℕ) : state.rowRefsAt encoded limit = [] := by
  simp [rowRefsAt, Slot.rowRefs, hentry, h.entered _ hentry]

/-- The clone has the copied keys only, and looks a value up under its new kind. -/
theorem rowRefsForKey_cloneScoped (h : state.Tidy) (values : List Bytes) (value : Bytes) (limit : Option ℕ) :
    ((state.cloneScopedToFieldValues prims values).setNumericKind kind).rowRefsForKey prims [value] limit =
      if (state.setNumericKind kind).encodeKey prims [value] ∈ state.scopedKeys prims values then
        state.rowRefsAt ((state.setNumericKind kind).encodeKey prims [value]) limit
      else [] := by
  obtain ⟨hindex, hcoding⟩ := config_cloneScoped prims state values
  have hencode : ((state.cloneScopedToFieldValues prims values).setNumericKind kind).encodeKey prims [value] =
      (state.setNumericKind kind).encodeKey prims [value] := by
    simp only [encodeKey, setNumericKind, hcoding]
  have hunique : ((state.cloneScopedToFieldValues prims values).setNumericKind kind).answersUnique =
      state.answersUnique := by
    simp only [answersUnique, setNumericKind, hindex]
  rw [rowRefsForKey, hencode, hunique]
  change ((state.cloneScopedToFieldValues prims values).slotAt _).rowRefs _ _ = _
  rw [slotAt_cloneScoped]
  by_cases hcopied : (state.setNumericKind kind).encodeKey prims [value] ∈ state.scopedKeys prims values
  · rw [if_pos hcopied]
    cases hentry : (state.slotAt ((state.setNumericKind kind).encodeKey prims [value])).entry with
    | some entry => rw [if_pos ⟨hcopied, rfl⟩, rowRefsAt]
    | none =>
      rw [if_neg (by simp), h.rowRefsAt_of_entry_none hentry]
      simp [Slot.rowRefs]
  · rw [if_neg hcopied, if_neg fun h => hcopied h.1]
    simp [Slot.rowRefs]

/-- Every value is encoded alike under the kind of the state and the other kind, or the state has the same under both
encodings if the second is copied, and nothing under the first if not. -/
def SameUnderKind (prims : ValuePrimitives) (state : PagedIndexState) (kind : Option RuntimeIndexNumericKind)
    (values : List Bytes) : Prop :=
  ∀ value ∈ values, state.encodeKey prims [value] = (state.setNumericKind kind).encodeKey prims [value] ∨
    ∀ limit,
      (state.setNumericKind kind).encodeKey prims [value] ∈ state.scopedKeys prims values ∧
        state.rowRefsAt (state.encodeKey prims [value]) limit =
          state.rowRefsAt ((state.setNumericKind kind).encodeKey prims [value]) limit ∨
      (state.setNumericKind kind).encodeKey prims [value] ∉ state.scopedKeys prims values ∧
        state.rowRefsAt (state.encodeKey prims [value]) limit = []

theorem cloneScoped_answers_iff (h : state.Tidy) (values : List Bytes) :
    (∀ value ∈ values, ∀ limit, ((state.cloneScopedToFieldValues prims values).setNumericKind kind).rowRefsForKey prims
        [value] limit = state.rowRefsForKey prims [value] limit) ↔ state.SameUnderKind prims kind values := by
  refine forall₂_congr fun value hvalue => ?_
  have hmem : state.encodeKey prims [value] ∈ state.scopedKeys prims values :=
    List.mem_flatMap.mpr ⟨value, hvalue, List.mem_cons_self⟩
  simp only [rowRefsForKey_cloneScoped h]
  constructor
  · exact fun hsame => .inr fun limit => eq_ite_iff.mp (hsame limit).symm
  · rintro (heq | hsame) limit
    · rw [← heq, if_pos hmem, rowRefsForKey, rowRefsAt]
    · exact (eq_ite_iff.mpr (hsame limit)).symm

end PagedIndexState

/-! ## Stores -/

abbrev PagedIndexStore := Finmap fun _ : String => PagedIndexState

structure ScopedTable where
  streamId : String
  env : IndexEnv
  selectedFields : Option (Finset String)
  fieldValues : String → Option (List Bytes)

namespace ScopedTable

variable (table : ScopedTable) (index : DatabaseIndex)

def scopedIndexId : String := table.streamId ++ "::" ++ index.indexId

def fieldIsSelected : Bool :=
  (singleField index).any fun field => table.selectedFields.any fun fields =>
    decide (normalizeIdentifier field ∈ fields ∨ field ∈ fields)

def knownValues : Option (List Bytes) :=
  (singleField index).bind fun field => (table.fieldValues (normalizeIdentifier field)).or (table.fieldValues field)

def cloneSelected (state : PagedIndexState) : Option PagedIndexState :=
  state.cloneSelected table.env.prims index (IndexorStore.numericKindForIndex table.env index)
    (table.fieldIsSelected index) (table.knownValues index)

end ScopedTable

namespace PagedIndexStore

variable (tables : List ScopedTable) (store : PagedIndexStore)

def tableIndexes : List (ScopedTable × DatabaseIndex) :=
  tables.flatMap fun table => table.env.table.indexes.map fun index => (table, index)

def cloneEach (clone : ScopedTable → DatabaseIndex → PagedIndexState → Option PagedIndexState) : PagedIndexStore :=
  (tableIndexes tables).foldl (fun scopedStore entry =>
    match (store.lookup (entry.1.scopedIndexId entry.2)).bind (clone entry.1 entry.2) with
    | some state => scopedStore.insert (entry.1.scopedIndexId entry.2) state
    | none => scopedStore) ∅

def cloneForTables : PagedIndexStore := cloneEach tables store fun _ _ state => some state

def cloneForTablesWithValues : PagedIndexStore := cloneEach tables store ScopedTable.cloneSelected

def answer (prims : ValuePrimitives) (id : String) (key : KeyTuple) (limit : Option ℕ) : List UInt64 :=
  ((store.lookup id).map (·.rowRefsForKey prims key limit)).getD []

variable {tables store}

theorem lookup_cloneEach (hnodup : ((tableIndexes tables).map fun entry => entry.1.scopedIndexId entry.2).Nodup)
    {clone : ScopedTable → DatabaseIndex → PagedIndexState → Option PagedIndexState} {table : ScopedTable}
    {index : DatabaseIndex} (hmem : (table, index) ∈ tableIndexes tables) :
    (cloneEach tables store clone).lookup (table.scopedIndexId index) =
      (store.lookup (table.scopedIndexId index)).bind (clone table index) := by
  have hupdates : UpdatesKey (fun (scopedStore : PagedIndexStore) (entry : ScopedTable × DatabaseIndex) =>
      match (store.lookup (entry.1.scopedIndexId entry.2)).bind (clone entry.1 entry.2) with
      | some state => scopedStore.insert (entry.1.scopedIndexId entry.2) state
      | none => scopedStore) (fun entry => entry.1.scopedIndexId entry.2)
      fun entry old => ((store.lookup (entry.1.scopedIndexId entry.2)).bind (clone entry.1 entry.2)).or old := by
    constructor
    · intro map entry
      split
      · rename_i state hstate
        rw [Finmap.lookup_insert, hstate]
        rfl
      · rename_i hstate
        rw [hstate]
        rfl
    · intro map entry k hk
      split
      · exact Finmap.lookup_insert_of_ne _ hk
      · rfl
  rw [cloneEach, hupdates.lookup_foldl hnodup hmem, Finmap.lookup_empty, Option.or_none]

/-- The keys of an index that a clone is asked for: all, or those of the known values. -/
def InScope (table : ScopedTable) (index : DatabaseIndex) (key : KeyTuple) : Prop :=
  key.length = index.keyFields.length ∧ ∀ values ∈ table.knownValues index, ∃ value ∈ values, key = [value]

/-- The indexes that a clone has with their references: those on a selected field, and unique ones on several. -/
def Included (table : ScopedTable) (index : DatabaseIndex) : Prop :=
  table.fieldIsSelected index = true ∨ index.isUniqueKey = true ∧ singleField index = none

variable {table : ScopedTable} {index : DatabaseIndex} {state : PagedIndexState} {key : KeyTuple}

theorem answer_of_not_included (hincluded : ¬ Included table index) (limit : Option ℕ) :
    ((table.cloneSelected index state).map (·.rowRefsForKey table.env.prims key limit)).getD [] = [] := by
  have hselected : ¬ table.fieldIsSelected index = true := fun h => hincluded (.inl h)
  unfold ScopedTable.cloneSelected PagedIndexState.cloneSelected
  rw [if_neg hselected, if_neg hselected]
  by_cases hunique : index.isUniqueKey = true
  · have hfield : (singleField index).isSome = true := by
      cases hfield : singleField index with
      | none => exact absurd (.inr ⟨hunique, hfield⟩) hincluded
      | some field => rfl
    rw [if_pos hunique, if_pos hfield]
    simp [PagedIndexState.rowRefsForKey, PagedIndexState.metadataOnlyClone, PagedIndexState.setNumericKind,
      PagedIndexState.slotAt, Slot.rowRefs]
  · rw [if_neg hunique]
    rfl

/-- An index without references is not cloned. -/
theorem answer_of_gated (h : state.Tidy) (limit : Option ℕ) :
    ((if state.HasRowRefPostings then some state else none).map (·.rowRefsForKey table.env.prims key limit)).getD [] =
      state.rowRefsForKey table.env.prims key limit := by
  by_cases hpostings : state.HasRowRefPostings
  · rw [if_pos hpostings]
    rfl
  · rw [if_neg hpostings]
    exact (PagedIndexState.rowRefs_of_not_hasRowRefPostings h hpostings _ _ _).symm

theorem answer_of_unique (hunique : index.isUniqueKey = true) (hincluded : Included table index)
    (hscope : InScope table index key) (limit : Option ℕ) :
    ((table.cloneSelected index state).map (·.rowRefsForKey table.env.prims key limit)).getD [] =
      state.rowRefsForKey table.env.prims key limit := by
  unfold ScopedTable.cloneSelected PagedIndexState.cloneSelected
  rw [if_pos hunique]
  cases hfield : singleField index with
  | some field =>
    have hselected : table.fieldIsSelected index = true := hincluded.resolve_right fun h => by simp [hfield] at h
    rw [Option.isSome_some, if_pos rfl, if_pos hselected]
    rfl
  | none =>
    -- keys of several fields are encoded without a kind
    have hlength : key.length ≠ 1 := by
      rw [hscope.1, DatabaseIndex.keyFields]
      unfold singleField at hfield
      split at hfield
      · cases hfield
      · cases hfield
      · rename_i hone hnil
        rw [if_neg fun h => hnil h.1, ne_eq, List.length_eq_one_iff]
        rintro ⟨field, heq⟩
        exact hone field heq
    rw [Option.isSome_none, if_neg (by simp)]
    exact PagedIndexState.rowRefsForKey_setNumericKind (fun h => absurd h hlength) limit

/-- What a clone needs for its answers: an index with references in scope is included, and the known values of a field
that is not unique stand under one encoding. -/
def AnswersKept (table : ScopedTable) (index : DatabaseIndex) (state : PagedIndexState) : Prop :=
  (Included table index ∨ ∀ key limit, InScope table index key → state.rowRefsForKey table.env.prims key limit = []) ∧
    (index.isUniqueKey = false → table.fieldIsSelected index = true → index.keyFields.length = 1 →
      ∀ values ∈ table.knownValues index,
        state.SameUnderKind table.env.prims (IndexorStore.numericKindForIndex table.env index) values)

theorem cloneSelected_answers_iff (htidy : state.Tidy) :
    (∀ key limit, InScope table index key →
      ((table.cloneSelected index state).map (·.rowRefsForKey table.env.prims key limit)).getD [] =
        state.rowRefsForKey table.env.prims key limit) ↔ AnswersKept table index state := by
  by_cases hincluded : Included table index
  · cases hunique : index.isUniqueKey with
    | true =>
      refine iff_of_true (fun key limit hscope => answer_of_unique hunique hincluded hscope limit) ⟨.inl hincluded, ?_⟩
      simp [hunique]
    | false =>
      have hselected : table.fieldIsSelected index = true := hincluded.resolve_right fun h => by simp [hunique] at h
      simp only [AnswersKept, hincluded, hunique, hselected, true_or, true_and, forall_const]
      unfold ScopedTable.cloneSelected PagedIndexState.cloneSelected
      simp only [hunique, Bool.false_eq_true, if_false, hselected, if_true]
      cases hvalues : table.knownValues index with
      | none => exact iff_of_true (fun key limit _ => answer_of_gated htidy limit) (by simp)
      | some values =>
        have hscope : ∀ key, InScope table index key ↔
          index.keyFields.length = 1 ∧ ∃ value ∈ values, key = [value] := by
          intro key
          simp only [InScope, hvalues, Option.mem_some_iff, forall_eq']
          refine and_congr_left fun ⟨value, _, hkey⟩ => ?_
          rw [hkey, List.length_singleton, eq_comm]
        simp only [Option.mem_some_iff, forall_eq', hscope]
        cases values with
        | nil => exact iff_of_true (fun _ _ h => by simp at h) fun _ => by simp [PagedIndexState.SameUnderKind]
        | cons first values =>
          simp only [← PagedIndexState.cloneScoped_answers_iff htidy]
          constructor
          · intro h hlength value hvalue limit
            rw [← h [value] limit ⟨hlength, value, hvalue, rfl⟩]
            exact (answer_of_gated (htidy.cloneScoped _) limit).symm
          · rintro h key limit ⟨hlength, value, hvalue, rfl⟩
            exact (answer_of_gated (htidy.cloneScoped _) limit).trans (h hlength value hvalue limit)
  · have hselected : ¬ table.fieldIsSelected index = true := fun h => hincluded (.inl h)
    simp only [answer_of_not_included hincluded, AnswersKept, hincluded, false_or]
    exact ⟨fun h => ⟨fun key limit hscope => (h key limit hscope).symm, fun _ h => absurd h hselected⟩,
      fun h key limit hscope => (h.1 key limit hscope).symm⟩

/-- A clone of whole tables answers as the store does. A clone for selected fields and values does, for the keys in
its scope, if and only if the state of the index has what the clone needs. -/
theorem clone_answers_iff (tables : List ScopedTable) (store : PagedIndexStore)
    (hnodup : ((tableIndexes tables).map fun entry => entry.1.scopedIndexId entry.2).Nodup)
    (table : ScopedTable) (index : DatabaseIndex) (hmem : (table, index) ∈ tableIndexes tables) :
    (∀ key limit, (cloneForTables tables store).answer table.env.prims (table.scopedIndexId index) key limit =
      store.answer table.env.prims (table.scopedIndexId index) key limit) ∧
    ((∀ state ∈ store.lookup (table.scopedIndexId index), state.Tidy) →
      ((∀ key limit, InScope table index key →
          (cloneForTablesWithValues tables store).answer table.env.prims (table.scopedIndexId index) key limit =
            store.answer table.env.prims (table.scopedIndexId index) key limit) ↔
        ∀ state ∈ store.lookup (table.scopedIndexId index), AnswersKept table index state)) := by
  constructor
  · intro key limit
    rw [answer, cloneForTables, lookup_cloneEach hnodup hmem]
    cases hlookup : store.lookup (table.scopedIndexId index) <;> simp [answer, hlookup]
  · intro htidy
    simp only [answer, cloneForTablesWithValues, lookup_cloneEach hnodup hmem]
    cases hlookup : store.lookup (table.scopedIndexId index) with
    | none => simp
    | some state =>
      simp only [Option.bind_some, Option.map_some, Option.getD_some, Option.mem_some_iff, forall_eq']
      exact cloneSelected_answers_iff (htidy state hlookup)

def numberTable (kind : DatabaseIndexKind) (selectedFields : Option (Finset String)) (values : Option (List Bytes)) :
    ScopedTable where
  streamId := "s"
  env := ⟨⟨"t", ⟨[⟨1, "n", .int 64, true, .indexed, none, none⟩]⟩, [⟨"i", kind, .userDefined, ["n"], ""⟩], by simp⟩,
    .plain, fun _ => none⟩
  selectedFields := selectedFields
  fieldValues := fun field => if field = "n" then values else none

def numberStore (kind : DatabaseIndexKind) (coding : KeyCoding) : PagedIndexStore :=
  (∅ : PagedIndexStore).insert "s::i"
    (runFrom (PagedIndexState.Mapped.apply .plain) (.start (some ⟨"i", kind, .userDefined, ["n"], ""⟩) coding)
      [([utf8Bytes "5"], .insertWithRowRef (some 7))]).1

theorem tidy_numberStore (kind : DatabaseIndexKind) (coding : KeyCoding) :
    ∀ state ∈ (numberStore kind coding).lookup "s::i", state.Tidy := by
  intro state hstate
  obtain rfl : _ = state := Option.some.inj ((Finmap.lookup_insert _).symm.trans hstate)
  have hkeeps : (7 : UInt64) ≠ 0xFFFFFFFFFFFFFFFF := by decide
  exact PagedIndexState.tidy_of_keeps ⟨hkeeps, trivial⟩

/-- An index with the kind of its field, asked for a known value, and a unique index that has not been bootstrapped. -/
theorem selected_number_cloned :
    (cloneForTablesWithValues [numberTable .indexed (some {"n"}) (some [utf8Bytes "5"])]
      (numberStore .indexed ⟨some .signed, false⟩)).answer .plain "s::i" [utf8Bytes "5"] none =
        (numberStore .indexed ⟨some .signed, false⟩).answer .plain "s::i" [utf8Bytes "5"] none ∧
    (cloneForTablesWithValues [numberTable .unique (some {"n"}) none] (numberStore .unique .plain)).answer .plain
      "s::i" [utf8Bytes "5"] none = (numberStore .unique .plain).answer .plain "s::i" [utf8Bytes "5"] none := by
  constructor
  · refine ((clone_answers_iff [numberTable .indexed (some {"n"}) (some [utf8Bytes "5"])]
      (numberStore .indexed ⟨some .signed, false⟩) (by decide +kernel)
      (numberTable .indexed (some {"n"}) (some [utf8Bytes "5"])) ⟨"i", .indexed, .userDefined, ["n"], ""⟩
      (List.mem_singleton.mpr rfl)).2 (tidy_numberStore _ _)).mpr ?_ _ _ ⟨rfl, ?_⟩
    · intro state hstate
      obtain rfl : _ = state := Option.some.inj ((Finmap.lookup_insert _).symm.trans hstate)
      exact ⟨.inl (.inl (by decide +kernel)), fun _ _ _ _ _ _ _ => .inl rfl⟩
    · intro values hvalues
      obtain rfl : [utf8Bytes "5"] = values := Option.some.inj hvalues
      exact ⟨utf8Bytes "5", List.mem_singleton.mpr rfl, rfl⟩
  · refine ((clone_answers_iff [numberTable .unique (some {"n"}) none] (numberStore .unique .plain) (by decide +kernel)
      (numberTable .unique (some {"n"}) none) ⟨"i", .unique, .userDefined, ["n"], ""⟩
      (List.mem_singleton.mpr rfl)).2 (tidy_numberStore _ _)).mpr ?_ _ _ ⟨rfl, nofun⟩
    exact fun state _ => ⟨.inl (.inl (by decide +kernel)), nofun⟩

/-- An index that has not been bootstrapped encodes a number as text; the clone looks it up as a number. A unique
index on a field that is not selected is cloned without its references. -/
theorem unbootstrapped_index_cloned :
    (numberStore .indexed .plain).answer .plain "s::i" [utf8Bytes "5"] none = [7] ∧
    (cloneForTablesWithValues [numberTable .indexed (some {"n"}) (some [utf8Bytes "5"])]
      (numberStore .indexed .plain)).answer .plain "s::i" [utf8Bytes "5"] none = [] ∧
    (numberStore .unique ⟨some .signed, false⟩).answer .plain "s::i" [utf8Bytes "5"] none = [7] ∧
    (cloneForTablesWithValues [numberTable .unique none none]
      (numberStore .unique ⟨some .signed, false⟩)).answer .plain "s::i" [utf8Bytes "5"] none = [] := by
  decide +kernel

end PagedIndexStore

end DistDb.Indexing
