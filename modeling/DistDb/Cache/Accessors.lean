import DistDb.Cache.Equality
import DistDb.Lib.Inverted
import DistDb.Lib.Run
import DistDb.Query.Condition

/-! # Accessors of a cache entry

Row ids by the values of a field, by the texts of the values, and answers to earlier ranges. Hash maps give their keys
in an order that is part of the input. -/

namespace DistDb.Cache
open Lib Mutation Query

abbrev StringIndex := Inverted String UInt64

structure AccessorEntry extends EqualityTableCacheEntry where
  /-- `string_index_by_field` and, without regard to case, `string_index_ci_by_field`. -/
  stringIndexes : Bool → String → Option StringIndex
  rangeRowIdsCache : String → Option (List UInt64)

def stringKeyFromValue (prims : ValuePrimitives) (caseInsensitive : Bool) (value : Bytes) : String :=
  if caseInsensitive then toAsciiLowercase (prims.fromUtf8Lossy value) else prims.fromUtf8Lossy value

structure RangeBound where
  value : Bytes
  inclusive : Bool
  deriving DecidableEq

structure RangeFilterBounds where
  fieldName : String
  lowerBound : Option RangeBound
  upperBound : Option RangeBound
  deriving DecidableEq

def valueWithinRange (prims : ValuePrimitives) (filter : RangeFilterBounds) (value : Bytes) : Bool :=
  (filter.lowerBound.all fun bound =>
    compareRowValue prims value bound.value (if bound.inclusive then .gtEq else .gt)) &&
  filter.upperBound.all fun bound =>
    compareRowValue prims value bound.value (if bound.inclusive then .ltEq else .lt)

def hexByte (byte : UInt8) : List Char := [Nat.digitChar (byte.toNat / 16), Nat.digitChar (byte.toNat % 16)]

def appendBoundKey (label : Char) : Option RangeBound → List Char
  | some bound => label :: '=' :: (if bound.inclusive then '1' else '0') :: ':' :: bound.value.flatMap hexByte
  | none => [label, '=', '_']

def rangeBoundsCacheKey (filter : RangeFilterBounds) : String :=
  String.ofList (filter.fieldName.toList ++ '|' :: (appendBoundKey 'l' filter.lowerBound ++
    '|' :: appendBoundKey 'u' filter.upperBound))

namespace AccessorEntry

variable (prims : ValuePrimitives) (entry : AccessorEntry)

def ofRows (latestTxId : UInt64) (rows : List LiveRow) (approxRowsBytes : ℕ) : AccessorEntry :=
  ⟨⟨latestTxId, rows, approxRowsBytes, fun _ => none⟩, fun _ _ => none, fun _ => none⟩

def updateStrings (row : RowMap) (f : List UInt64 → List UInt64) : Bool → String → Option StringIndex :=
  fun caseInsensitive fieldName => (entry.stringIndexes caseInsensitive fieldName).map fun index =>
    Inverted.modify index ((row.lookup fieldName).map (stringKeyFromValue prims caseInsensitive)) f

def applyCachedRowInsert (rowId : UInt64) (row : RowMap) : AccessorEntry :=
  ⟨entry.toEqualityTableCacheEntry.applyCachedRowInsert rowId row, entry.updateStrings prims row (· ++ [rowId]),
    fun _ => none⟩

def applyCachedRowDelete (rowId : UInt64) (row : RowMap) : AccessorEntry :=
  ⟨entry.toEqualityTableCacheEntry.applyCachedRowDelete rowId row,
    entry.updateStrings prims row fun rowIds => rowIds.filter (· ≠ rowId), fun _ => none⟩

def ensureFieldPostings (fieldName : String) : AccessorEntry :=
  { entry with
    toEqualityTableCacheEntry := entry.toEqualityTableCacheEntry.ensureFieldPostings fieldName }

/-- `build_string_index_from_postings`, which takes the values in an order, or `build_string_index_for_field`. -/
def buildStringIndex (fieldName : String) (caseInsensitive : Bool) (values : List Bytes) : StringIndex :=
  match entry.rowIdsByFieldValue fieldName with
  | some postings => Inverted.regroup postings (stringKeyFromValue prims caseInsensitive) values
  | none => Inverted.group entry.rowsById fun row =>
    (row.lookup fieldName).map (stringKeyFromValue prims caseInsensitive)

def ensureStringLikeIndex (fieldName : String) (caseInsensitive : Bool) (values : List Bytes) : AccessorEntry :=
  if (entry.stringIndexes caseInsensitive fieldName).isSome then entry
  else
    { entry with
      stringIndexes := fun mode name =>
        if mode = caseInsensitive ∧ name = fieldName then
          some (entry.buildStringIndex prims fieldName caseInsensitive values)
        else entry.stringIndexes mode name }

def rowIdsForFieldRange (filter : RangeFilterBounds) (values : List Bytes) : AccessorEntry × List UInt64 :=
  match entry.rangeRowIdsCache (rangeBoundsCacheKey filter) with
  | some rowIds => (entry, rowIds)
  | none =>
    match entry.rowIdsByFieldValue filter.fieldName with
    | none => (entry, [])
    | some postings =>
      let rowIds := (values.filter (valueWithinRange prims filter)).flatMap postings
      ({ entry with
          rangeRowIdsCache :=
            Function.update entry.rangeRowIdsCache (rangeBoundsCacheKey filter) (some rowIds) }, rowIds)

def matchesFilter (row : RowMap) (filter : RangeFilterBounds) : Bool :=
  (row.lookup filter.fieldName).any (valueWithinRange prims filter)

def rowsForRangeFilters (filters : List RangeFilterBounds) (values : List Bytes) : AccessorEntry × List LiveRow :=
  match filters with
  | [] => (entry, entry.rowsById)
  | anchorFilter :: remainingFilters =>
    let (entry, anchorRowIds) := entry.rowIdsForFieldRange prims anchorFilter values
    (entry, (entry.rowsForIds anchorRowIds).filter fun row => remainingFilters.all (matchesFilter prims row.2))

end AccessorEntry

inductive AccessorOp where
  | insert (rowId : UInt64) (row : RowMap)
  | delete (rowId : UInt64) (row : RowMap)
  | ensurePostings (fieldName : String)
  | ensureStringIndex (fieldName : String) (caseInsensitive : Bool) (values : List Bytes)
  | range (filters : List RangeFilterBounds) (values : List Bytes)

namespace AccessorEntry

variable (prims : ValuePrimitives) (entry : AccessorEntry)

def apply : AccessorOp → AccessorEntry
  | .insert rowId row => entry.applyCachedRowInsert prims rowId row
  | .delete rowId row => entry.applyCachedRowDelete prims rowId row
  | .ensurePostings fieldName => entry.ensureFieldPostings fieldName
  | .ensureStringIndex fieldName caseInsensitive values =>
      entry.ensureStringLikeIndex prims fieldName caseInsensitive values
  | .range filters values => (entry.rowsForRangeFilters prims filters values).1

/-- These are the values of the field that have postings. -/
def ListedValues (fieldName : String) (values : List Bytes) : Prop :=
  ∀ postings ∈ entry.rowIdsByFieldValue fieldName, Inverted.Listed postings values

/-- The order in which a map is gone through has each of its keys once. -/
def Ordered : AccessorOp → Prop
  | .ensureStringIndex fieldName _ values => entry.ListedValues fieldName values
  | .range filters values => ∀ filter ∈ filters.head?, entry.ListedValues filter.fieldName values
  | _ => True

def valueOf (fieldName : String) (rowId : UInt64) : Option Bytes := (entry.row rowId).bind (·.lookup fieldName)

/-- Every id stands once under the value, and under the text of the value, that its row has in a field. -/
structure Posted : Prop where
  postings : ∀ fieldName, ∀ postings ∈ entry.rowIdsByFieldValue fieldName,
    Inverted.Lists postings Set.univ (entry.valueOf fieldName)
  strings : ∀ caseInsensitive fieldName, ∀ index ∈ entry.stringIndexes caseInsensitive fieldName,
    Inverted.Lists index Set.univ fun rowId =>
      (entry.valueOf fieldName rowId).map (stringKeyFromValue prims caseInsensitive)

/-- An id may not be inserted over a value that is posted, a row must be deleted with the values it has, and values
that are posted may not have one text. -/
def Keeps : AccessorOp → Prop
  | .insert rowId _ => ∀ fieldName, (entry.rowIdsByFieldValue fieldName).isSome = true ∨
      (∃ caseInsensitive, (entry.stringIndexes caseInsensitive fieldName).isSome = true) →
        entry.valueOf fieldName rowId = none
  | .delete rowId row => ∀ fieldName value, entry.valueOf fieldName rowId = some value →
      ((entry.rowIdsByFieldValue fieldName).isSome = true → row.lookup fieldName = some value) ∧
      ∀ caseInsensitive, (entry.stringIndexes caseInsensitive fieldName).isSome = true →
        (row.lookup fieldName).map (stringKeyFromValue prims caseInsensitive) =
          some (stringKeyFromValue prims caseInsensitive value)
  | .ensureStringIndex fieldName caseInsensitive _ =>
    entry.stringIndexes caseInsensitive fieldName = none → (entry.rowIdsByFieldValue fieldName).isSome = true →
      ∀ rowId rowId' value value', entry.valueOf fieldName rowId = some value →
        entry.valueOf fieldName rowId' = some value' →
        stringKeyFromValue prims caseInsensitive value = stringKeyFromValue prims caseInsensitive value' →
        value = value'
  | .ensurePostings _ | .range _ _ => True

variable {prims entry} {rowId other : UInt64} {row : RowMap} {fieldName : String}

/-! ## Rows -/

theorem lookup_filter_ne (rows : List LiveRow) :
    (rows.filter fun row => row.1 ≠ rowId).lookup other = if other = rowId then none else rows.lookup other := by
  induction rows with
  | nil => simp
  | cons row rows ih =>
    obtain ⟨id, fields⟩ := row
    by_cases hrow : id = rowId
    · subst hrow
      rw [List.filter_cons_of_neg (by simp), ih]
      by_cases hother : other = id
      · simp [hother]
      · simp [hother, List.lookup_cons, beq_false_of_ne hother]
    · rw [List.filter_cons_of_pos (by simpa using hrow), List.lookup_cons, List.lookup_cons, ih]
      by_cases hother : other = id
      · subst hother
        simp [hrow]
      · simp [beq_false_of_ne hother]

theorem row_insert : (entry.applyCachedRowInsert prims rowId row).row other =
    if other = rowId then some row else entry.row other := by
  change (entry.rowsById.filter (fun row => row.1 ≠ rowId) ++ [(rowId, row)]).lookup other = _
  rw [List.lookup_append, lookup_filter_ne]
  by_cases hother : other = rowId
  · simp [hother]
  · simp [hother, List.lookup_cons, beq_false_of_ne hother, EqualityTableCacheEntry.row]

theorem row_delete : (entry.applyCachedRowDelete prims rowId row).row other =
    if other = rowId then none else entry.row other :=
  lookup_filter_ne entry.rowsById

theorem nodup_insert (h : (entry.rowsById.map Prod.fst).Nodup) :
    ((entry.applyCachedRowInsert prims rowId row).rowsById.map Prod.fst).Nodup := by
  change ((entry.rowsById.filter (fun row => row.1 ≠ rowId) ++ [(rowId, row)]).map Prod.fst).Nodup
  rw [List.map_append, List.nodup_append']
  refine ⟨h.sublist (List.filter_sublist.map _), List.nodup_singleton _, ?_⟩
  simp [List.Disjoint]

theorem nodup_delete (h : (entry.rowsById.map Prod.fst).Nodup) :
    ((entry.applyCachedRowDelete prims rowId row).rowsById.map Prod.fst).Nodup :=
  h.sublist (List.filter_sublist.map _)

theorem rows_ensureFieldPostings : (entry.ensureFieldPostings fieldName).rowsById = entry.rowsById := by
  unfold ensureFieldPostings EqualityTableCacheEntry.ensureFieldPostings
  split <;> rfl

variable {values : List Bytes}

theorem ensureStringLikeIndex_base {caseInsensitive : Bool} :
    (entry.ensureStringLikeIndex prims fieldName caseInsensitive values).toEqualityTableCacheEntry =
      entry.toEqualityTableCacheEntry := by
  unfold ensureStringLikeIndex
  split <;> rfl

theorem rowIdsForFieldRange_base {filter : RangeFilterBounds} :
    (entry.rowIdsForFieldRange prims filter values).1.toEqualityTableCacheEntry = entry.toEqualityTableCacheEntry ∧
      (entry.rowIdsForFieldRange prims filter values).1.stringIndexes = entry.stringIndexes := by
  unfold rowIdsForFieldRange
  split
  · exact ⟨rfl, rfl⟩
  · split <;> exact ⟨rfl, rfl⟩

theorem rowsForRangeFilters_base {filters : List RangeFilterBounds} :
    (entry.rowsForRangeFilters prims filters values).1.toEqualityTableCacheEntry = entry.toEqualityTableCacheEntry ∧
      (entry.rowsForRangeFilters prims filters values).1.stringIndexes = entry.stringIndexes := by
  cases filters with
  | nil => exact ⟨rfl, rfl⟩
  | cons filter filters => exact rowIdsForFieldRange_base

theorem nodup_apply (h : (entry.rowsById.map Prod.fst).Nodup) (op : AccessorOp) :
    ((entry.apply prims op).rowsById.map Prod.fst).Nodup := by
  cases op with
  | insert rowId row => exact nodup_insert h
  | delete rowId row => exact nodup_delete h
  | ensurePostings fieldName => rwa [apply, rows_ensureFieldPostings]
  | ensureStringIndex fieldName caseInsensitive values => rwa [apply, ensureStringLikeIndex_base]
  | range filters values => rwa [apply, rowsForRangeFilters_base.1]

/-! ## Steps -/

theorem valueOf_insert_self :
    (entry.applyCachedRowInsert prims rowId row).valueOf fieldName rowId = row.lookup fieldName := by
  simp [valueOf, row_insert]

theorem valueOf_insert_of_ne (h : other ≠ rowId) :
    (entry.applyCachedRowInsert prims rowId row).valueOf fieldName other = entry.valueOf fieldName other := by
  simp [valueOf, row_insert, h]

theorem valueOf_delete_self : (entry.applyCachedRowDelete prims rowId row).valueOf fieldName rowId = none := by
  simp [valueOf, row_delete]

theorem valueOf_delete_of_ne (h : other ≠ rowId) :
    (entry.applyCachedRowDelete prims rowId row).valueOf fieldName other = entry.valueOf fieldName other := by
  simp [valueOf, row_delete, h]

theorem updatePostings_eq (entry : AccessorEntry) (row : RowMap) (f : List UInt64 → List UInt64) (fieldName : String) :
    entry.updatePostings row f fieldName = (entry.rowIdsByFieldValue fieldName).map fun postings =>
      Inverted.modify postings (row.lookup fieldName) f := by
  unfold EqualityTableCacheEntry.updatePostings
  cases row.lookup fieldName <;> rfl

theorem postings_insert : (entry.applyCachedRowInsert prims rowId row).rowIdsByFieldValue fieldName =
    (entry.rowIdsByFieldValue fieldName).map fun postings =>
      Inverted.modify postings (row.lookup fieldName) (· ++ [rowId]) :=
  updatePostings_eq entry row (· ++ [rowId]) fieldName

theorem postings_delete : (entry.applyCachedRowDelete prims rowId row).rowIdsByFieldValue fieldName =
    (entry.rowIdsByFieldValue fieldName).map fun postings =>
      Inverted.modify postings (row.lookup fieldName) (·.filter (· ≠ rowId)) :=
  updatePostings_eq entry row (·.filter (· ≠ rowId)) fieldName

/-- An operation that changes every index keeps the ids posted if it does so in each of them. -/
theorem posted_iff_of_map {after : AccessorEntry} {P : String → Prop} {S : Bool → String → Prop}
    {change : String → Inverted Bytes UInt64 → Inverted Bytes UInt64}
    {changeText : Bool → String → Inverted String UInt64 → Inverted String UInt64}
    (hpostings : ∀ fieldName, after.rowIdsByFieldValue fieldName =
      (entry.rowIdsByFieldValue fieldName).map (change fieldName))
    (hstrings : ∀ caseInsensitive fieldName, after.stringIndexes caseInsensitive fieldName =
      (entry.stringIndexes caseInsensitive fieldName).map (changeText caseInsensitive fieldName))
    (hP : ∀ fieldName, ∀ postings ∈ entry.rowIdsByFieldValue fieldName,
      (change fieldName postings).Lists Set.univ (after.valueOf fieldName) ↔ P fieldName)
    (hS : ∀ caseInsensitive fieldName, ∀ index ∈ entry.stringIndexes caseInsensitive fieldName,
      (changeText caseInsensitive fieldName index).Lists Set.univ (fun rowId =>
        (after.valueOf fieldName rowId).map (stringKeyFromValue prims caseInsensitive)) ↔ S caseInsensitive fieldName) :
    after.Posted prims ↔ (∀ fieldName, (entry.rowIdsByFieldValue fieldName).isSome = true → P fieldName) ∧
      ∀ caseInsensitive fieldName, (entry.stringIndexes caseInsensitive fieldName).isSome = true →
        S caseInsensitive fieldName := by
  refine Iff.trans ⟨fun h => ⟨h.postings, h.strings⟩, fun h => ⟨h.1, h.2⟩⟩
    (and_congr (forall_congr' fun fieldName => ?_) (forall₂_congr fun caseInsensitive fieldName => ?_))
  · rw [hpostings]
    cases hfield : entry.rowIdsByFieldValue fieldName with
    | none => simp
    | some postings => simp [hP fieldName postings hfield]
  · rw [hstrings]
    cases hfield : entry.stringIndexes caseInsensitive fieldName with
    | none => simp
    | some index => simp [hS caseInsensitive fieldName index hfield]

theorem posted_insert_iff (h : entry.Posted prims) :
    (entry.applyCachedRowInsert prims rowId row).Posted prims ↔ entry.Keeps prims (.insert rowId row) := by
  refine (posted_iff_of_map (fun _ => postings_insert) (fun _ _ => rfl)
    (fun _ _ hmem => (h.postings _ _ hmem).append_univ_iff valueOf_insert_self
      fun _ hj => valueOf_insert_of_ne hj)
    (fun _ _ _ hmem => (h.strings _ _ _ hmem).append_univ_iff
      (congrArg (Option.map _) valueOf_insert_self) fun _ hj => congrArg _ (valueOf_insert_of_ne hj))).trans ?_
  simp only [Keeps, Option.map_eq_none_iff, or_imp, exists_imp, forall_and]
  exact and_congr_right fun _ => forall_comm

theorem posted_delete_iff (h : entry.Posted prims) :
    (entry.applyCachedRowDelete prims rowId row).Posted prims ↔ entry.Keeps prims (.delete rowId row) := by
  refine (posted_iff_of_map (fun _ => postings_delete) (fun _ _ => rfl)
    (fun fieldName _ hmem => (h.postings _ _ hmem).filter_iff (row.lookup fieldName)
      valueOf_delete_self fun _ hj => valueOf_delete_of_ne hj)
    (fun caseInsensitive fieldName _ hmem => (h.strings _ _ _ hmem).filter_iff
      ((row.lookup fieldName).map (stringKeyFromValue prims caseInsensitive))
      (congrArg (Option.map _) valueOf_delete_self) fun _ hj => congrArg _ (valueOf_delete_of_ne hj))).trans ?_
  constructor
  · exact fun h fieldName value hvalue => ⟨fun hfield => h.1 fieldName hfield value hvalue,
      fun caseInsensitive hfield => h.2 caseInsensitive fieldName hfield _ (congrArg (Option.map _) hvalue)⟩
  · refine fun h => ⟨fun fieldName hfield value hvalue => (h fieldName value hvalue).1 hfield, ?_⟩
    intro caseInsensitive fieldName hfield key hkey
    obtain ⟨value, hvalue, rfl⟩ := Option.map_eq_some_iff.mp hkey
    exact (h fieldName value hvalue).2 caseInsensitive hfield

theorem Posted.ensureFieldPostings (h : entry.Posted prims) (hnodup : (entry.rowsById.map Prod.fst).Nodup)
    (fieldName : String) : (entry.ensureFieldPostings fieldName).Posted prims := by
  unfold AccessorEntry.ensureFieldPostings EqualityTableCacheEntry.ensureFieldPostings
  cases hfield : entry.rowIdsByFieldValue fieldName with
  | some _ => exact h
  | none =>
    refine ⟨fun name postings hpostings => ?_, h.strings⟩
    by_cases hname : name = fieldName
    · subst hname
      simp only [Function.update_self, Option.mem_some_iff] at hpostings
      subst hpostings
      exact Inverted.lists_group hnodup (·.lookup name)
    · simp only [Function.update_of_ne hname] at hpostings
      exact h.postings name postings hpostings

theorem posted_ensureStringLikeIndex_iff (h : entry.Posted prims) (hnodup : (entry.rowsById.map Prod.fst).Nodup)
    {caseInsensitive : Bool} (hlisted : entry.ListedValues fieldName values) :
    (entry.ensureStringLikeIndex prims fieldName caseInsensitive values).Posted prims ↔
      entry.Keeps prims (.ensureStringIndex fieldName caseInsensitive values) := by
  unfold ensureStringLikeIndex
  by_cases hsome : (entry.stringIndexes caseInsensitive fieldName).isSome = true
  · rw [if_pos hsome]
    refine iff_of_true h fun hnone => ?_
    simp [hnone] at hsome
  · have hbuilt : (entry.buildStringIndex prims fieldName caseInsensitive values).Lists Set.univ
        (fun rowId => (entry.valueOf fieldName rowId).map (stringKeyFromValue prims caseInsensitive)) ↔
          entry.Keeps prims (.ensureStringIndex fieldName caseInsensitive values) := by
      unfold buildStringIndex Keeps
      cases hfield : entry.rowIdsByFieldValue fieldName with
      | some postings =>
        dsimp only
        rw [(h.postings fieldName postings hfield).regroup_iff (hlisted postings hfield)]
        simp [Option.not_isSome_iff_eq_none.mp hsome, hfield]
      | none =>
        refine iff_of_true ?_ (by simp [hfield])
        have hgroup := Inverted.lists_group hnodup fun row : RowMap =>
          (row.lookup fieldName).map (stringKeyFromValue prims caseInsensitive)
        simpa only [valueOf, EqualityTableCacheEntry.row, Option.map_bind, Function.comp_def] using hgroup
    rw [if_neg hsome, ← hbuilt]
    constructor
    · intro hposted
      exact hposted.strings caseInsensitive fieldName _ (if_pos ⟨rfl, rfl⟩)
    · refine fun hlists => ⟨h.postings, fun mode name index hindex => ?_⟩
      by_cases hsame : mode = caseInsensitive ∧ name = fieldName
      · obtain ⟨rfl, rfl⟩ := hsame
        obtain rfl := Option.some.inj ((if_pos ⟨rfl, rfl⟩).symm.trans hindex)
        exact hlists
      · exact h.strings mode name index ((if_neg hsame).symm.trans hindex)

theorem Posted.of_same {other : AccessorEntry} (h : entry.Posted prims)
    (hbase : other.toEqualityTableCacheEntry = entry.toEqualityTableCacheEntry)
    (hstrings : other.stringIndexes = entry.stringIndexes) : other.Posted prims := by
  have hvalue : other.valueOf = entry.valueOf := by
    funext fieldName rowId
    rw [valueOf, valueOf, hbase]
  constructor
  · intro fieldName postings hpostings
    rw [hvalue]
    exact h.postings fieldName postings (hbase ▸ hpostings)
  · intro caseInsensitive fieldName index hindex
    rw [hvalue]
    exact h.strings caseInsensitive fieldName index (hstrings ▸ hindex)

theorem posted_apply_iff (h : entry.Posted prims) (hnodup : (entry.rowsById.map Prod.fst).Nodup) (op : AccessorOp)
    (hordered : entry.Ordered op) : (entry.apply prims op).Posted prims ↔ entry.Keeps prims op := by
  cases op with
  | insert rowId row => exact posted_insert_iff h
  | delete rowId row => exact posted_delete_iff h
  | ensurePostings fieldName => exact iff_of_true (h.ensureFieldPostings hnodup fieldName) trivial
  | ensureStringIndex fieldName caseInsensitive values => exact posted_ensureStringLikeIndex_iff h hnodup hordered
  | range filters values =>
    exact iff_of_true (h.of_same rowsForRangeFilters_base.1 rowsForRangeFilters_base.2) trivial

/-! ## Runs -/

theorem posted_ofRows (latestTxId : UInt64) (rows : List LiveRow) (approxRowsBytes : ℕ) :
    (ofRows latestTxId rows approxRowsBytes).Posted prims :=
  ⟨fun _ _ hnone => absurd hnone (Option.not_mem_none _), fun _ _ _ hnone => absurd hnone (Option.not_mem_none _)⟩

/-- The ids stand in their places throughout a run if and only if every step meets the condition. -/
theorem posted_throughout_iff (prims : ValuePrimitives) (latestTxId : UInt64) (rows : List LiveRow)
    (approxRowsBytes : ℕ) (hnodup : (rows.map Prod.fst).Nodup) (ops : List AccessorOp)
    (hordered : Along (apply prims) Ordered (ofRows latestTxId rows approxRowsBytes) ops) :
    (∀ n, (runFrom (apply prims) (ofRows latestTxId rows approxRowsBytes) (ops.take n)).Posted prims) ↔
      Along (apply prims) (Keeps prims) (ofRows latestTxId rows approxRowsBytes) ops := by
  refine Along.forall_take_iff (C := Ordered)
    (I := fun entry => entry.Posted prims ∧ (entry.rowsById.map Prod.fst).Nodup) (fun entry op hop h => ?_)
    (fun _ h => h.1) hordered ⟨posted_ofRows latestTxId rows approxRowsBytes, hnodup⟩
  have hiff := posted_apply_iff h.1 h.2 op hop
  exact ⟨fun hkeeps => ⟨hiff.mpr hkeeps, nodup_apply h.2 op⟩, hiff.mp⟩

def noted (text : String) : RowMap := (∅ : RowMap).insert "note" (utf8Bytes text)

def freshRowSteps : List AccessorOp :=
  [.ensurePostings "note", .ensureStringIndex "note" true [utf8Bytes "a"], .insert 2 (noted "A")]

theorem fresh_row_posted :
    ([((1 : UInt64), noted "a")].map Prod.fst).Nodup ∧
    ∀ n, (runFrom (apply .plain) (ofRows 0 [(1, noted "a")] 0) (freshRowSteps.take n)).Posted .plain := by
  have hvalue : (noted "a").lookup "note" = some (utf8Bytes "a") := by decide
  refine ⟨List.nodup_singleton _, (posted_throughout_iff .plain 0 [(1, noted "a")] 0 (List.nodup_singleton _)
    freshRowSteps ⟨trivial, ?_, trivial, trivial⟩).mpr ⟨trivial, ?_, ?_, trivial⟩⟩
  · intro postings hpostings
    obtain rfl := Option.some.inj hpostings
    refine ⟨List.nodup_singleton _, fun value => ?_⟩
    by_cases heq : value = utf8Bytes "a"
    · simp [EqualityTableCacheEntry.buildPostingsForField, hvalue, heq, ofRows]
    · simp [EqualityTableCacheEntry.buildPostingsForField, hvalue, heq, Ne.symm heq, ofRows]
  · have hsame : ∀ (rowId : UInt64) value, ([(1, noted "a")].lookup rowId).bind (·.lookup "note") = some value →
        value = utf8Bytes "a" := by
      intro rowId value
      by_cases heq : rowId = 1
      · simp [heq, hvalue, eq_comm]
      · simp [List.lookup_cons, beq_false_of_ne heq]
    intro _ _ rowId rowId' value value' hrow hrow' _
    rw [hsame rowId value hrow, hsame rowId' value' hrow']
  · intro fieldName _
    rfl

/-- A row that is inserted again stays under its old value. Two values with one text leave the rows of one of them. -/
theorem reinserted_row_posted :
    (let entry := runFrom (apply .plain) (ofRows 0 [] 0)
        [.ensurePostings "note", .insert 1 (noted "a"), .insert 1 (noted "b")]
     (entry.rowIdsByFieldValue "note").map (· (utf8Bytes "a")) = some [1] ∧
       entry.valueOf "note" 1 = some (utf8Bytes "b")) ∧
    (let entry := runFrom (apply .plain) (ofRows 0 [(1, noted "a"), (2, noted "A")] 0)
        [.ensurePostings "note", .ensureStringIndex "note" true [utf8Bytes "a", utf8Bytes "A"]]
     (entry.stringIndexes true "note").map (· "a") = some [2] ∧
       (entry.valueOf "note" 1).map (stringKeyFromValue .plain true) = some "a") := by
  decide +kernel

end AccessorEntry

end DistDb.Cache
