import DistDb.Payload.Row

/-! # Tables and their runtime indexes -/

namespace DistDb
open Lib

inductive DatabaseIndexKind where
  | primaryKey
  | unique
  | indexed
  deriving DecidableEq, Repr

inductive DatabaseIndexOrigin where
  | derived
  | userDefined
  | relationship
  | temporary
  deriving DecidableEq, Repr

structure DatabaseIndex where
  indexId : String
  kind : DatabaseIndexKind
  origin : DatabaseIndexOrigin
  fieldNames : List String
  fieldName : String
  deriving DecidableEq, Repr

namespace DatabaseIndex

variable (index : DatabaseIndex)

def isPrimaryKey : Bool := index.kind = .primaryKey

def isUniqueKey : Bool := index.kind = .primaryKey ∨ index.kind = .unique

def isTemporary : Bool := index.origin = .temporary

/-- Older indexes have their one field in `field_name` only. -/
def keyFields : List String :=
  if index.fieldNames = [] ∧ index.fieldName ≠ "" then [index.fieldName] else index.fieldNames

end DatabaseIndex

abbrev KeyTuple := List Bytes

def valueTuple (fieldNames : List String) (row : RowMap) : KeyTuple :=
  fieldNames.map fun fieldName => (row.lookup fieldName).getD []

def indexValueTuple (index : DatabaseIndex) (row : RowMap) : KeyTuple := valueTuple index.keyFields row

structure DatabaseTable where
  tableId : String
  schema : TableSchema
  indexes : List DatabaseIndex
  nodup_indexIds : (indexes.map (·.indexId)).Nodup

namespace DatabaseTable

variable (table : DatabaseTable)

def primaryKeyIndex : Option DatabaseIndex :=
  (table.indexes.find? (·.isPrimaryKey)).or
    (table.indexes.find? fun index => startsWith (toAsciiLowercase index.indexId) "pri:")

def derivedIndexes : List DatabaseIndex := table.indexes.filter fun index => !index.isTemporary

theorem nodup_derivedIds : (table.derivedIndexes.map (·.indexId)).Nodup :=
  (List.filter_sublist.map _).nodup table.nodup_indexIds

end DatabaseTable

/-! ## Runtime indexes -/

structure RuntimeIndexState where
  index : Option DatabaseIndex
  entries : Finmap fun _ : KeyTuple => Option UInt64
  nonUniqueRowRefs : Finmap fun _ : KeyTuple => Finset UInt64
  deriving DecidableEq

namespace RuntimeIndexState

def new : RuntimeIndexState := ⟨none, ∅, ∅⟩

/-- References are stored one higher, as non-zero integers, which leaves no form for the largest one. -/
def packRowRef (rowRef : UInt64) : Option UInt64 := if rowRef.toNat + 1 < 2 ^ 64 then some rowRef else none

variable (state : RuntimeIndexState) (key : KeyTuple)

def contains : Bool := (state.entries.lookup key).isSome

/-- An index that was never given its definition counts as unique. -/
def isUniqueKey : Bool := state.index.elim true (·.isUniqueKey)

def insertWithRowRef (rowRef : Option UInt64) : RuntimeIndexState :=
  if state.isUniqueKey then
    { state with entries := state.entries.insert key (rowRef.bind packRowRef) }
  else
    match rowRef.bind packRowRef, state.entries.lookup key with
    | none, none => { state with entries := state.entries.insert key none }
    | none, some _ => state
    | some rowRef, none => { state with entries := state.entries.insert key (some rowRef) }
    | some rowRef, some (some existing) =>
      if existing = rowRef then state
      else
        { state with
          entries := state.entries.insert key none
          nonUniqueRowRefs := state.nonUniqueRowRefs.insert key {existing, rowRef} }
    | some rowRef, some none =>
      { state with
        nonUniqueRowRefs := state.nonUniqueRowRefs.insert key
          (insert rowRef ((state.nonUniqueRowRefs.lookup key).getD ∅)) }

def removeKey : RuntimeIndexState :=
  { state with
    entries := state.entries.erase key
    nonUniqueRowRefs := state.nonUniqueRowRefs.erase key }

abbrev sortRowRefs (rowRefs : Finset UInt64) : List UInt64 := rowRefs.sort (· ≤ ·)

theorem toFinset_sortRowRefs (rowRefs : Finset UInt64) : (sortRowRefs rowRefs).toFinset = rowRefs :=
  Finset.sort_toFinset rowRefs (· ≤ ·)

def replacePostings (rowRefs : Finset UInt64) : RuntimeIndexState :=
  match sortRowRefs rowRefs with
  | [] => state.removeKey key
  | [rowRef] =>
    { state with
      entries := state.entries.insert key (some rowRef)
      nonUniqueRowRefs := state.nonUniqueRowRefs.erase key }
  | _ => { state with nonUniqueRowRefs := state.nonUniqueRowRefs.insert key rowRefs }

def removeWithRowRef (rowRef : Option UInt64) : RuntimeIndexState :=
  if state.isUniqueKey then { state with entries := state.entries.erase key }
  else
    match state.entries.lookup key with
    | none => state
    | some (some single) =>
      if rowRef.elim true fun rowRef => packRowRef rowRef = some single then
        { state with entries := state.entries.erase key }
      else state
    | some none =>
      match rowRef.bind packRowRef, state.nonUniqueRowRefs.lookup key with
      | some rowRef, some rowRefs => state.replacePostings key (rowRefs.erase rowRef)
      | _, _ => state.removeKey key

def rowRefsForKey : Finset UInt64 :=
  match (state.entries.lookup key).join with
  | some rowRef => {rowRef}
  | none =>
    if state.index.elim false (·.isUniqueKey) then ∅ else (state.nonUniqueRowRefs.lookup key).getD ∅

def rowRefsByKey (index : DatabaseIndex) (rows : List (UInt64 × RowMap)) (key : KeyTuple) : List UInt64 :=
  (rows.filter fun row => indexValueTuple index row.2 = key).map Prod.fst

def rebuildKey (rowRefs : List UInt64) : RuntimeIndexState :=
  if state.index.elim false (·.isUniqueKey) then
    { state with entries := state.entries.insert key (rowRefs.head?.bind packRowRef) }
  else
    match rowRefs with
    | [rowRef] => { state with entries := state.entries.insert key (packRowRef rowRef) }
    | _ =>
      let postings := (rowRefs.filterMap packRowRef).toFinset
      { state with
        entries := state.entries.insert key none
        nonUniqueRowRefs :=
          if postings = ∅ then state.nonUniqueRowRefs else state.nonUniqueRowRefs.insert key postings }

def rebuildWithRowRefs (index : DatabaseIndex) (rows : List (UInt64 × RowMap)) : RuntimeIndexState :=
  ((rows.map fun row => indexValueTuple index row.2).dedup).foldl
    (fun state key => state.rebuildKey key (rowRefsByKey index rows key)) ⟨some index, ∅, ∅⟩

end RuntimeIndexState

abbrev RuntimeIndexStore := Finmap fun _ : String => RuntimeIndexState

namespace RuntimeIndexStore

variable (store : RuntimeIndexStore)

def stateOrNew (indexId : String) : RuntimeIndexState := (store.lookup indexId).getD .new

def updateIndex (index : DatabaseIndex) (f : RuntimeIndexState → RuntimeIndexState) : RuntimeIndexStore :=
  store.insert index.indexId (f { store.stateOrNew index.indexId with index := some index })

def recordTableRowForTable (indexes : List DatabaseIndex) (row : RowMap) (rowRef : Option UInt64) :
    RuntimeIndexStore :=
  indexes.foldl (fun store index =>
    updateIndex store index fun state => state.insertWithRowRef (indexValueTuple index row) rowRef) store

/-- Removal does not give an index its definition. -/
def removeTableRowForTable (indexes : List DatabaseIndex) (row : RowMap) (rowRef : Option UInt64) :
    RuntimeIndexStore :=
  indexes.foldl (fun store index =>
    store.insert index.indexId
      ((stateOrNew store index.indexId).removeWithRowRef (indexValueTuple index row) rowRef)) store

def nextRowRef (rowRef : UInt64) : UInt64 := if rowRef.toNat + 1 < 2 ^ 64 then rowRef + 1 else rowRef

def insertRows (index : DatabaseIndex) (state : RuntimeIndexState) (rowRef : UInt64) :
    List RowMap → RuntimeIndexState
  | [] => state
  | row :: rows =>
    insertRows index (state.insertWithRowRef (indexValueTuple index row) (some rowRef))
      (nextRowRef rowRef) rows

def recordTableRowsBatchWithFirstRowRef (indexes : List DatabaseIndex) (firstRowRef : UInt64)
    (rows : List RowMap) : RuntimeIndexStore :=
  if rows = [] then store
  else
    indexes.foldl (fun store index =>
      updateIndex store index fun state => insertRows index state firstRowRef rows) store

def rebuildIndexes (indexes : List DatabaseIndex) (rows : List (UInt64 × RowMap)) : RuntimeIndexStore :=
  indexes.foldl (fun store index =>
    updateIndex store index fun _ => RuntimeIndexState.rebuildWithRowRefs index rows) store

end RuntimeIndexStore

end DistDb
