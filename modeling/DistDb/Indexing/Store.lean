import DistDb.Indexing.Postings
import DistDb.Transaction.Record

/-! # The runtime index store

The indexes of a table with the encoding of their keys, into which rows are recorded one by one or in batches. -/

namespace DistDb.Indexing
open Lib

inductive RuntimeIndexNumericKind where
  | signed
  | unsigned
  | float
  deriving DecidableEq, Repr

def beBytes (width n : Nat) : Bytes := (leBytes width n).reverse

/-- `bits ^ (1 << 63)` for a float without the sign bit, `!bits` for one with it. -/
def sortableF64 (bits : UInt64) : UInt64 := if bits >>> 63 = 0 then bits ^^^ 0x8000000000000000 else ~~~bits

def encodeSortableNumeric (prims : ValuePrimitives) (value : Bytes) : RuntimeIndexNumericKind → Option Bytes
  | .signed => ((fromUtf8 value).bind (parseSigned (2 ^ 63))).map fun v => beBytes 8 (v + 2 ^ 63).toNat
  | .unsigned => ((fromUtf8 value).bind (parseUnsigned (2 ^ 64))).map (beBytes 8)
  | .float => ((fromUtf8 value).bind fun text => prims.parseF64 (trim text)).bind fun bits =>
    if isNanF64 bits then none else some (beBytes 8 (sortableF64 bits).toNat)

def normalizeRuntimeIndexStringKey (value : Bytes) (caseInsensitive : Bool) : Bytes :=
  if caseInsensitive then value.map fun byte => if 65 ≤ byte ∧ byte ≤ 90 then byte + 32 else byte else value

structure KeyCoding where
  numericKind : Option RuntimeIndexNumericKind
  stringCaseInsensitive : Bool
  deriving DecidableEq, Repr

def KeyCoding.plain : KeyCoding := ⟨none, false⟩

/-- `encode_key`, up to the serialization of the tuple, which tells all tuples apart. -/
def KeyCoding.encodeKey (prims : ValuePrimitives) (coding : KeyCoding) (key : KeyTuple) : KeyTuple :=
  let key := key.map (normalizeRuntimeIndexStringKey · coding.stringCaseInsensitive)
  match key, coding.numericKind with
  | [value], some kind =>
    match encodeSortableNumeric prims (renderStoredFieldValue prims value) kind with
    | some sortable => [sortable]
    | none => key
  | _, _ => key

structure Indexor where
  coding : KeyCoding
  state : RuntimeIndexState

namespace Indexor

variable (prims : ValuePrimitives) (indexor : Indexor)

def new : Indexor := ⟨.plain, .new⟩

def withIndex (index : DatabaseIndex) : Indexor :=
  { indexor with state := { indexor.state with index := some index } }

def insertWithRowRef (key : KeyTuple) (rowRef : Option UInt64) : Indexor :=
  { indexor with state := indexor.state.insertWithRowRef (indexor.coding.encodeKey prims key) rowRef }

def removeWithRowRef (key : KeyTuple) (rowRef : Option UInt64) : Indexor :=
  { indexor with state := indexor.state.removeWithRowRef (indexor.coding.encodeKey prims key) rowRef }

def rowRefsForKey (key : KeyTuple) : Finset UInt64 :=
  indexor.state.rowRefsForKey (indexor.coding.encodeKey prims key)

def clear : Indexor := { indexor with state := { indexor.state with entries := ∅, nonUniqueRowRefs := ∅ } }

def insertRows (index : DatabaseIndex) (rows : List (UInt64 × RowMap)) : Indexor :=
  rows.foldl (fun indexor row => indexor.insertWithRowRef prims (indexValueTuple index row.2) (some row.1)) indexor

def removeRows (index : DatabaseIndex) (rows : List RowMap) : Indexor :=
  rows.foldl (fun indexor row => indexor.removeWithRowRef prims (indexValueTuple index row) none) indexor

end Indexor

/-- What the indexes of a table depend on. The type that a column was declared with is metadata of its field. -/
structure IndexEnv where
  table : DatabaseTable
  prims : ValuePrimitives
  originalSqlType : String → Option String

abbrev IndexorStore := Finmap fun _ : String => Indexor

namespace IndexorStore

variable (env : IndexEnv) (store : IndexorStore)

def indexor (indexId : String) : Indexor := (store.lookup indexId).getD .new

def updateAll (change : DatabaseIndex → Indexor → Indexor) : IndexorStore :=
  env.table.derivedIndexes.foldl
    (fun store index => store.insert index.indexId (change index (indexor store index.indexId))) store

def recordTableRowForTable (row : RowMap) (rowRef : Option UInt64) : IndexorStore :=
  updateAll env store fun index indexor =>
    (indexor.withIndex index).insertWithRowRef env.prims (indexValueTuple index row) rowRef

def removeTableRowForTable (row : RowMap) (rowRef : Option UInt64) : IndexorStore :=
  updateAll env store fun index indexor => indexor.removeWithRowRef env.prims (indexValueTuple index row) rowRef

def applyTableRowMutation (kind : TransactionKind) (latestTxId : UInt64) (row : RowMap) (rowRef : Option UInt64) :
    IndexorStore :=
  match kind with
  | .delete => removeTableRowForTable env store row rowRef
  | .insert | .update => recordTableRowForTable env store row (some latestTxId)
  | _ => store

def recordTableRowsBatchWithFirstRowRef (firstRowRef : UInt64) (rows : List RowMap) : IndexorStore :=
  if rows = [] then store
  else updateAll env store fun index indexor =>
    (indexor.withIndex index).insertRows env.prims index (RuntimeIndexState.numberRows firstRowRef rows)

def removeTableRowsBatch (rows : List RowMap) : IndexorStore :=
  if rows = [] then store
  else updateAll env store fun index indexor => indexor.removeRows env.prims index rows

/-! ## Bootstrap -/

def indexedField (index : DatabaseIndex) : Option FieldDef :=
  match index.keyFields with
  | [fieldName] => env.table.schema.field fieldName
  | _ => none

def numericKindForIndex (index : DatabaseIndex) : Option RuntimeIndexNumericKind :=
  (indexedField env index).bind fun field =>
    match field.fieldType with
    | .int _ => some .signed
    | .uint _ => some .unsigned
    | .float _ => some .float
    | _ =>
      match env.originalSqlType field.fieldName with
      | some sqlType =>
        if ["decimal", "numeric", "double", "float"].any fun name => containsText (toAsciiLowercase sqlType) name
        then some .float else none
      | none => none

def hasStringIndexor : FieldKind → Bool
  | .stringFixed _ | .text | .enum _ | .uuid => true
  | _ => false

def prepareIndexor (index : DatabaseIndex) (indexor : Indexor) : Indexor :=
  let indexor : Indexor := match indexedField env index with
    | some field => ⟨⟨none, hasStringIndexor field.fieldType⟩, ⟨some index, ∅, ∅⟩⟩
    | none => indexor
  { indexor with coding := { indexor.coding with numericKind := numericKindForIndex env index } }

def bootstrap (rows : List (UInt64 × RowMap)) : IndexorStore :=
  updateAll env store fun index indexor =>
    ((prepareIndexor env index indexor).withIndex index).clear.insertRows env.prims index rows

end IndexorStore

end DistDb.Indexing
