import DistDb.Mutation.Append

/-! # Plans of row statements

A plan is what the parser and the planner hand over. Expressions, conditions and access paths are
functions here: their evaluation is not part of this development. -/

namespace DistDb.Mutation
open Lib

inductive MutationReturningItem where
  | wildcard
  | column (fieldName outputName : String)
  deriving DecidableEq, Repr

/-! ## Plans -/

inductive UpdateAssignmentValue where
  | literal (value : Option Bytes)
  | functionExpression (evaluate : RowMap → Except String (Option Bytes))
  | existingColumn (columnName : String)
  | arithmetic (evaluate : RowMap → Except String Bytes)

structure UpdateAssignment where
  fieldName : String
  value : UpdateAssignmentValue

/-- Which rows a statement visits. `load` stands for `load_mutation_rows` with its access path; a
condition may read tables that the statement is changing. Rows of a join are not checked again. -/
structure MutationTarget where
  load : TableState → Except String (List LiveRow)
  usesJoins : Bool
  whereMatches : TableState → RowMap → Bool
  /-- The first row does not come after the second. -/
  orderBy : Option (RowMap → RowMap → Bool)
  limit : Option Nat

structure UpdateRowsPlan where
  target : MutationTarget
  assignments : List UpdateAssignment
  returning : Option (List MutationReturningItem)

namespace MutationTarget

variable (target : MutationTarget)

def order (rows : List LiveRow) : List LiveRow :=
  match target.orderBy with
  | none => rows
  | some le => rows.insertionSort fun lhs rhs => le lhs.2 rhs.2 = true

end MutationTarget

def assignField (row : RowMap) (fieldName : String) : Option Bytes → RowMap
  | some value => row.insert fieldName value
  | none => row.erase fieldName

def nullViolation (schema : TableSchema) (row : RowMap) : Option String :=
  (schema.fields.find? fun field => (row.lookup field.fieldName).isNone && !field.nullable).map
    (·.fieldName)

/-! ## Updated rows -/

section UpdatedRows

variable (env : WriteEnv)

def resolveUpdateAssignment (row : RowMap) : UpdateAssignmentValue → Except String (Option Bytes)
  | .literal value => .ok value
  | .functionExpression evaluate =>
    match evaluate row with
    | .ok value => .ok value
    | .error e => .error s!"update failed: {e}"
  | .existingColumn columnName =>
    match row.lookup columnName with
    | some value => .ok (some value)
    | none => .error s!"update failed: assignment column '{columnName}' was not found in current row"
  | .arithmetic evaluate =>
    match evaluate row with
    | .ok value => .ok (some value)
    | .error e => .error s!"update failed: {e}"

def applyUpdateAssignments : List UpdateAssignment → RowMap → Except String RowMap
  | [], row => .ok row
  | assignment :: assignments, row =>
    match resolveUpdateAssignment row assignment.value with
    | .error e => .error e
    | .ok value => applyUpdateAssignments assignments (assignField row assignment.fieldName value)

/-- Only keys, indexes and `RETURNING` need the row as it will be read back. -/
def updateRequiresCanonicalRow (plan : UpdateRowsPlan) : Bool :=
  env.table.primaryKeyIndex.isSome || plan.returning.isSome || !env.table.derivedIndexes.isEmpty

def prepareUpdatedRow (plan : UpdateRowsPlan) (row : RowMap) : Except String (Bytes × Option RowMap) :=
  match applyUpdateAssignments plan.assignments row with
  | .error e => .error e
  | .ok updatedRow =>
    match nullViolation env.schema updatedRow with
    | some fieldName => .error s!"update failed: column '{fieldName}' cannot be null"
    | none =>
      if updateRequiresCanonicalRow env plan then
        match env.decode (env.encode updatedRow) with
        | .ok canonicalRow => .ok (env.encode updatedRow, some canonicalRow)
        | .error e => .error s!"update insert payload decode failed: {e}"
      else .ok (env.encode updatedRow, none)

variable {env} in
theorem prepareUpdatedRow_fst {plan : UpdateRowsPlan} {row : RowMap} {encoded : Bytes} {canonicalRow : Option RowMap}
    (h : prepareUpdatedRow env plan row = .ok (encoded, canonicalRow)) :
    ∃ updatedRow, applyUpdateAssignments plan.assignments row = .ok updatedRow ∧ encoded = env.encode updatedRow := by
  unfold prepareUpdatedRow at h
  split at h
  · cases h
  · rename_i updatedRow hassign
    split at h
    · cases h
    · split at h
      · split at h
        · cases h
          exact ⟨updatedRow, hassign, rfl⟩
        · cases h
      · cases h
        exact ⟨updatedRow, hassign, rfl⟩

end UpdatedRows

end DistDb.Mutation
