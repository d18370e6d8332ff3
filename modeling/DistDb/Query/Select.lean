import DistDb.Lib.Rows
import DistDb.Query.Join

/-! # Select statements

The execution of a read plan without `GROUP BY`, aggregate, window function, `QUALIFY`, `LIMIT BY`, `TOP` and `FETCH`
with percent or ties. -/

namespace DistDb.Query
open Lib Mutation

/-! ## Plans -/

structure SelectOrderByItem where
  fieldName : String
  descending : Bool
  deriving DecidableEq, Repr

inductive SelectProjectionItem where
  | column (fieldName outputName : String)
  | inbuiltFunction (function outputName : String)
  | wildcard (relation : Option String)
  deriving DecidableEq, Repr

structure SelectReadPlan (σ : Type) where
  relation : SelectRelation
  joins : List (SelectJoin σ)
  pushdownConditions : List (Option (SelectCondition σ))
  projectionItems : List SelectProjectionItem
  distinct : Bool
  orderBy : List SelectOrderByItem
  limit : Option Nat
  offset : Option Nat
  whereCondition : Option (SelectCondition σ)

namespace SelectReadPlan

variable {σ : Type} (plan : SelectReadPlan σ)

def relations : List SelectRelation := plan.relation :: plan.joins.map (·.relation)

/-! ## Bounds of rows

Where the source adds with saturation, the sums here may pass `usize::MAX`; both exceed every number of rows. -/

def requiresFullResultMaterialization : Bool := plan.distinct || !plan.orderBy.isEmpty

def explicitResultRowBound : Option Nat :=
  plan.limit.map fun limit => limit + plan.offset.getD 0

def minBound : Option Nat → Option Nat → Option Nat
  | some a, some b => some (min a b)
  | some a, none => some a
  | none, b => b

def effectiveResultRowBound (forcedRowBound : Option Nat) : Option Nat :=
  if plan.requiresFullResultMaterialization then none
  else minBound plan.explicitResultRowBound forcedRowBound

def simpleUnorderedRelationRowLimit : Option Nat :=
  if plan.offset.getD 0 ≠ 0 then none
  else if !plan.joins.isEmpty || plan.distinct || !plan.orderBy.isEmpty || plan.whereCondition.isSome then none
  else plan.limit

def materializationRowLimit (forcedRowBound : Option Nat) : Option Nat :=
  minBound plan.simpleUnorderedRelationRowLimit (plan.effectiveResultRowBound forcedRowBound)

end SelectReadPlan

/-! ## Columns -/

structure OutputColumn where
  fieldName : String
  fieldType : FieldKind
  nullable : Bool
  hidden : Bool
  deriving DecidableEq, Repr

def expandRelationProjectionItems (schema : TableSchema) (projectionItems : List SelectProjectionItem) :
    List SelectProjectionItem :=
  projectionItems.flatMap fun
    | .wildcard _ => schema.fields.map fun field => .column field.fieldName field.fieldName
    | item => [item]

def SelectProjectionItem.covers (fieldName : String) : SelectProjectionItem → Bool
  | .column projectedFieldName outputName => projectedFieldName = fieldName ∨ outputName = fieldName
  | .inbuiltFunction _ outputName => outputName = fieldName
  | .wildcard _ => false

def ensureOrderByProjectionItems (projectionItems : List SelectProjectionItem) :
    List SelectOrderByItem → List SelectProjectionItem
  | [] => projectionItems
  | item :: orderBy =>
    if projectionItems.any (·.covers item.fieldName) then ensureOrderByProjectionItems projectionItems orderBy
    else ensureOrderByProjectionItems (projectionItems ++ [.column item.fieldName item.fieldName]) orderBy

def mapResults {α β : Type} (f : α → Except String β) : List α → Except String (List β)
  | [] => .ok []
  | a :: as =>
    match f a with
    | .error e => .error e
    | .ok b =>
      match mapResults f as with
      | .error e => .error e
      | .ok bs => .ok (b :: bs)

section Columns

variable (label : String) (field : String → Option (FieldKind × Bool)) (visible : Nat)

/-- The column for a projection item and its position; `field` gives type and nullability of a field, and
errors begin with `label`. -/
def outputColumn : SelectProjectionItem × Nat → Except String OutputColumn
  | (.column fieldName outputName, seq) =>
    match field fieldName with
    | none => .error (label ++ " failed: unknown column '" ++ fieldName ++ "'")
    | some (fieldType, nullable) => .ok ⟨outputName, fieldType, nullable, visible ≤ seq⟩
  | (.inbuiltFunction _ outputName, seq) => .ok ⟨outputName, .text, true, visible ≤ seq⟩
  | (.wildcard _, _) => .error (label ++ " failed: wildcard expansion should have been resolved")

def outputColumns (projectionItems : List SelectProjectionItem) : Except String (List OutputColumn) :=
  mapResults (outputColumn label field visible) projectionItems.zipIdx

end Columns

def relationField (schema : TableSchema) (fieldName : String) : Option (FieldKind × Bool) :=
  (schema.field fieldName).map fun field => (field.fieldType, field.nullable)

/-! ## Rows -/

section Rows

variable {σ ρ : Type} (env : ConditionEnv σ)

def nullText : Bytes := utf8Bytes "NULL"

def projectCell (label : String) (provider : Provider) (column : OutputColumn) :
    SelectProjectionItem → Except String Bytes
  | .column fieldName _ =>
    .ok (match provider fieldName with
      | some value => renderStoredFieldValue env.values value
      | none => if column.nullable then nullText else [])
  | .inbuiltFunction function _ =>
    match env.evaluateExpression (fun name => (provider name).map (renderStoredFieldValue env.values))
        function with
    | .error e => .error (label ++ " failed: inbuilt projection evaluation failed: " ++ e)
    | .ok value => .ok (value.getD nullText)
  | .wildcard _ => .ok []

def projectRow (label : String) (columns : List OutputColumn) (projectionItems : List SelectProjectionItem)
    (provider : Provider) : Except String (List Bytes) :=
  mapResults (fun (column, item) => projectCell env label provider column item) (columns.zip projectionItems)

/-- The loop over the candidates with its `ResultRowCollector`, which is asked after each row. -/
def collectRows {α : Type} (accepts : ρ → Except String Bool) (project : ρ → Except String α)
    (bound : Option Nat) : List α → List ρ → Except String (List α)
  | collected, [] => .ok collected
  | collected, row :: rows =>
    match accepts row with
    | .error e => .error e
    | .ok false => collectRows accepts project bound collected rows
    | .ok true =>
      match project row with
      | .error e => .error e
      | .ok cells =>
        let collected := collected ++ [cells]
        if bound.all (collected.length < ·) then collectRows accepts project bound collected rows
        else .ok collected

end Rows

/-! ## Post-processing -/

section PostProcessing

variable (prims : ValuePrimitives) (columns : List OutputColumn)

def visibleCells (cells : List Bytes) : List Bytes :=
  (columns.zip cells).filterMap fun (column, cell) => if column.hidden then none else some cell

def compareOrderByValues : Option Bytes → Option Bytes → Ordering
  | some left, some right =>
    match (fromUtf8 left).bind (prims.parseF64 <| trim ·), (fromUtf8 right).bind (prims.parseF64 <| trim ·) with
    | some left, some right => compareF64 left right
    | _, _ => compareBytes left right
  | some _, none => .gt
  | none, some _ => .lt
  | none, none => .eq

/-- Of several columns with one name the last is found; a qualified name may stand for the only column with
its last part. -/
def orderByIndex (fieldName : String) : Option Nat :=
  (columns.zipIdx.reverse.find? fun (column, _) => column.fieldName = fieldName).map Prod.snd |>.or <|
    (rsplitOnce '.' fieldName).bind fun (_, unqualified) =>
      match columns.zipIdx.filter fun (column, _) =>
          toAsciiLowercase column.fieldName = toAsciiLowercase unqualified with
      | [(_, index)] => some index
      | _ => none

def orderIndexes (orderBy : List SelectOrderByItem) : List (Nat × Bool) :=
  orderBy.filterMap fun item => (orderByIndex columns item.fieldName).map (·, item.descending)

def compareRows : List (Nat × Bool) → List Bytes → List Bytes → Ordering
  | [], _, _ => .eq
  | (index, descending) :: indexes, left, right =>
    let ordering := compareOrderByValues prims left[index]? right[index]?
    (if descending then ordering.swap else ordering).then (compareRows indexes left right)

def applyRowWindow {α : Type} (rows : List α) (limit offset : Option Nat) : List α :=
  let start := min (offset.getD 0) rows.length
  let stop := limit.elim rows.length fun limit => min (start + limit) rows.length
  (rows.drop start).take (stop - start)

/-- Another search for the column of an `ORDER BY` item than the one of the sort: without regard to case, the first
of several columns, and the part behind the first dot. -/
def resolveOrderByProjectionIndex (fieldName : String) : Option Nat :=
  (columns.zipIdx.find? fun (column, _) => toAsciiLowercase column.fieldName = toAsciiLowercase fieldName).map
    Prod.snd |>.or <|
    (splitOnce '.' fieldName).bind fun (_, unqualified) =>
      match columns.zipIdx.filter fun (column, _) =>
          toAsciiLowercase column.fieldName = toAsciiLowercase unqualified with
      | [(_, index)] => some index
      | _ => none

/-- Without a limit all rows are kept, but the columns are looked for. -/
def applyTopWithTiesPostFilter {α : Type} (orderBy : List SelectOrderByItem) (rows : List α) :
    Except String (List α) :=
  match orderBy.find? fun item => (resolveOrderByProjectionIndex columns item.fieldName).isNone with
  | some item => .error ("select failed: TOP WITH TIES ORDER BY column '" ++ item.fieldName ++
      "' is not present in result projection")
  | none => .ok rows

/-- `apply_select_post_processing`. The sort is stable; where texts and numbers mix, so that the comparison is
no order, the source leaves the outcome open. -/
def applySelectPostProcessing {σ : Type} (plan : SelectReadPlan σ) (rows : List (List Bytes)) :
    Except String (List (List Bytes)) :=
  let rows := if plan.distinct then uniqueBy (visibleCells columns) [] rows else rows
  let rows := if plan.orderBy.isEmpty then rows else
    rows.mergeSort fun left right => compareRows prims (orderIndexes columns plan.orderBy) left right ≠ .gt
  -- once for `TOP` and once for `FETCH`
  match applyTopWithTiesPostFilter columns plan.orderBy rows with
  | .error e => .error e
  | .ok rows =>
    match applyTopWithTiesPostFilter columns plan.orderBy rows with
    | .error e => .error e
    | .ok rows => .ok (applyRowWindow rows plan.limit plan.offset)

end PostProcessing

/-! ## Execution -/

structure SelectExecutionResult where
  columns : List OutputColumn
  rows : List (List Bytes)
  deriving DecidableEq

section Execution

variable {σ : Type} (env : ConditionEnv σ)

def finishSelect {ρ : Type} (label : String) (value : ρ → Provider) (accepts : ρ → Except String Bool)
    (plan : SelectReadPlan σ) (bound : Option Nat) (columns : List OutputColumn)
    (projectionItems : List SelectProjectionItem) (candidates : List ρ) : Except String SelectExecutionResult :=
  match collectRows accepts (fun row => projectRow env label columns projectionItems (value row)) bound []
      candidates with
  | .error e => .error e
  | .ok rows =>
    match applySelectPostProcessing env.values columns plan rows with
    | .error e => .error e
    | .ok rows => .ok ⟨columns.filter (!·.hidden), rows.map (visibleCells columns)⟩

def executeRelationSelectPlan (source : RelationSource σ)
    (rowMatches : RowMap → Option (SelectCondition σ) → Except String Bool) (plan : SelectReadPlan σ)
    (forcedRowBound : Option Nat) : Except String SelectExecutionResult :=
  let visibleItems := expandRelationProjectionItems source.schema plan.projectionItems
  let projectionItems := ensureOrderByProjectionItems visibleItems plan.orderBy
  match outputColumns "select" (relationField source.schema) visibleItems.length projectionItems with
  | .error e => .error e
  | .ok columns =>
    finishSelect env "select" (fun row : LiveRow => rowProvider row.2)
      (fun row => rowMatches row.2 plan.whereCondition) plan (plan.effectiveResultRowBound forcedRowBound)
      columns projectionItems
      (source.materialize plan.whereCondition (plan.materializationRowLimit forcedRowBound))

variable (catalog : String → Option (RelationSource σ))

def resolveJoinField (relations : List SelectRelation) (fieldName : String) : Option FieldDef :=
  (splitOnce '.' fieldName).bind fun (qualifier, columnName) =>
    (relations.find? fun relation => relation.tableId = qualifier ∨ relation.aliasName = some qualifier).bind
      fun relation => (catalog relation.tableId).bind fun source => source.schema.field columnName

def canBeNullExtended (qualifier : String) : List SelectRelation → List (SelectJoin σ) → Bool
  | _, [] => false
  | leftRelations, join :: joins =>
    (join.kind.keepsRight && leftRelations.any (·.qualifier = qualifier)) ||
      (join.kind.keepsLeft && join.relation.qualifier = qualifier) ||
      canBeNullExtended qualifier (leftRelations ++ [join.relation]) joins

def joinField (plan : SelectReadPlan σ) (fieldName : String) : Option (FieldKind × Bool) :=
  (resolveJoinField catalog plan.relations fieldName).map fun field =>
    (field.fieldType, field.nullable || (splitOnce '.' fieldName).any fun (qualifier, _) =>
      canBeNullExtended qualifier [plan.relation] plan.joins)

def expandJoinProjectionItems (relations : List SelectRelation) (projectionItems : List SelectProjectionItem) :
    Except String (List SelectProjectionItem) :=
  (mapResults (fun
    | .wildcard relation =>
      let targets := relations.filter fun target => relation.all (target.qualifier = ·)
      if targets.isEmpty then .error ("select join failed: unknown wildcard relation '" ++ relation.getD "" ++ "'")
      else
        (mapResults (fun target : SelectRelation =>
          match catalog target.tableId with
          | none => .error ("select join failed: unknown table schema '" ++ target.tableId ++ "'")
          | some source => .ok (source.schema.fields.map fun field =>
            .column (target.qualifier ++ "." ++ field.fieldName) field.fieldName)) targets).map List.flatten
    | item => .ok [item]) projectionItems).map List.flatten

def executeJoinedSelectPlan (rowMatchesRelation : RowMap → Option (SelectCondition σ) → Except String Bool)
    (rowMatchesJoined : JoinedRowTuple → Option (SelectCondition σ) → Except String Bool)
    (plan : SelectReadPlan σ) (forcedRowBound : Option Nat) : Except String SelectExecutionResult :=
  match expandJoinProjectionItems catalog plan.relations plan.projectionItems with
  | .error e => .error e
  | .ok visibleItems =>
    let projectionItems := ensureOrderByProjectionItems visibleItems plan.orderBy
    match outputColumns "select join" (joinField catalog plan) visibleItems.length projectionItems with
    | .error e => .error e
    | .ok columns =>
      match buildJoinedRowTuples env catalog rowMatchesRelation plan.relation plan.pushdownConditions
          plan.joins with
      | .error e => .error e
      | .ok tuples =>
        finishSelect env "select join" JoinedRowTuple.value
          (fun tuple => rowMatchesJoined tuple plan.whereCondition) plan
          (plan.effectiveResultRowBound forcedRowBound) columns projectionItems tuples

/-! ## Statements -/

/-- `execute_select_plan_result`: rows for which a condition fails do not match. -/
def executeSelectPlanResult (plan : SelectReadPlan σ) : Except String SelectExecutionResult :=
  if plan.joins.isEmpty then
    match catalog plan.relation.tableId with
    | none => .error ("select failed: table '" ++ plan.relation.tableId ++ "' not found")
    | some source =>
      executeRelationSelectPlan env source
        (fun row condition => .ok (rowMatchesSelectCondition env (rowProvider row) condition)) plan none
  else
    executeJoinedSelectPlan env catalog
      (fun row condition => .ok (rowMatchesSelectCondition env (rowProvider row) condition))
      (fun tuple condition => .ok (rowMatchesSelectCondition env tuple.value condition)) plan none

end Execution

end DistDb.Query
