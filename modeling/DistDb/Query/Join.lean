import DistDb.Lib.Join
import DistDb.Query.Row

/-! # Joins of relations

`build_joined_row_tuples`: an equality of a left and a right field in the `ON` condition is looked up in two maps from
the values of the right field to its rows, one by stored and one by rendered values. -/

namespace DistDb.Query
open Lib Mutation

/-- What is read of a table: its rows by the access path for a condition, up to a limit, and by a key of an
indexed field. Which rows these give is the concern of the access paths. -/
structure RelationSource (σ : Type) where
  schema : TableSchema
  liveRows : List LiveRow
  nodup_liveRowIds : (liveRows.map Prod.fst).Nodup
  materialize : Option (SelectCondition σ) → (limit : Option Nat) → List LiveRow
  hasSingleColumnIndex : String → Bool
  probe : String → Bytes → List LiveRow

/-! ## Join conditions -/

section Conditions

variable {σ : Type}

mutual

/-- `join_condition_matches_provider`: predicates other than comparisons do not match. -/
def joinConditionMatches (prims : ValuePrimitives) (provider : Provider) : SelectCondition σ → Bool
  | .and children => joinMatchesAll prims provider children
  | .or children => joinMatchesAny prims provider children
  | .not child => !joinConditionMatches prims provider child
  | .predicate (.fieldComparison left op right) => compareProviderFields prims provider left right op
  | .predicate (.comparison fieldName op value) =>
    (provider fieldName).any fun actual => compareRowValue prims actual value op
  | .predicate _ => false

def joinMatchesAll (prims : ValuePrimitives) (provider : Provider) : List (SelectCondition σ) → Bool
  | [] => true
  | child :: children => joinConditionMatches prims provider child && joinMatchesAll prims provider children

def joinMatchesAny (prims : ValuePrimitives) (provider : Provider) : List (SelectCondition σ) → Bool
  | [] => false
  | child :: children => joinConditionMatches prims provider child || joinMatchesAny prims provider children

end

mutual

/-- `join_condition_field_names`: the first equality of two fields, wherever it stands. -/
def findEquality : SelectCondition σ → Option (String × String)
  | .predicate (.fieldComparison left .eq right) => some (left, right)
  | .predicate _ => none
  | .and children | .or children => findEqualityIn children
  | .not child => findEquality child

def findEqualityIn : List (SelectCondition σ) → Option (String × String)
  | [] => none
  | child :: children => (findEquality child).or (findEqualityIn children)

end

def hasQualifier (qualifier fieldName : String) : Bool :=
  (splitOnce '.' fieldName).any fun (fieldQualifier, _) => fieldQualifier = qualifier

/-- The left field first; none if not exactly one of the fields is of the right relation. -/
def normalizeSimpleJoinFieldOrientation (relation : SelectRelation) (fields : String × String) :
    Option (String × String) :=
  match hasQualifier relation.qualifier fields.1, hasQualifier relation.qualifier fields.2 with
  | false, true => some (fields.1, fields.2)
  | true, false => some (fields.2, fields.1)
  | _, _ => none

def joinFieldColumnName (fieldName : String) : String :=
  ((splitOnce '.' fieldName).map Prod.snd).getD fieldName

def SelectJoin.simpleJoin (join : SelectJoin σ) : Option (String × String) :=
  ((findEquality join.onCondition).bind (normalizeSimpleJoinFieldOrientation join.relation)).map
    fun (left, right) => (left, joinFieldColumnName right)

def ConditionEnv.withoutSubqueries (env : ConditionEnv σ) : ConditionEnv σ :=
  { env with
    subqueryColumn := fun _ _ => .ok []
    subqueryExists := fun _ _ => .ok false
    subqueryScalar := fun _ _ => .ok none }

end Conditions

/-! ## One join -/

section Step

variable {σ : Type} (env : ConditionEnv σ)

def innerJoinKeyProbeMaxLeftRows : Nat := 4096

def innerJoinKeyProbeMaxDistinctKeys : Nat := 8192

def filterRows {α : Type} (accepts : α → Except String Bool) : List α → Except String (List α)
  | [] => .ok []
  | row :: rows =>
    match accepts row with
    | .error e => .error e
    | .ok accepted =>
      match filterRows accepts rows with
      | .error e => .error e
      | .ok rows => .ok (if accepted then row :: rows else rows)

def distinctRows : List UInt64 → List LiveRow → List LiveRow
  | _, [] => []
  | seen, row :: rows =>
    if row.1 ∈ seen then distinctRows seen rows else row :: distinctRows (row.1 :: seen) rows

def joinProbeKeys (schema : TableSchema) (fieldName : String) (key : Bytes) : List Bytes :=
  let rendered := renderStoredFieldValue env.values key
  let keys := if rendered = key then [key] else [key, rendered]
  match (schema.field fieldName).bind fun field =>
      convertValueToFieldType env.values key field.fieldType .safe with
  | some normalized => if normalized ∈ keys then keys else keys ++ [normalized]
  | none => keys

def joinRightRows (rowMatches : RowMap → Option (SelectCondition σ) → Except String Bool)
    (source : RelationSource σ) (join : SelectJoin σ) (condition : Option (SelectCondition σ))
    (lefts : List JoinedRowTuple) : Except String (List LiveRow) :=
  let accepts := fun row : LiveRow => rowMatches row.2 condition
  match join.kind, join.simpleJoin with
  | .inner, some (leftField, rightField) =>
    let keys := (lefts.filterMap (·.value leftField)).dedup
    if source.hasSingleColumnIndex rightField ∧ lefts.length ≤ innerJoinKeyProbeMaxLeftRows ∧
        keys ≠ [] ∧ keys.length ≤ innerJoinKeyProbeMaxDistinctKeys then
      filterRows accepts (distinctRows [] ((keys.flatMap (joinProbeKeys env source.schema rightField)).flatMap
        (source.probe rightField)))
    else filterRows accepts (source.materialize condition none)
  | _, _ => filterRows accepts (source.materialize condition none)

def probeIndexMatches (rights : List LiveRow) (rightField : String) (leftValue : Bytes) : List LiveRow :=
  let direct := rights.filter fun row => row.2.lookup rightField = some leftValue
  if direct = [] then
    rights.filter fun row => (row.2.lookup rightField).map (renderStoredFieldValue env.values) =
      some (renderStoredFieldValue env.values leftValue)
  else direct

def joinMatches (join : SelectJoin σ) (rights : List LiveRow) (left : JoinedRowTuple) :
    Except String (Option (List LiveRow)) :=
  match join.simpleJoin with
  | some (leftField, rightField) =>
    .ok ((left.value leftField).map fun leftValue =>
      (probeIndexMatches env rights rightField leftValue).filter fun right =>
        joinConditionMatches env.values (joinedRowCandidateProvider left join.relation right)
          join.onCondition)
  | none =>
    (filterRows (fun right => rowMatchesCondition env.withoutSubqueries
      (joinedRowCandidateProvider left join.relation right) join.onCondition) rights).map some

def SelectJoinKind.keepsLeft (kind : SelectJoinKind) : Bool := kind = .left ∨ kind = .full

def SelectJoinKind.keepsRight (kind : SelectJoinKind) : Bool := kind = .right ∨ kind = .full

def joinRows (leftRelations : List SelectRelation) (join : SelectJoin σ) :
    JoinRows JoinedRowTuple LiveRow JoinedRowTuple where
  pair := fun left right => left.append join.relation right
  leftOnly := fun left => left.appendMissingRelation join.relation
  rightOnly := fun right => (JoinedRowTuple.fromMissingRelations leftRelations).append join.relation right
  keepLeft := join.kind.keepsLeft
  keepRight := join.kind.keepsRight

def allMatches (join : SelectJoin σ) (rights : List LiveRow) :
    List JoinedRowTuple → Except String (List (JoinedRowTuple × Option (List LiveRow)))
  | [] => .ok []
  | left :: lefts =>
    match joinMatches env join rights left with
    | .error e => .error e
    | .ok matched =>
      match allMatches join rights lefts with
      | .error e => .error e
      | .ok rest => .ok ((left, matched) :: rest)

/-- One pass of the loop over the joins. Right rows are counted as matched by their ids. -/
def joinStep (leftRelations : List SelectRelation) (join : SelectJoin σ) (rights : List LiveRow)
    (lefts : List JoinedRowTuple) : Except String (List JoinedRowTuple) :=
  let rows := joinRows leftRelations join
  if join.kind = .cross then .ok (lefts.flatMap fun left => rights.map (rows.pair left))
  else
    match allMatches env join rights lefts with
    | .error e => .error e
    | .ok matched =>
      let matchedIds := matched.flatMap fun (_, rs) => (rs.getD []).map Prod.fst
      .ok ((matched.flatMap fun (left, rs) => rs.elim [] fun rs =>
          matchedOrAlone rows.keepLeft rs (rows.pair left) (rows.leftOnly left)) ++
        if rows.keepRight then (rights.filter fun right => right.1 ∉ matchedIds).map rows.rightOnly else [])

end Step

/-! ## All joins -/

section Build

variable {σ : Type} (env : ConditionEnv σ) (catalog : String → Option (RelationSource σ))
  (rowMatches : RowMap → Option (SelectCondition σ) → Except String Bool)

def tableNotFound (tableId : String) : String := "select join failed: table '" ++ tableId ++ "' not found"

def joinLoop (pushdownConditions : List (Option (SelectCondition σ))) :
    List SelectRelation → List (SelectJoin σ) → List JoinedRowTuple → Except String (List JoinedRowTuple)
  | _, [], lefts => .ok lefts
  | leftRelations, join :: joins, lefts =>
    match catalog join.relation.tableId with
    | none => .error (tableNotFound join.relation.tableId)
    | some source =>
      let condition := (pushdownConditions[leftRelations.length]?).join
      match joinRightRows env rowMatches source join condition lefts with
      | .error e => .error e
      | .ok rights =>
        match joinStep env leftRelations join rights lefts with
        | .error e => .error e
        | .ok lefts => joinLoop pushdownConditions (leftRelations ++ [join.relation]) joins lefts

def buildJoinedRowTuples (primary : SelectRelation) (pushdownConditions : List (Option (SelectCondition σ)))
    (joins : List (SelectJoin σ)) : Except String (List JoinedRowTuple) :=
  match catalog primary.tableId with
  | none => .error (tableNotFound primary.tableId)
  | some source =>
    let condition := (pushdownConditions[0]?).join
    match filterRows (fun row : LiveRow => rowMatches row.2 condition) (source.materialize condition none) with
    | .error e => .error e
    | .ok rows =>
      joinLoop env catalog rowMatches pushdownConditions [primary] joins
        (rows.map (JoinedRowTuple.fromRelationRow primary))

end Build

/-! ## Pushed conditions -/

section Clauses

variable {σ : Type}

mutual

def flattenAndClauses : SelectCondition σ → List (SelectCondition σ)
  | .and children => flattenAllClauses children
  | .or children => [.or children]
  | .not child => [.not child]
  | .predicate predicate => [.predicate predicate]

def flattenAllClauses : List (SelectCondition σ) → List (SelectCondition σ)
  | [] => []
  | child :: children => flattenAndClauses child ++ flattenAllClauses children

end

def combineConditions : List (SelectCondition σ) → Option (SelectCondition σ)
  | [] => none
  | [condition] => some condition
  | conditions => some (.and conditions)

def SelectPredicate.relationField : SelectPredicate σ → Option String
  | .comparison fieldName _ _ | .like fieldName _ _ _ _ | .regex fieldName _ _ _ | .inList fieldName _ _
  | .isNull fieldName _ | .inSubquery fieldName _ _ | .scalarSubqueryComparison fieldName _ _
  | .anySubqueryComparison fieldName _ _ | .allSubqueryComparison fieldName _ _ => some fieldName
  | .expressionComparison _ _ _ | .fieldComparison _ _ _ | .exists _ _ => none

def SelectPredicate.renameField (fieldName : String) : SelectPredicate σ → SelectPredicate σ
  | .comparison _ op value => .comparison fieldName op value
  | .like _ pattern negated caseInsensitive escapeChar =>
    .like fieldName pattern negated caseInsensitive escapeChar
  | .regex _ pattern negated caseInsensitive => .regex fieldName pattern negated caseInsensitive
  | .inList _ values negated => .inList fieldName values negated
  | .isNull _ negated => .isNull fieldName negated
  | .inSubquery _ subquery negated => .inSubquery fieldName subquery negated
  | .scalarSubqueryComparison _ op subquery => .scalarSubqueryComparison fieldName op subquery
  | .anySubqueryComparison _ op subquery => .anySubqueryComparison fieldName op subquery
  | .allSubqueryComparison _ op subquery => .allSubqueryComparison fieldName op subquery
  | predicate => predicate

def relationIndexLookup (relations : List SelectRelation) (name : String) : Option Nat :=
  (relations.zipIdx.flatMap fun (relation, index) =>
    (relation.tableId, index) :: relation.aliasName.toList.map (·, index)).lookup name

def relationIndexForCondition (relations : List SelectRelation) : SelectCondition σ → Option Nat
  | .predicate predicate =>
    (predicate.relationField.bind (splitOnce '.')).bind fun (qualifier, _) =>
      relationIndexLookup relations qualifier
  | _ => none

def isSafeRelationPushdown (relationIndex : Nat) (joins : List (SelectJoin σ)) : Bool :=
  joins.isEmpty || relationIndex = 0 || joins.all (·.kind = .inner)

def unqualifyFieldName (fieldName : String) : String := joinFieldColumnName fieldName

def localizeConditionForRelation : SelectCondition σ → Option (SelectCondition σ)
  | .predicate predicate => predicate.relationField.map fun fieldName =>
    .predicate (predicate.renameField (unqualifyFieldName fieldName))
  | _ => none

def pushedClauses (condition : SelectCondition σ) (relations : List SelectRelation) (joins : List (SelectJoin σ))
    (relationIndex : Nat) : List (SelectCondition σ) :=
  (flattenAndClauses condition).filter fun clause =>
    relationIndexForCondition relations clause = some relationIndex ∧
      isSafeRelationPushdown relationIndex joins

def deriveRelationPushdownConditions (condition : Option (SelectCondition σ)) (relations : List SelectRelation)
    (joins : List (SelectJoin σ)) : List (Option (SelectCondition σ)) :=
  (List.range relations.length).map fun relationIndex =>
    condition.bind fun condition => combineConditions
      ((pushedClauses condition relations joins relationIndex).filterMap localizeConditionForRelation)

end Clauses

end DistDb.Query
