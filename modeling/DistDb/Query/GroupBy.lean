import DistDb.Query.Lemmas.Select
import DistDb.Query.NestedLoop

/-! # GROUP BY

Groups are formed by removing duplicates of the projected rows. `HAVING` is one more condition on the rows, and only
grouped columns can be projected. -/

namespace DistDb.Query
open Lib Mutation

variable {σ : Type}

/-! ## Planning -/

/-- The clauses of a statement without `LIMIT`, with the names of their columns resolved. -/
structure GroupedSelect (σ : Type) where
  relation : SelectRelation
  joins : List (SelectJoin σ)
  projectionItems : List SelectProjectionItem
  distinct : Bool
  groupBy : List String
  orderBy : List SelectOrderByItem
  prewhereCondition : Option (SelectCondition σ)
  whereCondition : Option (SelectCondition σ)
  havingCondition : Option (SelectCondition σ)

def ensureGroupByProjectionIsSupported (groupByFields : List String) : List SelectProjectionItem → Except String Unit
  | [] => .ok ()
  | .column fieldName _ :: items =>
    if fieldName ∈ groupByFields then ensureGroupByProjectionIsSupported groupByFields items
    else .error "GROUP BY projection must only reference grouped columns in current execution model"
  | _ :: _ => .error "GROUP BY currently supports only direct column projections"

def combineWhereHavingConditions {σ : Type} :
    Option (SelectCondition σ) → Option (SelectCondition σ) → Option (SelectCondition σ)
  | some whereCondition, some havingCondition => some (.and [whereCondition, havingCondition])
  | some whereCondition, none => some whereCondition
  | none, havingCondition => havingCondition

namespace GroupedSelect

variable {σ : Type} (select : GroupedSelect σ)

def condition : Option (SelectCondition σ) :=
  combineWhereHavingConditions (combineWhereHavingConditions select.prewhereCondition select.whereCondition)
    select.havingCondition

def parseSelectReadPlan : Except String (SelectReadPlan σ) :=
  if select.havingCondition.isSome && select.groupBy.isEmpty then
    .error "SELECT HAVING requires GROUP BY in current execution model"
  else
    match if select.groupBy.isEmpty then .ok ()
      else ensureGroupByProjectionIsSupported select.groupBy select.projectionItems with
    | .error e => .error e
    | .ok () =>
      .ok {
        relation := select.relation
        joins := select.joins
        pushdownConditions := deriveRelationPushdownConditions select.condition
          (select.relation :: select.joins.map (·.relation)) select.joins
        projectionItems := select.projectionItems
        distinct := select.distinct || !select.groupBy.isEmpty
        orderBy := select.orderBy
        limit := none
        offset := none
        whereCondition := select.condition }

/-! ## Groups -/

def satisfies (env : ConditionEnv σ) (row : Provider) : Bool :=
  rowMatchesSelectCondition env row select.prewhereCondition &&
    rowMatchesSelectCondition env row select.whereCondition &&
      rowMatchesSelectCondition env row select.havingCondition

def groupOf (row : Provider) : List (Option Bytes) := select.groupBy.map row

def shown (env : ConditionEnv σ) (field : String → Option (FieldKind × Bool)) (row : Provider) : List Bytes :=
  select.projectionItems.map fun item => fieldCell env field row item.fieldName

/-- The result has one row for each group of the rows that satisfy the condition. -/
def OneRowPerGroup (env : ConditionEnv σ) (field : String → Option (FieldKind × Bool)) (rows : List Provider)
    (result : List (List Bytes)) : Prop :=
  result.Perm ((uniqueBy select.groupOf [] (rows.filter (select.satisfies env))).map (select.shown env field))

end GroupedSelect

section
variable {σ : Type} {env : ConditionEnv σ} {select : GroupedSelect σ} {plan : SelectReadPlan σ}

theorem rowMatchesSelectCondition_combine {row : Provider} {first second : Option (SelectCondition σ)} :
    rowMatchesSelectCondition env row (combineWhereHavingConditions first second) =
      (rowMatchesSelectCondition env row first && rowMatchesSelectCondition env row second) := by
  rw [Bool.eq_iff_iff, Bool.and_eq_true]
  simp only [rowMatchesSelectCondition_iff]
  cases first with
  | none => simp [combineWhereHavingConditions, rowMatches]
  | some first =>
    cases second with
    | none => simp [combineWhereHavingConditions, rowMatches]
    | some second =>
      simp [combineWhereHavingConditions, rowMatches, rowMatchesCondition, rowMatchesAll_eq_ok_true]

theorem satisfies_eq (row : Provider) :
    select.satisfies env row = rowMatchesSelectCondition env row select.condition := by
  rw [GroupedSelect.condition, rowMatchesSelectCondition_combine, rowMatchesSelectCondition_combine]
  rfl

theorem ensureGroupByProjectionIsSupported_eq_ok {groupByFields : List String} {items : List SelectProjectionItem}
    (h : ensureGroupByProjectionIsSupported groupByFields items = .ok ()) :
    ∀ item ∈ items, item.isColumn = true ∧ item.fieldName ∈ groupByFields := by
  induction items with
  | nil => simp
  | cons item items ih =>
    cases item with
    | column fieldName outputName =>
      rw [ensureGroupByProjectionIsSupported] at h
      split at h
      · rename_i hmem
        exact List.forall_mem_cons.mpr ⟨⟨rfl, hmem⟩, ih h⟩
      · cases h
    | inbuiltFunction | wildcard => cases h

theorem parseSelectReadPlan_eq_ok (h : select.parseSelectReadPlan = .ok plan) (hgroup : select.groupBy ≠ []) :
    (∀ item ∈ select.projectionItems, item.isColumn = true ∧ item.fieldName ∈ select.groupBy) ∧
      plan.projectionItems = select.projectionItems ∧ plan.distinct = true ∧ plan.orderBy = select.orderBy ∧
      plan.limit = none ∧ plan.offset = none ∧ plan.whereCondition = select.condition := by
  have hne : select.groupBy.isEmpty = false := by simpa using hgroup
  simp only [GroupedSelect.parseSelectReadPlan, hne, Bool.and_false, Bool.false_eq_true, if_false] at h
  cases hitems : ensureGroupByProjectionIsSupported select.groupBy select.projectionItems with
  | error e => simp [hitems] at h
  | ok =>
    simp only [hitems, Except.ok.injEq] at h
    subst h
    exact ⟨ensureGroupByProjectionIsSupported_eq_ok hitems, rfl, by simp, rfl, rfl, rfl, rfl⟩

theorem arrange_perm {ρ : Type} {prims : ValuePrimitives} {columns : List OutputColumn} {cells : ρ → List Bytes}
    (hdistinct : plan.distinct = true) (rows : List ρ) :
    (arrange prims columns plan cells rows).Perm (uniqueBy (fun row => visibleCells columns (cells row)) [] rows) := by
  unfold arrange
  simp only [hdistinct, if_true]
  split
  · exact .refl _
  · exact List.mergeSort_perm _ _

end

def cellEquals (fieldName key : String) : SelectCondition Unit :=
  .predicate (.comparison fieldName .eq (utf8Bytes key))

def pairRow (a b : String) : RowMap := ((∅ : RowMap).insert "a" (utf8Bytes a)).insert "b" (utf8Bytes b)

def pairTables : String → Option (RelationSource Unit)
  | "t" => some { scannedTable [(1, pairRow "1" "1"), (2, pairRow "1" "2"), (3, pairRow "1" "2")] (by decide) with
      schema := ⟨[⟨0, "a", .text, true, .none, none, none⟩, ⟨1, "b", .text, true, .none, none, none⟩]⟩ }
  | _ => none

/-- `SELECT items FROM t GROUP BY a, b HAVING a = 1 ORDER BY orderBy` -/
def groupPairs (items : List (String × String)) (orderBy : List SelectOrderByItem) : GroupedSelect Unit where
  relation := ⟨"t", none⟩
  joins := []
  projectionItems := items.map fun item => .column item.1 item.2
  distinct := false
  groupBy := ["a", "b"]
  orderBy := orderBy
  prewhereCondition := none
  whereCondition := none
  havingCondition := some (cellEquals "a" "1")

def pairRows : List Provider := (tableRows pairTables "t").map fun row => rowProvider row.2

def pairPlan (items : List (String × String)) (orderBy : List SelectOrderByItem) : SelectReadPlan Unit where
  relation := ⟨"t", none⟩
  joins := []
  pushdownConditions := deriveRelationPushdownConditions (some (cellEquals "a" "1")) [⟨"t", none⟩] []
  projectionItems := items.map fun item => .column item.1 item.2
  distinct := true
  orderBy := orderBy
  limit := none
  offset := none
  whereCondition := some (cellEquals "a" "1")

/-- `SELECT a AS x FROM t GROUP BY a, b HAVING a = 1 ORDER BY a` -/
example : executeSelectPlanResult (.plain Unit) pairTables (pairPlan [("a", "x")] [⟨"a", false⟩]) =
    .error "select failed: TOP WITH TIES ORDER BY column 'a' is not present in result projection" := by
  decide +kernel

end DistDb.Query
