import DistDb.Mutation.Append
import DistDb.Query.Condition

/-! # Relations and their rows

How a field name is resolved to a value: in the row of one table, in a joined row, and in the row of an outer
statement. -/

namespace DistDb.Query
open Lib Mutation

structure SelectRelation where
  tableId : String
  aliasName : Option String
  deriving DecidableEq, Repr

def SelectRelation.qualifier (relation : SelectRelation) : String := relation.aliasName.getD relation.tableId

inductive SelectJoinKind where
  | inner
  | left
  | right
  | full
  | cross
  deriving DecidableEq, Repr

structure SelectJoin (σ : Type) where
  kind : SelectJoinKind
  relation : SelectRelation
  onCondition : SelectCondition σ

/-! ## Joined rows -/

structure JoinedRowMember where
  qualifier : String
  rowId : Option UInt64
  rowMap : Option RowMap
  deriving DecidableEq

structure JoinedRowTuple where
  members : List JoinedRowMember
  deriving DecidableEq

namespace JoinedRowTuple

variable (tuple : JoinedRowTuple) (relation : SelectRelation)

def member (row : LiveRow) : JoinedRowMember := ⟨relation.qualifier, some row.1, some row.2⟩

def missing : JoinedRowMember := ⟨relation.qualifier, none, none⟩

def fromRelationRow (row : LiveRow) : JoinedRowTuple := ⟨[member relation row]⟩

def fromMissingRelations (relations : List SelectRelation) : JoinedRowTuple := ⟨relations.map missing⟩

def append (row : LiveRow) : JoinedRowTuple := ⟨tuple.members ++ [member relation row]⟩

def appendMissingRelation : JoinedRowTuple := ⟨tuple.members ++ [missing relation]⟩

def memberByQualifier (qualifier : String) : Option JoinedRowMember :=
  tuple.members.reverse.find? fun member => member.qualifier = qualifier

def value : Provider := fun fieldName =>
  (splitOnce '.' fieldName).bind fun (qualifier, columnName) =>
    ((tuple.memberByQualifier qualifier).bind (·.rowMap)).bind (·.lookup columnName)

end JoinedRowTuple

/-! ## Providers -/

def rowProvider (row : RowMap) : Provider := row.lookup

def qualifiedColumn (qualifier : String) (row : RowMap) : Provider := fun fieldName =>
  (splitOnce '.' fieldName).bind fun (fieldQualifier, columnName) =>
    if fieldQualifier = qualifier then row.lookup columnName else none

def joinedRowCandidateProvider (left : JoinedRowTuple) (relation : SelectRelation) (right : LiveRow) :
    Provider := fun fieldName =>
  (left.value fieldName).or (qualifiedColumn relation.qualifier right.2 fieldName)

def chainedProvider (primary fallback : Provider) : Provider := fun fieldName =>
  (primary fieldName).or (fallback fieldName)

def unqualifiedFieldFallbackProvider (provider : Provider) : Provider := fun fieldName =>
  (provider fieldName).or ((splitOnce '.' fieldName).bind fun (_, columnName) => provider columnName)

/-- What the conditions of a statement see: its row and, where that has no value, the row of the outer
statement. -/
def selectProvider (provider outer : Provider) : Provider :=
  chainedProvider provider (unqualifiedFieldFallbackProvider outer)

def rowMatchesSelectConditionResult {σ : Type} (env : ConditionEnv σ) (provider : Provider)
    (condition : Option (SelectCondition σ)) : Except String Bool :=
  rowMatches env (selectProvider provider provider) condition

def rowMatchesSelectCondition {σ : Type} (env : ConditionEnv σ) (provider : Provider)
    (condition : Option (SelectCondition σ)) : Bool :=
  (rowMatchesSelectConditionResult env provider condition).toOption.getD false

theorem rowMatchesSelectCondition_iff {σ : Type} {env : ConditionEnv σ} {provider : Provider}
    {condition : Option (SelectCondition σ)} :
    rowMatchesSelectCondition env provider condition = true ↔
      rowMatches env (selectProvider provider provider) condition = .ok true := by
  unfold rowMatchesSelectCondition rowMatchesSelectConditionResult
  cases rowMatches env (selectProvider provider provider) condition <;> simp [Except.toOption]

end DistDb.Query
