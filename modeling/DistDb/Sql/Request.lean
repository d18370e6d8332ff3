import DistDb.Lib.Text

/-! # SQL requests

What the transaction layer sees of a query: its text, and the requests that the SQL parser reads off
it. -/

namespace DistDb.Sql
open Lib

structure DataQuery where
  databaseId : String
  sql : String
  deriving DecidableEq, Repr

inductive SqlOperation where
  | select
  | exportDatabase
  | unionQuery
  | insert
  | update
  | delete
  | truncateTable
  | createDatabase
  | createTable
  | createView
  | createOlapView
  | createTrigger
  | createStoredProcedure
  | callStoredProcedure
  | createOther
  | dropDatabase
  | dropTable
  | dropView
  | dropTrigger
  | dropStoredProcedure
  | dropOther
  | alterTable
  | alterView
  | alterOther
  | showSlices
  deriving DecidableEq, Repr

structure SqlRequest where
  operation : SqlOperation
  objectName : Option String
  deriving DecidableEq, Repr

abbrev Parser := DataQuery → Option (List SqlRequest)

def SqlOperation.isDml (operation : SqlOperation) : Bool :=
  operation == .insert || operation == .update || operation == .delete

def isStagedDmlRequests : List SqlRequest → Bool
  | [request] => request.operation.isDml
  | _ => false

/-! ## Identifiers -/

def isQuoted (text : String) : Bool :=
  "`\"'".toList.any fun quote =>
    text.toList.head? == some quote && text.toList.getLast? == some quote

def stripQuotes : ℕ → String → String
  | 0, text => text
  | fuel + 1, text =>
    if 2 ≤ text.length ∧ isQuoted text then
      stripQuotes fuel (trim (String.ofList text.toList.tail.dropLast))
    else text

/-- A table name without surrounding blanks and quotes, in lower case. -/
def normalizeIdentifier (value : String) : String :=
  toAsciiLowercase (stripQuotes value.length (trim value))

example : normalizeIdentifier " `__Account` " = "__account" := by decide +kernel

/-- Text without blanks, quotes and capitals. -/
def isNormal (text : String) : Bool :=
  text.toList.all fun c => !isWhitespace c && !"`\"'".toList.contains c && !c.isUpper

theorem normalizeIdentifier_eq_self {text : String} (h : isNormal text = true) : normalizeIdentifier text = text := by
  simp only [isNormal, List.all_eq_true, Bool.and_eq_true, Bool.not_eq_true', List.contains_eq_mem,
    decide_eq_false_iff_not, and_assoc] at h
  have htrim : trim text = text := trim_eq_self fun c hc =>
    (h c (hc.elim List.mem_of_head? List.mem_of_getLast?)).1
  have hquotes : isQuoted text = false := by
    rw [isQuoted, List.any_eq_false]
    intro quote hquote hends
    simp only [Bool.and_eq_true, beq_iff_eq] at hends
    exact (h quote (List.mem_of_head? hends.1)).2.1 hquote
  have hstrip : ∀ fuel, stripQuotes fuel text = text := by
    intro fuel
    cases fuel <;> simp [stripQuotes, hquotes]
  have hlower : text.toList.map Char.toLower = text.toList :=
    (List.map_congr_left fun c hc => Char.toLower_eq_of_not_isUpper (by simp [(h c hc).2.2])).trans (List.map_id _)
  rw [normalizeIdentifier, htrim, hstrip, toAsciiLowercase, hlower, String.ofList_toList]

def dmlObjectNames (requests : List SqlRequest) : List String :=
  (requests.filter (·.operation.isDml)).filterMap (·.objectName)

/-! ## Read plans of SELECT statements -/

/-- The relations of a read plan. Its common table expressions are the plans of their seed and
recursive terms, its subqueries those of all its conditions; `tableId` is empty without `FROM`. -/
inductive SelectReadPlan where
  | mk (tableId : String) (ctes : List SelectReadPlan) (joins : List String)
      (subqueries : List SelectReadPlan)

namespace SelectReadPlan

def tableId : SelectReadPlan → String
  | mk tableId _ _ _ => tableId

def ctes : SelectReadPlan → List SelectReadPlan
  | mk _ ctes _ _ => ctes

def joins : SelectReadPlan → List String
  | mk _ _ joins _ => joins

def subqueries : SelectReadPlan → List SelectReadPlan
  | mk _ _ _ subqueries => subqueries

def relations (plan : SelectReadPlan) : List String := plan.tableId :: plan.joins

/-- The tables whose rows a plan reads: those it names, those of its common table expressions and
subqueries, and those behind its views. -/
inductive Reads (tables : List String) (view : String → Option SelectReadPlan) : SelectReadPlan → String → Prop
  | table {plan : SelectReadPlan} {t : String} (hname : t ∈ plan.relations) (htable : t ∈ tables) :
      Reads tables view plan t
  | view {plan sub : SelectReadPlan} {name t : String} (hname : name ∈ plan.relations)
      (hview : view name = some sub) (hread : Reads tables view sub t) : Reads tables view plan t
  | cte {plan sub : SelectReadPlan} {t : String} (hcte : sub ∈ plan.ctes) (hread : Reads tables view sub t) :
      Reads tables view plan t
  | subquery {plan sub : SelectReadPlan} {t : String} (hsub : sub ∈ plan.subqueries)
      (hread : Reads tables view sub t) : Reads tables view plan t

end SelectReadPlan

abbrev SelectPlanner := DataQuery → Option SelectReadPlan

/-! ## Databases -/

/-- The key of a catalog: a database is found by its key, or by what `databaseIdOf` (a hash) gives to its name. -/
def resolveCatalogKey (databaseIdOf : String → Option String) (known : String → Bool) (databaseId : String) :
    Option String :=
  if known databaseId then some databaseId else (databaseIdOf databaseId).filter (known ·)

end DistDb.Sql
