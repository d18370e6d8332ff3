import DistDb.Lib.Maps
import DistDb.Table.Value

/-! # Conditions

`WHERE`, `ON` and `HAVING` conditions and how they are evaluated on a row. A row gives values by field
name; `NULL` is a value that is not there. -/

namespace DistDb.Query
open Lib

inductive SelectComparisonOp where
  | eq
  | notEq
  | gt
  | gtEq
  | lt
  | ltEq
  deriving DecidableEq, Repr

inductive SelectPredicate (σ : Type) where
  | comparison (fieldName : String) (op : SelectComparisonOp) (value : Bytes)
  | expressionComparison (expressionSql : String) (op : SelectComparisonOp) (value : Bytes)
  | like (fieldName : String) (pattern : Bytes) (negated caseInsensitive : Bool) (escapeChar : Option Char)
  | regex (fieldName : String) (pattern : Bytes) (negated caseInsensitive : Bool)
  | fieldComparison (leftFieldName : String) (op : SelectComparisonOp) (rightFieldName : String)
  | inList (fieldName : String) (values : List Bytes) (negated : Bool)
  | isNull (fieldName : String) (negated : Bool)
  | inSubquery (fieldName : String) (subquery : σ) (negated : Bool)
  | scalarSubqueryComparison (fieldName : String) (op : SelectComparisonOp) (subquery : σ)
  | anySubqueryComparison (fieldName : String) (op : SelectComparisonOp) (subquery : σ)
  | allSubqueryComparison (fieldName : String) (op : SelectComparisonOp) (subquery : σ)
  | exists (subquery : σ) (negated : Bool)

inductive SelectCondition (σ : Type) where
  | and (children : List (SelectCondition σ))
  | or (children : List (SelectCondition σ))
  | not (child : SelectCondition σ)
  | predicate (predicate : SelectPredicate σ)

abbrev Provider := String → Option Bytes

/-- What conditions call: the matching of patterns, the evaluation of expressions and the callbacks that run
subqueries. A subquery's result has one column; its missing values are written as `nullCell`. -/
structure ConditionEnv (σ : Type) where
  values : ValuePrimitives
  compareLikeValue : (actual pattern : Bytes) → (caseInsensitive : Bool) → (escapeChar : Option Char) → Bool
  compareRegexValue : (actual pattern : Bytes) → (caseInsensitive : Bool) → Bool
  evaluateExpression : Provider → String → Except String (Option Bytes)
  subqueryColumn : Provider → σ → Except String (List (Option Bytes))
  subqueryExists : Provider → σ → Except String Bool
  /-- The only value of the column, if the subquery has a row. -/
  subqueryScalar : Provider → σ → Except String (Option (Option Bytes))
  /-- The text `NULL`; nothing for a column that takes no `NULL`. -/
  nullCell : σ → Bytes

def ConditionEnv.plain (σ : Type) : ConditionEnv σ where
  values := .plain
  compareLikeValue := fun actual pattern _ _ => actual == pattern
  compareRegexValue := fun actual pattern _ => actual == pattern
  evaluateExpression := fun provider fieldName => .ok (provider fieldName)
  subqueryColumn := fun _ _ => .ok []
  subqueryExists := fun _ _ => .ok false
  subqueryScalar := fun _ _ => .ok none
  nullCell := fun _ => utf8Bytes "NULL"

def ConditionEnv.written {σ : Type} (env : ConditionEnv σ) (subquery : σ) (cell : Option Bytes) : Bytes :=
  cell.getD (env.nullCell subquery)

/-! ## Comparisons -/

def SelectComparisonOp.accepts (op : SelectComparisonOp) (ordering : Ordering) : Bool :=
  match op with
  | eq => ordering = .eq
  | notEq => ordering ≠ .eq
  | gt => ordering = .gt
  | gtEq => ordering ≠ .lt
  | lt => ordering = .lt
  | ltEq => ordering ≠ .gt

def compareRowValue (prims : ValuePrimitives) (actual expected : Bytes) (op : SelectComparisonOp) : Bool :=
  op.accepts (compareStoredFieldValues prims actual expected)

/-- Texts that stand for a number; those for infinities and for no number are not taken. -/
def parseNumericTextForExpressionCompare (prims : ValuePrimitives) (value : Bytes) : Option UInt64 :=
  (fromUtf8 value).bind fun text =>
    let text := trim text
    if text = "" ∨ text.toLower ∈ ["nan", "inf", "+inf", "-inf"] then none else prims.parseF64 text

/-- Comparison operators of floats: all but `!=` refuse what is not a number. -/
def compareNumericExpressionValues (left right : UInt64) (op : SelectComparisonOp) : Bool :=
  if isNanF64 left || isNanF64 right then op = .notEq
  else op.accepts (compare (f64Rank left) (f64Rank right))

def compareExpressionPredicateValue (prims : ValuePrimitives) (actual expected : Bytes)
    (op : SelectComparisonOp) : Bool :=
  match parseNumericTextForExpressionCompare prims actual,
    parseNumericTextForExpressionCompare prims expected with
  | some left, some right => compareNumericExpressionValues left right op
  | _, _ => compareRowValue prims actual expected op

def compareFieldValues (prims : ValuePrimitives) (left right : Bytes) (op : SelectComparisonOp) : Bool :=
  compareRowValue prims left right op || (op = .eq &&
    compareRowValue prims (renderStoredFieldValue prims left) (renderStoredFieldValue prims right) op)

def compareProviderFields (prims : ValuePrimitives) (provider : Provider) (left right : String)
    (op : SelectComparisonOp) : Bool :=
  match provider left, provider right with
  | some left, some right => compareFieldValues prims left right op
  | _, _ => false

/-! ## Evaluation -/

section Evaluation

variable {σ : Type} (env : ConditionEnv σ) (provider : Provider)

def matchesField (fieldName : String) (test : Bytes → Bool) (negated : Bool) : Bool :=
  ((provider fieldName).any test) ^^ negated

def matchesSubqueryValues (fieldName : String) (subquery : σ) (test : Bytes → List Bytes → Bool) :
    Except String Bool :=
  match provider fieldName with
  | none => .ok false
  | some actual =>
    match env.subqueryColumn provider subquery with
    | .error e => .error e
    | .ok column => .ok (test actual (column.map (env.written subquery)))

def rowMatchesPredicate : SelectPredicate σ → Except String Bool
  | .comparison fieldName op value =>
    .ok (matchesField provider fieldName (compareRowValue env.values · value op) false)
  | .expressionComparison expressionSql op value =>
    match env.evaluateExpression provider expressionSql with
    | .error e => .error e
    | .ok none => .ok false
    | .ok (some actual) => .ok (compareExpressionPredicateValue env.values actual value op)
  | .like fieldName pattern negated caseInsensitive escapeChar =>
    .ok (matchesField provider fieldName
      (env.compareLikeValue · pattern caseInsensitive escapeChar) negated)
  | .regex fieldName pattern negated caseInsensitive =>
    .ok (matchesField provider fieldName (env.compareRegexValue · pattern caseInsensitive) negated)
  | .fieldComparison left op right => .ok (compareProviderFields env.values provider left right op)
  | .inList fieldName values negated =>
    .ok (matchesField provider fieldName
      (fun actual => values.any (compareRowValue env.values actual · .eq)) negated)
  | .isNull fieldName negated => .ok ((provider fieldName).isNone ^^ negated)
  | .inSubquery fieldName subquery negated =>
    matchesSubqueryValues env provider fieldName subquery fun actual values =>
      values.any (compareRowValue env.values actual · .eq) ^^ negated
  | .anySubqueryComparison fieldName op subquery =>
    matchesSubqueryValues env provider fieldName subquery fun actual values =>
      values.any (compareRowValue env.values actual · op)
  | .allSubqueryComparison fieldName op subquery =>
    matchesSubqueryValues env provider fieldName subquery fun actual values =>
      values.all (compareRowValue env.values actual · op)
  | .exists subquery negated =>
    match env.subqueryExists provider subquery with
    | .error e => .error e
    | .ok found => .ok (found ^^ negated)
  | .scalarSubqueryComparison fieldName op subquery =>
    match provider fieldName with
    | none => .ok false
    | some actual =>
      match env.subqueryScalar provider subquery with
      | .error e => .error e
      | .ok none => .ok false
      | .ok (some cell) => .ok (compareRowValue env.values actual (env.written subquery cell) op)

mutual

def rowMatchesCondition : SelectCondition σ → Except String Bool
  | .and children => rowMatchesAll children
  | .or children => rowMatchesAny children
  | .not child =>
    match rowMatchesCondition child with
    | .error e => .error e
    | .ok matched => .ok !matched
  | .predicate predicate => rowMatchesPredicate env provider predicate

def rowMatchesAll : List (SelectCondition σ) → Except String Bool
  | [] => .ok true
  | child :: children =>
    match rowMatchesCondition child with
    | .error e => .error e
    | .ok false => .ok false
    | .ok true => rowMatchesAll children

def rowMatchesAny : List (SelectCondition σ) → Except String Bool
  | [] => .ok false
  | child :: children =>
    match rowMatchesCondition child with
    | .error e => .error e
    | .ok true => .ok true
    | .ok false => rowMatchesAny children

end

def rowMatches (condition : Option (SelectCondition σ)) : Except String Bool :=
  match condition with
  | none => .ok true
  | some condition => rowMatchesCondition env provider condition

end Evaluation

/-! ## Junctions -/

section Junctions

variable {σ : Type}

/-- An `AND`, or with `decisive` an `OR`, of conditions: a child with the outcome `decisive` decides. -/
def junction (decisive : Bool) (children : List (SelectCondition σ)) : SelectCondition σ :=
  cond decisive (.or children) (.and children)

/-- `P` holds of every predicate that stands in a condition. -/
inductive AllPredicates (P : SelectPredicate σ → Prop) : SelectCondition σ → Prop
  | predicate {p} : P p → AllPredicates P (.predicate p)
  | not {child} : AllPredicates P child → AllPredicates P (.not child)
  | junction (decisive : Bool) {children : List (SelectCondition σ)} :
    (∀ child ∈ children, AllPredicates P child) → AllPredicates P (junction decisive children)

variable {env : ConditionEnv σ} {provider : Provider} {decisive : Bool} {children : List (SelectCondition σ)}
  {child : SelectCondition σ}

theorem rowMatches_junction_cons : rowMatchesCondition env provider (junction decisive (child :: children)) =
    match rowMatchesCondition env provider child with
    | .error e => .error e
    | .ok b => if b = decisive then .ok decisive
        else rowMatchesCondition env provider (junction decisive children) := by
  cases decisive <;>
    simp only [junction, cond_true, cond_false, rowMatchesCondition, rowMatchesAll, rowMatchesAny] <;>
    rcases rowMatchesCondition env provider child with _ | _ | _ <;> rfl

theorem rowMatches_junction_nil :
    rowMatchesCondition env provider (junction decisive ([] : List (SelectCondition σ))) = .ok !decisive := by
  cases decisive <;> rfl

end Junctions

theorem rowMatchesAll_eq_ok_true {σ : Type} {env : ConditionEnv σ} {provider : Provider}
    {children : List (SelectCondition σ)} : rowMatchesAll env provider children = .ok true ↔
      ∀ child ∈ children, rowMatchesCondition env provider child = .ok true := by
  induction children with
  | nil => simp [rowMatchesAll]
  | cons child children ih =>
    rw [rowMatchesAll, List.forall_mem_cons, ← ih]
    cases rowMatchesCondition env provider child with
    | error e => simp
    | ok matched => cases matched <;> simp

end DistDb.Query
