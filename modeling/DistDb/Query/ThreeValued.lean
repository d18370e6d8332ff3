import DistDb.Lib.Kleene
import DistDb.Query.Condition

/-! # Three-valued conditions

The evaluation takes what is unknown for false; that is right where the outcome is not turned round by a `NOT`. -/

namespace DistDb.Query
open Lib

variable {σ : Type} {env : ConditionEnv σ} {provider : Provider} {s : Bool}

/-! ## Meaning -/

section Meaning

variable (env provider)

def cellTruths (fieldName : String) (subquery : σ) (test : Bytes → Bytes → Bool)
    (combine : List Truth → Truth) : Truth :=
  match env.subqueryColumn provider subquery with
  | .error _ => .unknown
  | .ok column => combine (column.map (.lift₂ test (provider fieldName)))

def predicateTruth : SelectPredicate σ → Truth
  | .comparison fieldName op value =>
    .lift₂ (compareRowValue env.values · · op) (provider fieldName) (some value)
  | .expressionComparison expressionSql op value =>
    match env.evaluateExpression provider expressionSql with
    | .error _ => .unknown
    | .ok actual => .lift₂ (compareExpressionPredicateValue env.values · · op) actual (some value)
  | .like fieldName pattern negated caseInsensitive escapeChar =>
    .negIf negated (.lift₂ (env.compareLikeValue · · caseInsensitive escapeChar)
      (provider fieldName) (some pattern))
  | .regex fieldName pattern negated caseInsensitive =>
    .negIf negated (.lift₂ (env.compareRegexValue · · caseInsensitive) (provider fieldName) (some pattern))
  | .fieldComparison left op right =>
    .lift₂ (compareFieldValues env.values · · op) (provider left) (provider right)
  | .inList fieldName values negated =>
    .negIf negated (.any (values.map fun value =>
      .lift₂ (compareRowValue env.values · · .eq) (provider fieldName) (some value)))
  | .isNull fieldName negated => .negIf negated (.ofBool (provider fieldName).isNone)
  | .inSubquery fieldName subquery negated =>
    .negIf negated (cellTruths env provider fieldName subquery (compareRowValue env.values · · .eq) .any)
  | .anySubqueryComparison fieldName op subquery =>
    cellTruths env provider fieldName subquery (compareRowValue env.values · · op) .any
  | .allSubqueryComparison fieldName op subquery =>
    cellTruths env provider fieldName subquery (compareRowValue env.values · · op) .all
  | .exists subquery negated =>
    match env.subqueryExists provider subquery with
    | .error _ => .unknown
    | .ok found => .negIf negated (.ofBool found)
  | .scalarSubqueryComparison fieldName op subquery =>
    match env.subqueryScalar provider subquery with
    | .error _ => .unknown
    | .ok cell => .lift₂ (compareRowValue env.values · · op) (provider fieldName) cell.join

mutual

def conditionTruth : SelectCondition σ → Truth
  | .and children => allTruth children
  | .or children => anyTruth children
  | .not child => (conditionTruth child).neg
  | .predicate predicate => predicateTruth env provider predicate

def allTruth : List (SelectCondition σ) → Truth
  | [] => .holds
  | child :: children => (conditionTruth child).and (allTruth children)

def anyTruth : List (SelectCondition σ) → Truth
  | [] => .fails
  | child :: children => (conditionTruth child).or (anyTruth children)

end

end Meaning

/-! ## Null safety -/

section Safety

variable (env provider)

/-- What the predicate asks for is answered without error. -/
def Answered : SelectPredicate σ → Prop
  | .expressionComparison expressionSql _ _ => ∃ actual, env.evaluateExpression provider expressionSql = .ok actual
  | .inSubquery _ subquery _ | .anySubqueryComparison _ _ subquery | .allSubqueryComparison _ _ subquery =>
    ∃ column, env.subqueryColumn provider subquery = .ok column
  | .exists subquery _ => ∃ found, env.subqueryExists provider subquery = .ok found
  | .scalarSubqueryComparison _ _ subquery => ∃ cell, env.subqueryScalar provider subquery = .ok cell
  | _ => True

/-- Comparisons with the cells of a column, some of which (or with `universal`, all of which) must pass.
Without operand the predicate is refused, which is right for some cells unless there are none to refuse, and
for all cells only if there is one. With an operand, a missing cell is taken for its text: that must not
decide the outcome. -/
def ColumnSafe (s universal : Bool) (operand : Option Bytes) (column : List (Option Bytes)) (nullCell : Bytes)
    (passes : Bytes → Bytes → Bool) : Prop :=
  match operand with
  | none => if universal then s = true ∧ column ≠ [] else s = true ∨ column = []
  | some actual =>
    none ∈ column →
      if s = universal then passes actual nullCell = true ∨ ∃ value, some value ∈ column ∧ passes actual value
      else passes actual nullCell = true → ∃ value, some value ∈ column ∧ passes actual value

/-- The result of a scalar subquery: no row is as a missing value, a missing value is taken for its text. -/
def ScalarSafe (s : Bool) (operand : Option Bytes) (cell : Option (Option Bytes)) (nullCell : Bytes)
    (passes : Bytes → Bytes → Bool) : Prop :=
  match operand, cell with
  | some _, some (some _) => True
  | some actual, some none => passes actual nullCell ≠ s
  | _, _ => s = true

/-- Where the outcome of a predicate is right: accepted exactly when it holds for `s` true, refused exactly
when it fails for `s` false. -/
def PredicateSafe (s : Bool) : SelectPredicate σ → Prop
  | .comparison fieldName _ _ => s = true ∨ (provider fieldName).isSome
  | .expressionComparison expressionSql _ _ =>
    s = true ∨ ∃ actual, env.evaluateExpression provider expressionSql = .ok (some actual)
  | .like fieldName _ negated _ _ | .regex fieldName _ negated _ => s ≠ negated ∨ (provider fieldName).isSome
  | .fieldComparison left _ right => s = true ∨ ((provider left).isSome ∧ (provider right).isSome)
  | .inList fieldName values negated => s ≠ negated ∨ (provider fieldName).isSome ∨ values = []
  | .inSubquery fieldName subquery negated =>
    ∃ column, env.subqueryColumn provider subquery = .ok column ∧
      ColumnSafe s negated (provider fieldName) column (env.nullCell subquery)
        (compareRowValue env.values · · .eq)
  | .anySubqueryComparison fieldName op subquery =>
    ∃ column, env.subqueryColumn provider subquery = .ok column ∧
      ColumnSafe s false (provider fieldName) column (env.nullCell subquery)
        (compareRowValue env.values · · op)
  | .allSubqueryComparison fieldName op subquery =>
    ∃ column, env.subqueryColumn provider subquery = .ok column ∧
      ColumnSafe s true (provider fieldName) column (env.nullCell subquery)
        (fun actual value => !compareRowValue env.values actual value op)
  | .scalarSubqueryComparison fieldName op subquery =>
    ∃ cell, env.subqueryScalar provider subquery = .ok cell ∧
      ScalarSafe s (provider fieldName) cell (env.nullCell subquery) (compareRowValue env.values · · op)
  | .isNull _ _ | .exists _ _ => True

/-- The predicate gives a result that is right for one sign at least: without operand, `NOT IN` and `ALL` are refused
also over an empty column, of which they hold. -/
def Resolves (p : SelectPredicate σ) : Prop :=
  Answered env provider p ∧
    match p with
    | .inSubquery fieldName subquery true | .allSubqueryComparison fieldName _ subquery =>
      provider fieldName = none → env.subqueryColumn provider subquery ≠ .ok []
    | _ => True

/-- Where the outcome of a condition is right for a sign. A predicate is safe for the sign that it stands under, which
`NOT` turns round. An `AND` is true exactly when it holds if all children are right, or if one is that does not hold,
whatever the others are. It is false exactly when it fails if one child fails and is right and those before it give a
result, or if no child fails and all are right. -/
inductive NullSafe : Bool → SelectCondition σ → Prop
  | predicate {s p} : Answered env provider p → PredicateSafe env provider s p → NullSafe s (.predicate p)
  | not {s child} : NullSafe (!s) child → NullSafe s (.not child)
  | every (decisive : Bool) {children : List (SelectCondition σ)} :
    (∀ child ∈ children, NullSafe (!decisive) child) → NullSafe (!decisive) (junction decisive children)
  | excluded (decisive : Bool) {children : List (SelectCondition σ)} {child : SelectCondition σ} :
    child ∈ children → NullSafe (!decisive) child → conditionTruth env provider child ≠ .ofBool (!decisive) →
      NullSafe (!decisive) (junction decisive children)
  | decided (decisive : Bool) {before after : List (SelectCondition σ)} {child : SelectCondition σ} :
    (∀ earlier ∈ before, AllPredicates (Answered env provider) earlier) → NullSafe decisive child →
      conditionTruth env provider child = .ofBool decisive →
        NullSafe decisive (junction decisive (before ++ child :: after))
  | undecided (decisive : Bool) {children : List (SelectCondition σ)} :
    (∀ child ∈ children, NullSafe decisive child) →
      (∀ child ∈ children, conditionTruth env provider child ≠ .ofBool decisive) →
        NullSafe decisive (junction decisive children)

end Safety

/-! ## Predicates -/

section Fields

variable {fieldName : String} {negated : Bool} (test : Bytes → Bytes → Bool)

theorem agrees_lift₂ {a b : Option Bytes} : Truth.Agrees s (a.any fun x => b.any fun y => test x y) (.lift₂ test a b) ↔
      s = true ∨ (a.isSome ∧ b.isSome) := by
  cases a with
  | none => simp
  | some x =>
    cases b with
    | none => simp
    | some y => simp

theorem agrees_matchesField {value : Bytes} : Truth.Agrees s (matchesField provider fieldName (test · value) negated)
      (.negIf negated (.lift₂ test (provider fieldName) (some value))) ↔
      s ≠ negated ∨ (provider fieldName).isSome := by
  have h := agrees_lift₂ (s := s ^^ negated) test (a := provider fieldName) (b := some value)
  rw [matchesField, Truth.agrees_negIf]
  simpa using h

theorem agrees_inList {values : List Bytes} :
    Truth.Agrees s (matchesField provider fieldName (fun actual => values.any (test actual)) negated)
      (.negIf negated (.any (values.map fun value => .lift₂ test (provider fieldName) (some value)))) ↔
      s ≠ negated ∨ (provider fieldName).isSome ∨ values = [] := by
  have hmap : (values.map fun value => Truth.lift₂ test (provider fieldName) (some value)) =
      (values.map some).map (.lift₂ test (provider fieldName)) := by simp
  rw [matchesField, Truth.agrees_negIf, hmap]
  cases provider fieldName with
  | none =>
    rw [Truth.any_map_lift₂_none]
    cases values with
    | nil => simp
    | cons value values => simp
  | some actual =>
    have h := (Truth.agrees_any_getD test actual (values.map some) [] (s := s ^^ negated)).mpr (by simp)
    simpa [Function.comp_def] using h

end Fields

section Columns

variable {operand : Option Bytes} {column : List (Option Bytes)} {nullCell : Bytes}
  (passes : Bytes → Bytes → Bool)

theorem agrees_someCell : Truth.Agrees s (operand.any fun actual => (column.map (·.getD nullCell)).any (passes actual))
      (.any (column.map (.lift₂ passes operand))) ↔ ColumnSafe s false operand column nullCell passes := by
  cases operand with
  | none =>
    rw [Truth.any_map_lift₂_none]
    by_cases hcolumn : column = []
    · simp [ColumnSafe, hcolumn]
    · simp [ColumnSafe, hcolumn]
  | some actual => exact Truth.agrees_any_getD passes actual column nullCell

theorem agrees_noCell : Truth.Agrees s (operand.any fun actual => !(column.map (·.getD nullCell)).any (passes actual))
      (Truth.any (column.map (.lift₂ passes operand))).neg ↔ ColumnSafe s true operand column nullCell passes := by
  cases operand with
  | none =>
    rw [Truth.any_map_lift₂_none]
    by_cases hcolumn : column = []
    · cases s <;> simp [ColumnSafe, hcolumn, Truth.neg, Truth.agrees_true, Truth.agrees_false]
    · simp [ColumnSafe, hcolumn, Truth.neg]
  | some actual =>
    rw [Option.any_some, Truth.agrees_not, Truth.agrees_any_getD]
    cases s <;> simp [ColumnSafe]

theorem agrees_scalar {cell : Option (Option Bytes)} :
    Truth.Agrees s (operand.any fun actual => cell.any fun cell => passes actual (cell.getD nullCell))
      (.lift₂ passes operand cell.join) ↔ ScalarSafe s operand cell nullCell passes := by
  cases operand with
  | none => simp [ScalarSafe]
  | some actual =>
    match cell with
    | none => simp [ScalarSafe]
    | some none => simp [ScalarSafe, Bool.eq_not]
    | some (some value) => simp [ScalarSafe]

theorem compareProviderFields_eq {left right : String} {op : SelectComparisonOp} :
    compareProviderFields env.values provider left right op =
      (provider left).any fun l => (provider right).any fun r => compareFieldValues env.values l r op := by
  unfold compareProviderFields
  cases provider left with
  | none => rfl
  | some l => cases provider right <;> rfl

theorem rowMatches_scalarSubquery {fieldName : String} {op : SelectComparisonOp} {subquery : σ}
    {cell : Option (Option Bytes)} (hcell : env.subqueryScalar provider subquery = .ok cell) :
    rowMatchesPredicate env provider (.scalarSubqueryComparison fieldName op subquery) =
      .ok ((provider fieldName).any fun actual => cell.any fun cell =>
        compareRowValue env.values actual (cell.getD (env.nullCell subquery)) op) := by
  rw [rowMatchesPredicate]
  cases provider fieldName with
  | none => rfl
  | some actual =>
    rw [hcell]
    cases cell <;> rfl

theorem matchesSubqueryValues_eq {subquery : σ} {fieldName : String} {test : Bytes → List Bytes → Bool}
    (hcolumn : env.subqueryColumn provider subquery = .ok column) :
    matchesSubqueryValues env provider fieldName subquery test =
      .ok ((provider fieldName).any fun actual => test actual (column.map (·.getD (env.nullCell subquery)))) := by
  unfold matchesSubqueryValues
  cases provider fieldName with
  | none => rfl
  | some actual => rw [hcolumn]; rfl

end Columns

theorem agrees_predicate {p : SelectPredicate σ} (h : Answered env provider p) :
    ∃ b, rowMatchesPredicate env provider p = .ok b ∧
      ∀ s, Truth.Agrees s b (predicateTruth env provider p) ↔ PredicateSafe env provider s p := by
  cases p with
  | comparison fieldName op value =>
    refine ⟨_, rfl, fun s => ?_⟩
    have h := agrees_lift₂ (compareRowValue env.values · · op) (s := s) (a := provider fieldName) (b := some value)
    simpa [predicateTruth, PredicateSafe, matchesField] using h
  | expressionComparison expressionSql op value =>
    obtain ⟨actual, hactual⟩ := h
    refine ⟨actual.any (compareExpressionPredicateValue env.values · value op), ?_, fun s => ?_⟩
    · cases actual <;> simp [rowMatchesPredicate, hactual]
    · have h := agrees_lift₂ (compareExpressionPredicateValue env.values · · op) (s := s) (a := actual)
        (b := some value)
      simpa [predicateTruth, PredicateSafe, hactual, Option.isSome_iff_exists] using h
  | like fieldName pattern negated caseInsensitive escapeChar =>
    exact ⟨_, rfl, fun s => agrees_matchesField (env.compareLikeValue · · caseInsensitive escapeChar)⟩
  | regex fieldName pattern negated caseInsensitive =>
    exact ⟨_, rfl, fun s => agrees_matchesField (env.compareRegexValue · · caseInsensitive)⟩
  | fieldComparison left op right =>
    refine ⟨_, rfl, fun s => ?_⟩
    rw [compareProviderFields_eq]
    exact agrees_lift₂ (compareFieldValues env.values · · op)
  | inList fieldName values negated =>
    exact ⟨_, rfl, fun s => agrees_inList (compareRowValue env.values · · .eq)⟩
  | isNull fieldName negated =>
    refine ⟨_, rfl, fun s => ?_⟩
    simp [predicateTruth, PredicateSafe, Truth.agrees_negIf]
  | inSubquery fieldName subquery negated =>
    obtain ⟨column, hcolumn⟩ := h
    refine ⟨_, by rw [rowMatchesPredicate, matchesSubqueryValues_eq hcolumn], fun s => ?_⟩
    cases negated with
    | false =>
      simpa [predicateTruth, PredicateSafe, cellTruths, hcolumn] using
        agrees_someCell (compareRowValue env.values · · .eq)
    | true =>
      simpa [predicateTruth, PredicateSafe, cellTruths, hcolumn] using
        agrees_noCell (compareRowValue env.values · · .eq)
  | anySubqueryComparison fieldName op subquery =>
    obtain ⟨column, hcolumn⟩ := h
    refine ⟨_, by rw [rowMatchesPredicate, matchesSubqueryValues_eq hcolumn], fun s => ?_⟩
    simpa [predicateTruth, PredicateSafe, cellTruths, hcolumn] using agrees_someCell (compareRowValue env.values · · op)
  | allSubqueryComparison fieldName op subquery =>
    obtain ⟨column, hcolumn⟩ := h
    refine ⟨_, by rw [rowMatchesPredicate, matchesSubqueryValues_eq hcolumn], fun s => ?_⟩
    simpa [predicateTruth, PredicateSafe, cellTruths, hcolumn, Truth.all_map_lift₂,
      List.all_eq_not_any_not] using agrees_noCell (fun actual value => !compareRowValue env.values actual value op)
  | «exists» subquery negated =>
    obtain ⟨found, hfound⟩ := h
    refine ⟨found ^^ negated, by simp [rowMatchesPredicate, hfound], fun s => ?_⟩
    simp [predicateTruth, PredicateSafe, hfound, Truth.agrees_negIf]
  | scalarSubqueryComparison fieldName op subquery =>
    obtain ⟨cell, hcell⟩ := h
    refine ⟨_, rowMatches_scalarSubquery hcell, fun s => ?_⟩
    simpa [predicateTruth, PredicateSafe, hcell] using agrees_scalar (compareRowValue env.values · · op)

theorem exists_predicateSafe {p : SelectPredicate σ} (h : Resolves env provider p) :
    ∃ s, PredicateSafe env provider s p := by
  have hcolumn : ∀ (universal : Bool) (operand : Option Bytes) (column : List (Option Bytes)) (nullCell : Bytes)
      (passes : Bytes → Bytes → Bool), (universal = true → operand = none → column ≠ []) →
      ∃ s, ColumnSafe s universal operand column nullCell passes := by
    intro universal operand column nullCell passes hne
    cases operand with
    | none => exact ⟨true, by cases universal <;> simp_all [ColumnSafe]⟩
    | some actual => cases hpasses : passes actual nullCell with
      | true => exact ⟨universal, by simp [ColumnSafe, hpasses]⟩
      | false => exact ⟨!universal, by simp [ColumnSafe, hpasses]⟩
  obtain ⟨hanswered, hresolves⟩ := h
  cases p with
  | comparison | fieldComparison | expressionComparison => exact ⟨true, .inl rfl⟩
  | like _ _ negated | regex _ _ negated | inList _ _ negated => exact ⟨!negated, .inl (by simp)⟩
  | isNull | «exists» => exact ⟨true, trivial⟩
  | inSubquery fieldName subquery negated =>
    obtain ⟨column, hanswer⟩ := hanswered
    obtain ⟨s, hs⟩ := hcolumn negated (provider fieldName) column (env.nullCell subquery)
      (compareRowValue env.values · · .eq) (by rintro rfl hnone rfl; exact hresolves hnone hanswer)
    exact ⟨s, column, hanswer, hs⟩
  | anySubqueryComparison fieldName op subquery =>
    obtain ⟨column, hanswer⟩ := hanswered
    obtain ⟨s, hs⟩ := hcolumn false (provider fieldName) column (env.nullCell subquery)
      (compareRowValue env.values · · op) nofun
    exact ⟨s, column, hanswer, hs⟩
  | allSubqueryComparison fieldName op subquery =>
    obtain ⟨column, hanswer⟩ := hanswered
    obtain ⟨s, hs⟩ := hcolumn true (provider fieldName) column (env.nullCell subquery)
      (fun actual value => !compareRowValue env.values actual value op)
      (by rintro - hnone rfl; exact hresolves hnone hanswer)
    exact ⟨s, column, hanswer, hs⟩
  | scalarSubqueryComparison fieldName op subquery =>
    obtain ⟨cell, hanswer⟩ := hanswered
    cases hoperand : provider fieldName with
    | none => exact ⟨true, cell, hanswer, by simp [ScalarSafe, hoperand]⟩
    | some actual =>
      match cell with
      | none => exact ⟨true, _, hanswer, by simp [ScalarSafe]⟩
      | some none =>
        exact ⟨!compareRowValue env.values actual (env.nullCell subquery) op, _, hanswer,
          by simp [ScalarSafe, hoperand]⟩
      | some (some value) => exact ⟨true, _, hanswer, by simp [ScalarSafe, hoperand]⟩

/-! ## Conditions -/

section Conditions

variable {decisive : Bool} {children : List (SelectCondition σ)} {child condition : SelectCondition σ}

theorem rowMatches_junction_eq_not : rowMatchesCondition env provider (junction decisive children) = .ok (!decisive) ↔
    ∀ child ∈ children, rowMatchesCondition env provider child = .ok (!decisive) := by
  induction children with
  | nil => simp [rowMatches_junction_nil]
  | cons child children ih =>
    rw [rowMatches_junction_cons, List.forall_mem_cons, ← ih]
    cases rowMatchesCondition env provider child with
    | error e => simp
    | ok b => cases b <;> cases decisive <;> simp

theorem exists_of_rowMatches_junction
    (h : rowMatchesCondition env provider (junction decisive children) = .ok decisive) :
    ∃ child ∈ children, rowMatchesCondition env provider child = .ok decisive := by
  induction children with
  | nil => simp [rowMatches_junction_nil] at h
  | cons child children ih =>
    rw [rowMatches_junction_cons] at h
    cases hchild : rowMatchesCondition env provider child with
    | error e => simp [hchild] at h
    | ok b =>
      by_cases hb : b = decisive
      · exact ⟨child, List.mem_cons_self .., hb ▸ hchild⟩
      · obtain ⟨other, hmem, hother⟩ := ih (by simpa [hchild, hb] using h)
        exact ⟨other, List.mem_cons_of_mem _ hmem, hother⟩

/-- Children that give a result do not keep the code from one that decides. -/
theorem rowMatches_junction_decided {before after : List (SelectCondition σ)}
    (hbefore : ∀ earlier ∈ before, ∃ b, rowMatchesCondition env provider earlier = .ok b)
    (hchild : rowMatchesCondition env provider child = .ok decisive) :
    rowMatchesCondition env provider (junction decisive (before ++ child :: after)) = .ok decisive := by
  induction before with
  | nil => simp [rowMatches_junction_cons, hchild]
  | cons earlier before ih =>
    obtain ⟨⟨b, hb⟩, hbefore⟩ := List.forall_mem_cons.mp hbefore
    rw [List.cons_append, rowMatches_junction_cons, hb]
    dsimp only
    split
    · rfl
    · exact ih hbefore

theorem conditionTruth_junction : conditionTruth env provider (junction decisive children) =
    .junction decisive (children.map (conditionTruth env provider)) := by
  cases decisive with
  | false =>
    change allTruth env provider children = .all _
    induction children with
    | nil => rfl
    | cons child children ih => rw [allTruth, ih]; rfl
  | true =>
    change anyTruth env provider children = .any _
    induction children with
    | nil => rfl
    | cons child children ih => rw [anyTruth, ih]; rfl

variable (env provider) in
/-- The condition has the outcome `s` exactly when it holds, respectively fails. -/
def Right (s : Bool) (condition : SelectCondition σ) : Prop :=
  rowMatchesCondition env provider condition = .ok s ↔ conditionTruth env provider condition = .ofBool s

theorem right_predicate {p : SelectPredicate σ} (h : Answered env provider p) :
    Right env provider s (.predicate p) ↔ PredicateSafe env provider s p := by
  obtain ⟨b, hb, hagrees⟩ := agrees_predicate h
  rw [← hagrees s, Right, rowMatchesCondition, hb, Except.ok.injEq]
  rfl

theorem right_not : Right env provider s (.not child) ↔ Right env provider (!s) child := by
  have hmatches : rowMatchesCondition env provider (.not child) = .ok s ↔
      rowMatchesCondition env provider child = .ok (!s) := by
    rw [rowMatchesCondition]
    cases rowMatchesCondition env provider child with
    | error e => simp
    | ok b => cases b <;> cases s <;> simp
  rw [Right, Right, hmatches, conditionTruth]
  cases s <;> simp [Truth.ofBool]

theorem AllPredicates.imp {P Q : SelectPredicate σ → Prop} (hPQ : ∀ p, P p → Q p) (h : AllPredicates P condition) :
    AllPredicates Q condition := by
  induction h with
  | predicate h => exact .predicate (hPQ _ h)
  | not _ ih => exact .not ih
  | junction decisive _ ih => exact .junction decisive ih

theorem AllPredicates.answers (h : AllPredicates (Answered env provider) condition) :
    ∃ b, rowMatchesCondition env provider condition = .ok b := by
  induction h with
  | predicate h =>
    obtain ⟨b, hb, -⟩ := agrees_predicate h
    exact ⟨b, by rw [rowMatchesCondition, hb]⟩
  | not _ ih =>
    obtain ⟨b, hb⟩ := ih
    exact ⟨!b, by rw [rowMatchesCondition, hb]⟩
  | @junction decisive children _ ih =>
    by_cases hall : ∀ child ∈ children, rowMatchesCondition env provider child = .ok !decisive
    · exact ⟨_, rowMatches_junction_eq_not.mpr hall⟩
    · push Not at hall
      obtain ⟨child, hmem, hchild⟩ := hall
      obtain ⟨before, after, rfl⟩ := List.append_of_mem hmem
      obtain ⟨b, hb⟩ := ih child hmem
      obtain rfl : b = decisive := by
        by_contra hne
        exact hchild (by rw [hb, Bool.eq_not.mpr hne])
      exact ⟨_, rowMatches_junction_decided (fun earlier h => ih earlier (List.mem_append_left _ h)) hb⟩

theorem NullSafe.right (h : NullSafe env provider s condition) : Right env provider s condition := by
  induction h with
  | predicate hanswered hsafe => exact (right_predicate hanswered).mpr hsafe
  | not _ ih => exact right_not.mpr ih
  | every decisive _ ih =>
    rw [Right, rowMatches_junction_eq_not, conditionTruth_junction, Truth.junction_eq_not_decisive,
      List.forall_mem_map]
    exact forall₂_congr ih
  | excluded decisive hmem _ hother ih =>
    rw [Right, rowMatches_junction_eq_not, conditionTruth_junction, Truth.junction_eq_not_decisive,
      List.forall_mem_map]
    exact iff_of_false (fun h => hother (ih.mp (h _ hmem))) fun h => hother (h _ hmem)
  | decided decisive hbefore _ hholds ih =>
    rw [Right, conditionTruth_junction, Truth.junction_eq_decisive]
    refine iff_of_true (rowMatches_junction_decided (fun earlier h => (hbefore earlier h).answers) (ih.mpr hholds)) ?_
    exact ⟨_, List.mem_map_of_mem (List.mem_append_right _ (List.mem_cons_self ..)), hholds⟩
  | undecided decisive _ hnone ih =>
    rw [Right, conditionTruth_junction, Truth.junction_eq_decisive]
    refine iff_of_false (fun h => ?_) fun ⟨t, ht, hdecides⟩ => ?_
    · obtain ⟨child, hmem, hchild⟩ := exists_of_rowMatches_junction h
      exact hnone child hmem ((ih child hmem).mp hchild)
    · obtain ⟨child, hmem, rfl⟩ := List.mem_map.mp ht
      exact hnone child hmem hdecides

/-- The code gives an unknown truth value one of the two others, and leaves those as they are. -/
theorem AllPredicates.resolved (h : AllPredicates (Resolves env provider) condition) :
    ∃ b, rowMatchesCondition env provider condition = .ok b ∧
      conditionTruth env provider condition ≠ .ofBool (!b) := by
  induction h with
  | predicate h =>
    obtain ⟨b, hb, hagrees⟩ := agrees_predicate h.1
    obtain ⟨s, hsafe⟩ := exists_predicateSafe h
    exact ⟨b, by rw [rowMatchesCondition, hb], ((hagrees s).mpr hsafe).ne_ofBool_not⟩
  | not _ ih =>
    obtain ⟨b, hb, htruth⟩ := ih
    refine ⟨!b, by rw [rowMatchesCondition, hb], fun h => htruth ?_⟩
    cases b with
    | false => exact Truth.neg_eq_fails.mp h
    | true => exact Truth.neg_eq_holds.mp h
  | @junction decisive children hchildren ih =>
    obtain ⟨b, hb⟩ := ((AllPredicates.junction decisive hchildren).imp fun _ h => h.1).answers
    refine ⟨b, hb, fun htruth => ?_⟩
    rw [conditionTruth_junction] at htruth
    by_cases hdecides : b = decisive
    · obtain rfl := hdecides
      obtain ⟨child, hmem, hchild⟩ := exists_of_rowMatches_junction hb
      obtain ⟨c, hc, hresolved⟩ := ih child hmem
      obtain rfl := Except.ok.inj (hc.symm.trans hchild)
      exact hresolved (Truth.junction_eq_not_decisive.mp htruth _ (List.mem_map_of_mem hmem))
    · obtain rfl := Bool.eq_not.mpr hdecides
      rw [Bool.not_not, Truth.junction_eq_decisive] at htruth
      obtain ⟨_, ht, hdecided⟩ := htruth
      obtain ⟨child, hmem, rfl⟩ := List.mem_map.mp ht
      obtain ⟨c, hc, hresolved⟩ := ih child hmem
      obtain rfl := Except.ok.inj (hc.symm.trans (rowMatches_junction_eq_not.mp hb child hmem))
      exact hresolved (by rw [Bool.not_not, hdecided])

theorem nullSafe_of_right (h : AllPredicates (Resolves env provider) condition) :
    ∀ s, Right env provider s condition → NullSafe env provider s condition := by
  induction h with
  | predicate h => exact fun s hright => .predicate h.1 ((right_predicate h.1).mp hright)
  | not _ ih => exact fun s hright => .not (ih _ (right_not.mp hright))
  | @junction decisive children hchildren ih =>
    intro s hright
    have hresolved : ∀ child ∈ children, ∃ b, rowMatchesCondition env provider child = .ok b ∧
        conditionTruth env provider child ≠ .ofBool (!b) := fun child hmem => (hchildren child hmem).resolved
    by_cases hs : s = decisive
    · obtain rfl := hs
      rw [Right, conditionTruth_junction] at hright
      by_cases htruth : Truth.junction s (children.map (conditionTruth env provider)) = .ofBool s
      · -- the child that decides is right, since the code leaves what is known as it is
        obtain ⟨_, ht, hdecides⟩ := Truth.junction_eq_decisive.mp htruth
        obtain ⟨child, hmem, rfl⟩ := List.mem_map.mp ht
        obtain ⟨before, after, rfl⟩ := List.append_of_mem hmem
        obtain ⟨b, hb, hne⟩ := hresolved child hmem
        obtain rfl : b = s := by
          by_contra hb
          exact hne (by rw [hdecides, Bool.eq_not.mpr hb, Bool.not_not])
        exact .decided _ (fun earlier h => (hchildren earlier (List.mem_append_left _ h)).imp fun _ h => h.1)
          (ih child hmem _ (iff_of_true hb hdecides)) hdecides
      · have hnone : ∀ child ∈ children, conditionTruth env provider child ≠ .ofBool s := fun child hmem hdecides =>
          htruth (Truth.junction_eq_decisive.mpr ⟨_, List.mem_map_of_mem hmem, hdecides⟩)
        refine .undecided _
          (fun child hmem => ih child hmem _ (iff_of_false (fun hchild => ?_) (hnone child hmem))) hnone
        obtain ⟨before, after, rfl⟩ := List.append_of_mem hmem
        refine htruth (hright.mp (rowMatches_junction_decided (fun earlier h => ?_) hchild))
        obtain ⟨b, hb, -⟩ := hresolved earlier (List.mem_append_left _ h)
        exact ⟨b, hb⟩
    · obtain rfl := Bool.eq_not.mpr hs
      by_cases hall : ∀ child ∈ children, Right env provider (!decisive) child
      · exact .every _ fun child hmem => ih child hmem _ (hall child hmem)
      · -- a wrong child is unknown, so that the whole is right only through another one
        push Not at hall
        obtain ⟨wrong, hwrong, hnot⟩ := hall
        rw [Right, rowMatches_junction_eq_not, conditionTruth_junction, Truth.junction_eq_not_decisive] at hright
        have hno : ¬ ∀ child ∈ children, rowMatchesCondition env provider child = .ok (!decisive) := by
          intro hall
          exact hnot (iff_of_true (hall wrong hwrong) (hright.mp hall _ (List.mem_map_of_mem hwrong)))
        push Not at hno
        obtain ⟨child, hmem, hchild⟩ := hno
        obtain ⟨b, hb, hne⟩ := hresolved child hmem
        obtain rfl : b = decisive := by
          by_contra hne
          exact hchild (by rw [hb, Bool.eq_not.mpr hne])
        exact .excluded _ hmem (ih child hmem _ (iff_of_false hchild hne)) hne

end Conditions

/-- Where a condition is null-safe, it accepts a row exactly when it holds for it; and where its predicates give
results that are right for a sign, only there. -/
theorem accepts_iff_holds (env : ConditionEnv σ) (provider : Provider) (condition : SelectCondition σ) :
    (NullSafe env provider true condition →
      (rowMatches env provider (some condition) = .ok true ↔ conditionTruth env provider condition = .holds)) ∧
    (AllPredicates (Resolves env provider) condition →
      ((rowMatches env provider (some condition) = .ok true ↔ conditionTruth env provider condition = .holds) ↔
        NullSafe env provider true condition)) :=
  ⟨NullSafe.right, fun h => ⟨nullSafe_of_right h true, NullSafe.right⟩⟩

def columnEnv : ConditionEnv (List (Option Bytes)) :=
  { ConditionEnv.plain _ with
    subqueryColumn := fun _ column => .ok column
    subqueryExists := fun _ column => .ok !column.isEmpty
    subqueryScalar := fun _ column => .ok column.head? }

/-- `a IS NOT NULL AND NOT (a = 1)` on a row without `a`, whose first part refuses it, and on one with the value 3. -/
theorem guarded_negation_right :
    let guarded : SelectCondition (List (Option Bytes)) := .and [.predicate (.isNull "a" true),
      .not (.predicate (.comparison "a" .eq (utf8Bytes "1")))]
    (AllPredicates (Resolves columnEnv fun _ => none) guarded ∧ NullSafe columnEnv (fun _ => none) true guarded ∧
      rowMatches columnEnv (fun _ => none) (some guarded) ≠ .ok true) ∧
    NullSafe columnEnv (fun _ => some (utf8Bytes "3")) true guarded ∧
      rowMatches columnEnv (fun _ => some (utf8Bytes "3")) (some guarded) = .ok true := by
  intro guarded
  have hresolves : AllPredicates (Resolves columnEnv fun _ => none) guarded := by
    refine .junction false fun child hchild => ?_
    rcases List.mem_pair.mp hchild with rfl | rfl
    · exact .predicate ⟨trivial, trivial⟩
    · exact .not (.predicate ⟨trivial, trivial⟩)
  have hmissing : NullSafe columnEnv (fun _ => none) true guarded :=
    .excluded false (List.mem_cons_self ..) (.predicate trivial trivial) (by decide)
  have hpresent : NullSafe columnEnv (fun _ => some (utf8Bytes "3")) true guarded := by
    refine .every false fun child hchild => ?_
    rcases List.mem_pair.mp hchild with rfl | rfl
    · exact .predicate trivial trivial
    · exact .not (.predicate trivial (.inr rfl))
  refine ⟨⟨hresolves, hmissing, fun h => ?_⟩, hpresent, ?_⟩
  · exact absurd (((accepts_iff_holds columnEnv _ guarded).2 hresolves).mpr hmissing |>.mp h) (by decide)
  · exact ((accepts_iff_holds columnEnv _ guarded).1 hpresent).mpr (by decide +kernel)

/-- On a row of missing values `NOT a = 1`, `a NOT IN (1)` and `a NOT LIKE 'x'` are unknown and accept the
row. The text `NULL` is in a column whose only value is missing. -/
theorem unknown_row_accepted :
    (rowMatches columnEnv (fun _ => none) (some (.not (.predicate (.comparison "a" .eq (utf8Bytes "1"))))) =
        .ok true ∧
      conditionTruth columnEnv (fun _ => none) (.not (.predicate (.comparison "a" .eq (utf8Bytes "1")))) =
        .unknown) ∧
    (rowMatches columnEnv (fun _ => none) (some (.predicate (.inList "a" [utf8Bytes "1"] true))) = .ok true ∧
      conditionTruth columnEnv (fun _ => none) (.predicate (.inList "a" [utf8Bytes "1"] true)) = .unknown) ∧
    (rowMatches columnEnv (fun _ => none) (some (.predicate (.like "a" (utf8Bytes "x") true true none))) =
        .ok true ∧
      conditionTruth columnEnv (fun _ => none) (.predicate (.like "a" (utf8Bytes "x") true true none)) =
        .unknown) ∧
    (rowMatches columnEnv (fun _ => some (utf8Bytes "NULL")) (some (.predicate (.inSubquery "a" [none] false))) =
        .ok true ∧
      conditionTruth columnEnv (fun _ => some (utf8Bytes "NULL")) (.predicate (.inSubquery "a" [none] false)) =
        .unknown) := by
  decide +kernel

end DistDb.Query
