import DistDb.Query.Join

/-! # Joins by nested loops

All pairs of rows that satisfy the condition, and the rows without partner that the kind of join keeps. -/

namespace DistDb.Query
open Lib Mutation

variable {σ : Type} {env : ConditionEnv σ} {catalog : String → Option (RelationSource σ)}
  {rowMatches : RowMap → Option (SelectCondition σ) → Except String Bool}
  {source : RelationSource σ} {join : SelectJoin σ} {leftRelations : List SelectRelation}
  {rights : List LiveRow} {lefts : List JoinedRowTuple} {left : JoinedRowTuple} {right : LiveRow}

/-! ## Specification -/

section Specification

variable (env catalog)

def joinOn (join : SelectJoin σ) (left : JoinedRowTuple) (right : LiveRow) : Bool :=
  join.kind = .cross ∨ rowMatchesCondition env (joinedRowCandidateProvider left join.relation right)
    join.onCondition = .ok true

def tableRows (tableId : String) : List LiveRow := ((catalog tableId).map (·.liveRows)).getD []

def nestedLoopJoins : List SelectRelation → List (SelectJoin σ) → List JoinedRowTuple → List JoinedRowTuple
  | _, [], lefts => lefts
  | leftRelations, join :: joins, lefts =>
    nestedLoopJoins (leftRelations ++ [join.relation]) joins
      ((joinRows leftRelations join).nestedLoop (joinOn env join) lefts (tableRows catalog join.relation.tableId))

def nestedLoopTuples (primary : SelectRelation) (joins : List (SelectJoin σ)) : List JoinedRowTuple :=
  nestedLoopJoins env catalog [primary] joins
    ((tableRows catalog primary.tableId).map (JoinedRowTuple.fromRelationRow primary))

theorem nestedLoopJoins_perm {joins : List (SelectJoin σ)} {lefts' : List JoinedRowTuple} (h : lefts.Perm lefts') :
    (nestedLoopJoins env catalog leftRelations joins lefts).Perm
      (nestedLoopJoins env catalog leftRelations joins lefts') := by
  induction joins generalizing leftRelations lefts lefts' with
  | nil => exact h
  | cons join joins ih => exact ih (JoinRows.nestedLoop_perm h (.refl _))

end Specification

/-! ## Conditions on the input -/

section Fits

variable (env)

/-- The predicates that are evaluated beside the equality of two keys. -/
def SelectPredicate.Compares : SelectPredicate σ → Prop
  | .comparison _ _ _ | .fieldComparison _ _ _ => True
  | _ => False

/-- The predicates that do not ask for subqueries, and whose expressions have values. -/
def SelectPredicate.Evaluates : SelectPredicate σ → Prop
  | .expressionComparison expressionSql _ _ =>
    ∀ provider, ∃ actual, env.evaluateExpression provider expressionSql = .ok actual
  | .inSubquery _ _ _ | .scalarSubqueryComparison _ _ _ | .anySubqueryComparison _ _ _
  | .allSubqueryComparison _ _ _ | .exists _ _ => False
  | _ => True

/-- The condition is an equality of two fields, or an `AND` with such a child. -/
inductive Requires (fields : String × String) : SelectCondition σ → Prop
  | equality : Requires fields (.predicate (.fieldComparison fields.1 .eq fields.2))
  | and {children : List (SelectCondition σ)} {child : SelectCondition σ} :
    child ∈ children → Requires fields child → Requires fields (.and children)

/-- An equality of keys is required by the condition, and all its predicates are comparisons. Without such an equality
the condition asks for no subqueries. -/
def ShapeFits (join : SelectJoin σ) : Prop :=
  match join.simpleJoin with
  | some _ => AllPredicates SelectPredicate.Compares join.onCondition ∧
    ∃ fields ∈ findEquality join.onCondition, Requires fields join.onCondition
  | none => AllPredicates (SelectPredicate.Evaluates env) join.onCondition

/-- The key of the right row has the bytes of the left key or, if no right row has these, is rendered like it. -/
def KeyFinds (rights : List LiveRow) (rightField : String) (leftValue : Bytes) (right : LiveRow) : Prop :=
  right.2.lookup rightField = some leftValue ∨
    (∀ other ∈ rights, other.2.lookup rightField ≠ some leftValue) ∧
      (right.2.lookup rightField).map (renderStoredFieldValue env.values) =
        some (renderStoredFieldValue env.values leftValue)

/-- The left key finds the right rows that satisfy the condition. A left row whose key is `NULL` must not be kept. -/
def KeyFits (join : SelectJoin σ) (rights : List LiveRow) (left : JoinedRowTuple) : Prop :=
  ∀ fields ∈ join.simpleJoin,
    match left.value fields.1 with
    | some leftValue => ∀ right ∈ rights, joinOn env join left right = true →
        KeyFinds env rights fields.2 leftValue right
    | none => join.kind.keepsLeft = false

/-- The right rows that satisfy the condition are stored under one of the keys that an inner join looks up in an
index: the left key, its rendered form, or the left key converted to the type of the field. -/
def ProbeFits (source : RelationSource σ) (join : SelectJoin σ) (left : JoinedRowTuple) : Prop :=
  ∀ fields ∈ join.simpleJoin, join.kind = .inner → source.hasSingleColumnIndex fields.2 = true →
    ∀ leftValue ∈ left.value fields.1, ∀ right ∈ source.liveRows, joinOn env join left right = true →
      ∃ key ∈ joinProbeKeys env source.schema fields.2 leftValue, right.2.lookup fields.2 = some key

/-- Scans and index lookups of a table give its live rows. -/
structure RelationSource.ReadsLive (rowMatches : RowMap → Option (SelectCondition σ) → Except String Bool)
    (source : RelationSource σ) : Prop where
  scan : (source.materialize none none).Perm source.liveRows
  accepts : ∀ row ∈ source.liveRows, rowMatches row.2 none = .ok true
  probe : ∀ fieldName, source.hasSingleColumnIndex fieldName = true → ∀ key row,
    row ∈ source.probe fieldName key ↔ row ∈ source.liveRows ∧ row.2.lookup fieldName = some key

end Fits

/-! ## Evaluation of conditions -/

theorem rowMatchesCondition_of_compares {provider : Provider} {condition : SelectCondition σ}
    (h : AllPredicates SelectPredicate.Compares condition) :
    rowMatchesCondition env provider condition = .ok (joinConditionMatches env.values provider condition) := by
  induction h with
  | @predicate p h =>
    cases p with
    | comparison | fieldComparison =>
        simp [rowMatchesCondition, rowMatchesPredicate, joinConditionMatches, matchesField]
    | _ => cases h
  | not _ ih => rw [rowMatchesCondition, ih, joinConditionMatches]
  | @junction decisive children _ ih =>
    induction children with
    | nil => cases decisive <;> rfl
    | cons child children ihs =>
      obtain ⟨hchild, hchildren⟩ := List.forall_mem_cons.mp ih
      have hrest := ihs (by grind) hchildren
      rw [rowMatches_junction_cons, hchild]
      cases decisive <;> cases hvalue : joinConditionMatches env.values provider child <;>
        simp_all [junction, joinConditionMatches, joinMatchesAll, joinMatchesAny]

theorem rowMatchesCondition_withoutSubqueries (provider : Provider) {condition : SelectCondition σ}
    (h : AllPredicates (SelectPredicate.Evaluates env) condition) : ∃ b,
      rowMatchesCondition env provider condition = .ok b ∧
        rowMatchesCondition env.withoutSubqueries provider condition = .ok b := by
  induction h with
  | @predicate p h =>
    cases p with
    | expressionComparison expressionSql op value =>
      obtain ⟨actual, hactual⟩ := h provider
      cases actual <;> simp [rowMatchesCondition, rowMatchesPredicate, ConditionEnv.withoutSubqueries, hactual]
    | comparison | like | regex | fieldComparison | inList | isNull => exact ⟨_, rfl, rfl⟩
    | _ => cases h
  | not _ ih =>
    obtain ⟨b, hb, hb'⟩ := ih
    exact ⟨!b, by rw [rowMatchesCondition, hb], by rw [rowMatchesCondition, hb']⟩
  | @junction decisive children _ ih =>
    induction children with
    | nil => exact ⟨!decisive, rowMatches_junction_nil, rowMatches_junction_nil⟩
    | cons child children ihs =>
      obtain ⟨⟨b, hb, hb'⟩, hchildren⟩ := List.forall_mem_cons.mp ih
      have hrest := ihs (by grind) hchildren
      simp only [rowMatches_junction_cons, hb, hb']
      split
      · exact ⟨decisive, rfl, rfl⟩
      · exact hrest

theorem Requires.compareProviderFields {fields : String × String} {condition : SelectCondition σ} {provider : Provider}
    (h : Requires fields condition) (hmatches : rowMatchesCondition env provider condition = .ok true) :
    compareProviderFields env.values provider fields.1 fields.2 .eq = true := by
  induction h with
  | equality => simpa [rowMatchesCondition, rowMatchesPredicate] using hmatches
  | and hmem _ ih => exact ih (rowMatchesAll_eq_ok_true.mp hmatches _ hmem)

/-- The left one of the two fields is not of the right relation. -/
theorem simpleJoin_eq_some {fields : String × String} (h : join.simpleJoin = some fields) :
    ∃ equal, findEquality join.onCondition = some equal ∧ (fields.1 = equal.1 ∨ fields.1 = equal.2) ∧
      hasQualifier join.relation.qualifier fields.1 = false := by
  unfold SelectJoin.simpleJoin at h
  simp only [Option.map_eq_some_iff, Option.bind_eq_some_iff] at h
  obtain ⟨oriented, ⟨equal, hequal, horiented⟩, rfl⟩ := h
  refine ⟨equal, hequal, ?_⟩
  unfold normalizeSimpleJoinFieldOrientation at horiented
  split at horiented
  · obtain rfl := Option.some.inj horiented
    exact ⟨.inl rfl, by assumption⟩
  · obtain rfl := Option.some.inj horiented
    exact ⟨.inr rfl, by assumption⟩
  · cases horiented

theorem joinedRowCandidateProvider_of_left (right : LiveRow) {fieldName : String}
    (hother : hasQualifier join.relation.qualifier fieldName = false) :
    joinedRowCandidateProvider left join.relation right fieldName = left.value fieldName := by
  unfold joinedRowCandidateProvider qualifiedColumn
  unfold hasQualifier at hother
  cases hsplit : splitOnce '.' fieldName with
  | none => simp
  | some parts => simp_all

section Shape

variable (hkind : join.kind ≠ .cross) (hshape : ShapeFits env join)
include hkind

theorem joinOn_iff : joinOn env join left right = true ↔
    rowMatchesCondition env (joinedRowCandidateProvider left join.relation right) join.onCondition = .ok true := by
  simp [joinOn, hkind]

include hshape

theorem joinConditionMatches_eq_joinOn {fields : String × String} (hsimple : join.simpleJoin = some fields) :
    joinConditionMatches env.values (joinedRowCandidateProvider left join.relation right) join.onCondition =
      joinOn env join left right := by
  simp only [ShapeFits, hsimple] at hshape
  rw [Bool.eq_iff_iff, joinOn_iff hkind, rowMatchesCondition_of_compares hshape.1, Except.ok.injEq]

theorem rowMatches_eq_joinOn (left : JoinedRowTuple) (right : LiveRow) (hsimple : join.simpleJoin = none) :
    rowMatchesCondition env.withoutSubqueries
    (joinedRowCandidateProvider left join.relation right) join.onCondition = .ok (joinOn env join left right) := by
  simp only [ShapeFits, hsimple] at hshape
  obtain ⟨b, hb, hb'⟩ :=
    rowMatchesCondition_withoutSubqueries (joinedRowCandidateProvider left join.relation right) hshape
  rw [hb', Except.ok.injEq, Bool.eq_iff_iff, joinOn_iff hkind, hb, Except.ok.injEq]

/-- A left row whose key is `NULL` satisfies the condition with no right row. -/
theorem joinOn_eq_false (right : LiveRow) {fields : String × String} (hsimple : join.simpleJoin = some fields)
    (hnone : left.value fields.1 = none) : joinOn env join left right = false := by
  obtain ⟨equal, hequal, hfield, hother⟩ := simpleJoin_eq_some hsimple
  simp only [ShapeFits, hsimple] at hshape
  obtain ⟨-, equal', hequal', hrequires⟩ := hshape
  obtain rfl := Option.some.inj (hequal.symm.trans hequal')
  rw [← joinedRowCandidateProvider_of_left right hother] at hnone
  rw [Bool.eq_false_iff, ne_eq, joinOn_iff hkind]
  intro hmatches
  have hequals := hrequires.compareProviderFields hmatches
  unfold compareProviderFields at hequals
  rcases hfield with hfield | hfield <;> simp [← hfield, hnone] at hequals

end Shape

/-! ## One join -/

theorem filterRows_eq_ok {α : Type} {accepts : α → Except String Bool} {rows : List α} {test : α → Bool}
    (h : ∀ row ∈ rows, accepts row = .ok (test row)) : filterRows accepts rows = .ok (rows.filter test) := by
  induction rows with
  | nil => rfl
  | cons row rows ih =>
    obtain ⟨hrow, hrows⟩ := List.forall_mem_cons.mp h
    rw [filterRows, hrow, ih hrows, List.filter_cons]

theorem filterRows_all {α : Type} {accepts : α → Except String Bool} {rows : List α}
    (h : ∀ row ∈ rows, accepts row = .ok true) : filterRows accepts rows = .ok rows := by
  rw [filterRows_eq_ok (fun row hrow => h row hrow), List.filter_true]

section Step

variable (env join rights)

def matchedRows (left : JoinedRowTuple) : Option (List LiveRow) :=
  match join.simpleJoin with
  | some (leftField, rightField) =>
    (left.value leftField).map fun leftValue => (probeIndexMatches env rights rightField leftValue).filter fun right =>
      joinConditionMatches env.values (joinedRowCandidateProvider left join.relation right) join.onCondition
  | none => some (rights.filter (joinOn env join left))

theorem allMatches_eq (h : ∀ left ∈ lefts, joinMatches env join rights left = .ok (matchedRows env join rights left)) :
    allMatches env join rights lefts = .ok (lefts.map fun left => (left, matchedRows env join rights left)) := by
  induction lefts with
  | nil => rfl
  | cons left lefts ih =>
    obtain ⟨hleft, hlefts⟩ := List.forall_mem_cons.mp h
    rw [allMatches, hleft, ih hlefts]
    rfl

theorem mem_probeIndexMatches {rightField : String} {leftValue : Bytes} :
    right ∈ probeIndexMatches env rights rightField leftValue ↔
      right ∈ rights ∧ KeyFinds env rights rightField leftValue right := by
  unfold probeIndexMatches KeyFinds
  dsimp only
  split
  · rename_i hnone
    simp only [List.filter_eq_nil_iff, decide_eq_true_eq] at hnone
    rw [List.mem_filter, decide_eq_true_eq]
    refine and_congr_right fun hright => ?_
    rw [or_iff_right (hnone right hright), and_iff_right hnone]
  · rename_i hsome
    rw [List.mem_filter, decide_eq_true_eq]
    refine and_congr_right fun hright => (or_iff_left fun h => hsome ?_).symm
    exact List.filter_eq_nil_iff.mpr fun other hother => by simpa using h.1 other hother

theorem probeIndexMatches_sublist {rightField : String} {leftValue : Bytes} :
    (probeIndexMatches env rights rightField leftValue).Sublist rights := by
  unfold probeIndexMatches
  dsimp only
  split <;> exact List.filter_sublist

theorem matchedRows_sublist {left : JoinedRowTuple} {rs : List LiveRow}
    (h : matchedRows env join rights left = some rs) : rs.Sublist rights := by
  unfold matchedRows at h
  split at h
  · obtain ⟨leftValue, -, rfl⟩ := Option.map_eq_some_iff.mp h
    exact List.filter_sublist.trans (probeIndexMatches_sublist env rights)
  · obtain rfl := Option.some.inj h
    exact List.filter_sublist

variable {env join rights}

section Shape

variable (hkind : join.kind ≠ .cross) (hshape : ShapeFits env join)
include hkind hshape

theorem joinMatches_eq_ok : joinMatches env join rights left = .ok (matchedRows env join rights left) := by
  cases hsimple : join.simpleJoin with
  | some fields => simp [matchedRows, joinMatches, hsimple]
  | none =>
    have hrows := filterRows_eq_ok fun right (_ : right ∈ rights) =>
      rowMatches_eq_joinOn hkind hshape left right hsimple
    simp [matchedRows, joinMatches, hsimple, hrows, Except.map]

theorem matchesExactly_iff : (joinRows leftRelations join).MatchesExactly (joinOn env join) rights
    (matchedRows env join rights left) left ↔ KeyFits env join rights left := by
  cases hsimple : join.simpleJoin with
  | none => simp +contextual [matchedRows, JoinRows.MatchesExactly, KeyFits, hsimple]
  | some fields =>
    simp only [KeyFits, matchedRows, hsimple, Option.mem_some_iff, forall_eq']
    cases hvalue : left.value fields.1 with
    | none =>
      refine and_iff_left fun right _ => ?_
      exact joinOn_eq_false hkind hshape right hsimple hvalue
    | some leftValue =>
      refine forall₂_congr fun right hright => ?_
      rw [List.mem_filter, mem_probeIndexMatches, joinConditionMatches_eq_joinOn hkind hshape hsimple,
        and_iff_right hright]
      exact and_iff_right_iff_imp

end Shape

theorem joinStep_eq (hkind : join.kind ≠ .cross) (hids : (rights.map Prod.fst).Nodup)
    (h : ∀ left ∈ lefts, joinMatches env join rights left = .ok (matchedRows env join rights left)) :
    joinStep env leftRelations join rights lefts =
      .ok ((joinRows leftRelations join).joinBy (matchedRows env join rights) lefts rights) := by
  have hunmatched : (rights.filter fun right => right.1 ∉ lefts.flatMap fun left =>
      ((matchedRows env join rights left).getD []).map Prod.fst) =
      rights.filter fun right => lefts.all fun left => (matchedRows env join rights left).all (right ∉ ·) := by
    refine List.filter_congr fun right hright => ?_
    rw [Bool.eq_iff_iff]
    simp only [decide_eq_true_eq, List.mem_flatMap, not_exists, not_and, List.all_eq_true, Option.all_eq_true]
    refine forall₂_congr fun left _ => ?_
    cases hrs : matchedRows env join rights left with
    | none => simp
    | some rs =>
      have hsub := (matchedRows_sublist env join rights hrs).subset
      simp only [Option.getD_some, Option.some.injEq, forall_eq']
      refine not_congr ⟨fun hid => ?_, List.mem_map_of_mem⟩
      obtain ⟨right', hright', hid⟩ := List.mem_map.mp hid
      exact List.inj_on_of_nodup_map hids (hsub hright') hright hid ▸ hright'
  rw [joinStep, if_neg hkind, allMatches_eq env join rights h]
  simp only [List.flatMap_map]
  rw [hunmatched, JoinRows.joinBy]
  congr!

theorem tells_joinRows (h : JoinedRowTuple.fromMissingRelations leftRelations ∉ lefts) :
    (joinRows leftRelations join).Tells lefts := by
  have hmember : ∀ right right' : LiveRow, JoinedRowTuple.member join.relation right =
      JoinedRowTuple.member join.relation right' → right = right' := by
    rintro ⟨id, row⟩ ⟨id', row'⟩ h
    simpa [JoinedRowTuple.member] using h
  constructor
  · rintro ⟨members⟩ - ⟨members'⟩ - right right' h
    simp only [joinRows, JoinedRowTuple.append, JoinedRowTuple.mk.injEq] at h
    obtain ⟨hmembers, hlast⟩ := List.append_inj' h rfl
    exact ⟨by rw [hmembers], hmember _ _ (by simpa using hlast)⟩
  · rintro ⟨members⟩ - ⟨members'⟩ - h
    simpa [joinRows, JoinedRowTuple.appendMissingRelation] using h
  · rintro ⟨members⟩ - ⟨members'⟩ - right h
    simp [joinRows, JoinedRowTuple.append, JoinedRowTuple.appendMissingRelation, JoinedRowTuple.member,
      JoinedRowTuple.missing] at h
  · rintro ⟨members⟩ hl right right' heq
    simp only [joinRows, JoinedRowTuple.append, JoinedRowTuple.mk.injEq] at heq
    obtain ⟨hmembers, -⟩ := List.append_inj' heq rfl
    subst hmembers
    exact h hl
  · rintro ⟨members⟩ - right h
    simp [joinRows, JoinedRowTuple.append, JoinedRowTuple.appendMissingRelation, JoinedRowTuple.member,
      JoinedRowTuple.missing] at h

theorem nodup_subset_of_matchedRows (hids : (rights.map Prod.fst).Nodup) {left : JoinedRowTuple}
    {rs : List LiveRow} (h : matchedRows env join rights left = some rs) : rs.Nodup ∧ rs ⊆ rights :=
  have hsublist := matchedRows_sublist env join rights h
  ⟨hsublist.nodup (.of_map _ hids), hsublist.subset⟩

theorem joinStep_perm_iff (hkind : join.kind ≠ .cross) (hshape : ShapeFits env join)
    (hids : (rights.map Prod.fst).Nodup) (hpresent : JoinedRowTuple.fromMissingRelations leftRelations ∉ lefts) :
    (∃ out, joinStep env leftRelations join rights lefts = .ok out ∧
      out.Perm ((joinRows leftRelations join).nestedLoop (joinOn env join) lefts rights)) ↔
      ∀ left ∈ lefts, KeyFits env join rights left := by
  rw [joinStep_eq hkind hids fun left _ => joinMatches_eq_ok hkind hshape]
  simp only [Except.ok.injEq, exists_eq_left']
  rw [(tells_joinRows hpresent).joinBy_perm_nestedLoop_iff (.of_map _ hids)
    fun left _ rs => nodup_subset_of_matchedRows hids]
  exact forall₂_congr fun left _ => matchesExactly_iff hkind hshape

end Step

/-- The right rows that were read are enough for the left rows. -/
structure RightRowsFit (env : ConditionEnv σ) (rows : List LiveRow) (join : SelectJoin σ) (lefts : List JoinedRowTuple)
    (rights : List LiveRow) : Prop where
  nodup_ids : (rights.map Prod.fst).Nodup
  subset : rights ⊆ rows
  complete : ∀ left ∈ lefts, ∀ right ∈ rows, joinOn env join left right = true → right ∈ rights
  all_kept : join.kind.keepsRight = true → rows ⊆ rights

theorem RightRowsFit.nestedLoop_perm {rows : List LiveRow} (h : RightRowsFit env rows join lefts rights)
    (hrows : rows.Nodup) :
    ((joinRows leftRelations join).nestedLoop (joinOn env join) lefts rights).Perm
      ((joinRows leftRelations join).nestedLoop (joinOn env join) lefts rows) := by
  have hrights : rights.Nodup := .of_map _ h.nodup_ids
  refine JoinRows.nestedLoop_perm_of_filter (fun left hleft => ?_) fun hkeep => ?_
  · refine (List.perm_ext_iff_of_nodup (hrights.filter _) (hrows.filter _)).mpr fun right => ?_
    simp only [List.mem_filter]
    exact ⟨fun ⟨hmem, hon⟩ => ⟨h.subset hmem, hon⟩, fun ⟨hmem, hon⟩ => ⟨h.complete left hleft right hmem hon, hon⟩⟩
  · exact (List.perm_ext_iff_of_nodup hrights hrows).mpr fun right =>
      ⟨fun hmem => h.subset hmem, fun hmem => h.all_kept hkeep hmem⟩

theorem joinStep_cross (hkind : join.kind = .cross) : joinStep env leftRelations join rights lefts =
      .ok ((joinRows leftRelations join).nestedLoop (joinOn env join) lefts rights) := by
  have hon : ∀ left : JoinedRowTuple, joinOn env join left = fun _ => true := by
    intro left
    funext right
    simp [joinOn, hkind]
  simp [joinStep, hkind, JoinRows.nestedLoop, hon, matchedOrAlone, joinRows, SelectJoinKind.keepsLeft,
    SelectJoinKind.keepsRight]

theorem KeyFits.of_subset {rows : List LiveRow} (h : KeyFits env join rows left) (hsubset : rights ⊆ rows) :
    KeyFits env join rights left := by
  intro fields hfields
  have hfits := h fields hfields
  cases hvalue : left.value fields.1 with
  | none => simpa only [hvalue] using hfits
  | some leftValue =>
    rw [hvalue] at hfits
    intro right hright hon
    refine (hfits right (hsubset hright) hon).imp_right fun h => ⟨fun other hother => ?_, h.2⟩
    exact h.1 other (hsubset hother)

theorem joinStep_perm {rows : List LiveRow} (hrows : rows.Nodup) (hrights : RightRowsFit env rows join lefts rights)
    (hfits : join.kind ≠ .cross → ShapeFits env join ∧ ∀ left ∈ lefts, KeyFits env join rows left) :
    ∃ out, joinStep env leftRelations join rights lefts = .ok out ∧
      out.Perm ((joinRows leftRelations join).nestedLoop (joinOn env join) lefts rows) := by
  by_cases hkind : join.kind = .cross
  · exact ⟨_, joinStep_cross hkind, hrights.nestedLoop_perm hrows⟩
  · obtain ⟨hshape, hkeys⟩ := hfits hkind
    refine ⟨_, joinStep_eq hkind hrights.nodup_ids fun left _ => joinMatches_eq_ok hkind hshape, .trans ?_
      (hrights.nestedLoop_perm hrows)⟩
    refine JoinRows.joinBy_perm_nestedLoop (.of_map _ hrights.nodup_ids)
      (fun left _ rs => nodup_subset_of_matchedRows hrights.nodup_ids) fun left hleft => ?_
    exact (matchesExactly_iff hkind hshape).mpr ((hkeys left hleft).of_subset hrights.subset)

/-! ## The right rows -/

theorem mem_of_mem_distinctRows {seen : List UInt64} {rows : List LiveRow} {row : LiveRow}
    (h : row ∈ distinctRows seen rows) : row ∈ rows ∧ row.1 ∉ seen := by
  induction rows generalizing seen with
  | nil => cases h
  | cons first rows ih =>
    rw [distinctRows] at h
    split_ifs at h with hseen
    · exact (ih h).imp_left (List.mem_cons_of_mem _)
    · rcases List.mem_cons.mp h with rfl | h
      · exact ⟨List.mem_cons_self, hseen⟩
      · exact (ih h).imp (List.mem_cons_of_mem _) fun hnot hmem => hnot (List.mem_cons_of_mem _ hmem)

theorem nodup_distinctRows (seen : List UInt64) (rows : List LiveRow) :
    ((distinctRows seen rows).map Prod.fst).Nodup := by
  induction rows generalizing seen with
  | nil => exact .nil
  | cons row rows ih =>
    rw [distinctRows]
    split_ifs with hseen
    · exact ih seen
    · refine List.nodup_cons.mpr ⟨fun hmem => ?_, ih _⟩
      obtain ⟨other, hother, heq⟩ := List.mem_map.mp hmem
      exact (mem_of_mem_distinctRows hother).2 (heq ▸ List.mem_cons_self)

theorem id_mem_distinctRows {seen : List UInt64} {rows : List LiveRow} {row : LiveRow} (h : row ∈ rows)
    (hseen : row.1 ∉ seen) : row.1 ∈ (distinctRows seen rows).map Prod.fst := by
  induction rows generalizing seen with
  | nil => cases h
  | cons first rows ih =>
    rw [distinctRows]
    split_ifs with hfirst
    · rcases List.mem_cons.mp h with rfl | h
      · exact absurd hfirst hseen
      · exact ih h hseen
    · rw [List.map_cons, List.mem_cons]
      by_cases heq : row.1 = first.1
      · exact .inl heq
      · refine .inr (ih ((List.mem_cons.mp h).resolve_left fun h => heq (h ▸ rfl)) ?_)
        exact fun hmem => (List.mem_cons.mp hmem).elim heq hseen

theorem RelationSource.ReadsLive.scan_fits (h : source.ReadsLive rowMatches) :
    ∃ rights, filterRows (fun row : LiveRow => rowMatches row.2 none) (source.materialize none none) = .ok rights ∧
      RightRowsFit env source.liveRows join lefts rights := by
  refine ⟨_, filterRows_all fun row hrow => h.accepts row (h.scan.mem_iff.mp hrow), ?_⟩
  exact ⟨(h.scan.map _).nodup_iff.mpr source.nodup_liveRowIds, h.scan.subset,
    fun _ _ _ hright _ => h.scan.mem_iff.mpr hright, fun _ => h.scan.symm.subset⟩

theorem RelationSource.ReadsLive.probe_fits (h : source.ReadsLive rowMatches) {fields : String × String}
    (hsimple : join.simpleJoin = some fields) (hkind : join.kind = .inner)
    (hindex : source.hasSingleColumnIndex fields.2 = true) (hshape : ShapeFits env join)
    (hprobe : ∀ left ∈ lefts, ProbeFits env source join left) :
    ∃ rights, filterRows (fun row : LiveRow => rowMatches row.2 none) (distinctRows []
      (((lefts.filterMap (·.value fields.1)).dedup.flatMap (joinProbeKeys env source.schema fields.2)).flatMap
        (source.probe fields.2))) = .ok rights ∧ RightRowsFit env source.liveRows join lefts rights := by
  have hlive : ∀ row ∈ distinctRows [] (((lefts.filterMap (·.value fields.1)).dedup.flatMap
      (joinProbeKeys env source.schema fields.2)).flatMap (source.probe fields.2)), row ∈ source.liveRows := by
    intro row hrow
    obtain ⟨key, -, hfound⟩ := List.mem_flatMap.mp (mem_of_mem_distinctRows hrow).1
    exact ((h.probe _ hindex key row).mp hfound).1
  refine ⟨_, filterRows_all fun row hrow => h.accepts row (hlive row hrow), nodup_distinctRows _ _, hlive, ?_, ?_⟩
  · intro left hleft right hright hon
    cases hvalue : left.value fields.1 with
    | none =>
      have hoff := joinOn_eq_false (by simp [hkind]) hshape right hsimple hvalue
      simp [hoff] at hon
    | some leftValue =>
      obtain ⟨key, hkey, hlookup⟩ := hprobe left hleft fields hsimple hkind hindex leftValue hvalue right hright hon
      have hfound : right ∈ ((lefts.filterMap (·.value fields.1)).dedup.flatMap
          (joinProbeKeys env source.schema fields.2)).flatMap (source.probe fields.2) := by
        refine List.mem_flatMap.mpr ⟨key, List.mem_flatMap.mpr ⟨leftValue, ?_, hkey⟩,
          (h.probe _ hindex key right).mpr ⟨hright, hlookup⟩⟩
        exact List.mem_dedup.mpr (List.mem_filterMap.mpr ⟨left, hleft, hvalue⟩)
      obtain ⟨row, hrow, heq⟩ := List.mem_map.mp (id_mem_distinctRows hfound List.not_mem_nil)
      exact List.inj_on_of_nodup_map source.nodup_liveRowIds (hlive row hrow) hright heq ▸ hrow
  · simp [hkind, SelectJoinKind.keepsRight]

theorem joinRightRows_fit (h : source.ReadsLive rowMatches)
    (hfits : join.kind ≠ .cross → ShapeFits env join ∧ ∀ left ∈ lefts, ProbeFits env source join left) :
    ∃ rights, joinRightRows env rowMatches source join none lefts = .ok rights ∧
      RightRowsFit env source.liveRows join lefts rights := by
  unfold joinRightRows
  dsimp only
  split
  · rename_i leftField rightField hkind hsimple
    obtain ⟨hshape, hprobe⟩ := hfits (by simp [hkind])
    split_ifs with hprobes
    · exact h.probe_fits hsimple hkind hprobes.1 hshape hprobe
    · exact h.scan_fits
  · exact h.scan_fits

/-! ## All joins -/

section Joins

variable (catalog)

/-- A tuple has a live row of each relation, or misses it where that is possible. -/
def Formed (parts : List (SelectRelation × Bool)) (tuple : JoinedRowTuple) : Prop :=
  List.Forall₂ (fun part member => (part.2 = true ∧ member = JoinedRowTuple.missing part.1) ∨
    ∃ row ∈ tableRows catalog part.1.tableId, member = JoinedRowTuple.member part.1 row) parts tuple.members

/-- The relations after a join, with those that its tuples may miss. -/
def joinedParts (parts : List (SelectRelation × Bool)) (join : SelectJoin σ) : List (SelectRelation × Bool) :=
  parts.map (fun part => (part.1, part.2 || join.kind.keepsRight)) ++ [(join.relation, join.kind.keepsLeft)]

variable (env rowMatches)

/-- Each table is there and gives its live rows, the conditions have the shape, and the keys of whatever tuples may be
formed of live rows find what satisfies the conditions. -/
def JoinsFit : List (SelectRelation × Bool) → List (SelectJoin σ) → Prop
  | _, [] => True
  | parts, join :: joins =>
    (∃ source, catalog join.relation.tableId = some source ∧ source.ReadsLive rowMatches ∧
      (join.kind ≠ .cross → ShapeFits env join ∧ ∀ left, Formed catalog parts left →
        KeyFits env join source.liveRows left ∧ ProbeFits env source join left)) ∧
    JoinsFit (joinedParts parts join) joins

/-- The first table gives its live rows, and the joins fit. -/
def TuplesFit (primary : SelectRelation) (joins : List (SelectJoin σ)) : Prop :=
  (∃ source, catalog primary.tableId = some source ∧ source.ReadsLive rowMatches) ∧
    JoinsFit env catalog rowMatches [(primary, false)] joins

end Joins

section Build

variable {parts : List (SelectRelation × Bool)} {joins : List (SelectJoin σ)}

theorem Formed.keep (h : Formed catalog parts left) (mayMiss : Bool) :
    Formed catalog (parts.map fun part => (part.1, part.2 || mayMiss)) left := by
  refine List.forall₂_map_left_iff.mpr (h.imp fun part member h => ?_)
  exact h.imp_left fun h => ⟨by simp [h.1], h.2⟩

theorem formed_missing (parts : List (SelectRelation × Bool)) :
    Formed catalog (parts.map fun part => (part.1, part.2 || true))
      (.fromMissingRelations (parts.map Prod.fst)) := by
  induction parts with
  | nil => exact .nil
  | cons part parts ih => exact .cons (.inl ⟨Bool.or_true _, rfl⟩) ih

theorem formed_nestedLoop {on : JoinedRowTuple → LiveRow → Bool} (h : ∀ left ∈ lefts, Formed catalog parts left) :
    ∀ tuple ∈ (joinRows (parts.map Prod.fst) join).nestedLoop on lefts (tableRows catalog join.relation.tableId),
      Formed catalog (joinedParts parts join) tuple := by
  intro tuple htuple
  rw [JoinRows.nestedLoop_eq_joinBy, JoinRows.mem_joinBy] at htuple
  rcases htuple with ⟨left, hleft, rs, hrs, ⟨right, hright, rfl⟩ | ⟨-, hkeep, rfl⟩⟩ | ⟨hkeep, right, hright, -, rfl⟩
  · obtain rfl := Option.some.inj hrs
    refine List.rel_append ((h left hleft).keep _) (.cons (.inr ⟨right, ?_, rfl⟩) .nil)
    exact (List.mem_filter.mp hright).1
  · exact List.rel_append ((h left hleft).keep _) (.cons (.inl ⟨hkeep, rfl⟩) .nil)
  · have hmissing := @formed_missing σ catalog parts
    rw [← show join.kind.keepsRight = true from hkeep] at hmissing
    exact List.rel_append hmissing (.cons (.inr ⟨right, hright, rfl⟩) .nil)

theorem tableRows_eq {tableId : String} (h : catalog tableId = some source) :
    tableRows catalog tableId = source.liveRows := by
  simp [tableRows, h]

theorem joinLoop_perm (hformed : ∀ left ∈ lefts, Formed catalog parts left)
    (h : JoinsFit env catalog rowMatches parts joins) :
    ∃ out, joinLoop env catalog rowMatches [] (parts.map Prod.fst) joins lefts = .ok out ∧
      out.Perm (nestedLoopJoins env catalog (parts.map Prod.fst) joins lefts) := by
  induction joins generalizing parts lefts with
  | nil => exact ⟨_, rfl, .refl _⟩
  | cons join joins ih =>
    obtain ⟨⟨source, hsource, hreads, hfits⟩, hrest⟩ := h
    have hrows := tableRows_eq hsource
    obtain ⟨rights, hrights, hright⟩ := joinRightRows_fit hreads fun hkind =>
      (hfits hkind).imp_right fun h left hleft => (h left (hformed left hleft)).2
    obtain ⟨next, hnext, hperm⟩ := @joinStep_perm σ env join (parts.map Prod.fst) rights lefts _
      (.of_map _ source.nodup_liveRowIds) hright fun hkind =>
        (hfits hkind).imp_right fun h left hleft => (h left (hformed left hleft)).1
    rw [← hrows] at hperm
    have hparts : (joinedParts parts join).map Prod.fst = parts.map Prod.fst ++ [join.relation] := by
      simp [joinedParts, Function.comp_def]
    obtain ⟨out, hout, hperm'⟩ :=
      ih (fun tuple htuple => formed_nestedLoop hformed tuple (hperm.mem_iff.mp htuple)) hrest
    rw [hparts] at hout hperm'
    refine ⟨out, by simp [joinLoop, hsource, hrights, hnext, hout], hperm'.trans ?_⟩
    exact nestedLoopJoins_perm env catalog hperm

theorem buildJoinedRowTuples_perm {primary : SelectRelation} (h : TuplesFit env catalog rowMatches primary joins) :
    ∃ out, buildJoinedRowTuples env catalog rowMatches primary [] joins = .ok out ∧
      out.Perm (nestedLoopTuples env catalog primary joins) := by
  obtain ⟨⟨source, hsource, hreads⟩, hfits⟩ := h
  have hread : filterRows (fun row : LiveRow => rowMatches row.2 none) (source.materialize none none) =
      .ok (source.materialize none none) :=
    filterRows_all fun row hrow => hreads.accepts row (hreads.scan.mem_iff.mp hrow)
  have hperm := hreads.scan
  rw [← tableRows_eq hsource] at hperm
  have hformed : ∀ left ∈ (source.materialize none none).map (JoinedRowTuple.fromRelationRow primary),
      Formed catalog [(primary, false)] left := by
    intro left hleft
    obtain ⟨row, hrow, rfl⟩ := List.mem_map.mp hleft
    exact .cons (.inr ⟨row, hperm.mem_iff.mp hrow, rfl⟩) .nil
  obtain ⟨out, hout, hout'⟩ := joinLoop_perm hformed hfits
  refine ⟨out, ?_, hout'.trans (nestedLoopJoins_perm env catalog (hperm.map _))⟩
  simpa [buildJoinedRowTuples, hsource, hread] using hout

end Build

def scannedTable (liveRows : List LiveRow) (nodup_liveRowIds : (liveRows.map Prod.fst).Nodup) :
    RelationSource Unit where
  schema := ⟨[]⟩
  liveRows := liveRows
  nodup_liveRowIds := nodup_liveRowIds
  materialize := fun _ limit => limit.elim liveRows liveRows.rtake
  hasSingleColumnIndex := fun _ => false
  probe := fun _ _ => []

def keyRow (key : String) : RowMap := (∅ : RowMap).insert "k" (utf8Bytes key)

def keyTables : String → Option (RelationSource Unit)
  | "a" => some (scannedTable [(1, keyRow "1"), (2, ∅)] (by decide))
  | "b" => some (scannedTable [(1, keyRow "1"), (2, keyRow "2")] (by decide))
  | _ => none

def joinOnKey (kind : SelectJoinKind) : SelectJoin Unit :=
  ⟨kind, ⟨"b", none⟩, .predicate (.fieldComparison "a.k" .eq "b.k")⟩

def acceptsAll (_ : RowMap) (_ : Option (SelectCondition Unit)) : Except String Bool := .ok true

theorem scannedTable_readsLive {liveRows : List LiveRow} {hids : (liveRows.map Prod.fst).Nodup} :
    (scannedTable liveRows hids).ReadsLive acceptsAll :=
  ⟨.refl _, fun _ _ => rfl, fun _ h => (nomatch h)⟩

/-- `b.k = 2` beside the equality of the keys. -/
def joinOnKeyOrTwo : SelectJoin Unit :=
  ⟨.inner, ⟨"b", none⟩,
    .or [(joinOnKey .inner).onCondition, .predicate (.comparison "b.k" .eq (utf8Bytes "2"))]⟩

end DistDb.Query
