import DistDb.Query.Select

/-! # What a select statement returns

The rows that a plan collects, and that bounding them early changes nothing of the window of a plan that
neither sorts nor removes duplicates. -/

namespace DistDb.Query
open Lib Mutation

variable {σ ρ α : Type}

/-! ## Collected rows -/

def truncate (bound : Option Nat) (rows : List α) : List α := bound.elim rows fun b => rows.take (max b 1)

theorem map_truncate {β : Type} {bound : Option Nat} {f : α → β} {rows : List α} :
    (truncate bound rows).map f = truncate bound (rows.map f) := by
  cases bound <;> simp [truncate, List.map_take]

section Collect

variable {accepts : ρ → Except String Bool} {test : ρ → Bool} {project : ρ → Except String α} {cells : ρ → α}
  {bound : Option Nat} {rows : List ρ}

theorem collectRows_append (haccepts : ∀ row ∈ rows, accepts row = .ok (test row))
    (hproject : ∀ row ∈ rows, project row = .ok (cells row)) (collected : List α)
    (hbound : collected = [] ∨ bound.all (collected.length < ·) = true) :
    collectRows accepts project bound collected rows =
      .ok (collected ++ truncate (bound.map (· - collected.length)) ((rows.filter test).map cells)) := by
  induction rows generalizing collected with
  | nil => cases bound <;> simp [collectRows, truncate]
  | cons row rows ih =>
    obtain ⟨hrow, hrows⟩ := List.forall_mem_cons.mp haccepts
    obtain ⟨hcells, hprojects⟩ := List.forall_mem_cons.mp hproject
    rw [collectRows, hrow, List.filter_cons]
    cases htest : test row with
    | false => simpa using ih hrows hprojects collected hbound
    | true =>
      simp only [hcells, ↓reduceIte, List.map_cons]
      cases bound with
      | none =>
        simp only [Option.all_none, ↓reduceIte]
        rw [ih hrows hprojects _ (.inr rfl)]
        simp [truncate]
      | some b =>
        simp only [Option.all_some, List.length_append, List.length_singleton, decide_eq_true_eq]
        split
        · rename_i hmore
          rw [ih hrows hprojects _ (.inr (by simpa using hmore))]
          have htake : max (b - collected.length) 1 = max (b - (collected.length + 1)) 1 + 1 := by omega
          simp [truncate, htake]
        · rename_i hlast
          have htake : max (b - collected.length) 1 = 1 := by
            rcases hbound with rfl | hbound
            · simp at hlast ⊢
              omega
            · simp only [Option.all_some, decide_eq_true_eq] at hbound
              omega
          simp [truncate, htake]

theorem collectRows_eq (haccepts : ∀ row ∈ rows, accepts row = .ok (test row))
    (hproject : ∀ row ∈ rows, project row = .ok (cells row)) :
    collectRows accepts project bound [] rows = .ok (truncate bound ((rows.filter test).map cells)) := by
  rw [collectRows_append haccepts hproject [] (.inl rfl)]
  cases bound <;> simp

end Collect

/-! ## Post-processing -/

theorem applyRowWindow_eq {rows : List α} {limit offset : Option Nat} :
    applyRowWindow rows limit offset = window limit (offset.getD 0) rows := by
  have htake : ∀ n, (rows.drop (min n rows.length)) = rows.drop n := by
    intro n
    rcases Nat.le_total n rows.length with h | h
    · rw [Nat.min_eq_left h]
    · rw [Nat.min_eq_right h, List.drop_length, List.drop_eq_nil_of_le h]
  unfold applyRowWindow window
  dsimp only
  rw [htake]
  cases limit with
  | none =>
    rw [Option.elim_none, Option.getD_none, List.take_of_length_le (by simp; omega), List.take_of_length_le (by simp)]
  | some limit =>
    rw [Option.elim_some, Option.getD_some, List.take_eq_take_iff]
    simp only [List.length_drop]
    omega

section Arrange

variable (prims : ValuePrimitives) (columns : List OutputColumn) (plan : SelectReadPlan σ) (cells : ρ → List Bytes)

def arrange (rows : List ρ) : List ρ :=
  let rows := if plan.distinct then uniqueBy (fun row => visibleCells columns (cells row)) [] rows else rows
  if plan.orderBy.isEmpty then rows else rows.mergeSort fun left right =>
    compareRows prims (orderIndexes columns plan.orderBy) (cells left) (cells right) ≠ .gt

def selectedRows (rows : List ρ) : List ρ :=
  window plan.limit (plan.offset.getD 0) (arrange prims columns plan cells rows)

variable {prims columns plan cells} {rows : List ρ}

theorem map_selectedRows {τ : Type} (cells : ρ → List Bytes) (f : τ → ρ) {rows : List τ} :
    (selectedRows prims columns plan (fun row => cells (f row)) rows).map f =
      selectedRows prims columns plan cells (rows.map f) := by
  have hunique : (if plan.distinct then uniqueBy (fun row => visibleCells columns (cells row)) [] (rows.map f)
        else rows.map f) =
      (if plan.distinct then uniqueBy (fun row => visibleCells columns (cells (f row))) [] rows
        else rows).map f := by
    split
    · exact map_uniqueBy.symm
    · rfl
  rw [selectedRows, selectedRows, map_window, arrange, arrange, hunique]
  congr 1
  split
  · rfl
  · rw [List.map_mergeSort]
    intro _ _ _ _
    rfl

theorem except_map_map {ε α β γ : Type} (f : α → β) (g : β → γ) (result : Except ε α) :
    (result.map f).map g = result.map fun a => g (f a) := by
  cases result <;> rfl

theorem applyTopWithTiesPostFilter_map {α β : Type} (orderBy : List SelectOrderByItem) (rows : List α)
    (f : List α → List β) : applyTopWithTiesPostFilter columns orderBy (f rows) =
      (applyTopWithTiesPostFilter columns orderBy rows).map f := by
  unfold applyTopWithTiesPostFilter
  split <;> rfl

theorem applySelectPostProcessing_map :
    applySelectPostProcessing prims columns plan (rows.map cells) =
      (applyTopWithTiesPostFilter columns plan.orderBy (selectedRows prims columns plan cells rows)).map
        (·.map cells) := by
  have hrows : applySelectPostProcessing prims columns plan (rows.map cells) =
      applyTopWithTiesPostFilter columns plan.orderBy
        (selectedRows prims columns plan id (rows.map cells)) := by
    simp only [applySelectPostProcessing, applyRowWindow_eq, applyTopWithTiesPostFilter]
    cases plan.orderBy.find? fun item => (resolveOrderByProjectionIndex columns item.fieldName).isNone <;> rfl
  rw [hrows, ← map_selectedRows id cells]
  exact applyTopWithTiesPostFilter_map _ _ (List.map cells)

theorem selectedRows_truncate :
    selectedRows prims columns plan cells (truncate (plan.effectiveResultRowBound none) rows) =
      selectedRows prims columns plan cells rows := by
  unfold SelectReadPlan.effectiveResultRowBound
  split
  · rfl
  · rename_i hfull
    simp only [SelectReadPlan.requiresFullResultMaterialization, Bool.or_eq_true, Bool.not_eq_true', not_or,
      Bool.not_eq_true, Bool.not_eq_false] at hfull
    unfold selectedRows arrange
    rw [hfull.1, hfull.2, SelectReadPlan.explicitResultRowBound]
    cases hlimit : plan.limit with
    | none => rfl
    | some limit =>
      simp only [Bool.false_eq_true, ↓reduceIte, Option.map_some, SelectReadPlan.minBound, truncate,
        Option.elim_some, window, Option.getD_some]
      rw [List.drop_take, List.take_take]
      congr 1
      omega

end Arrange

/-! ## Results -/

section Finish

variable {env : ConditionEnv σ} {label : String} {value : ρ → Provider} {accepts : ρ → Except String Bool}
  {test : ρ → Bool} {plan : SelectReadPlan σ} {bound : Option Nat} {columns : List OutputColumn}
  {projectionItems : List SelectProjectionItem} {candidates : List ρ} {cells : ρ → List Bytes}

theorem finishSelect_eq (haccepts : ∀ row ∈ candidates, accepts row = .ok (test row))
    (hproject : ∀ row ∈ candidates, projectRow env label columns projectionItems (value row) = .ok (cells row)) :
    finishSelect env label value accepts plan bound columns projectionItems candidates =
      (applyTopWithTiesPostFilter columns plan.orderBy
        (selectedRows env.values columns plan cells (truncate bound (candidates.filter test)))).map fun rows =>
          ⟨columns.filter (!·.hidden), rows.map fun row => visibleCells columns (cells row)⟩ := by
  rw [finishSelect, collectRows_eq haccepts hproject, ← map_truncate]
  simp only [applySelectPostProcessing_map]
  cases applyTopWithTiesPostFilter columns plan.orderBy
      (selectedRows env.values columns plan cells (truncate bound (candidates.filter test))) with
  | error e => rfl
  | ok rows => simp [Except.map, Function.comp_def]

theorem mapResults_eq_ok {β γ : Type} {f : β → Except String γ} {g : β → γ} {bs : List β}
    (h : ∀ b ∈ bs, f b = .ok (g b)) : mapResults f bs = .ok (bs.map g) := by
  induction bs with
  | nil => rfl
  | cons b bs ih =>
    obtain ⟨hb, hbs⟩ := List.forall_mem_cons.mp h
    rw [mapResults, hb, ih hbs]
    rfl

def rowCells (env : ConditionEnv σ) (columns : List OutputColumn) (projectionItems : List SelectProjectionItem)
    (provider : Provider) : List Bytes :=
  (columns.zip projectionItems).map fun (column, item) =>
    (projectCell env "" provider column item).toOption.getD []

def SelectProjectionItem.isColumn : SelectProjectionItem → Bool
  | .column _ _ => true
  | _ => false

theorem projectRow_eq_rowCells (h : ∀ item ∈ projectionItems, item.isColumn = true) {provider : Provider} :
    projectRow env label columns projectionItems provider = .ok (rowCells env columns projectionItems provider) := by
  refine mapResults_eq_ok fun ⟨column, item⟩ hmem => ?_
  have hcolumn := h item (List.of_mem_zip hmem).2
  cases item with
  | column fieldName outputName => rfl
  | inbuiltFunction | wildcard => simp [SelectProjectionItem.isColumn] at hcolumn

theorem finishSelect_eq_of_columns (accepts : Provider → Bool) (value : ρ → Provider)
    (hitems : ∀ item ∈ projectionItems, item.isColumn = true) :
    finishSelect env label value (fun row => .ok (accepts (value row))) plan bound columns projectionItems candidates =
      (applyTopWithTiesPostFilter columns plan.orderBy
        (selectedRows env.values columns plan (rowCells env columns projectionItems)
          (truncate bound ((candidates.map value).filter accepts)))).map fun rows =>
            ⟨columns.filter (!·.hidden), rows.map fun provider =>
              visibleCells columns (rowCells env columns projectionItems provider)⟩ := by
  rw [finishSelect_eq (fun _ _ => rfl) fun _ _ => projectRow_eq_rowCells hitems, List.filter_map, ← map_truncate,
    ← map_selectedRows (rowCells env columns projectionItems) value,
    applyTopWithTiesPostFilter_map _ _ (List.map value), except_map_map]
  simp only [List.map_map, Function.comp_def]

end Finish

/-! ## Columns -/

section Columns

variable {env : ConditionEnv σ} {label : String} {field : String → Option (FieldKind × Bool)} {visible : Nat}
  {columns : List OutputColumn} {projectionItems : List SelectProjectionItem} {provider : Provider}

def fieldCell (env : ConditionEnv σ) (field : String → Option (FieldKind × Bool)) (provider : Provider)
    (fieldName : String) : Bytes :=
  match provider fieldName with
  | some value => renderStoredFieldValue env.values value
  | none => if (field fieldName).any Prod.snd then nullText else []

def SelectProjectionItem.fieldName : SelectProjectionItem → String
  | .column fieldName _ => fieldName
  | _ => ""

theorem mapResults_cons_eq_ok {β γ : Type} {f : β → Except String γ} {b : β} {bs : List β} {cs : List γ}
    (h : mapResults f (b :: bs) = .ok cs) :
    ∃ c cs', f b = .ok c ∧ mapResults f bs = .ok cs' ∧ cs = c :: cs' := by
  rw [mapResults] at h
  cases hb : f b with
  | error e => simp [hb] at h
  | ok c =>
    rw [hb] at h
    cases hbs : mapResults f bs with
    | error e => simp [hbs] at h
    | ok cs' =>
      simp only [hbs, Except.ok.injEq] at h
      exact ⟨c, cs', rfl, rfl, h.symm⟩

theorem rowCells_cons {column : OutputColumn} {item : SelectProjectionItem} :
    rowCells env (column :: columns) (item :: projectionItems) provider =
      (projectCell env "" provider column item).toOption.getD [] :: rowCells env columns projectionItems provider :=
  rfl

theorem visibleCells_cons {column : OutputColumn} {cell : Bytes} {cells : List Bytes} :
    visibleCells (column :: columns) (cell :: cells) =
      if column.hidden then visibleCells columns cells else cell :: visibleCells columns cells := by
  cases h : column.hidden <;> simp [visibleCells, h]

theorem visibleCells_eq_of_zipIdx {seq : Nat} (hcolumns : ∀ item ∈ projectionItems, item.isColumn = true)
    (h : mapResults (outputColumn label field visible) (projectionItems.zipIdx seq) = .ok columns) :
    visibleCells columns (rowCells env columns projectionItems provider) =
      (projectionItems.take (visible - seq)).map fun item => fieldCell env field provider item.fieldName := by
  induction projectionItems generalizing seq columns with
  | nil => simp [rowCells, visibleCells]
  | cons item items ih =>
    obtain ⟨hitem, hitems⟩ := List.forall_mem_cons.mp hcolumns
    obtain ⟨column, columns', hcolumn, hrest, rfl⟩ := mapResults_cons_eq_ok h
    have htail := ih hitems hrest
    cases item with
    | inbuiltFunction | wildcard => simp [SelectProjectionItem.isColumn] at hitem
    | column fieldName outputName =>
      rw [outputColumn] at hcolumn
      cases hfield : field fieldName with
      | none => simp [hfield] at hcolumn
      | some kind =>
        simp only [hfield, Except.ok.injEq] at hcolumn
        subst hcolumn
        have hcell : (projectCell env "" provider ⟨outputName, kind.1, kind.2, visible ≤ seq⟩
            (.column fieldName outputName)).toOption.getD [] = fieldCell env field provider fieldName := by
          cases hvalue : provider fieldName <;> simp [projectCell, fieldCell, Except.toOption, hfield, hvalue]
        rw [rowCells_cons, hcell, visibleCells_cons, htail]
        rcases Nat.lt_or_ge seq visible with hlt | hge
        · have hstep : visible - seq = (visible - (seq + 1)) + 1 := by omega
          simp [hlt, hstep, SelectProjectionItem.fieldName]
        · have hzero : visible - seq = 0 := by omega
          have hzero' : visible - (seq + 1) = 0 := by omega
          simp [hge, hzero, hzero']

theorem visibleCells_rowCells (hcolumns : ∀ item ∈ projectionItems, item.isColumn = true)
    (h : outputColumns label field visible projectionItems = .ok columns) :
    visibleCells columns (rowCells env columns projectionItems provider) =
      (projectionItems.take visible).map fun item => fieldCell env field provider item.fieldName :=
  visibleCells_eq_of_zipIdx hcolumns h

end Columns

/-! ## Statements -/

section Statements

variable (env : ConditionEnv σ) (catalog : String → Option (RelationSource σ)) (plan : SelectReadPlan σ)

def planField : String → Option (FieldKind × Bool) :=
  if plan.joins.isEmpty then fun fieldName =>
    (catalog plan.relation.tableId).bind fun source => relationField source.schema fieldName
  else joinField catalog plan

def planLabel : String := if plan.joins.isEmpty then "select" else "select join"

def planColumns : Except String (List OutputColumn) :=
  outputColumns (planLabel plan) (planField catalog plan) plan.projectionItems.length
    (ensureOrderByProjectionItems plan.projectionItems plan.orderBy)

def planCandidates : Except String (List Provider) :=
  if plan.joins.isEmpty then
    match catalog plan.relation.tableId with
    | none => .error ("select failed: table '" ++ plan.relation.tableId ++ "' not found")
    | some source => .ok ((source.materialize plan.whereCondition (plan.materializationRowLimit none)).map
        fun row => rowProvider row.2)
  else
    (buildJoinedRowTuples env catalog
      (fun row condition => .ok (rowMatchesSelectCondition env (rowProvider row) condition)) plan.relation
      plan.pushdownConditions plan.joins).map (·.map JoinedRowTuple.value)

def planAccepts (provider : Provider) : Bool := rowMatchesSelectCondition env provider plan.whereCondition

def planCells (columns : List OutputColumn) : Provider → List Bytes :=
  rowCells env columns (ensureOrderByProjectionItems plan.projectionItems plan.orderBy)

variable {env catalog plan} {columns : List OutputColumn} {candidates : List Provider}

theorem exists_ensureOrderByProjectionItems (items : List SelectProjectionItem) (orderBy : List SelectOrderByItem) :
    ∃ hidden, ensureOrderByProjectionItems items orderBy = items ++ hidden ∧ ∀ item ∈ hidden, item.isColumn = true := by
  induction orderBy generalizing items with
  | nil => exact ⟨[], by simp [ensureOrderByProjectionItems]⟩
  | cons item orderBy ih =>
    rw [ensureOrderByProjectionItems]
    split
    · exact ih items
    · obtain ⟨hidden, heq, hcolumn⟩ := ih (items ++ [.column item.fieldName item.fieldName])
      refine ⟨.column item.fieldName item.fieldName :: hidden, by simpa using heq, ?_⟩
      exact List.forall_mem_cons.mpr ⟨rfl, hcolumn⟩

theorem isColumn_ensureOrderBy (h : ∀ item ∈ plan.projectionItems, item.isColumn = true) :
    ∀ item ∈ ensureOrderByProjectionItems plan.projectionItems plan.orderBy, item.isColumn = true := by
  obtain ⟨hidden, heq, hcolumn⟩ := exists_ensureOrderByProjectionItems plan.projectionItems plan.orderBy
  rw [heq]
  intro item hitem
  exact (List.mem_append.mp hitem).elim (h item) (hcolumn item)

theorem visibleCells_planCells (h : ∀ item ∈ plan.projectionItems, item.isColumn = true)
    (hcolumns : planColumns catalog plan = .ok columns) (provider : Provider) :
    visibleCells columns (planCells env plan columns provider) =
      plan.projectionItems.map fun item => fieldCell env (planField catalog plan) provider item.fieldName := by
  rw [planCells, visibleCells_rowCells (isColumn_ensureOrderBy h) hcolumns]
  obtain ⟨hidden, heq, -⟩ := exists_ensureOrderByProjectionItems plan.projectionItems plan.orderBy
  rw [heq, List.take_left]

theorem expandRelationProjectionItems_eq {schema : TableSchema} {items : List SelectProjectionItem}
    (h : ∀ item ∈ items, item.isColumn = true) : expandRelationProjectionItems schema items = items := by
  induction items with
  | nil => rfl
  | cons item items ih =>
    obtain ⟨hitem, hitems⟩ := List.forall_mem_cons.mp h
    rw [expandRelationProjectionItems, List.flatMap_cons]
    cases item with
    | column => exact congrArg _ (ih hitems)
    | inbuiltFunction | wildcard => simp [SelectProjectionItem.isColumn] at hitem

theorem expandJoinProjectionItems_eq {relations : List SelectRelation} {items : List SelectProjectionItem}
    (h : ∀ item ∈ items, item.isColumn = true) : expandJoinProjectionItems catalog relations items = .ok items := by
  rw [expandJoinProjectionItems, mapResults_eq_ok (g := fun item => [item])]
  · simp [Except.map, List.flatten_eq_flatMap, List.flatMap_map]
  · intro item hitem
    have := h item hitem
    cases item with
    | column => rfl
    | inbuiltFunction | wildcard => simp [SelectProjectionItem.isColumn] at this

theorem executeSelectPlanResult_eq (hitems : ∀ item ∈ plan.projectionItems, item.isColumn = true)
    (hcolumns : planColumns catalog plan = .ok columns)
    (hcandidates : planCandidates env catalog plan = .ok candidates) :
    executeSelectPlanResult env catalog plan = (applyTopWithTiesPostFilter columns plan.orderBy
      (selectedRows env.values columns plan (planCells env plan columns)
        (truncate (plan.effectiveResultRowBound none) (candidates.filter (planAccepts env plan))))).map fun rows =>
          ⟨columns.filter (!·.hidden),
            rows.map fun provider => visibleCells columns (planCells env plan columns provider)⟩ := by
  have hproject := isColumn_ensureOrderBy hitems
  unfold executeSelectPlanResult
  unfold planColumns planLabel planField at hcolumns
  unfold planCandidates at hcandidates
  cases hjoins : plan.joins.isEmpty with
  | true =>
    simp only [hjoins, ↓reduceIte] at hcolumns hcandidates ⊢
    cases hsource : catalog plan.relation.tableId with
    | none => simp [hsource] at hcandidates
    | some source =>
      simp only [hsource, Except.ok.injEq, Option.bind_some] at hcandidates hcolumns
      subst hcandidates
      simp only [executeRelationSelectPlan, expandRelationProjectionItems_eq hitems, hcolumns]
      exact finishSelect_eq_of_columns (planAccepts env plan) (fun row : LiveRow => rowProvider row.2) hproject
  | false =>
    simp only [hjoins, Bool.false_eq_true, ↓reduceIte] at hcolumns hcandidates ⊢
    cases htuples : buildJoinedRowTuples env catalog (fun row condition =>
        .ok (rowMatchesSelectCondition env (rowProvider row) condition)) plan.relation plan.pushdownConditions
        plan.joins with
    | error e => simp [htuples, Except.map] at hcandidates
    | ok tuples =>
      simp only [htuples, Except.map, Except.ok.injEq] at hcandidates
      subst hcandidates
      simp only [executeJoinedSelectPlan, expandJoinProjectionItems_eq hitems, hcolumns, htuples]
      exact finishSelect_eq_of_columns (planAccepts env plan) JoinedRowTuple.value hproject

/-- A plan reads what it returns of given rows: as far as it collects rows, it finds those of them that its
condition accepts. -/
def Reads (env : ConditionEnv σ) (catalog : String → Option (RelationSource σ)) (plan : SelectReadPlan σ)
    (rows : List Provider) : Prop :=
  ∃ candidates, planCandidates env catalog plan = .ok candidates ∧
    truncate (plan.effectiveResultRowBound none) (candidates.filter (planAccepts env plan)) =
      truncate (plan.effectiveResultRowBound none) (rows.filter (planAccepts env plan))

theorem executeSelectPlanResult_of_reads (hitems : ∀ item ∈ plan.projectionItems, item.isColumn = true)
    (hcolumns : planColumns catalog plan = .ok columns) {rows : List Provider} (h : Reads env catalog plan rows) :
    executeSelectPlanResult env catalog plan = (applyTopWithTiesPostFilter columns plan.orderBy
      (selectedRows env.values columns plan (planCells env plan columns)
        (rows.filter (planAccepts env plan)))).map fun rows =>
          ⟨columns.filter (!·.hidden),
            rows.map fun provider => visibleCells columns (planCells env plan columns provider)⟩ := by
  obtain ⟨candidates, hcandidates, hread⟩ := h
  rw [executeSelectPlanResult_eq hitems hcolumns hcandidates, hread, selectedRows_truncate]

end Statements

end DistDb.Query
