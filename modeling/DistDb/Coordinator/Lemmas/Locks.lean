import DistDb.Coordinator.Loop

/-! # The two lock maps agree

Every command keeps the owner of each table and the lock sets of the owners inverse to each other. -/

namespace DistDb.Coordinator
open Lib Sql

/-! ## Table names -/

theorem mem_normalizeUniqueTableIds {tableIds : List String} {t : String} :
    t ∈ normalizeUniqueTableIds tableIds ↔ t ≠ "" ∧ ∃ tableId ∈ tableIds, normalizeIdentifier tableId = t := by
  have hfold : ∀ ids acc : List String, t ∈ ids.foldl (fun normalized tableId =>
        if tableId = "" ∨ tableId ∈ normalized then normalized else normalized ++ [tableId]) acc ↔
      t ∈ acc ∨ t ≠ "" ∧ t ∈ ids := by
    intro ids
    induction ids with
    | nil => simp
    | cons id ids ih =>
      intro acc
      rw [List.foldl_cons, ih]
      split
      · rename_i hskip
        rcases hskip with rfl | hmem
        · grind
        · grind
      · grind
  rw [normalizeUniqueTableIds, hfold]
  simp

theorem mem_dmlTableIdsForQuery {parse : Parser} {query : DataQuery} {requests : List SqlRequest}
    (hparse : parse query = some requests) {request : SqlRequest} (hmem : request ∈ requests)
    (hdml : request.operation.isDml = true) {name : String} (hname : request.objectName = some name)
    (hne : normalizeIdentifier name ≠ "") :
    normalizeIdentifier name ∈ dmlTableIdsForQuery parse query := by
  rw [dmlTableIdsForQuery, hparse]
  refine mem_normalizeUniqueTableIds.mpr ⟨hne, name, ?_, rfl⟩
  exact List.mem_filterMap.mpr ⟨request, List.mem_filter.mpr ⟨hmem, hdml⟩, hname⟩

/-! ## Locks -/

namespace TableLocks

/-- The lock maps are inverse to each other, and no lock is on the empty name. -/
structure Consistent (locks : TableLocks) : Prop where
  inverse : Inverse locks.tableLocksByTable locks.lockedTablesBySession
  named : locks.tableLocksByTable.lookup "" = none

variable {locks : TableLocks} {ownerId tableId : String}

theorem lockedByOther_eq_false : locks.lockedByOther ownerId tableId = false ↔
      ∀ owner, locks.tableLocksByTable.lookup tableId = some owner → owner = ownerId := by
  cases h : locks.tableLocksByTable.lookup tableId <;> simp [lockedByOther, h]

theorem consistent_new : new.Consistent := ⟨.empty, by simp [new]⟩

namespace Consistent

theorem entry (h : locks.Consistent) : (locks.entry ownerId).Consistent :=
  ⟨h.inverse.entry ownerId, h.named⟩

theorem lockTable (h : locks.Consistent) (hfree : locks.lockedByOther ownerId tableId = false)
    (hne : tableId ≠ "") : (locks.lockTable ownerId tableId).Consistent where
  inverse := h.inverse.give (lockedByOther_eq_false.mp hfree)
  named := by
    rw [TableLocks.lockTable, Finmap.lookup_insert_of_ne _ (Ne.symm hne)]
    exact h.named

theorem unlockTable (h : locks.Consistent) : (locks.unlockTable ownerId tableId).Consistent where
  inverse := h.inverse.take ownerId tableId
  named := by
    rw [TableLocks.unlockTable, lookup_disown]
    split
    · rfl
    · exact h.named

theorem dropEmptyLockSet (h : locks.Consistent) : (locks.dropEmptyLockSet ownerId).Consistent := by
  unfold TableLocks.dropEmptyLockSet
  split
  · rename_i hnil
    exact ⟨h.inverse.eraseNil hnil, h.named⟩
  · exact h

theorem releaseSessionLocks (h : locks.Consistent) : (locks.releaseSessionLocks ownerId).Consistent := by
  unfold TableLocks.releaseSessionLocks
  split
  · exact h
  · rename_i lockedTables hlookup
    refine ⟨?_, ?_⟩
    · have hheld : holdings locks.lockedTablesBySession ownerId = lockedTables := by
        simp [holdings, hlookup]
      exact hheld ▸ h.inverse.clear ownerId
    · rw [Option.eq_none_iff_forall_ne_some]
      intro owner howner
      have hnamed := ((lookup_foldl_disown ownerId lockedTables "" owner).mp howner).1
      simp [h.named] at hnamed

theorem foldl_lockTable {tableIds : List String} (hne : ∀ t ∈ tableIds, t ≠ "") :
    ∀ {locks : TableLocks}, locks.Consistent → tableIds.any (locks.lockedByOther ownerId) = false →
      (tableIds.foldl (TableLocks.lockTable ownerId) locks).Consistent := by
  induction tableIds with
  | nil => exact fun h _ => h
  | cons tableId tableIds ih =>
    intro locks h hfree
    rw [List.any_cons, Bool.or_eq_false_iff] at hfree
    refine ih (fun t ht => hne t (List.mem_cons_of_mem _ ht))
      (h.lockTable hfree.1 (hne tableId (List.mem_cons_self ..))) ?_
    -- the table just locked belongs to the same owner
    rw [List.any_eq_false] at hfree ⊢
    intro t ht
    simp only [Bool.not_eq_true, lockedByOther_eq_false] at hfree ⊢
    intro owner howner
    by_cases heq : t = tableId
    · subst heq
      rw [TableLocks.lockTable, Finmap.lookup_insert] at howner
      exact (Option.some.inj howner).symm
    · rw [TableLocks.lockTable, Finmap.lookup_insert_of_ne _ heq] at howner
      exact hfree.2 t ht owner howner

theorem lockTableUnlessOther (h : locks.Consistent) (hne : tableId ≠ "") :
    (locks.lockTableUnlessOther ownerId tableId).Consistent := by
  unfold TableLocks.lockTableUnlessOther
  split
  · exact h
  · rename_i hfree
    exact h.lockTable (by simpa using hfree) hne

theorem foldl {f : TableLocks → String → TableLocks} {tableIds : List String}
    (hf : ∀ locks : TableLocks, ∀ t ∈ tableIds, locks.Consistent → (f locks t).Consistent)
    (h : locks.Consistent) : (tableIds.foldl f locks).Consistent :=
  List.foldlRecOn tableIds f h fun locks h t ht => hf locks t ht h

end Consistent

end TableLocks

/-! ## Commands -/

namespace CoordinatorState

variable {parse : Parser} {state : CoordinatorState}

theorem beginWithTableLocks_consistent (h : state.locks.Consistent) (sessionId : String)
    (tableIds : List String) : (state.beginWithTableLocks sessionId tableIds).1.locks.Consistent := by
  simp only [beginWithTableLocks]
  split_ifs with hactive hnil hblocked
  · exact h
  · exact h
  · exact h
  · exact TableLocks.Consistent.foldl_lockTable (fun t ht => (mem_normalizeUniqueTableIds.mp ht).1)
      h.entry (by simpa [TableLocks.lockedByOther, TableLocks.entry] using hblocked)

/-- What routing a query can do: reject it and change nothing, or find every table it writes free of
other owners and stage it in the session's transaction or have it executed. -/
theorem routeQuery_cases (parse : Parser) (state : CoordinatorState) (sessionId : String)
    (query : DataQuery) (canStage : Bool) :
    (∃ message, state.routeQuery parse sessionId query canStage = (state, .rejected message)) ∨
    (dmlTableIdsForQuery parse query).any (state.locks.lockedByOther sessionId) = false ∧
      ((∃ staged, state.stagedBySession.lookup sessionId = some staged ∧ canStage = true ∧
          state.routeQuery parse sessionId query canStage = (state.setStaged sessionId (staged ++ [query]), .staged)) ∨
        state.stagedBySession.lookup sessionId = none ∧
          state.routeQuery parse sessionId query canStage = (state, .executeImmediately)) := by
  unfold routeQuery
  split
  · exact .inl ⟨_, rfl⟩
  · rename_i hfree
    cases hstaged : state.stagedBySession.lookup sessionId with
    | none => exact .inr ⟨by simpa using hfree, .inr ⟨rfl, rfl⟩⟩
    | some staged =>
      cases canStage with
      | false => exact .inl ⟨_, rfl⟩
      | true => exact .inr ⟨by simpa using hfree, .inl ⟨staged, rfl, rfl, rfl⟩⟩

theorem routeQuery_locks (state : CoordinatorState) (sessionId : String) (query : DataQuery)
    (canStage : Bool) : (state.routeQuery parse sessionId query canStage).1.locks = state.locks := by
  obtain ⟨message, h⟩ | ⟨-, ⟨staged, -, -, h⟩ | ⟨-, h⟩⟩ :=
    routeQuery_cases parse state sessionId query canStage
  · rw [h]
  · rw [h]
    rfl
  · rw [h]

theorem releaseRemoteLocks_consistent (h : state.locks.Consistent) (ownerId : String)
    (tableIds : List String) : (state.releaseRemoteLocks ownerId tableIds).locks.Consistent := by
  simp only [releaseRemoteLocks]
  split_ifs
  · exact h.releaseSessionLocks
  · exact (h.foldl fun _ _ _ h => h.unlockTable).dropEmptyLockSet
  · exact h

theorem applyRemoteLocks_consistent (h : state.locks.Consistent) (ownerId : String)
    (tableIds : List String) : (state.applyRemoteLocks ownerId tableIds).locks.Consistent :=
  h.entry.foldl fun _ _ ht h => h.lockTableUnlessOther (mem_normalizeUniqueTableIds.mp ht).1

theorem step_consistent (command : CoordinatorCommand) (h : state.locks.Consistent) :
    (state.step parse command).locks.Consistent := by
  cases command with
  | begin sessionId =>
    simp only [step, handle, begin, Prod.map]
    split_ifs <;> exact h
  | beginWithTableLocks sessionId tableIds => exact beginWithTableLocks_consistent h sessionId tableIds
  | isActive sessionId => exact h
  | routeQuery sessionId query canStage =>
    exact (routeQuery_locks state sessionId query canStage).symm ▸ h
  | stage sessionId query =>
    simp only [step, handle]
    split <;> exact h
  | getStaged sessionId =>
    simp only [step, handle]
    split <;> exact h
  | takeForCommit sessionId =>
    simp only [step, handle, takeForCommit, Prod.map]
    split <;> exact h
  | restoreAfterFailedCommit sessionId staged =>
    simp only [step, handle]
    split_ifs <;> exact h
  | finalizeCommit sessionId => exact h.releaseSessionLocks
  | applyRemoteLocks ownerId tableIds => exact applyRemoteLocks_consistent h ownerId tableIds
  | releaseRemoteLocks ownerId tableIds => exact releaseRemoteLocks_consistent h ownerId tableIds
  | rollback sessionId => exact h.releaseSessionLocks

theorem run_consistent (parse : Parser) (commands : List CoordinatorCommand) :
    (runFrom (step parse) new commands).locks.Consistent :=
  runFrom_invariant (I := fun state : CoordinatorState => state.locks.Consistent)
    (fun _ command => step_consistent command) TableLocks.consistent_new commands

/-! ## Routing and refusals -/

theorem routeQuery_unlocked (h : state.locks.Consistent) {sessionId : String} {query : DataQuery} {canStage : Bool}
    (hrouted : ∀ message, (state.routeQuery parse sessionId query canStage).2 ≠ .rejected message)
    {requests : List SqlRequest} (hparse : parse query = some requests) {request : SqlRequest}
    (hmem : request ∈ requests) (hdml : request.operation.isDml = true) {name : String}
    (hname : request.objectName = some name) {owner : String}
    (howner : state.locks.tableLocksByTable.lookup (normalizeIdentifier name) = some owner) :
    owner = sessionId := by
  obtain ⟨message, hreject⟩ | ⟨hfree, -⟩ := routeQuery_cases parse state sessionId query canStage
  · exact absurd (congrArg Prod.snd hreject) (hrouted message)
  · have hne : normalizeIdentifier name ≠ "" := by
      intro hempty
      rw [hempty, h.named] at howner
      cases howner
    have hother := List.any_eq_false.mp hfree _ (mem_dmlTableIdsForQuery hparse hmem hdml hname hne)
    exact TableLocks.lockedByOther_eq_false.mp (by simpa using hother) owner howner

theorem beginWithTableLocks_error {sessionId : String} {tableIds : List String} {message : String}
    (herror : (state.beginWithTableLocks sessionId tableIds).2 = .error message) :
    (state.beginWithTableLocks sessionId tableIds).1 = state := by
  simp only [beginWithTableLocks] at herror ⊢
  split_ifs at herror ⊢ <;> rfl

end CoordinatorState

end DistDb.Coordinator
