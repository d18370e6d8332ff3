import DistDb.Affinity.Document
import DistDb.Lib.Run

/-! # The sync task of an affinity

A task goes through the plan of the affinity document, one step a tick, and asks the peers for the schema and the
records of each database. Once it is ready, it merges the documents that peers answer into its own. -/

namespace DistDb.Affinity
open Lib

/-! ## The processor -/

inductive AffinitySyncPhase where
  | controlPlane
  | schemaCatalog
  | dataSnapshot
  | walCatchup
  deriving DecidableEq, Repr

structure AffinitySyncStep where
  phase : AffinitySyncPhase
  databaseId : Option String
  schemaIdentifier : Option UInt64
  deriving DecidableEq, Repr

inductive AffinityProcessorState where
  | unconfigured
  | joinRequested
  | syncing (phase : AffinitySyncPhase)
  | ready
  | degraded (reason : String)
  deriving DecidableEq, Repr

structure AffinityProcessor where
  state : AffinityProcessorState
  document : Option AffinityDocument
  deriving DecidableEq, Repr

def AffinityProcessor.applyAffinityDocument (document : AffinityDocument) : AffinityProcessor :=
  ⟨.syncing .controlPlane, some document⟩

def databaseSteps (database : DatabaseSchemaSummary) : List AffinitySyncStep :=
  [.schemaCatalog, .dataSnapshot, .walCatchup].map (⟨·, some database.databaseId, some database.schemaIdentifier⟩)

def AffinityDocument.syncPlan (document : AffinityDocument) : List AffinitySyncStep :=
  ⟨.controlPlane, none, none⟩ ::
    (document.databases.mergeSort fun a b => b.schemaIdentifier ≤ a.schemaIdentifier).flatMap databaseSteps

def AffinityProcessor.buildSyncPlan (processor : AffinityProcessor) : Except String (List AffinitySyncStep) :=
  match processor.document with
  | none => .error "missing affinity document for replication planning"
  | some document => .ok document.syncPlan

/-! ## The phases -/

def invalidState {α : Type} (message : String) : Except String α := .error s!"invalid state: {message}"

/-- The database and schema of a step, which every phase but the first requires. -/
def AffinitySyncStep.target (step : AffinitySyncStep) (phase : String) : Except String (String × UInt64) :=
  match step.databaseId, step.schemaIdentifier with
  | none, _ => invalidState s!"{phase} phase requires database_id"
  | some _, none => invalidState s!"{phase} phase requires schema_identifier"
  | some databaseId, some schemaIdentifier => .ok (databaseId, schemaIdentifier)

def AffinityDocument.databaseSchemaIdentifier (document : AffinityDocument) (databaseId : String) : Option UInt64 :=
  (entryOf (·.databaseId) databaseId document.databases).map (·.schemaIdentifier)

def executeControlPlanePhase (processor : AffinityProcessor) : Except String Unit :=
  if processor.document.isNone then invalidState "control plane phase requires valid affinity document" else .ok ()

def executeSchemaCatalogPhase (processor : AffinityProcessor) (step : AffinitySyncStep) : Except String Unit := do
  let (databaseId, schemaIdentifier) ← step.target "schema catalog"
  match processor.document with
  | none => invalidState "schema catalog phase requires valid affinity document"
  | some document =>
    match document.databaseSchemaIdentifier databaseId with
    | none => invalidState s!"schema catalog phase requires database '{databaseId}' in affinity document"
    | some found =>
      if found ≠ schemaIdentifier then
        invalidState
          s!"schema catalog phase schema mismatch for database '{databaseId}': plan={schemaIdentifier} document={found}"
      else .ok ()

def executePhase (processor : AffinityProcessor) (step : AffinitySyncStep) : Except String Unit :=
  match step.phase with
  | .controlPlane => executeControlPlanePhase processor
  | .schemaCatalog => executeSchemaCatalogPhase processor step
  | .dataSnapshot => step.target "data snapshot" >>= fun _ => .ok ()
  | .walCatchup => step.target "wal catchup" >>= fun _ => .ok ()

/-- The index of the next step, and whether the plan has been completed. -/
def executeNextPhase (index : ℕ) (processor : AffinityProcessor) (plan : List AffinitySyncStep) :
    Except String (ℕ × Bool) :=
  match plan[index]? with
  | none => .ok (index, true)
  | some step => executePhase processor step >>= fun _ => .ok (index + 1, plan.length ≤ index + 1)

/-! ## The task -/

/-- The calls of `execute_live_schema_catalog_sync` and `execute_live_wal_catchup_sync`, for all peers or the one at an
address. A call returns without asking any peer if the affinity id is empty. -/
inductive LiveRequest where
  | schemaCatalog (databaseId : String) (expectedSchemaIdentifier : UInt64)
  | walCatchup (databaseId : String) (targetAddr : Option String)
  deriving DecidableEq, Repr

def liveRequest (step : AffinitySyncStep) : Option LiveRequest :=
  match step.phase with
  | .schemaCatalog => step.databaseId.map (.schemaCatalog · (step.schemaIdentifier.getD 0))
  | .walCatchup => step.databaseId.map (.walCatchup · none)
  | _ => none

/-- The processor, the index of the executor and the requests made so far. -/
structure SyncTask where
  processor : AffinityProcessor
  index : ℕ
  requests : List LiveRequest
  deriving DecidableEq, Repr

/-- The answers to join requests, if two seconds have passed since the last ones, the databases whose last catch-up is
five seconds old, and the addresses of the peers. -/
structure Tick where
  responses : Option (List AffinityJoinResponse)
  due : String → Bool
  targets : List String

namespace SyncTask

variable (task : SyncTask)

def start (document : AffinityDocument) : SyncTask := ⟨.applyAffinityDocument document, 0, []⟩

def sync : SyncTask :=
  match task.processor.state with
  | .syncing _ =>
    match task.processor.buildSyncPlan with
    | .error _ => task
    | .ok plan =>
      let requests := task.requests ++ (plan[task.index]?.bind liveRequest).toList
      match executeNextPhase task.index task.processor plan with
      | .ok (index, completed) =>
        ⟨if completed then { task.processor with state := .ready } else task.processor, index, requests⟩
      | .error err => ⟨{ task.processor with state := .degraded s!"replication failed: {err}" }, task.index, requests⟩
  | _ => task

/-- Only a document with more databases than before is synced again. -/
def refresh (responses : Option (List AffinityJoinResponse)) : SyncTask :=
  match responses, task.processor.document with
  | some responses, some base =>
    let merged := mergeAffinityDocumentsFromResponses base responses
    if responses = [] ∨ merged = base then task
    else if base.databases.length < merged.databases.length then
      { task with processor := .applyAffinityDocument merged, index := 0 }
    else { task with processor := { AffinityProcessor.applyAffinityDocument merged with state := .ready } }
  | _, _ => task

def maintain (due : String → Bool) (targets : List String) : SyncTask :=
  match task.processor.document with
  | none => task
  | some document =>
    { task with requests := task.requests ++
        ((document.databases.map (·.databaseId)).filter due).flatMap fun databaseId =>
        targets.map fun target => .walCatchup databaseId (some target) }

def tick (now : Tick) : SyncTask :=
  match task.sync.processor.state with
  | .ready => (task.sync.refresh now.responses).maintain now.due now.targets
  | _ => task.sync

end SyncTask

/-! ## The plan -/

def databaseIds (document : AffinityDocument) : List String := document.databases.map (·.databaseId)

theorem length_syncPlan (document : AffinityDocument) :
    document.syncPlan.length = 3 * document.databases.length + 1 := by
  simp [AffinityDocument.syncPlan, databaseSteps, List.length_flatMap, List.map_const', mul_comm]

theorem syncPlan_pos (document : AffinityDocument) : 0 < document.syncPlan.length := Nat.succ_pos _

variable {document : AffinityDocument} {index : ℕ} {requests : List LiveRequest} {task : SyncTask} {now : Tick}

/-- No check fails on a plan made from a document that lists each database once. -/
theorem executePhase_ok (hnodup : (databaseIds document).Nodup) {step : AffinitySyncStep}
    (hstep : step ∈ document.syncPlan) (state : AffinityProcessorState) :
    executePhase ⟨state, some document⟩ step = .ok () := by
  rcases List.mem_cons.mp hstep with rfl | hstep
  · rfl
  · obtain ⟨database, hmem, hstep⟩ := List.mem_flatMap.mp hstep
    have hfound := (mem_iff_entryOf hnodup).mp (List.mem_mergeSort.mp hmem)
    simp only [databaseSteps, List.map_cons, List.map_nil, List.mem_cons, List.not_mem_nil, or_false] at hstep
    rcases hstep with rfl | rfl | rfl
    · simp [executePhase, executeSchemaCatalogPhase, AffinitySyncStep.target, AffinityDocument.databaseSchemaIdentifier,
        bind, Except.bind, hfound]
    · rfl
    · rfl

/-- The task has asked for the schema of a database, and then for its records. -/
def Synced (requests : List LiveRequest) (databaseId : String) : Prop :=
  ∃ schemaIdentifier, [.schemaCatalog databaseId schemaIdentifier, .walCatchup databaseId none].Sublist requests

theorem synced_of_sublist (h : (document.syncPlan.filterMap liveRequest).Sublist requests) :
    ∀ databaseId ∈ databaseIds document, Synced requests databaseId := by
  intro databaseId hdatabase
  obtain ⟨database, hmem, rfl⟩ := List.mem_map.mp hdatabase
  have hsteps : (databaseSteps database).Sublist document.syncPlan :=
    (List.sublist_flatten_of_mem (List.mem_map_of_mem (List.mem_mergeSort.mpr hmem))).cons _
  exact ⟨database.schemaIdentifier, (hsteps.filterMap liveRequest).trans h⟩

/-! ## The invariant -/

/-- A sync has made the requests of the steps behind its index; when ready, every database has been synced. -/
inductive Working : SyncTask → Prop
  | syncing {document : AffinityDocument} {index : ℕ} {requests : List LiveRequest}
      (hnodup : (databaseIds document).Nodup) (hindex : index < document.syncPlan.length)
      (hdone : ((document.syncPlan.take index).filterMap liveRequest).Sublist requests) :
      Working ⟨⟨.syncing .controlPlane, some document⟩, index, requests⟩
  | ready {document : AffinityDocument} {index : ℕ} {requests : List LiveRequest}
      (hnodup : (databaseIds document).Nodup)
      (hsynced : ∀ databaseId ∈ databaseIds document, Synced requests databaseId) :
      Working ⟨⟨.ready, some document⟩, index, requests⟩

theorem sync_of_lt (hnodup : (databaseIds document).Nodup) (hindex : index < document.syncPlan.length) :
    SyncTask.sync ⟨⟨.syncing .controlPlane, some document⟩, index, requests⟩ =
      ⟨⟨if document.syncPlan.length ≤ index + 1 then .ready else .syncing .controlPlane, some document⟩, index + 1,
        requests ++ (liveRequest document.syncPlan[index]).toList⟩ := by
  simp only [SyncTask.sync, AffinityProcessor.buildSyncPlan, executeNextPhase, List.getElem?_eq_getElem hindex,
    executePhase_ok hnodup (List.getElem_mem hindex), bind, Except.bind, Option.bind_some]
  by_cases hlast : document.syncPlan.length ≤ index + 1 <;> simp [hlast]

theorem Working.sync (h : Working task) : Working task.sync := by
  cases h with
  | @syncing document index requests hnodup hindex hdone =>
    have hdone : ((document.syncPlan.take (index + 1)).filterMap liveRequest).Sublist
        (requests ++ (liveRequest document.syncPlan[index]).toList) := by
      rw [List.take_succ_eq_append_getElem hindex, List.filterMap_append]
      refine hdone.append ?_
      cases hrequest : liveRequest document.syncPlan[index] <;> simp [hrequest]
    rw [sync_of_lt hnodup hindex]
    split
    · rename_i hlast
      rw [List.take_of_length_le hlast] at hdone
      exact .ready hnodup (synced_of_sublist hdone)
    · rename_i hmore
      exact .syncing hnodup (Nat.lt_of_not_le hmore) hdone
  | ready hnodup hsynced => exact .ready hnodup hsynced

/-- A task that is ready stays so with the databases it has, or begins to sync because a peer lists another one. -/
theorem refresh_cases (responses : Option (List AffinityJoinResponse)) :
    (∃ current, SyncTask.refresh ⟨⟨.ready, some document⟩, index, requests⟩ responses =
      ⟨⟨.ready, some current⟩, index, requests⟩ ∧ databaseIds current = databaseIds document) ∨
    ∃ merged, SyncTask.refresh ⟨⟨.ready, some document⟩, index, requests⟩ responses =
      ⟨.applyAffinityDocument merged, 0, requests⟩ ∧ ((databaseIds document).Nodup → (databaseIds merged).Nodup) ∧
        ∃ given ∈ responses, ∃ remote ∈ receivedDocuments given, ¬ databaseIds remote ⊆ databaseIds document := by
  cases responses with
  | none => exact .inl ⟨document, rfl, rfl⟩
  | some responses =>
    obtain ⟨new, hids, hnew⟩ := exists_map_upsertAll (·.databaseId) (·.schemaIdentifier.toNat) document.databases
      ((receivedDocuments responses).map (·.databases)).flatten
    rw [← mergeAll_eq_upsertAll, ← databases_mergeAffinityDocuments] at hids
    have hlength := congrArg List.length hids
    simp only [List.length_append, List.length_map] at hlength
    simp only [SyncTask.refresh]
    split
    · exact .inl ⟨document, rfl, rfl⟩
    · split
      · refine .inr ⟨_, rfl, fun hnodup => ?_, responses, rfl, ?_⟩
        · rw [databaseIds, databases_mergeAffinityDocuments]
          exact (nodup_map_mergeAll _ _).mpr hnodup
        · obtain ⟨databaseId, hmem⟩ := List.exists_mem_of_length_pos (by omega : 0 < new.length)
          obtain ⟨hnot, hgiven⟩ := hnew databaseId hmem
          simp only [List.mem_map, List.mem_flatten] at hgiven
          obtain ⟨database, ⟨_, ⟨remote, hremote, rfl⟩, hdatabase⟩, rfl⟩ := hgiven
          exact ⟨remote, hremote, fun h => hnot (h (List.mem_map_of_mem hdatabase))⟩
      · rw [List.eq_nil_of_length_eq_zero (by omega : new.length = 0), List.append_nil] at hids
        exact .inl ⟨_, rfl, hids⟩

theorem Working.refresh (hnodup : (databaseIds document).Nodup)
    (hsynced : ∀ databaseId ∈ databaseIds document, Synced requests databaseId)
    (responses : Option (List AffinityJoinResponse)) :
    Working (SyncTask.refresh ⟨⟨.ready, some document⟩, index, requests⟩ responses) := by
  rcases refresh_cases responses with ⟨current, heq, hids⟩ | ⟨merged, heq, hmerged, -⟩
  · exact heq ▸ .ready (hids ▸ hnodup) (hids ▸ hsynced)
  · exact heq ▸ .syncing (hmerged hnodup) (syncPlan_pos _) (List.nil_sublist _)

theorem Working.maintain (h : Working task) (due : String → Bool) (targets : List String) :
    Working (task.maintain due targets) := by
  cases h with
  | syncing hnodup hindex hdone => exact .syncing hnodup hindex (hdone.trans (List.sublist_append_left ..))
  | ready hnodup hsynced =>
    refine .ready hnodup fun databaseId hmem => (hsynced databaseId hmem).imp fun _ h => ?_
    exact h.trans (List.sublist_append_left ..)

theorem Working.tick (h : Working task) (now : Tick) : Working (task.tick now) := by
  have hsync := h.sync
  unfold SyncTask.tick
  generalize task.sync = synced at hsync
  cases hsync with
  | syncing hnodup hindex hdone => exact .syncing hnodup hindex hdone
  | ready hnodup hsynced => exact (Working.refresh hnodup hsynced now.responses).maintain now.due now.targets

/-! ## Runs -/

theorem tick_of_quiet (hnodup : (databaseIds document).Nodup) (hindex : index < document.syncPlan.length)
    (hquiet : now.responses = none) (requests : List LiveRequest) :
    ∃ requests', SyncTask.tick ⟨⟨.syncing .controlPlane, some document⟩, index, requests⟩ now =
      ⟨⟨if document.syncPlan.length ≤ index + 1 then .ready else .syncing .controlPlane, some document⟩, index + 1,
        requests'⟩ := by
  rw [SyncTask.tick, sync_of_lt hnodup hindex]
  by_cases hlast : document.syncPlan.length ≤ index + 1
  · simp only [if_pos hlast, hquiet]
    exact ⟨_, rfl⟩
  · simp only [if_neg hlast]
    exact ⟨_, rfl⟩

theorem ready_of_quiet {ticks : List Tick} (hquiet : ∀ now ∈ ticks, now.responses = none) :
    (runFrom SyncTask.tick ⟨⟨.ready, some document⟩, index, requests⟩ ticks).processor.state = .ready := by
  induction ticks generalizing requests with
  | nil => rfl
  | cons now ticks ih =>
    obtain ⟨hnow, hrest⟩ := List.forall_mem_cons.mp hquiet
    rw [runFrom_cons, SyncTask.tick]
    simp only [SyncTask.sync, SyncTask.refresh, hnow]
    exact ih hrest

/-- The steps that are left of the plan are done one a tick. -/
theorem run_of_quiet (hnodup : (databaseIds document).Nodup) (hindex : index < document.syncPlan.length)
    {ticks : List Tick} (hquiet : ∀ now ∈ ticks, now.responses = none) :
    (runFrom SyncTask.tick ⟨⟨.syncing .controlPlane, some document⟩, index, requests⟩ ticks).processor.state =
      if document.syncPlan.length ≤ index + ticks.length then .ready else .syncing .controlPlane := by
  induction ticks generalizing index requests with
  | nil => simp [Nat.not_le.mpr hindex]
  | cons now ticks ih =>
    obtain ⟨hnow, hrest⟩ := List.forall_mem_cons.mp hquiet
    obtain ⟨requests', htick⟩ := tick_of_quiet hnodup hindex hnow requests
    rw [runFrom_cons, htick, List.length_cons]
    by_cases hlast : document.syncPlan.length ≤ index + 1
    · rw [if_pos hlast, ready_of_quiet hrest, if_pos (by omega)]
    · rw [if_neg hlast, ih (Nat.lt_of_not_le hlast) hrest, Nat.add_right_comm, Nat.add_assoc]

/-- Whatever peers answer and whenever, the task is never degraded, it is ready only once it has synced every database
of its document, and it gets there in one tick a step if no answers come. -/
theorem sync_task_progress (document : AffinityDocument) (hnodup : (databaseIds document).Nodup) (ticks : List Tick) :
    let task := runFrom SyncTask.tick (.start document) ticks
    (task.processor.state = .syncing .controlPlane ∨ task.processor.state = .ready ∧
      ∀ current ∈ task.processor.document, ∀ databaseId ∈ databaseIds current, Synced task.requests databaseId) ∧
    ∀ current ∈ task.processor.document, ∀ quiet : List Tick, (∀ now ∈ quiet, now.responses = none) →
      3 * current.databases.length + 1 ≤ quiet.length →
      (runFrom SyncTask.tick task quiet).processor.state = .ready := by
  intro task
  have hworking : Working task := runFrom_invariant (fun _ now h => h.tick now)
    (.syncing hnodup (syncPlan_pos _) (List.nil_sublist _)) ticks
  generalize task = task at hworking
  cases hworking with
  | syncing hnodup hindex _ =>
    refine ⟨.inl rfl, fun current hcurrent quiet hquiet hlength => ?_⟩
    obtain rfl := Option.some.inj hcurrent
    rw [run_of_quiet hnodup hindex hquiet, if_pos]
    exact (length_syncPlan _).le.trans (hlength.trans (Nat.le_add_left ..))
  | ready hnodup hsynced =>
    refine ⟨.inr ⟨rfl, fun current hcurrent => ?_⟩, fun _ _ _ hquiet _ => ready_of_quiet hquiet⟩
    obtain rfl := Option.some.inj hcurrent
    exact hsynced

def twoDatabases : AffinityDocument :=
  ⟨"group", 1, [], [⟨"d", "d", 1, none⟩, ⟨"e", "e", 2, none⟩], ⟨1, none, 0⟩⟩

theorem two_databases_ready :
    (runFrom SyncTask.tick (.start twoDatabases)
      (List.replicate 7 ⟨none, fun _ => true, []⟩)).processor.state = .ready :=
  (sync_task_progress twoDatabases (by decide) []).2 twoDatabases rfl _
    (fun _ hnow => by rw [List.eq_of_mem_replicate hnow]) le_rfl

/-! ## Schema changes -/

def LiveRequest.asksSchema : LiveRequest → Bool
  | .schemaCatalog _ _ => true
  | .walCatchup _ _ => false

/-- The answers list no database that the document has not. -/
def Tick.Known (document : AffinityDocument) (now : Tick) : Prop :=
  ∀ responses ∈ now.responses, ∀ remote ∈ receivedDocuments responses, databaseIds remote ⊆ databaseIds document

/-- The task is ready with the databases of a document, and has asked for no schemas but these. -/
def Settled (document : AffinityDocument) (asked : List LiveRequest) (task : SyncTask) : Prop :=
  ∃ current index requests, task = ⟨⟨.ready, some current⟩, index, requests⟩ ∧
    databaseIds current = databaseIds document ∧ requests.filter (·.asksSchema) = asked

variable {asked : List LiveRequest}

theorem Settled.maintain (h : Settled document asked task) (due : String → Bool) (targets : List String) :
    Settled document asked (task.maintain due targets) := by
  obtain ⟨current, index, requests, rfl, hids, hasked⟩ := h
  refine ⟨current, index, _, rfl, hids, ?_⟩
  simp [List.filter_flatMap, List.filter_map, Function.comp_def, LiveRequest.asksSchema, ← hasked]

theorem Settled.tick (h : Settled document asked task) (hknown : now.Known document) :
    Settled document asked (task.tick now) := by
  obtain ⟨current, index, requests, rfl, hids, hasked⟩ := h
  refine Settled.maintain ?_ now.due now.targets
  change Settled document asked (SyncTask.refresh ⟨⟨.ready, some current⟩, index, requests⟩ now.responses)
  rcases refresh_cases now.responses with ⟨next, heq, hsame⟩ | ⟨merged, -, -, given, hgiven, remote, hremote, hnot⟩
  · exact ⟨next, index, requests, heq, hsame.trans hids, hasked⟩
  · exact absurd (hids ▸ hknown given hgiven remote hremote) hnot

/-- A task that is ready asks for no schema as long as its peers list no other databases, also when they list a higher
schema identifier for one that it has. -/
theorem schema_changes_not_fetched (document : AffinityDocument) (task : SyncTask)
    (hready : task.processor = ⟨.ready, some document⟩) (ticks : List Tick)
    (hknown : ∀ now ∈ ticks, now.Known document) :
    let after := runFrom SyncTask.tick task ticks
    after.processor.state = .ready ∧ after.requests.filter (·.asksSchema) = task.requests.filter (·.asksSchema) := by
  obtain ⟨processor, index, requests⟩ := task
  subst hready
  have hsettled : Settled document (requests.filter (·.asksSchema)) ⟨⟨.ready, some document⟩, index, requests⟩ :=
    ⟨document, index, requests, rfl, rfl, rfl⟩
  obtain ⟨_, _, _, hafter, -, hasked⟩ :=
    List.foldlRecOn ticks SyncTask.tick hsettled fun _ h now hnow => h.tick (hknown now hnow)
  simp only [runFrom, hafter, hasked, and_self]

theorem raised_schema_not_fetched :
    let raised : AffinityJoinResponse :=
      ⟨"join", true, none, some { twoDatabases with databases := [⟨"d", "d", 9, none⟩] }⟩
    let after := runFrom SyncTask.tick ⟨⟨.ready, some twoDatabases⟩, 7, []⟩
      [⟨some [raised], fun _ => true, ["10.0.0.2:7000"]⟩]
    after.processor.document.bind (·.databaseSchemaIdentifier "d") = some 9 ∧
      after.requests.filter (·.asksSchema) = [] := by
  refine ⟨by decide +kernel, (schema_changes_not_fetched twoDatabases _ rfl _ fun now hnow => ?_).2⟩
  rw [List.mem_singleton.mp hnow]
  unfold Tick.Known
  decide +kernel

end DistDb.Affinity
