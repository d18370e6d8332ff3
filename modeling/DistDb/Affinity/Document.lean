import DistDb.Lib.KeyedList

/-! # Affinity documents

The document of an affinity group lists its members and the schemas of its databases. A node that joins merges the
documents of the peers that have answered into its own. -/

namespace DistDb.Affinity
open Lib

/-! ## The document -/

abbrev NodeId := String

inductive AffinityMemberStatus where
  | online
  | offline
  | unknown
  deriving DecidableEq, Repr

structure AffinityMember where
  nodeId : NodeId
  addrs : List String
  status : AffinityMemberStatus
  lastSeenEpochMs : UInt64
  deriving DecidableEq, Repr

structure DatabaseSchemaSummary where
  databaseId : String
  databaseName : String
  schemaIdentifier : UInt64
  schemaHash : Option String
  deriving DecidableEq, Repr

structure ReplicationSecuritySummary where
  policyRevision : UInt64
  keyId : Option String
  updatedEpochMs : UInt64
  deriving DecidableEq, Repr

structure AffinityDocument where
  affinityId : String
  affinityRevision : UInt64
  members : List AffinityMember
  databases : List DatabaseSchemaSummary
  replicationSecurity : ReplicationSecuritySummary
  deriving DecidableEq, Repr

def AffinityDocument.upsertMember (document : AffinityDocument) (member : AffinityMember) : AffinityDocument :=
  { document with members := upsert (·.nodeId) (fun _ => ()) member document.members }

/-- A schema takes the place of the one of its database unless its identifier is lower. -/
def AffinityDocument.upsertDatabaseSchema (document : AffinityDocument) (incoming : DatabaseSchemaSummary) :
    AffinityDocument :=
  { document with databases := upsert (·.databaseId) (·.schemaIdentifier.toNat) incoming document.databases }

/-! ## The answers of peers -/

abbrev WireAffinityDocument := AffinityDocument

structure AffinityJoinResponse where
  requestId : String
  ok : Bool
  error : Option String
  document : Option WireAffinityDocument
  deriving DecidableEq, Repr

def mergeAffinityDocument (base remote : AffinityDocument) : AffinityDocument :=
  remote.databases.foldl AffinityDocument.upsertDatabaseSchema
    (remote.members.foldl AffinityDocument.upsertMember base)

def mergeAffinityDocumentsFromResponses (base : AffinityDocument) : List AffinityJoinResponse → AffinityDocument
  | [] => base
  | response :: responses =>
    if !response.ok then mergeAffinityDocumentsFromResponses base responses
    else
      match response.document with
      | some remote => mergeAffinityDocumentsFromResponses (mergeAffinityDocument base remote) responses
      | none => mergeAffinityDocumentsFromResponses base responses

/-! ## The merged document -/

/-- The documents that the accepted answers bring. -/
def receivedDocuments (responses : List AffinityJoinResponse) : List AffinityDocument :=
  (responses.filter (·.ok)).filterMap (·.document)

theorem mergeAffinityDocumentsFromResponses_eq (base : AffinityDocument) (responses : List AffinityJoinResponse) :
    mergeAffinityDocumentsFromResponses base responses =
      (receivedDocuments responses).foldl mergeAffinityDocument base := by
  induction responses generalizing base with
  | nil => rfl
  | cons response responses ih =>
    rw [mergeAffinityDocumentsFromResponses, receivedDocuments, List.filter_cons]
    cases hok : response.ok with
    | false => exact ih base
    | true =>
      cases hdocument : response.document with
      | none => simpa [hdocument, receivedDocuments] using ih base
      | some remote => simpa [hdocument, receivedDocuments] using ih (mergeAffinityDocument base remote)

theorem foldl_upsertMember (document : AffinityDocument) (members : List AffinityMember) :
    members.foldl AffinityDocument.upsertMember document =
      { document with members := upsertAll (·.nodeId) (fun _ => ()) document.members members } := by
  induction members generalizing document with
  | nil => rfl
  | cons member members ih => exact ih (document.upsertMember member)

theorem foldl_upsertDatabaseSchema (document : AffinityDocument) (databases : List DatabaseSchemaSummary) :
    databases.foldl AffinityDocument.upsertDatabaseSchema document = { document with
        databases := upsertAll (·.databaseId) (·.schemaIdentifier.toNat) document.databases databases } := by
  induction databases generalizing document with
  | nil => rfl
  | cons database databases ih => exact ih (document.upsertDatabaseSchema database)

theorem mergeAffinityDocument_eq (base remote : AffinityDocument) : mergeAffinityDocument base remote = { base with
        members := upsertAll (·.nodeId) (fun _ => ()) base.members remote.members
        databases := upsertAll (·.databaseId) (·.schemaIdentifier.toNat) base.databases remote.databases } := by
  rw [mergeAffinityDocument, foldl_upsertMember, foldl_upsertDatabaseSchema]

theorem foldl_mergeAffinityDocument (base : AffinityDocument) (documents : List AffinityDocument) :
    documents.foldl mergeAffinityDocument base = { base with
        members := mergeAll (·.nodeId) (fun _ => ()) base.members (documents.map (·.members))
        databases := mergeAll (·.databaseId) (·.schemaIdentifier.toNat) base.databases
          (documents.map (·.databases)) } := by
  induction documents generalizing base with
  | nil => rfl
  | cons remote documents ih =>
    rw [List.foldl_cons, ih, mergeAffinityDocument_eq]
    rfl

/-! ## The order of the answers -/

/-- The documents differ at most in the order of members and databases. -/
structure SameUpToOrder (first second : AffinityDocument) : Prop where
  affinityId : first.affinityId = second.affinityId
  affinityRevision : first.affinityRevision = second.affinityRevision
  replicationSecurity : first.replicationSecurity = second.replicationSecurity
  members : first.members.Perm second.members
  databases : first.databases.Perm second.databases

/-- The merged document is the same whatever the order of the answers and however often they are repeated; it has
every node once as it was last seen, and every database once with its highest schema identifier. -/
structure MergesInAnyOrder (base : AffinityDocument) (responses : List AffinityJoinResponse) : Prop where
  same : ∀ responses', (∀ response, response ∈ responses' ↔ response ∈ responses) →
    SameUpToOrder (mergeAffinityDocumentsFromResponses base responses')
      (mergeAffinityDocumentsFromResponses base responses)
  members : OncePerKey (·.nodeId) (·.lastSeenEpochMs.toNat)
    (base.members ++ (receivedDocuments responses).flatMap (·.members))
    (mergeAffinityDocumentsFromResponses base responses).members
  databases : OncePerKey (·.databaseId) (·.schemaIdentifier.toNat)
    (base.databases ++ (receivedDocuments responses).flatMap (·.databases))
    (mergeAffinityDocumentsFromResponses base responses).databases

def lastMember (document : AffinityDocument) (nodeId : NodeId) : Option AffinityMember :=
  latestOf (·.nodeId) (fun _ => ()) nodeId document.members

def lastDatabase (document : AffinityDocument) (databaseId : String) : Option DatabaseSchemaSummary :=
  latestOf (·.databaseId) (·.schemaIdentifier.toNat) databaseId document.databases

/-- The base has no node and no database twice. The documents received have the same last entry for a node, which is
the one seen last, and those that have the highest identifier of a database have the same last entry for it. -/
structure AnswersAgree (base : AffinityDocument) (documents : List AffinityDocument) : Prop where
  nodeIds : (base.members.map (·.nodeId)).Nodup
  databaseIds : (base.databases.map (·.databaseId)).Nodup
  lastMember_eq : ∀ remote ∈ documents, ∀ remote' ∈ documents, ∀ member member',
    lastMember remote member.nodeId = some member → lastMember remote' member.nodeId = some member' →
    member = member'
  lastSeen : ∀ remote ∈ documents, ∀ member, lastMember remote member.nodeId = some member →
    ∀ other ∈ base.members ++ documents.flatMap (·.members), other.nodeId = member.nodeId →
      other.lastSeenEpochMs.toNat ≤ member.lastSeenEpochMs.toNat
  lastDatabase_eq : ∀ remote ∈ documents, ∀ remote' ∈ documents, ∀ database database',
    lastDatabase remote database.databaseId = some database →
    lastDatabase remote' database.databaseId = some database' →
    database.schemaIdentifier = database'.schemaIdentifier →
    (∀ other ∈ base.databases ++ documents.flatMap (·.databases), other.databaseId = database.databaseId →
      other.schemaIdentifier.toNat ≤ database.schemaIdentifier.toNat) →
    database = database'

section
variable {base : AffinityDocument} {responses responses' : List AffinityJoinResponse}

theorem mem_receivedDocuments (hmem : ∀ response, response ∈ responses' ↔ response ∈ responses)
    (remote : AffinityDocument) : remote ∈ receivedDocuments responses' ↔ remote ∈ receivedDocuments responses := by
  simp only [receivedDocuments, List.mem_filterMap, List.mem_filter, hmem]

theorem members_mergeAffinityDocuments : (mergeAffinityDocumentsFromResponses base responses).members =
      mergeAll (·.nodeId) (fun _ => ()) base.members ((receivedDocuments responses).map (·.members)) := by
  rw [mergeAffinityDocumentsFromResponses_eq, foldl_mergeAffinityDocument]

theorem databases_mergeAffinityDocuments : (mergeAffinityDocumentsFromResponses base responses).databases =
      mergeAll (·.databaseId) (·.schemaIdentifier.toNat) base.databases
        ((receivedDocuments responses).map (·.databases)) := by
  rw [mergeAffinityDocumentsFromResponses_eq, foldl_mergeAffinityDocument]

theorem exists_repeated {remote : AffinityDocument} (hremote : remote ∈ receivedDocuments responses) :
    ∃ response ∈ responses, receivedDocuments (responses ++ [response]) = receivedDocuments responses ++ [remote] := by
  obtain ⟨response, hresponse, hdocument⟩ := List.mem_filterMap.mp hremote
  obtain ⟨hmem, hok⟩ := List.mem_filter.mp hresponse
  exact ⟨response, hmem, by simp [receivedDocuments, List.filter_append, hok, hdocument]⟩

theorem MergesInAnyOrder.repeated (h : MergesInAnyOrder base responses) {remote : AffinityDocument}
    (hremote : remote ∈ receivedDocuments responses) :
    (mergeAll (·.nodeId) (fun _ => ()) base.members
        ((receivedDocuments responses).map (·.members) ++ [remote.members])).Perm
      (mergeAffinityDocumentsFromResponses base responses).members ∧
    (mergeAll (·.databaseId) (·.schemaIdentifier.toNat) base.databases
        ((receivedDocuments responses).map (·.databases) ++ [remote.databases])).Perm
      (mergeAffinityDocumentsFromResponses base responses).databases := by
  obtain ⟨response, hmem, hreceived⟩ := exists_repeated hremote
  have hsame := h.same (responses ++ [response]) fun other => by
    simp only [List.mem_append, List.mem_singleton]
    constructor
    · rintro (hother | rfl)
      · exact hother
      · exact hmem
    · exact .inl
  have hmembers := hsame.members
  have hdatabases := hsame.databases
  rw [members_mergeAffinityDocuments, hreceived, List.map_append] at hmembers
  rw [databases_mergeAffinityDocuments, hreceived, List.map_append] at hdatabases
  exact ⟨hmembers, hdatabases⟩

theorem flatten_map_members (documents : List AffinityDocument) :
    (documents.map (·.members)).flatten = documents.flatMap (·.members) := rfl

theorem flatten_map_databases (documents : List AffinityDocument) :
    (documents.map (·.databases)).flatten = documents.flatMap (·.databases) := rfl

theorem MergesInAnyOrder.answersAgree (h : MergesInAnyOrder base responses) :
    AnswersAgree base (receivedDocuments responses) := by
  have hmembers := h.members
  have hdatabases := h.databases
  rw [members_mergeAffinityDocuments, ← flatten_map_members, oncePerKey_mergeAll_iff] at hmembers
  rw [databases_mergeAffinityDocuments, ← flatten_map_databases, oncePerKey_mergeAll_iff] at hdatabases
  obtain ⟨hnodes, hseen⟩ := hmembers
  obtain ⟨hids, -⟩ := hdatabases
  have hmemberAgree : HighestAgree (·.nodeId) (fun _ => ()) base.members
      ((receivedDocuments responses).map (·.members)) := by
    refine .of_perm hnodes fun xs hxs => ?_
    obtain ⟨remote, hremote, rfl⟩ := List.mem_map.mp hxs
    rw [← members_mergeAffinityDocuments]
    exact (h.repeated hremote).1
  have hdatabaseAgree : HighestAgree (·.databaseId) (·.schemaIdentifier.toNat) base.databases
      ((receivedDocuments responses).map (·.databases)) := by
    refine .of_perm hids fun xs hxs => ?_
    obtain ⟨remote, hremote, rfl⟩ := List.mem_map.mp hxs
    rw [← databases_mergeAffinityDocuments]
    exact (h.repeated hremote).2
  refine ⟨hnodes, hids, ?_, ?_, ?_⟩
  · intro remote hremote remote' hremote' member member' hlast hlast'
    exact hmemberAgree _ (List.mem_map_of_mem hremote) _ (List.mem_map_of_mem hremote') member member' hlast hlast'
      rfl fun _ _ _ => le_rfl
  · intro remote hremote member hlast other hother hnode
    have hmem := (h.repeated hremote).1.mem_iff.mp (mem_mergeAll_append hnodes hlast fun _ _ _ => le_rfl)
    rw [members_mergeAffinityDocuments] at hmem
    exact hseen member hmem other hother hnode
  · intro remote hremote remote' hremote' database database' hlast hlast' hidentifier hhighest
    exact hdatabaseAgree _ (List.mem_map_of_mem hremote) _ (List.mem_map_of_mem hremote') database database' hlast
      hlast' (congrArg UInt64.toNat hidentifier) hhighest

theorem AnswersAgree.mergesInAnyOrder (h : AnswersAgree base (receivedDocuments responses)) :
    MergesInAnyOrder base responses := by
  have hmemberAgree : HighestAgree (·.nodeId) (fun _ => ()) base.members
      ((receivedDocuments responses).map (·.members)) := by
    intro xs hxs ys hys member member' hlast hlast' _ _
    obtain ⟨remote, hremote, rfl⟩ := List.mem_map.mp hxs
    obtain ⟨remote', hremote', rfl⟩ := List.mem_map.mp hys
    exact h.lastMember_eq remote hremote remote' hremote' member member' hlast hlast'
  have hdatabaseAgree : HighestAgree (·.databaseId) (·.schemaIdentifier.toNat) base.databases
      ((receivedDocuments responses).map (·.databases)) := by
    intro xs hxs ys hys database database' hlast hlast' hrank hhighest
    obtain ⟨remote, hremote, rfl⟩ := List.mem_map.mp hxs
    obtain ⟨remote', hremote', rfl⟩ := List.mem_map.mp hys
    exact h.lastDatabase_eq remote hremote remote' hremote' database database' hlast hlast'
      (UInt64.toNat_inj.mp hrank) hhighest
  refine ⟨fun responses' hmem => ?_, ?_, ?_⟩
  · have hdocuments := mem_receivedDocuments hmem
    refine ⟨?_, ?_, ?_, ?_, ?_⟩
    · simp only [mergeAffinityDocumentsFromResponses_eq, foldl_mergeAffinityDocument]
    · simp only [mergeAffinityDocumentsFromResponses_eq, foldl_mergeAffinityDocument]
    · simp only [mergeAffinityDocumentsFromResponses_eq, foldl_mergeAffinityDocument]
    · rw [members_mergeAffinityDocuments, members_mergeAffinityDocuments]
      exact hmemberAgree.perm h.nodeIds fun xs => by simp only [List.mem_map, hdocuments]
    · rw [databases_mergeAffinityDocuments, databases_mergeAffinityDocuments]
      exact hdatabaseAgree.perm h.databaseIds fun xs => by simp only [List.mem_map, hdocuments]
  · rw [members_mergeAffinityDocuments, ← flatten_map_members, oncePerKey_mergeAll_iff]
    refine ⟨h.nodeIds, fun member hmember other hother hnode => ?_⟩
    rcases (mem_mergeAll h.nodeIds hmember).2 with ⟨xs, hxs, hlast⟩ | ⟨hbase, hnone⟩
    · obtain ⟨remote, hremote, rfl⟩ := List.mem_map.mp hxs
      exact h.lastSeen remote hremote member hlast other hother hnode
    · -- no answer has the node, so the other entry is the one of the base
      rcases List.mem_append.mp hother with hother | hother
      · rw [List.inj_on_of_nodup_map h.nodeIds hother hbase hnode]
      · obtain ⟨xs, hxs, hother⟩ := List.mem_flatten.mp hother
        exact absurd (hnone xs hxs other hother hnode) (lt_irrefl _)
  · rw [databases_mergeAffinityDocuments, ← flatten_map_databases, oncePerKey_mergeAll_iff]
    exact ⟨h.databaseIds, fun database hdatabase => (mem_mergeAll h.databaseIds hdatabase).1⟩

end

/-- The order of the answers does not count exactly if they agree on what they say last. -/
theorem merge_in_any_order_iff (base : AffinityDocument) (responses : List AffinityJoinResponse) :
    MergesInAnyOrder base responses ↔ AnswersAgree base (receivedDocuments responses) :=
  ⟨MergesInAnyOrder.answersAgree, AnswersAgree.mergesInAnyOrder⟩

def heardOf (lastSeen : UInt64) : AffinityJoinResponse :=
  { requestId := "join", ok := true, error := none,
    document := some
      { affinityId := "group", affinityRevision := 1, databases := [],
        members := [⟨"node", ["10.0.0.1:7000"], .online, lastSeen⟩],
        replicationSecurity := ⟨1, none, 0⟩ } }

/-- The answer that comes last has the last word, also if it has seen the node earlier than the other. -/
theorem older_answer_wins :
    ¬MergesInAnyOrder ⟨"group", 1, [], [], ⟨1, none, 0⟩⟩ [heardOf 2000, heardOf 1000] := by
  intro h
  have hseen := h.members.highest ⟨"node", ["10.0.0.1:7000"], .online, 1000⟩ (by decide +kernel)
    ⟨"node", ["10.0.0.1:7000"], .online, 2000⟩ (by decide +kernel) rfl
  revert hseen
  decide +kernel

end DistDb.Affinity
