import DistDb.Indexing.Store
import DistDb.Lib.Run

/-! # Indexes and live rows

What the runtime indexes answer along with the rows that are recorded in them and removed from them. -/

namespace DistDb.Indexing
open Lib RuntimeIndexState

/-! ## Tables -/

structure IndexedTable where
  store : IndexorStore
  rows : List (UInt64 × RowMap)

def IndexedTable.empty : IndexedTable := ⟨∅, []⟩

inductive IndexStep where
  | mutate (kind : TransactionKind) (latestTxId : UInt64) (row : RowMap) (rowRef : Option UInt64)
  | recordBatch (firstRowRef : UInt64) (rows : List RowMap)
  | removeBatch (rows : List (UInt64 × RowMap))
  | bootstrap

namespace IndexStep

def rowsAfter (rows : List (UInt64 × RowMap)) : IndexStep → List (UInt64 × RowMap)
  | .mutate .insert latestTxId row _ | .mutate .update latestTxId row _ => rows ++ [(latestTxId, row)]
  | .mutate .delete _ _ rowRef => rows.filter fun row => some row.1 ≠ rowRef
  | .mutate _ _ _ _ => rows
  | .recordBatch firstRowRef new => rows ++ numberRows firstRowRef new
  | .removeBatch gone => rows.filter fun row => row.1 ∉ gone.map Prod.fst
  | .bootstrap => rows

def storeAfter (env : IndexEnv) (table : IndexedTable) : IndexStep → IndexorStore
  | .mutate kind latestTxId row rowRef =>
    IndexorStore.applyTableRowMutation env table.store kind latestTxId row rowRef
  | .recordBatch firstRowRef rows =>
    IndexorStore.recordTableRowsBatchWithFirstRowRef env table.store firstRowRef rows
  | .removeBatch rows => IndexorStore.removeTableRowsBatch env table.store (rows.map Prod.snd)
  | .bootstrap => IndexorStore.bootstrap env table.store table.rows

/-- The step is one that a table makes: ids are new, and what is removed is there. -/
def Committed (table : IndexedTable) : IndexStep → Prop
  | .mutate .insert latestTxId _ _ | .mutate .update latestTxId _ _ => latestTxId ∉ table.rows.map Prod.fst
  | .mutate .delete _ row rowRef => ∃ id, rowRef = some id ∧ (id, row) ∈ table.rows
  | .mutate _ _ _ _ => True
  | .recordBatch firstRowRef new => ((table.rows ++ numberRows firstRowRef new).map Prod.fst).Nodup
  | .removeBatch gone => gone ⊆ table.rows
  | .bootstrap => True

end IndexStep

def IndexedTable.apply (env : IndexEnv) (table : IndexedTable) (step : IndexStep) : IndexedTable :=
  ⟨step.storeAfter env table, step.rowsAfter table.rows⟩

/-! ## Answers -/

variable (env : IndexEnv) (index : DatabaseIndex)

def encodedKey (coding : KeyCoding) (row : RowMap) : KeyTuple :=
  coding.encodeKey env.prims (indexValueTuple index row)

namespace IndexedTable

variable (table : IndexedTable)

def indexor : Indexor := IndexorStore.indexor table.store index.indexId

def coding : KeyCoding := (table.indexor index).coding

/-- A lookup gives the references of the live rows whose key is encoded like the given one, as an index does that
was built from these rows. -/
structure Answers : Prop where
  rowRefs : ∀ key, (table.indexor index).rowRefsForKey env.prims key =
    refsBy (encodedKey env index (table.coding index)) table.rows ((table.coding index).encodeKey env.prims key)
  rebuilt : ∀ key, (table.indexor index).rowRefsForKey env.prims key =
    (((table.indexor index).withIndex index).clear.insertRows env.prims index table.rows).rowRefsForKey env.prims key

end IndexedTable

/-- The rows that an index can hold: the largest reference has no stored form, and a unique index has one row for
an encoded key. -/
structure Indexable (coding : KeyCoding) (rows : List (UInt64 × RowMap)) : Prop where
  packable : ∀ row ∈ rows, row.1.toNat + 1 < 2 ^ 64
  apart : index.isUniqueKey = true → ∀ row ∈ rows, ∀ other ∈ rows,
    encodedKey env index coding row.2 = encodedKey env index coding other.2 → row.1 = other.1

/-- After the step the index can hold every row under its key. -/
def IndexStep.Keeps (table : IndexedTable) : IndexStep → Prop
  | .removeBatch gone => ∀ row ∈ table.rows, row.1 ∉ gone.map Prod.fst → ∀ other ∈ gone,
      encodedKey env index (table.coding index) row.2 ≠ encodedKey env index (table.coding index) other.2
  | .bootstrap =>
    Indexable env index (IndexorStore.prepareIndexor env index (table.indexor index)).coding table.rows
  | step => Indexable env index (table.coding index) (step.rowsAfter table.rows)

/-! ## Stored references -/

variable {env index} {indexor : Indexor} {table : IndexedTable} {coding : KeyCoding}
  {rows new : List (UInt64 × RowMap)}

structure Packed (state : RuntimeIndexState) : Prop where
  entries : ∀ key rowRef, state.entries.lookup key = some (some rowRef) → rowRef.toNat + 1 < 2 ^ 64
  postings : ∀ key refs, state.nonUniqueRowRefs.lookup key = some refs → ∀ rowRef ∈ refs, rowRef.toNat + 1 < 2 ^ 64

variable {state : RuntimeIndexState}

theorem packed_of_postedAll {keyOf : RowMap → KeyTuple} (h : PostedAll state keyOf rows)
    (hpackable : ∀ row ∈ rows, row.1.toNat + 1 < 2 ^ 64) : Packed state := by
  have hrefs : ∀ key, ∀ rowRef ∈ refsBy keyOf rows key, rowRef.toNat + 1 < 2 ^ 64 := by
    intro key rowRef hmem
    obtain ⟨row, hrow, -, rfl⟩ := mem_refsBy.mp hmem
    exact hpackable row hrow
  constructor
  · intro key rowRef hentry
    refine hrefs key rowRef ?_
    have hposted := h key
    generalize refsBy keyOf rows key = refs at hposted
    cases hposted with
    | absent entry _ => simp [entry] at hentry
    | single other entry _ =>
      rw [entry] at hentry
      cases hentry
      exact Finset.mem_singleton_self _
    | many refs entry _ _ => simp [entry] at hentry
  · intro key refs hpostings rowRef hmem
    refine hrefs key rowRef ?_
    have hposted := h key
    generalize refsBy keyOf rows key = refs' at hposted
    cases hposted with
    | absent _ postings => simp [postings] at hpostings
    | single _ _ postings => simp [postings] at hpostings
    | many refs' _ postings _ =>
      rw [postings] at hpostings
      cases hpostings
      exact hmem

theorem packable_of_packRowRef {rowRef : Option UInt64} {packed : UInt64} (h : rowRef.bind packRowRef = some packed) :
    packed.toNat + 1 < 2 ^ 64 := by
  obtain ⟨rowRef, -, hpack⟩ := Option.bind_eq_some_iff.mp h
  unfold packRowRef at hpack
  split at hpack
  · cases hpack
    assumption
  · cases hpack

theorem Packed.insert (h : Packed state) (key : KeyTuple) (rowRef : Option UInt64) :
    Packed (state.insertWithRowRef key rowRef) := by
  have hentries : ∀ stored : Option UInt64, (∀ packed, stored = some packed → packed.toNat + 1 < 2 ^ 64) →
      ∀ k r, (state.entries.insert key stored).lookup k = some (some r) → r.toNat + 1 < 2 ^ 64 := by
    intro stored hstored k r hlookup
    by_cases hk : k = key
    · subst hk
      rw [Finmap.lookup_insert] at hlookup
      exact hstored r (Option.some.inj hlookup)
    · rw [Finmap.lookup_insert_of_ne _ hk] at hlookup
      exact h.entries k r hlookup
  have hpostings : ∀ refs : Finset UInt64, (∀ r ∈ refs, r.toNat + 1 < 2 ^ 64) →
      ∀ k refs', (state.nonUniqueRowRefs.insert key refs).lookup k = some refs' →
      ∀ r ∈ refs', r.toNat + 1 < 2 ^ 64 := by
    intro refs hrefs k refs' hlookup
    by_cases hk : k = key
    · subst hk
      rw [Finmap.lookup_insert] at hlookup
      cases hlookup
      exact hrefs
    · rw [Finmap.lookup_insert_of_ne _ hk] at hlookup
      exact h.postings k refs' hlookup
  unfold insertWithRowRef
  split
  · exact ⟨hentries _ fun _ => packable_of_packRowRef, h.postings⟩
  · split
    · exact ⟨hentries _ (by simp), h.postings⟩
    · exact h
    · rename_i packed hpack _
      exact ⟨hentries _ fun _ heq => packable_of_packRowRef (hpack.trans heq), h.postings⟩
    · rename_i packed existing hpack hentry
      split
      · exact h
      · refine ⟨hentries _ (by simp), hpostings _ fun r hr => ?_⟩
        rcases Finset.mem_insert.mp hr with rfl | hr
        · exact h.entries key r hentry
        · rw [Finset.mem_singleton.mp hr]
          exact packable_of_packRowRef hpack
    · rename_i packed hpack hentry
      refine ⟨h.entries, hpostings _ fun r hr => ?_⟩
      rcases Finset.mem_insert.mp hr with rfl | hr
      · exact packable_of_packRowRef hpack
      · cases hrefs : state.nonUniqueRowRefs.lookup key with
        | none => simp [hrefs] at hr
        | some refs => exact h.postings key refs hrefs r (by simpa [hrefs] using hr)

theorem Packed.packable (h : Packed state) {key : KeyTuple} {rowRef : UInt64}
    (hmem : rowRef ∈ state.rowRefsForKey key) : rowRef.toNat + 1 < 2 ^ 64 := by
  unfold rowRefsForKey at hmem
  split at hmem
  · rename_i single hentry
    rw [Finset.mem_singleton.mp hmem]
    exact h.entries key single (Option.join_eq_some_iff.mp hentry)
  · split at hmem
    · simp at hmem
    · cases hrefs : state.nonUniqueRowRefs.lookup key with
      | none => simp [hrefs] at hmem
      | some refs => exact h.postings key refs hrefs rowRef (by simpa [hrefs] using hmem)

theorem card_rowRefsForKey_le (state : RuntimeIndexState) (h : state.index.elim false (·.isUniqueKey) = true)
    (key : KeyTuple) : (state.rowRefsForKey key).card ≤ 1 := by
  unfold rowRefsForKey
  split
  · simp
  · rw [if_pos h]
    simp

/-! ## Rows of one index -/

@[simp] theorem coding_insertRows : (indexor.insertRows env.prims index new).coding = indexor.coding := by
  unfold Indexor.insertRows
  induction new generalizing indexor with
  | nil => rfl
  | cons row new ih => exact ih

@[simp] theorem index_insertRows : (indexor.insertRows env.prims index new).state.index = indexor.state.index := by
  unfold Indexor.insertRows
  induction new generalizing indexor with
  | nil => rfl
  | cons row new ih => exact ih.trans (index_insertWithRowRef _)

theorem packed_insertRows (h : Packed indexor.state) : Packed (indexor.insertRows env.prims index new).state := by
  unfold Indexor.insertRows
  induction new generalizing indexor with
  | nil => exact h
  | cons row new ih => exact ih (h.insert _ _)

theorem Indexable.mono {rows' : List (UInt64 × RowMap)} (h : Indexable env index coding rows') (hsub : rows ⊆ rows') :
    Indexable env index coding rows :=
  ⟨fun row hrow => h.packable row (hsub hrow),
    fun hunique row hrow other hother => h.apart hunique row (hsub hrow) other (hsub hother)⟩

theorem Indexable.card_le (h : Indexable env index coding rows) (hunique : index.isUniqueKey = true) (key : KeyTuple) :
    (refsBy (encodedKey env index coding) rows key).card ≤ 1 := by
  refine Finset.card_le_one.mpr fun rowRef href rowRef' href' => ?_
  obtain ⟨row, hrow, hkey, rfl⟩ := mem_refsBy.mp href
  obtain ⟨row', hrow', hkey', rfl⟩ := mem_refsBy.mp href'
  exact h.apart hunique row hrow row' hrow' (hkey.trans hkey'.symm)

theorem postedAll_insertRows (indexor : Indexor) (rows : List (UInt64 × RowMap))
    (hindex : indexor.state.index = some index)
    (h : PostedAll indexor.state (encodedKey env index indexor.coding) rows)
    (hindexable : Indexable env index indexor.coding (rows ++ new)) (hnodup : ((rows ++ new).map Prod.fst).Nodup) :
    PostedAll (indexor.insertRows env.prims index new).state (encodedKey env index indexor.coding) (rows ++ new) := by
  unfold Indexor.insertRows
  induction new generalizing indexor rows with
  | nil => simpa using h
  | cons row new ih =>
    rw [List.append_cons] at hindexable hnodup ⊢
    have hnew : row.1 ∉ rows.map Prod.fst := by
      have hfirst : ((rows ++ [row]).map Prod.fst).Nodup := ((List.sublist_append_left ..).map _).nodup hnodup
      rw [List.map_append] at hfirst
      exact fun hmem => List.disjoint_of_nodup_append hfirst hmem (List.mem_singleton_self _)
    have hfirst := hindexable.mono (List.subset_append_left (rows ++ [row]) new)
    have hposted : PostedAll (indexor.insertWithRowRef env.prims (indexValueTuple index row.2) (some row.1)).state
        (encodedKey env index indexor.coding) (rows ++ [row]) := by
      refine h.insert (hfirst.packable row (by simp)) hnew fun hunique => ?_
      rw [RuntimeIndexState.isUniqueKey, hindex] at hunique
      have hcard := hfirst.card_le hunique (encodedKey env index indexor.coding row.2)
      rw [refsBy_concat_eq, Finset.card_insert_of_notMem (notMem_refsBy hnew _)] at hcard
      exact Finset.card_eq_zero.mp (by omega)
    exact ih _ _ ((index_insertWithRowRef _).trans hindex) hposted hindexable hnodup

theorem index_removeRows (gone : List RowMap) :
    (indexor.removeRows env.prims index gone).state.index = indexor.state.index := by
  unfold Indexor.removeRows
  induction gone generalizing indexor with
  | nil => rfl
  | cons row gone ih => exact ih.trans (index_removeWithRowRef _)

theorem coding_removeRows (gone : List RowMap) : (indexor.removeRows env.prims index gone).coding = indexor.coding := by
  unfold Indexor.removeRows
  induction gone generalizing indexor with
  | nil => rfl
  | cons row gone ih => exact ih

theorem posted_removeRows {refs : KeyTuple → Finset UInt64} (h : ∀ key, Posted indexor.state key (refs key))
    (hunique : indexor.state.isUniqueKey = true → ∀ key, (refs key).card ≤ 1) (gone : List RowMap) (key : KeyTuple) :
    Posted (indexor.removeRows env.prims index gone).state key
      (if key ∈ gone.map (encodedKey env index indexor.coding) then ∅ else refs key) := by
  unfold Indexor.removeRows
  induction gone generalizing indexor refs with
  | nil => simpa using h key
  | cons row gone ih =>
    have hsame : (indexor.removeWithRowRef env.prims (indexValueTuple index row) none).state.isUniqueKey =
        indexor.state.isUniqueKey := by
      rw [RuntimeIndexState.isUniqueKey, RuntimeIndexState.isUniqueKey, Indexor.removeWithRowRef,
        index_removeWithRowRef]
    have hposted : ∀ key, Posted (indexor.removeWithRowRef env.prims (indexValueTuple index row) none).state key
        (if key = encodedKey env index indexor.coding row then ∅ else refs key) := by
      intro key
      split
      · rename_i hkey
        subst hkey
        exact (h _).removeAll fun hkey => hunique hkey _
      · rename_i hkey
        exact (h key).remove_ne hkey _
    have hrest := ih hposted fun hkey key => by
      split
      · simp
      · exact hunique (hsame ▸ hkey) key
    simp only [List.map_cons, List.mem_cons, List.foldl_cons]
    convert hrest using 1
    by_cases hkey : key = encodedKey env index indexor.coding row
    · simp [hkey]
    · simp only [hkey, false_or, if_false]
      rfl

/-! ## Answers of one index -/

theorem rowRefsForKey_eq (hposted : PostedAll indexor.state (encodedKey env index indexor.coding) rows)
    (hindexable : Indexable env index indexor.coding rows) (hindex : rows ≠ [] → indexor.state.index = some index)
    (key : KeyTuple) : indexor.rowRefsForKey env.prims key =
      refsBy (encodedKey env index indexor.coding) rows (indexor.coding.encodeKey env.prims key) := by
  refine (hposted _).rowRefsForKey_eq fun hunique => ?_
  by_cases hrows : rows = []
  · simp [hrows, refsBy]
  · rw [hindex hrows] at hunique
    exact hindexable.card_le hunique _

theorem indexable_of_rowRefsForKey (hpacked : Packed indexor.state) (hindex : indexor.state.index = some index)
    (h : ∀ key, indexor.rowRefsForKey env.prims key =
      refsBy (encodedKey env index indexor.coding) rows (indexor.coding.encodeKey env.prims key)) :
    Indexable env index indexor.coding rows := by
  have hmem : ∀ row ∈ rows, row.1 ∈ indexor.rowRefsForKey env.prims (indexValueTuple index row.2) := by
    intro row hrow
    rw [h]
    exact mem_refsBy.mpr ⟨row, hrow, rfl, rfl⟩
  refine ⟨fun row hrow => hpacked.packable (hmem row hrow), fun hunique row hrow other hother hkey => ?_⟩
  have hcard := card_rowRefsForKey_le indexor.state (by rw [hindex]; exact hunique)
    (encodedKey env index indexor.coding row.2)
  refine Finset.card_le_one.mp hcard _ (hmem row hrow) _ ?_
  rw [hkey]
  exact hmem other hother

theorem rowRefsForKey_rebuilt (hindexable : Indexable env index indexor.coding rows)
    (hnodup : (rows.map Prod.fst).Nodup) (key : KeyTuple) :
    ((indexor.withIndex index).clear.insertRows env.prims index rows).rowRefsForKey env.prims key =
      refsBy (encodedKey env index indexor.coding) rows (indexor.coding.encodeKey env.prims key) := by
  have hposted : PostedAll ((indexor.withIndex index).clear.insertRows env.prims index rows).state
      (encodedKey env index indexor.coding) rows :=
    postedAll_insertRows (indexor.withIndex index).clear [] rfl (PostedAll.empty rfl rfl) hindexable hnodup
  have hcoding : ((indexor.withIndex index).clear.insertRows env.prims index rows).coding = indexor.coding :=
    coding_insertRows
  rw [rowRefsForKey_eq (by rw [hcoding]; exact hposted) (by rw [hcoding]; exact hindexable)
    fun _ => index_insertRows, hcoding]

/-! ## Steps -/

structure Coherent (env : IndexEnv) (index : DatabaseIndex) (table : IndexedTable) : Prop where
  nodup : (table.rows.map Prod.fst).Nodup
  indexable : Indexable env index (table.coding index) table.rows
  definition : table.rows ≠ [] → (table.indexor index).state.index = some index
  posted : PostedAll (table.indexor index).state (encodedKey env index (table.coding index)) table.rows

theorem Coherent.answers (h : Coherent env index table) : table.Answers env index := by
  have hrefs := rowRefsForKey_eq h.posted h.indexable h.definition
  exact ⟨hrefs, fun key => (hrefs key).trans (rowRefsForKey_rebuilt h.indexable h.nodup key).symm⟩

theorem coherent_empty : Coherent env index .empty :=
  ⟨List.nodup_nil, ⟨by simp [IndexedTable.empty], by simp [IndexedTable.empty]⟩, fun h => absurd rfl h,
    PostedAll.empty rfl rfl⟩

theorem indexor_updateAll {store : IndexorStore} {change : DatabaseIndex → Indexor → Indexor}
    (hindex : index ∈ env.table.derivedIndexes) :
    IndexorStore.indexor (IndexorStore.updateAll env store change) index.indexId =
      change index (IndexorStore.indexor store index.indexId) := by
  have hupdates : UpdatesKey (fun (store : IndexorStore) index =>
      store.insert index.indexId (change index (IndexorStore.indexor store index.indexId))) (·.indexId)
      fun index indexor => some (change index (indexor.getD .new)) :=
    ⟨fun map index => Finmap.lookup_insert map, fun map index k hk => Finmap.lookup_insert_of_ne _ hk⟩
  rw [IndexorStore.indexor, IndexorStore.updateAll, hupdates.lookup_foldl env.table.nodup_derivedIds hindex]
  rfl

theorem Coherent.record (h : Coherent env index table) (table' : IndexedTable) (new : List (UInt64 × RowMap))
    (hindexor : table'.indexor index = ((table.indexor index).withIndex index).insertRows env.prims index new)
    (hrows : table'.rows = table.rows ++ new) (hnodup : (table'.rows.map Prod.fst).Nodup) :
    (Indexable env index (table.coding index) table'.rows → Coherent env index table') ∧
      (table'.Answers env index → Indexable env index (table.coding index) table'.rows) := by
  have hcoding : table'.coding index = table.coding index := by
    rw [IndexedTable.coding, hindexor]
    exact coding_insertRows
  have hdefinition : (table'.indexor index).state.index = some index := by
    rw [hindexor]
    exact index_insertRows
  constructor
  · intro hindexable
    refine ⟨hnodup, by rwa [hcoding], fun _ => hdefinition, ?_⟩
    rw [hcoding, hindexor]
    rw [hrows] at hindexable hnodup ⊢
    exact postedAll_insertRows ((table.indexor index).withIndex index) table.rows rfl (h.posted.congr rfl rfl)
      hindexable hnodup
  · intro hanswers
    rw [← hcoding]
    refine indexable_of_rowRefsForKey ?_ hdefinition hanswers.rowRefs
    rw [hindexor]
    have hpacked := packed_of_postedAll h.posted h.indexable.packable
    exact packed_insertRows ⟨hpacked.entries, hpacked.postings⟩

variable {table' : IndexedTable}

theorem Coherent.remove (h : Coherent env index table) {id : UInt64} {row : RowMap} (hmem : (id, row) ∈ table.rows)
    (hindexor : table'.indexor index =
      (table.indexor index).removeWithRowRef env.prims (indexValueTuple index row) (some id))
    (hrows : table'.rows = table.rows.filter fun other => other.1 ≠ id) : Coherent env index table' := by
  have hsub : table'.rows ⊆ table.rows := hrows ▸ List.filter_subset_self _
  have hdefinition := h.definition (List.ne_nil_of_mem hmem)
  have hcoding : table'.coding index = table.coding index := by
    rw [IndexedTable.coding, hindexor]
    rfl
  refine ⟨?_, ?_, fun _ => ?_, ?_⟩
  · rw [hrows]
    exact (List.filter_sublist.map _).nodup h.nodup
  · rw [hcoding]
    exact h.indexable.mono hsub
  · rw [hindexor]
    exact (index_removeWithRowRef _).trans hdefinition
  · rw [hcoding, hindexor, hrows]
    refine h.posted.remove (h.indexable.packable (id, row) hmem) hmem h.nodup fun hunique => ?_
    rw [RuntimeIndexState.isUniqueKey, hdefinition] at hunique
    exact h.indexable.card_le hunique _

theorem Coherent.removeBatch (h : Coherent env index table) {gone : List (UInt64 × RowMap)}
    (hgone : gone ⊆ table.rows) (hne : gone ≠ [])
    (hindexor : table'.indexor index = (table.indexor index).removeRows env.prims index (gone.map Prod.snd))
    (hrows : table'.rows = table.rows.filter fun row => row.1 ∉ gone.map Prod.fst) :
    (IndexStep.Keeps env index table (.removeBatch gone) → Coherent env index table') ∧
      (table'.Answers env index → IndexStep.Keeps env index table (.removeBatch gone)) := by
  have hcoding : table'.coding index = table.coding index := by
    rw [IndexedTable.coding, hindexor]
    exact coding_removeRows _
  have hdefinition : (table.indexor index).state.index = some index := by
    obtain ⟨row, hrow⟩ := List.exists_mem_of_ne_nil gone hne
    exact h.definition (List.ne_nil_of_mem (hgone hrow))
  have hindexable : Indexable env index (table'.coding index) table'.rows := by
    rw [hcoding, hrows]
    exact h.indexable.mono (List.filter_subset_self _)
  have hposted : ∀ key, Posted (table'.indexor index).state key
      (if key ∈ (gone.map Prod.snd).map (encodedKey env index (table.coding index)) then ∅
        else refsBy (encodedKey env index (table.coding index)) table.rows key) := by
    rw [hindexor]
    refine posted_removeRows h.posted (fun hunique key => ?_) _
    rw [RuntimeIndexState.isUniqueKey, hdefinition] at hunique
    exact h.indexable.card_le hunique key
  constructor
  · intro hkeeps
    refine ⟨?_, hindexable, fun _ => ?_, fun key => ?_⟩
    · rw [hrows]
      exact (List.filter_sublist.map _).nodup h.nodup
    · rw [hindexor]
      exact (index_removeRows _).trans hdefinition
    · rw [hcoding, hrows]
      convert hposted key using 1
      ext rowRef
      rw [mem_refsBy]
      split
      · rename_i hkey
        simp only [List.mem_map, exists_exists_and_eq_and] at hkey
        obtain ⟨other, hother, rfl⟩ := hkey
        simp only [Finset.notMem_empty, iff_false]
        rintro ⟨row, hrow, hsame, -⟩
        obtain ⟨hrow, hleft⟩ := List.mem_filter.mp hrow
        exact hkeeps row hrow (of_decide_eq_true hleft) other hother hsame
      · rename_i hkey
        rw [mem_refsBy]
        constructor
        · rintro ⟨row, hrow, hsame, hid⟩
          exact ⟨row, (List.mem_filter.mp hrow).1, hsame, hid⟩
        · rintro ⟨row, hrow, hsame, hid⟩
          refine ⟨row, List.mem_filter.mpr ⟨hrow, decide_eq_true fun hmem => hkey ?_⟩, hsame, hid⟩
          obtain ⟨other, hother, heq⟩ := List.mem_map.mp hmem
          obtain rfl := List.inj_on_of_nodup_map h.nodup (hgone hother) hrow heq
          rw [← hsame]
          exact List.mem_map_of_mem (List.mem_map_of_mem hother)
  · intro hanswers row hrow hleft other hother hsame
    have hlost : (table'.indexor index).state.rowRefsForKey (encodedKey env index (table.coding index) row.2) = ∅ := by
      have hkey := hposted (encodedKey env index (table.coding index) row.2)
      rw [if_pos (hsame ▸ List.mem_map_of_mem (List.mem_map_of_mem hother))] at hkey
      exact hkey.rowRefsForKey_eq fun _ => Nat.zero_le _
    have hrefs := hanswers.rowRefs (indexValueTuple index row.2)
    rw [Indexor.rowRefsForKey, ← IndexedTable.coding, hcoding] at hrefs
    have hmem : row.1 ∈ refsBy (encodedKey env index (table.coding index)) table'.rows
        (encodedKey env index (table.coding index) row.2) := by
      rw [mem_refsBy, hrows]
      exact ⟨row, List.mem_filter.mpr ⟨hrow, decide_eq_true hleft⟩, rfl, rfl⟩
    exact Finset.notMem_empty _ (hlost ▸ hrefs ▸ hmem)

theorem Coherent.bootstrap (h : Coherent env index table)
    (hindexor : table'.indexor index = ((IndexorStore.prepareIndexor env index (table.indexor index)).withIndex
      index).clear.insertRows env.prims index table.rows)
    (hrows : table'.rows = table.rows) :
    (IndexStep.Keeps env index table .bootstrap → Coherent env index table') ∧
      (table'.Answers env index → IndexStep.Keeps env index table .bootstrap) := by
  have hcoding : table'.coding index = (IndexorStore.prepareIndexor env index (table.indexor index)).coding := by
    rw [IndexedTable.coding, hindexor]
    exact coding_insertRows
  have hdefinition : (table'.indexor index).state.index = some index := by
    rw [hindexor]
    exact index_insertRows
  constructor
  · intro hkeeps
    refine ⟨hrows ▸ h.nodup, by rw [hcoding, hrows]; exact hkeeps, fun _ => hdefinition, ?_⟩
    rw [hcoding, hrows, hindexor]
    exact postedAll_insertRows ((IndexorStore.prepareIndexor env index (table.indexor index)).withIndex index).clear
      [] rfl (PostedAll.empty rfl rfl) hkeeps h.nodup
  · intro hanswers
    have hindexable : Indexable env index (table'.coding index) table'.rows := by
      refine indexable_of_rowRefsForKey ?_ hdefinition hanswers.rowRefs
      rw [hindexor]
      refine packed_insertRows ⟨fun key rowRef hentry => ?_, fun key refs hpostings => ?_⟩
      · exact absurd hentry (by simp [Indexor.clear])
      · exact absurd hpostings (by simp [Indexor.clear])
    rw [hcoding, hrows] at hindexable
    exact hindexable

theorem IndexStep.Committed.nodup {step : IndexStep} (h : step.Committed table)
    (hnodup : (table.rows.map Prod.fst).Nodup) : ((step.rowsAfter table.rows).map Prod.fst).Nodup := by
  have hfilter : ∀ keep : UInt64 × RowMap → Bool, ((table.rows.filter keep).map Prod.fst).Nodup :=
    fun keep => (List.filter_sublist.map _).nodup hnodup
  have hrecord : ∀ id row, id ∉ table.rows.map Prod.fst → ((table.rows ++ [(id, row)]).map Prod.fst).Nodup := by
    intro id row hnew
    rw [List.map_append]
    exact hnodup.append (List.nodup_singleton id) (by simpa using hnew)
  cases step with
  | mutate kind id row rowRef =>
    cases kind with
    | insert => exact hrecord id row h
    | update => exact hrecord id row h
    | delete => exact hfilter _
    | _ => exact hnodup
  | recordBatch firstRowRef new => exact h
  | removeBatch gone => exact hfilter _
  | bootstrap => exact hnodup

theorem Coherent.apply (h : Coherent env index table) (hindex : index ∈ env.table.derivedIndexes) {step : IndexStep}
    (hcommitted : step.Committed table) :
    (step.Keeps env index table → Coherent env index (table.apply env step)) ∧
      ((table.apply env step).Answers env index → step.Keeps env index table) := by
  have hnodup := hcommitted.nodup h.nodup
  cases step with
  | mutate kind id row rowRef =>
    cases kind with
    | insert =>
      exact h.record (table.apply env (.mutate .insert id row rowRef)) [(id, row)] (indexor_updateAll hindex) rfl hnodup
    | update =>
      exact h.record (table.apply env (.mutate .update id row rowRef)) [(id, row)] (indexor_updateAll hindex) rfl hnodup
    | delete =>
      obtain ⟨old, rfl, hmem⟩ := hcommitted
      have hrows : (table.rows.filter fun other => some other.1 ≠ some old) =
          table.rows.filter fun other => other.1 ≠ old := by
        simp
      exact ⟨fun _ => h.remove hmem (indexor_updateAll hindex) hrows,
        fun _ => h.indexable.mono (List.filter_subset_self _)⟩
    | _ => exact ⟨fun _ => h, fun _ => h.indexable⟩
  | recordBatch firstRowRef new =>
    by_cases hnil : new = []
    · subst hnil
      have hrows : table.rows ++ numberRows firstRowRef [] = table.rows := List.append_nil _
      have hsame : table.apply env (.recordBatch firstRowRef []) = table := by
        rw [IndexedTable.apply, IndexStep.rowsAfter, hrows]
        rfl
      refine ⟨fun _ => hsame.symm ▸ h, fun _ => ?_⟩
      change Indexable env index (table.coding index) (table.rows ++ numberRows firstRowRef [])
      rw [hrows]
      exact h.indexable
    · refine h.record (table.apply env (.recordBatch firstRowRef new)) (numberRows firstRowRef new) ?_ rfl hcommitted
      rw [IndexedTable.indexor, IndexedTable.apply, IndexStep.storeAfter,
        IndexorStore.recordTableRowsBatchWithFirstRowRef, if_neg hnil]
      exact indexor_updateAll hindex
  | removeBatch gone =>
    by_cases hnil : gone = []
    · subst hnil
      have hsame : table.apply env (.removeBatch []) = table := by
        rw [IndexedTable.apply, IndexStep.rowsAfter]
        simp only [List.map_nil, List.not_mem_nil, not_false_eq_true, decide_true, List.filter_true]
        rfl
      refine ⟨fun _ => hsame.symm ▸ h, fun _ => ?_⟩
      simp [IndexStep.Keeps]
    · refine h.removeBatch hcommitted hnil ?_ rfl
      rw [IndexedTable.indexor, IndexedTable.apply, IndexStep.storeAfter, IndexorStore.removeTableRowsBatch,
        if_neg (by simpa using hnil)]
      exact indexor_updateAll hindex
  | bootstrap => exact h.bootstrap (indexor_updateAll hindex) rfl

/-! ## Runs -/

theorem refsBy_encodedKey_iff (hnodup : (rows.map Prod.fst).Nodup) (key : KeyTuple) :
    refsBy (encodedKey env index coding) rows (coding.encodeKey env.prims key) =
        refsBy (indexValueTuple index) rows key ↔
      ∀ row ∈ rows, encodedKey env index coding row.2 = coding.encodeKey env.prims key →
        indexValueTuple index row.2 = key := by
  constructor
  · intro h row hrow hsame
    have hmem : row.1 ∈ refsBy (indexValueTuple index) rows key := h ▸ mem_refsBy.mpr ⟨row, hrow, hsame, rfl⟩
    exact keyOf_eq_of_mem_refsBy hnodup hrow hmem
  · intro h
    ext rowRef
    rw [mem_refsBy, mem_refsBy]
    constructor
    · rintro ⟨row, hrow, hsame, hid⟩
      exact ⟨row, hrow, h row hrow hsame, hid⟩
    · rintro ⟨row, hrow, hkey, hid⟩
      exact ⟨row, hrow, by rw [encodedKey, hkey], hid⟩

/-- Along a run of committed steps an index answers every lookup with the references of the live rows whose keys are
encoded like the given one, if and only if every step meets the condition. Then the answer is the rows with the very
key if no other live row has a key that is encoded like it. -/
theorem index_answers_iff (env : IndexEnv) (index : DatabaseIndex) (hindex : index ∈ env.table.derivedIndexes)
    (steps : List IndexStep)
    (hcommitted : Along (IndexedTable.apply env) IndexStep.Committed .empty steps) :
    ((∀ n, (runFrom (IndexedTable.apply env) .empty (steps.take n)).Answers env index) ↔
        Along (IndexedTable.apply env) (IndexStep.Keeps env index) .empty steps) ∧
      ∀ n key, let table := runFrom (IndexedTable.apply env) .empty (steps.take n)
        table.Answers env index →
          ((table.indexor index).rowRefsForKey env.prims key = refsBy (indexValueTuple index) table.rows key ↔
            ∀ row ∈ table.rows, encodedKey env index (table.coding index) row.2 =
              (table.coding index).encodeKey env.prims key → indexValueTuple index row.2 = key) := by
  refine ⟨Along.forall_take_iff (fun table step hstep h => h.apply hindex hstep) (fun table h => h.answers) hcommitted
    coherent_empty, fun n key => ?_⟩
  intro table hanswers
  have hnodup : (table.rows.map Prod.fst).Nodup :=
    (hcommitted.take n).invariant (I := fun table => (table.rows.map Prod.fst).Nodup)
      (fun table step hstep h => hstep.nodup h) List.nodup_nil
  rw [hanswers.rowRefs key]
  exact refsBy_encodedKey_iff hnodup key

def noteEnv (kind : DatabaseIndexKind) : IndexEnv where
  table := ⟨"t", ⟨[⟨1, "note", .text, true, .indexed, none, none⟩]⟩, [⟨"i", kind, .userDefined, ["note"], ""⟩], by simp⟩
  prims := .plain
  originalSqlType := fun _ => none

def noteIndex (kind : DatabaseIndexKind) : DatabaseIndex := ⟨"i", kind, .userDefined, ["note"], ""⟩

def note (text : String) : RowMap := (∅ : RowMap).insert "note" (utf8Bytes text)

def sharedKeySteps : List IndexStep :=
  [.mutate .insert 1 (note "a") none, .recordBatch 2 [note "a"], .mutate .delete 3 (note "a") (some 1)]

theorem shared_key_answered : noteIndex .indexed ∈ (noteEnv .indexed).table.derivedIndexes ∧
    ∀ n, (runFrom (IndexedTable.apply (noteEnv .indexed)) .empty (sharedKeySteps.take n)).Answers (noteEnv .indexed)
      (noteIndex .indexed) := by
  have hindex : noteIndex .indexed ∈ (noteEnv .indexed).table.derivedIndexes := by decide +kernel
  refine ⟨hindex, (index_answers_iff (noteEnv .indexed) (noteIndex .indexed) hindex sharedKeySteps
    ⟨List.not_mem_nil, ?_, ⟨1, rfl, ?_⟩, trivial⟩).1.mpr ⟨⟨?_, ?_⟩, ⟨?_, ?_⟩, ⟨?_, ?_⟩, trivial⟩⟩
  · change (([(1, note "a")] ++ numberRows 2 [note "a"]).map Prod.fst).Nodup
    decide +kernel
  all_goals decide +kernel

/-- A batch that deletes one of two rows with a key takes out both. After a restart a unique index has one of the
rows `a` and `A`. -/
theorem rows_lost_from_index :
    let removed : List IndexStep := [.recordBatch 1 [note "a", note "a"], .removeBatch [(1, note "a")]]
    let restarted : List IndexStep := [.mutate .insert 1 (note "a") none, .mutate .insert 2 (note "A") none, .bootstrap]
    let removedTable := runFrom (IndexedTable.apply (noteEnv .indexed)) .empty removed
    let restartedTable := runFrom (IndexedTable.apply (noteEnv .unique)) .empty restarted
    Along (IndexedTable.apply (noteEnv .indexed)) IndexStep.Committed .empty removed ∧
      removedTable.rows = [(2, note "a")] ∧
      (removedTable.indexor (noteIndex .indexed)).rowRefsForKey .plain [utf8Bytes "a"] = ∅ ∧
      Along (IndexedTable.apply (noteEnv .unique)) IndexStep.Committed .empty restarted ∧
      restartedTable.rows = [(1, note "a"), (2, note "A")] ∧
      (restartedTable.indexor (noteIndex .unique)).rowRefsForKey .plain [utf8Bytes "a"] = {2} := by
  refine ⟨⟨?_, ?_, trivial⟩, ?_, ?_, ⟨List.not_mem_nil, ?_, trivial, trivial⟩, ?_, ?_⟩
  · change (([] ++ numberRows 1 [note "a", note "a"]).map Prod.fst).Nodup
    decide +kernel
  · change ∀ row ∈ [(1, note "a")], row ∈ ([] ++ numberRows 1 [note "a", note "a"])
    decide +kernel
  · decide +kernel
  · decide +kernel
  · change (2 : UInt64) ∉ [1]
    decide
  · decide +kernel
  · decide +kernel

/-! ## Batches and single rows -/

/-- Every key is kept in one of the forms of postings, and a unique index has one reference for a key. -/
structure Sound (state : RuntimeIndexState) : Prop where
  posted : ∀ key, Posted state key (state.rowRefsForKey key)
  single : state.isUniqueKey = true → ∀ key, (state.rowRefsForKey key).card ≤ 1

theorem Coherent.sound (h : Coherent env index table) (hne : table.rows ≠ []) : Sound (table.indexor index).state := by
  have hrefs : ∀ key, (table.indexor index).state.rowRefsForKey key =
      refsBy (encodedKey env index (table.coding index)) table.rows key := by
    refine fun key => (h.posted key).rowRefsForKey_eq fun hunique => ?_
    rw [h.definition hne] at hunique
    exact h.indexable.card_le hunique key
  refine ⟨fun key => hrefs key ▸ h.posted key, fun hunique key => ?_⟩
  rw [RuntimeIndexState.isUniqueKey, h.definition hne] at hunique
  rw [hrefs key]
  exact h.indexable.card_le hunique key

/-- A batch takes away the own references of its rows and nothing else, if and only if all references of their keys
are its own. -/
theorem batch_removes_own_references_iff (env : IndexEnv) (index : DatabaseIndex)
    (hindex : index ∈ env.table.derivedIndexes) (store : IndexorStore)
    (hsound : Sound (IndexorStore.indexor store index.indexId).state) (gone : List (UInt64 × RowMap)) :
    let indexor := IndexorStore.indexor store index.indexId
    let after := IndexorStore.indexor (IndexorStore.removeTableRowsBatch env store (gone.map Prod.snd)) index.indexId
    let keyOf := encodedKey env index indexor.coding
    (∀ key, after.rowRefsForKey env.prims key =
        indexor.rowRefsForKey env.prims key \ refsBy keyOf gone (indexor.coding.encodeKey env.prims key)) ↔
      ∀ row ∈ gone, ∀ rowRef ∈ indexor.rowRefsForKey env.prims (indexValueTuple index row.2),
        ∃ other ∈ gone, other.1 = rowRef ∧ keyOf other.2 = keyOf row.2 := by
  intro indexor after keyOf
  have hafter : after = indexor.removeRows env.prims index (gone.map Prod.snd) := by
    by_cases hnil : gone = []
    · subst hnil
      rfl
    · have hrows : gone.map Prod.snd ≠ [] := by simpa using hnil
      have hstore : IndexorStore.removeTableRowsBatch env store (gone.map Prod.snd) = IndexorStore.updateAll env store
          fun index indexor => indexor.removeRows env.prims index (gone.map Prod.snd) := if_neg hrows
      exact (congrArg (IndexorStore.indexor · index.indexId) hstore).trans (indexor_updateAll hindex)
  have hrefs : ∀ key, after.rowRefsForKey env.prims key =
      if indexor.coding.encodeKey env.prims key ∈ (gone.map Prod.snd).map keyOf then ∅
      else indexor.rowRefsForKey env.prims key := by
    intro key
    rw [hafter, Indexor.rowRefsForKey, coding_removeRows]
    refine (posted_removeRows hsound.posted hsound.single _ _).rowRefsForKey_eq fun hunique => ?_
    rw [index_removeRows] at hunique
    split
    · exact Nat.zero_le _
    · exact card_rowRefsForKey_le _ hunique _
  constructor
  · intro h row hrow rowRef hmem
    have hgone : keyOf row.2 ∈ (gone.map Prod.snd).map keyOf := List.mem_map_of_mem (List.mem_map_of_mem hrow)
    have hkey := ((hrefs (indexValueTuple index row.2)).trans (if_pos hgone)).symm.trans
      (h (indexValueTuple index row.2))
    have hown : rowRef ∈ refsBy keyOf gone (keyOf row.2) := by
      by_contra hnot
      exact Finset.notMem_empty _ (hkey ▸ Finset.mem_sdiff.mpr ⟨hmem, hnot⟩)
    obtain ⟨other, hother, hsame, rfl⟩ := mem_refsBy.mp hown
    exact ⟨other, hother, rfl, hsame⟩
  · intro h key
    rw [hrefs]
    split
    · rename_i hkey
      obtain ⟨_, hrows, hkey⟩ := List.mem_map.mp hkey
      obtain ⟨row, hrow, rfl⟩ := List.mem_map.mp hrows
      refine (Finset.sdiff_eq_empty_iff_subset.mpr fun rowRef hmem => ?_).symm
      rw [Indexor.rowRefsForKey, ← hkey] at hmem
      obtain ⟨other, hother, rfl, hsame⟩ := h row hrow rowRef hmem
      exact mem_refsBy.mpr ⟨other, hother, hsame.trans hkey, rfl⟩
    · rename_i hkey
      refine (Finset.sdiff_eq_self_of_disjoint (Finset.disjoint_right.mpr fun rowRef hown => ?_)).symm
      obtain ⟨other, hother, hsame, -⟩ := mem_refsBy.mp hown
      exact absurd (hsame ▸ List.mem_map_of_mem (List.mem_map_of_mem hother)) hkey

def twoNotes (first second : String) : IndexorStore :=
  IndexorStore.recordTableRowsBatchWithFirstRowRef (noteEnv .indexed) ∅ 1 [note first, note second]

theorem own_reference_removed :
    let indexor := IndexorStore.indexor (twoNotes "a" "b") (noteIndex .indexed).indexId
    let after := IndexorStore.indexor
      (IndexorStore.removeTableRowsBatch (noteEnv .indexed) (twoNotes "a" "b") ([(1, note "a")].map Prod.snd))
      (noteIndex .indexed).indexId
    ∀ key, after.rowRefsForKey .plain key = indexor.rowRefsForKey .plain key \
      refsBy (encodedKey (noteEnv .indexed) (noteIndex .indexed) indexor.coding) [(1, note "a")]
        (indexor.coding.encodeKey .plain key) := by
  have hempty : Coherent (noteEnv .indexed) (noteIndex .indexed) .empty := coherent_empty
  have hindex : noteIndex .indexed ∈ (noteEnv .indexed).table.derivedIndexes := by decide +kernel
  have hcommitted : (IndexStep.recordBatch 1 [note "a", note "b"]).Committed .empty := by
    change (([] ++ numberRows 1 [note "a", note "b"]).map Prod.fst).Nodup
    decide +kernel
  have hkeeps : (IndexStep.recordBatch 1 [note "a", note "b"]).Keeps
      (noteEnv .indexed) (noteIndex .indexed) .empty := by
    change Indexable _ _ (IndexedTable.coding (noteIndex .indexed) .empty) ([] ++ numberRows 1 [note "a", note "b"])
    exact ⟨by decide +kernel, fun hunique => absurd hunique (by decide)⟩
  have hsound : Sound (IndexorStore.indexor (twoNotes "a" "b") (noteIndex .indexed).indexId).state :=
    ((hempty.apply hindex hcommitted).1 hkeeps).sound (List.cons_ne_nil _ _)
  refine (batch_removes_own_references_iff (noteEnv .indexed) (noteIndex .indexed) hindex (twoNotes "a" "b")
    hsound [(1, note "a")]).mpr ?_
  intro row hrow
  obtain rfl := List.mem_singleton.mp hrow
  have hrefs : (IndexorStore.indexor (twoNotes "a" "b") (noteIndex .indexed).indexId).rowRefsForKey
      (noteEnv .indexed).prims (indexValueTuple (noteIndex .indexed) (note "a")) = {1} := by
    decide +kernel
  intro rowRef hmem
  rw [hrefs] at hmem
  exact ⟨_, List.mem_singleton_self _, (Finset.mem_singleton.mp hmem).symm, rfl⟩

/-- The row 2 is not found any more after the row 1 with the same key is removed in a batch. -/
theorem shared_key_removed :
    (IndexorStore.indexor (twoNotes "a" "a") "i").rowRefsForKey .plain [utf8Bytes "a"] = {1, 2} ∧
      (IndexorStore.indexor (IndexorStore.removeTableRowsBatch (noteEnv .indexed) (twoNotes "a" "a") [note "a"])
        "i").rowRefsForKey .plain [utf8Bytes "a"] = ∅ := by
  decide +kernel

end DistDb.Indexing
