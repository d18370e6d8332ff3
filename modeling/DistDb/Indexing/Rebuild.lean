import DistDb.Indexing.State

/-! # Rebuilt and incremental indexes

A rebuild writes the groups of references under one raw key as wholes, an insertion adds one reference to what the
encoded key has. -/

namespace DistDb.Indexing
open Lib NonZeroU64

namespace Slot

def addGroup (slot : Slot) (rowRefs : List UInt64) : Slot :=
  if slot.entry.isNone then slot
  else if rowRefs.length = 1 then { slot with entry := some (rowRefs.head?.bind pack) }
  else
    { slot with
      postings := (rowRefs.filterMap pack).foldl
        (fun postings rowRef => some ((postings.getD {}).insertUniqueSorted rowRef)) slot.postings }

end Slot

namespace PagedIndexState

variable (prims : ValuePrimitives) (state : PagedIndexState)

def enterKeys (stored : KeyTuple → Option NonZeroU64) (entries : List KeyTuple) : PagedIndexState :=
  entries.foldl (fun entered key => withSlot entered (state.encodeKey prims key) ⟨some (stored key), none⟩)
    { state with entries := ∅, nonUniqueRowRefs := ∅ }

def addGroup (group : KeyTuple × List UInt64) : PagedIndexState :=
  state.withSlot (state.encodeKey prims group.1) ((state.slotAt (state.encodeKey prims group.1)).addGroup group.2)

def enterGroups (entries : List KeyTuple) (groups : List (KeyTuple × List UInt64)) : PagedIndexState :=
  if state.answersUnique then
    state.enterKeys prims (fun key => (groups.find? (·.1 = key)).bind fun group => group.2.head?.bind pack) entries
  else groups.foldl (addGroup prims) (state.enterKeys prims (fun _ => none) entries)

/-- The order of the keys and of the groups is that of hash tables. -/
def rebuildWithRowRefs (entries : List KeyTuple) (rowRefs : List (KeyTuple × List UInt64)) : PagedIndexState :=
  let rebuilt := state.enterGroups prims entries (rowRefs.filter fun group => group.1 ∈ entries)
  { rebuilt with orderedEntryKeys := rebuilt.coding.numericKind.map fun _ => rebuilt.entries.keys }

def insertPairs (pairs : List (KeyTuple × UInt64)) : PagedIndexState :=
  pairs.foldl (fun state pair => state.insertWithRowRef prims pair.1 (some pair.2)) state

/-- No lookup tells the states apart. -/
structure SameAnswers (left right : PagedIndexState) : Prop where
  rowRefs : ∀ key limit, left.rowRefsForKey prims key limit = right.rowRefsForKey prims key limit
  count : ∀ key, left.rowRefCountForKey prims key = right.rowRefCountForKey prims key
  range : ∀ lower upper limit, left.rowRefsForKeyRange prims lower upper limit =
    right.rowRefsForKeyRange prims lower upper limit

end PagedIndexState

/-! ## Lists of references -/

inductive Listed : Slot → List NonZeroU64 → Prop
  | single (rowRef : NonZeroU64) (postings : Option PostingPages) : Listed ⟨some (some rowRef), postings⟩ [rowRef]
  | posted {postings : Option PostingPages} {rowRefs : List NonZeroU64} (holds : (postings.getD {}).Holds rowRefs) :
      Listed ⟨some none, postings⟩ rowRefs

namespace Listed

variable {slot slot' : Slot} {rowRefs rowRefs' : List NonZeroU64}

theorem sorted (h : Listed slot rowRefs) : rowRefs.Pairwise (rank · < rank ·) := by
  cases h with
  | single rowRef postings => exact List.pairwise_singleton ..
  | posted holds => exact holds.sorted

theorem ext (h : Listed slot rowRefs) (h' : Listed slot' rowRefs') (heq : rowRefs.toFinset = rowRefs'.toFinset) :
    rowRefs = rowRefs' := by
  have hnodup : ∀ {slot rowRefs}, Listed slot rowRefs → rowRefs.Nodup := fun h =>
    h.sorted.imp fun hlt heq => by simp [heq] at hlt
  refine (List.perm_of_nodup_nodup_toFinset_eq (hnodup h) (hnodup h') heq).eq_of_pairwise ?_ h.sorted h'.sorted
  intro a b _ _ hab hba
  omega

theorem insert (h : Listed slot rowRefs) (rowRef : Option NonZeroU64) :
    ∃ rowRefs', Listed (slot.insertWithRowRef false rowRef) rowRefs' ∧
      rowRefs'.toFinset = rowRefs.toFinset ∪ rowRef.toFinset := by
  cases rowRef with
  | none =>
    refine ⟨rowRefs, ?_, by simp⟩
    cases h with
    | single rowRef postings => exact single rowRef postings
    | posted holds => exact posted holds
  | some rowRef =>
    cases h with
    | single existing postings =>
      by_cases heq : existing = rowRef
      · subst heq
        exact ⟨[existing], by simpa [Slot.insertWithRowRef] using single existing postings, by simp⟩
      · obtain ⟨rowRefs', holds, hset⟩ := (PostingPages.Holds.single existing).insert rowRef
        refine ⟨rowRefs', ?_, by simp [hset, Finset.union_comm]⟩
        simp only [Slot.insertWithRowRef, heq]
        exact posted holds
    | posted holds =>
      obtain ⟨rowRefs', holds', hset⟩ := holds.insert rowRef
      exact ⟨rowRefs', posted holds', by rw [hset, Finset.union_comm]; rfl⟩

theorem insertAll : ∀ (more : List (Option NonZeroU64)) {slot : Slot} {rowRefs : List NonZeroU64}, Listed slot rowRefs →
    ∃ rowRefs', Listed (more.foldl (Slot.insertWithRowRef · false) slot) rowRefs' ∧
      rowRefs'.toFinset = rowRefs.toFinset ∪ (more.filterMap id).toFinset
  | [], _, _, h => ⟨_, h, by simp⟩
  | rowRef :: more, _, _, h => by
    obtain ⟨grown, hgrown, hset⟩ := h.insert rowRef
    obtain ⟨rowRefs', hlisted, hset'⟩ := insertAll more hgrown
    refine ⟨rowRefs', hlisted, ?_⟩
    cases rowRef <;> simp [hset', hset]

theorem first (rowRef : Option NonZeroU64) :
    Listed (Slot.insertWithRowRef ⟨none, none⟩ false rowRef) rowRef.toList := by
  cases rowRef with
  | none => exact posted .empty
  | some rowRef => exact single rowRef none

theorem rowRefs_eq (h : Listed slot rowRefs) (limit : Option ℕ) : slot.rowRefs false limit =
    if rowRefs.length = 1 then rowRefs.map unpack
    else limit.elim (rowRefs.map unpack) (rowRefs.map unpack).take := by
  cases h with
  | single rowRef postings => rfl
  | @posted postings _ holds =>
    rw [← holds.appendRowRefs_nil]
    cases postings <;> rfl

theorem rowRefCount_eq (h : Listed slot rowRefs) :
    slot.rowRefCount = if rowRefs.length = 0 then none else some rowRefs.length := by
  cases h with
  | single rowRef postings => rfl
  | @posted postings _ holds =>
    rw [← holds.len_eq]
    cases postings with
    | none => rfl
    | some postings => by_cases hlen : postings.len = 0 <;> simp [Slot.rowRefCount, Option.filter, hlen]

theorem collect_eq (h : Listed slot rowRefs) (given : List UInt64) :
    slot.collect given = given ++ rowRefs.map unpack := by
  cases h with
  | single rowRef postings => rfl
  | @posted postings _ holds =>
    rw [← holds.appendRowRefs_none]
    cases postings <;> rfl

end Listed

theorem Slot.rowRefs_entry (packed : Option NonZeroU64) (unique : Bool) :
    Slot.rowRefs ⟨some packed, none⟩ unique none = packed.toList.map unpack := by
  cases packed <;> cases unique <;> rfl

structure Slot.Agrees (unique : Bool) (slot slot' : Slot) : Prop where
  rowRefs : ∀ limit, slot.rowRefs unique limit = slot'.rowRefs unique limit
  count : slot.rowRefCount = slot'.rowRefCount
  collect : ∀ given, slot.collect given = slot'.collect given
  isSome : slot.entry.isSome = slot'.entry.isSome

theorem Listed.agrees {slot slot' : Slot} {rowRefs : List NonZeroU64} (h : Listed slot rowRefs)
    (h' : Listed slot' rowRefs) : slot.Agrees false slot' where
  rowRefs limit := by rw [h.rowRefs_eq, h'.rowRefs_eq]
  count := by rw [h.rowRefCount_eq, h'.rowRefCount_eq]
  collect given := by rw [h.collect_eq, h'.collect_eq]
  isSome := by cases h <;> cases h' <;> rfl

/-! ## Groups -/

structure Stored (slot : Slot) (last : Option NonZeroU64) (rowRefs : List NonZeroU64) : Prop where
  entry : slot.entry = some last
  holds : (slot.postings.getD {}).Holds rowRefs

namespace Stored

variable {slot : Slot} {last : Option NonZeroU64} {rowRefs : List NonZeroU64} {group : List UInt64}

theorem listed (h : Stored slot last rowRefs) : Listed slot (last.elim rowRefs ([·])) := by
  obtain ⟨entry, postings⟩ := slot
  obtain ⟨rfl, holds⟩ := h
  cases last with
  | none => exact .posted holds
  | some rowRef => exact .single rowRef postings

theorem addSingle (h : Stored slot last rowRefs) (rowRef : UInt64) :
    Stored (slot.addGroup [rowRef]) (pack rowRef) rowRefs := by
  simp only [Slot.addGroup, h.entry]
  exact ⟨rfl, h.holds⟩

theorem addSeveral (h : Stored slot last rowRefs) (hlength : group.length ≠ 1) :
    ∃ rowRefs', Stored (slot.addGroup group) last rowRefs' ∧
      rowRefs'.toFinset = rowRefs.toFinset ∪ (group.filterMap pack).toFinset := by
  have hfold : ∀ (more : List NonZeroU64) (postings : Option PostingPages),
      (more.foldl (fun postings rowRef => some ((postings.getD {}).insertUniqueSorted rowRef)) postings).getD {} =
        more.foldl PostingPages.insertUniqueSorted (postings.getD {}) := by
    intro more
    induction more with
    | nil => exact fun _ => rfl
    | cons rowRef more ih => exact fun postings => ih _
  obtain ⟨rowRefs', holds, hset⟩ := h.holds.insertAll (group.filterMap pack)
  refine ⟨rowRefs', ?_, hset⟩
  simp only [Slot.addGroup, h.entry, hlength]
  exact ⟨rfl, by rwa [← hfold] at holds⟩

theorem addAll : ∀ (groups : List (List UInt64)) {slot : Slot} {rowRefs : List NonZeroU64}, Stored slot none rowRefs →
    (∀ group ∈ groups, group.length = 1 → group.filterMap pack = []) →
    ∃ rowRefs', Stored (groups.foldl Slot.addGroup slot) none rowRefs' ∧
      rowRefs'.toFinset = rowRefs.toFinset ∪ (groups.flatten.filterMap pack).toFinset
  | [], _, _, h, _ => ⟨_, h, by simp⟩
  | group :: groups, slot, rowRefs, h, hsingles => by
    obtain ⟨hfirst, hrest⟩ := List.forall_mem_cons.mp hsingles
    by_cases hone : group.length = 1
    · obtain ⟨rowRef, rfl⟩ := List.length_eq_one_iff.mp hone
      have hnone : pack rowRef = none := by simpa using hfirst rfl
      have hnext := h.addSingle rowRef
      rw [hnone] at hnext
      obtain ⟨rowRefs', hstored, hset⟩ := addAll groups hnext hrest
      exact ⟨rowRefs', hstored, by simp [hset, hnone]⟩
    · obtain ⟨more, hmore, hset⟩ := h.addSeveral hone
      obtain ⟨rowRefs', hstored, hset'⟩ := addAll groups hmore hrest
      refine ⟨rowRefs', hstored, ?_⟩
      rw [hset', hset, List.flatten_cons, List.filterMap_append, List.toFinset_append, Finset.union_assoc]

theorem addAll_subset : ∀ (groups : List (List UInt64)) {slot : Slot} {last : Option NonZeroU64}
    {rowRefs : List NonZeroU64}, Stored slot last rowRefs →
    ∃ last' rowRefs', Stored (groups.foldl Slot.addGroup slot) last' rowRefs' ∧
      ∀ rowRef ∈ rowRefs', rowRef ∈ rowRefs ∨ ∃ group ∈ groups, group.length ≠ 1 ∧ rowRef.unpack ∈ group
  | [], _, _, _, h => ⟨_, _, h, fun _ hmem => .inl hmem⟩
  | group :: groups, slot, last, rowRefs, h => by
    by_cases hone : group.length = 1
    · obtain ⟨rowRef, rfl⟩ := List.length_eq_one_iff.mp hone
      obtain ⟨last', rowRefs', hstored, hsub⟩ := addAll_subset groups (h.addSingle rowRef)
      refine ⟨last', rowRefs', hstored, fun rowRef hmem => ?_⟩
      rcases hsub rowRef hmem with hold | ⟨other, hother, hrest⟩
      · exact .inl hold
      · exact .inr ⟨other, List.mem_cons_of_mem _ hother, hrest⟩
    · obtain ⟨more, hmore, hset⟩ := h.addSeveral hone
      obtain ⟨last', rowRefs', hstored, hsub⟩ := addAll_subset groups hmore
      refine ⟨last', rowRefs', hstored, fun rowRef hmem => ?_⟩
      rcases hsub rowRef hmem with hold | ⟨other, hother, hrest⟩
      · rw [← List.mem_toFinset, hset, Finset.mem_union, List.mem_toFinset, List.mem_toFinset] at hold
        refine hold.imp_right fun hnew => ?_
        obtain ⟨unpacked, hunpacked, hpack⟩ := List.mem_filterMap.mp hnew
        exact ⟨group, List.mem_cons_self, hone, by rwa [← pack_eq_some.mp hpack]⟩
      · exact .inr ⟨other, List.mem_cons_of_mem _ hother, hrest⟩

end Stored

/-! ## States -/

namespace PagedIndexState

variable {prims : ValuePrimitives} {state left right : PagedIndexState} {encoded : Bytes}

theorem slotAt_foldl {ι : Type*} {step : PagedIndexState → ι → PagedIndexState} {keyOf : ι → Bytes}
    (change : ι → Slot → Slot) {I : PagedIndexState → Prop} (hI : ∀ state i, I state → I (step state i))
    (hstep : ∀ state i encoded, I state → (step state i).slotAt encoded =
      if encoded = keyOf i then change i (state.slotAt encoded) else state.slotAt encoded) (encoded : Bytes) :
    ∀ (items : List ι) {state : PagedIndexState}, I state → (items.foldl step state).slotAt encoded =
      (items.filter (keyOf · = encoded)).foldl (fun slot i => change i slot) (state.slotAt encoded)
  | [], _, _ => rfl
  | i :: items, state, h => by
    rw [List.foldl_cons, slotAt_foldl change hI hstep encoded items (hI state i h), hstep state i encoded h,
      List.filter_cons]
    by_cases heq : keyOf i = encoded
    · simp [heq]
    · simp [heq, Ne.symm heq]

theorem sameAnswers_of_agrees (hindex : left.index = right.index) (hcoding : left.coding = right.coding)
    (hleft : left.Ordered) (hright : right.Ordered)
    (h : ∀ encoded, (left.slotAt encoded).Agrees left.answersUnique (right.slotAt encoded)) :
    SameAnswers prims left right := by
  have hunique : right.answersUnique = left.answersUnique := by rw [answersUnique, answersUnique, hindex]
  have hencode : ∀ key, right.encodeKey prims key = left.encodeKey prims key := by
    intro key
    rw [encodeKey, encodeKey, hcoding]
  have hkeys : right.orderedKeyList = left.orderedKeyList := by
    unfold orderedKeyList
    congr 1
    ext encoded
    rw [hright.mem_orderedKeys, hleft.mem_orderedKeys, (h encoded).isSome]
  refine ⟨fun key limit => ?_, fun key => ?_, fun lower upper limit => ?_⟩
  · rw [rowRefsForKey, rowRefsForKey, hencode, hunique]
    exact (h _).rowRefs limit
  · rw [rowRefCountForKey, rowRefCountForKey, hencode]
    exact (h _).count
  · have hcollect : (fun rowRefs encoded => (right.slotAt encoded).collect rowRefs) =
        fun rowRefs encoded => (left.slotAt encoded).collect rowRefs := by
      funext rowRefs encoded
      exact ((h encoded).collect rowRefs).symm
    have hcrossed : right.Crossed prims lower upper ↔ left.Crossed prims lower upper := by simp only [Crossed, hencode]
    have hwithin : (fun encoded =>
        decide (right.aboveLower prims lower encoded ∧ right.belowUpper prims upper encoded)) =
        fun encoded => decide (left.aboveLower prims lower encoded ∧ left.belowUpper prims upper encoded) := by
      funext encoded
      exact decide_eq_decide.mpr (by simp only [aboveLower, belowUpper, hencode])
    unfold rowRefsForKeyRange
    rw [hkeys, hcollect, hwithin]
    exact if_congr hcrossed.symm rfl rfl

/-! ### Incremental states -/

theorem slotAt_insertPairs (pairs : List (KeyTuple × UInt64)) (encoded : Bytes) :
    (insertPairs prims state pairs).slotAt encoded =
      (pairs.filter fun pair => state.encodeKey prims pair.1 = encoded).foldl
        (fun slot pair => slot.insertWithRowRef state.changesUnique (pack pair.2)) (state.slotAt encoded) := by
  have hstep : ∀ (other : PagedIndexState) (pair : KeyTuple × UInt64) (encoded : Bytes),
      other.index = state.index ∧ other.coding = state.coding →
      (other.insertWithRowRef prims pair.1 (some pair.2)).slotAt encoded =
        if encoded = state.encodeKey prims pair.1 then
          (other.slotAt encoded).insertWithRowRef state.changesUnique (pack pair.2)
        else other.slotAt encoded := by
    rintro other pair encoded ⟨hindex, hcoding⟩
    have hencode : other.encodeKey prims pair.1 = state.encodeKey prims pair.1 := by rw [encodeKey, encodeKey, hcoding]
    have hunique : other.changesUnique = state.changesUnique := by rw [changesUnique, changesUnique, hindex]
    rw [← hencode, ← hunique]
    refine slotAt_withSlot.trans ?_
    split
    · rename_i heq
      rw [heq]
      rfl
    · rfl
  exact slotAt_foldl (fun pair slot => slot.insertWithRowRef state.changesUnique (pack pair.2))
    (fun other pair h => ⟨h.1, h.2⟩) hstep encoded pairs ⟨rfl, rfl⟩

theorem insertPairs_config (prims : ValuePrimitives) (pairs : List (KeyTuple × UInt64)) (h : state.Ordered) :
    (insertPairs prims state pairs).index = state.index ∧ (insertPairs prims state pairs).coding = state.coding ∧
      (insertPairs prims state pairs).Ordered := by
  induction pairs generalizing state with
  | nil => exact ⟨rfl, rfl, h⟩
  | cons pair pairs ih => exact ih (h.insert pair.1 (some pair.2))

/-! ### Rebuilt states -/

def refsOf (pairs : List (KeyTuple × UInt64)) (key : KeyTuple) : List UInt64 :=
  (pairs.filter (·.1 = key)).map Prod.snd

def rawKeys (pairs : List (KeyTuple × UInt64)) : List KeyTuple := (pairs.map Prod.fst).dedup

def groupsOf (pairs : List (KeyTuple × UInt64)) (order : List KeyTuple) : List (KeyTuple × List UInt64) :=
  order.map fun key => (key, refsOf pairs key)

variable {pairs : List (KeyTuple × UInt64)} {entries order : List KeyTuple} {index : DatabaseIndex} {key : KeyTuple}
  {rowRef : UInt64} (hentries : entries.Perm (rawKeys pairs)) (horder : order.Perm (rawKeys pairs))
  (hnodup : (pairs.map Prod.snd).Nodup)

include hentries horder in
theorem kept_groupsOf : (groupsOf pairs order).filter (fun group => group.1 ∈ entries) = groupsOf pairs order := by
  refine List.filter_eq_self.mpr fun group hgroup => ?_
  obtain ⟨key, hkey, rfl⟩ := List.mem_map.mp hgroup
  exact decide_eq_true ((hentries.trans horder.symm).mem_iff.mpr hkey)

theorem find?_groupsOf (pairs : List (KeyTuple × UInt64)) (hkey : key ∈ order) :
    (groupsOf pairs order).find? (·.1 = key) = some (key, refsOf pairs key) := by
  rw [groupsOf, List.find?_map, Option.map_eq_some_iff]
  refine ⟨key, ?_, rfl⟩
  cases hfound : order.find?
    ((fun group : KeyTuple × List UInt64 => decide (group.1 = key)) ∘ fun key => (key, refsOf pairs key)) with
  | none => simpa using List.find?_eq_none.mp hfound key hkey
  | some found => simpa using List.find?_some hfound

theorem foldl_overwrite {α β : Type*} (value : α → β) (init : β) (items : List α) :
    items.foldl (fun _ item => value item) init = items.getLast?.elim init value := by
  induction items using List.reverseRecOn with
  | nil => rfl
  | append_singleton items item _ => simp

theorem slotAt_enterKeys (stored : KeyTuple → Option NonZeroU64) (entries : List KeyTuple) (encoded : Bytes) :
    (state.enterKeys prims stored entries).slotAt encoded =
      (entries.filter fun key => state.encodeKey prims key = encoded).getLast?.elim ⟨none, none⟩
        fun key => ⟨some (stored key), none⟩ := by
  have hstep : ∀ (other : PagedIndexState) (key : KeyTuple) (encoded : Bytes), True →
      (other.withSlot (state.encodeKey prims key) ⟨some (stored key), none⟩).slotAt encoded =
        if encoded = state.encodeKey prims key then ⟨some (stored key), none⟩ else other.slotAt encoded :=
    fun _ _ _ _ => slotAt_withSlot
  refine (slotAt_foldl (I := fun _ => True) (fun key _ => ⟨some (stored key), none⟩)
    (fun _ _ h => h) hstep encoded entries trivial).trans ?_
  exact foldl_overwrite _ _ _

theorem enterKeys_config (prims : ValuePrimitives) (state : PagedIndexState) (stored : KeyTuple → Option NonZeroU64)
    (entries : List KeyTuple) :
    (state.enterKeys prims stored entries).index = state.index ∧
      (state.enterKeys prims stored entries).coding = state.coding := by
  unfold enterKeys
  induction entries using List.reverseRecOn with
  | nil => exact ⟨rfl, rfl⟩
  | append_singleton entries key ih =>
    rw [List.foldl_append]
    exact ih

theorem addGroups_config (groups : List (KeyTuple × List UInt64)) :
    (groups.foldl (addGroup prims) state).index = state.index ∧
      (groups.foldl (addGroup prims) state).coding = state.coding := by
  induction groups generalizing state with
  | nil => exact ⟨rfl, rfl⟩
  | cons group groups ih => exact ih

theorem slotAt_addGroups (groups : List (KeyTuple × List UInt64)) (encoded : Bytes) :
    (groups.foldl (addGroup prims) state).slotAt encoded =
      (groups.filter fun group => state.encodeKey prims group.1 = encoded).foldl
        (fun slot group => slot.addGroup group.2) (state.slotAt encoded) := by
  have hstep : ∀ (other : PagedIndexState) (group : KeyTuple × List UInt64) (encoded : Bytes),
      other.coding = state.coding → (addGroup prims other group).slotAt encoded =
        if encoded = state.encodeKey prims group.1 then (other.slotAt encoded).addGroup group.2
        else other.slotAt encoded := by
    intro other group encoded hcoding
    have hencode : other.encodeKey prims group.1 = state.encodeKey prims group.1 := by
      rw [encodeKey, encodeKey, hcoding]
    rw [← hencode]
    refine slotAt_withSlot.trans ?_
    split
    · rename_i heq
      rw [heq]
    · rfl
  have hcoding : ∀ (other : PagedIndexState) (group : KeyTuple × List UInt64), other.coding = state.coding →
      (addGroup prims other group).coding = state.coding := fun _ _ h => h
  exact slotAt_foldl (fun group slot => slot.addGroup group.2) hcoding hstep encoded groups rfl

include hentries horder in
theorem slotAt_rebuilt : (state.rebuildWithRowRefs prims entries (groupsOf pairs order)).slotAt encoded =
      (state.enterGroups prims entries (groupsOf pairs order)).slotAt encoded := by
  rw [rebuildWithRowRefs, kept_groupsOf hentries horder]
  rfl

include hentries horder in
theorem slotAt_rebuilt_unique (prims : ValuePrimitives) (hunique : state.answersUnique = true) (encoded : Bytes) :
    (state.rebuildWithRowRefs prims entries (groupsOf pairs order)).slotAt encoded =
      (entries.filter fun key => state.encodeKey prims key = encoded).getLast?.elim ⟨none, none⟩
        fun key => ⟨some ((refsOf pairs key).head?.bind pack), none⟩ := by
  rw [slotAt_rebuilt hentries horder, enterGroups, if_pos hunique, slotAt_enterKeys]
  cases hlast : (entries.filter fun key => state.encodeKey prims key = encoded).getLast? with
  | none => rfl
  | some key =>
    have hmem := (List.mem_filter.mp (List.mem_of_getLast? hlast)).1
    have hfound := find?_groupsOf pairs ((horder.trans hentries.symm).mem_iff.mpr hmem)
    simp [hfound]

include hentries horder in
theorem slotAt_rebuilt_non_unique (hunique : state.answersUnique = false) (encoded : Bytes) :
    (state.rebuildWithRowRefs prims entries (groupsOf pairs order)).slotAt encoded =
      ((order.filter fun key => state.encodeKey prims key = encoded).map (refsOf pairs)).foldl Slot.addGroup
        ⟨if ∃ key ∈ entries, state.encodeKey prims key = encoded then some none else none, none⟩ := by
  have hencode : ∀ key, (state.enterKeys prims (fun _ => none) entries).encodeKey prims key =
    state.encodeKey prims key := by
    intro key
    rw [encodeKey, encodeKey, (enterKeys_config _ _ _ _).2]
  rw [slotAt_rebuilt hentries horder, enterGroups, if_neg (by rw [hunique]; exact Bool.false_ne_true), slotAt_addGroups,
    slotAt_enterKeys, groupsOf, List.filter_map, List.foldl_map, List.foldl_map]
  simp only [hencode]
  congr 1
  split
  · rename_i h
    obtain ⟨key, hkey, heq⟩ := h
    have hmem : key ∈ entries.filter fun key => state.encodeKey prims key = encoded := by simp [hkey, heq]
    rw [List.getLast?_eq_some_getLast (List.ne_nil_of_mem hmem)]
    rfl
  · rename_i h
    rw [List.filter_eq_nil_iff.mpr]
    · rfl
    · intro key hkey heq
      exact h ⟨key, hkey, by simpa using heq⟩

theorem rebuilt_config (prims : ValuePrimitives) (state : PagedIndexState) (entries : List KeyTuple)
    (rowRefs : List (KeyTuple × List UInt64)) :
    (state.rebuildWithRowRefs prims entries rowRefs).index = state.index ∧
      (state.rebuildWithRowRefs prims entries rowRefs).coding = state.coding ∧
      (state.rebuildWithRowRefs prims entries rowRefs).Ordered := by
  have hgroups : ∀ groups, (state.enterGroups prims entries groups).index = state.index ∧
      (state.enterGroups prims entries groups).coding = state.coding := by
    intro groups
    have henter := enterKeys_config prims state (fun _ => none) entries
    unfold enterGroups
    split
    · exact enterKeys_config _ _ _ _
    · exact ⟨(addGroups_config _).1.trans henter.1, (addGroups_config _).2.trans henter.2⟩
  refine ⟨(hgroups _).1, (hgroups _).2, fun keys hkeys => ?_⟩
  obtain ⟨-, -, rfl⟩ := Option.map_eq_some_iff.mp hkeys
  rfl

/-! ## Collisions -/

def pairsAt (prims : ValuePrimitives) (state : PagedIndexState) (pairs : List (KeyTuple × UInt64)) (encoded : Bytes) :
    List (KeyTuple × UInt64) :=
  pairs.filter fun pair => state.encodeKey prims pair.1 = encoded

theorem mem_pairsAt {pair : KeyTuple × UInt64} : pair ∈ pairsAt prims state pairs encoded ↔
    pair ∈ pairs ∧ state.encodeKey prims pair.1 = encoded := by
  rw [pairsAt, List.mem_filter, decide_eq_true_iff]

theorem mem_refsOf : rowRef ∈ refsOf pairs key ↔ (key, rowRef) ∈ pairs := by
  simp [refsOf]

theorem mem_rawKeys : key ∈ rawKeys pairs ↔ ∃ rowRef, (key, rowRef) ∈ pairs := by
  simp [rawKeys]

theorem eq_singleton_of_nodup {α : Type*} {items : List α} {item : α} (hnodup : items.Nodup) (hmem : item ∈ items)
    (hall : ∀ other ∈ items, other = item) : items = [item] := by
  have hreplicate := List.eq_replicate_of_mem hall
  have hlength : items.length = 1 := by
    have hpos := List.length_pos_of_mem hmem
    rw [hreplicate, List.nodup_replicate] at hnodup
    omega
  rw [hreplicate, hlength]
  rfl

theorem perm_last (h : key ∈ rawKeys pairs) : ((rawKeys pairs).erase key ++ [key]).Perm (rawKeys pairs) :=
  (List.perm_append_singleton _ _).trans (List.perm_cons_erase h).symm

include hnodup in
theorem key_eq {key' : KeyTuple} (h : (key, rowRef) ∈ pairs) (h' : (key', rowRef) ∈ pairs) : key = key' :=
  congrArg Prod.fst (List.inj_on_of_nodup_map hnodup h h' rfl)

theorem listed_insertPairs (index : Option DatabaseIndex) (hunique : (start index state.coding).changesUnique = false)
    (h : pairsAt prims state pairs encoded ≠ []) :
    ∃ rowRefs, Listed ((insertPairs prims (start index state.coding) pairs).slotAt encoded) rowRefs ∧
      rowRefs.toFinset = (((pairsAt prims state pairs encoded).map Prod.snd).filterMap pack).toFinset := by
  rw [slotAt_insertPairs, hunique]
  change ∃ rowRefs, Listed ((pairsAt prims state pairs encoded).foldl _ _) rowRefs ∧ _
  cases hpairs : pairsAt prims state pairs encoded with
  | nil => exact absurd hpairs h
  | cons pair rest =>
    obtain ⟨rowRefs, hlisted, hset⟩ := (Listed.first (pack pair.2)).insertAll (rest.map (pack ·.2))
    rw [List.foldl_map] at hlisted
    refine ⟨rowRefs, hlisted, ?_⟩
    rw [hset]
    cases hpack : pack pair.2 <;> simp [hpack, List.filterMap_map]

theorem rowRefs_eq_of_agree {rowRefs rowRefs' : List NonZeroU64}
    (h : left.rowRefsForKey prims key none = right.rowRefsForKey prims key none)
    (hunique : left.answersUnique = false) (hunique' : right.answersUnique = false)
    (hlisted : Listed (left.slotAt (left.encodeKey prims key)) rowRefs)
    (hlisted' : Listed (right.slotAt (right.encodeKey prims key)) rowRefs') : rowRefs = rowRefs' := by
  rw [rowRefsForKey, rowRefsForKey, hunique, hunique', hlisted.rowRefs_eq, hlisted'.rowRefs_eq] at h
  simp only [Option.elim_none, ite_self] at h
  exact unpack_injective.list_map h

/-- The pairs that are rebuilt as they are inserted. Under an encoded key a unique index has one pair at most; in
another index the raw keys with a single reference are alone or have one without a stored form. -/
def Mergeable (prims : ValuePrimitives) (state : PagedIndexState) (pairs : List (KeyTuple × UInt64)) : Prop :=
  if state.answersUnique then (pairs.map fun pair => state.encodeKey prims pair.1).Nodup
  else ∀ pair ∈ pairs, ∀ other ∈ pairs, state.encodeKey prims pair.1 = state.encodeKey prims other.1 →
    pair.1 ≠ other.1 → refsOf pairs pair.1 = [pair.2] → pair.2 = 0xFFFFFFFFFFFFFFFF

def groupsAt (prims : ValuePrimitives) (state : PagedIndexState) (pairs : List (KeyTuple × UInt64))
    (order : List KeyTuple) (encoded : Bytes) : List (List UInt64) :=
  (order.filter fun key => state.encodeKey prims key = encoded).map (refsOf pairs)

include horder in
theorem mem_groupsAt {group : List UInt64} : group ∈ groupsAt prims state pairs order encoded ↔
      ∃ pair ∈ pairsAt prims state pairs encoded, refsOf pairs pair.1 = group := by
  simp only [groupsAt, List.mem_map, List.mem_filter, horder.mem_iff, mem_rawKeys, decide_eq_true_iff, mem_pairsAt,
    Prod.exists]
  constructor
  · rintro ⟨key, ⟨⟨rowRef, hmem⟩, hkey⟩, rfl⟩
    exact ⟨key, rowRef, ⟨hmem, hkey⟩, rfl⟩
  · rintro ⟨key, rowRef, ⟨hmem, hkey⟩, rfl⟩
    exact ⟨key, ⟨⟨rowRef, hmem⟩, hkey⟩, rfl⟩

include horder in
theorem mem_flatten_groupsAt : rowRef ∈ (groupsAt prims state pairs order encoded).flatten ↔
      rowRef ∈ (pairsAt prims state pairs encoded).map Prod.snd := by
  rw [List.mem_flatten, List.mem_map]
  constructor
  · rintro ⟨group, hgroup, hmem⟩
    obtain ⟨pair, hpair, rfl⟩ := (mem_groupsAt horder).mp hgroup
    exact ⟨(pair.1, rowRef), mem_pairsAt.mpr ⟨mem_refsOf.mp hmem, (mem_pairsAt.mp hpair).2⟩, rfl⟩
  · rintro ⟨pair, hpair, rfl⟩
    exact ⟨_, (mem_groupsAt horder).mpr ⟨pair, hpair, rfl⟩, mem_refsOf.mpr (mem_pairsAt.mp hpair).1⟩

include hentries horder in
theorem slotAt_rebuilt_groups (hunique : state.answersUnique = false) (h : pairsAt prims state pairs encoded ≠ []) :
    (state.rebuildWithRowRefs prims entries (groupsOf pairs order)).slotAt encoded =
      (groupsAt prims state pairs order encoded).foldl Slot.addGroup ⟨some none, none⟩ := by
  obtain ⟨pair, hpair⟩ := List.exists_mem_of_ne_nil _ h
  obtain ⟨hmem, hkey⟩ := mem_pairsAt.mp hpair
  have hentry : ∃ key ∈ entries, state.encodeKey prims key = encoded :=
    ⟨pair.1, hentries.mem_iff.mpr (mem_rawKeys.mpr ⟨pair.2, hmem⟩), hkey⟩
  rw [slotAt_rebuilt_non_unique hentries horder hunique, if_pos hentry]
  rfl

theorem stored_start : Stored ⟨some none, none⟩ none [] := ⟨rfl, .empty⟩

include hentries horder in
theorem listed_rebuilt (hunique : state.answersUnique = false) (hmerge : Mergeable prims state pairs)
    (h : pairsAt prims state pairs encoded ≠ []) :
    ∃ rowRefs, Listed ((state.rebuildWithRowRefs prims entries (groupsOf pairs order)).slotAt encoded) rowRefs ∧
      rowRefs.toFinset = (((pairsAt prims state pairs encoded).map Prod.snd).filterMap pack).toFinset := by
  rw [Mergeable, if_neg (by rw [hunique]; exact Bool.false_ne_true)] at hmerge
  rw [slotAt_rebuilt_groups hentries horder hunique h]
  by_cases hsingles : ∀ group ∈ groupsAt prims state pairs order encoded, group.length = 1 → group.filterMap pack = []
  · obtain ⟨rowRefs, hstored, hset⟩ := stored_start.addAll _ hsingles
    refine ⟨rowRefs, hstored.listed, ?_⟩
    rw [hset]
    ext packed
    simp only [List.toFinset_nil, Finset.empty_union, List.mem_toFinset, List.mem_filterMap,
      mem_flatten_groupsAt horder]
  · -- a single reference with a stored form is the only one of its encoded key
    push Not at hsingles
    obtain ⟨group, hgroup, hlength, hpacked⟩ := hsingles
    obtain ⟨pair, hpair, rfl⟩ := (mem_groupsAt horder).mp hgroup
    obtain ⟨rowRef, hrefs⟩ := List.length_eq_one_iff.mp hlength
    obtain rfl : pair.2 = rowRef := by
      simpa [hrefs] using mem_refsOf.mpr (mem_pairsAt.mp hpair).1
    have halone : ∀ other ∈ pairsAt prims state pairs encoded, other.1 = pair.1 := by
      intro other hother
      by_contra hne
      have hmax := hmerge pair (mem_pairsAt.mp hpair).1 other (mem_pairsAt.mp hother).1
        ((mem_pairsAt.mp hpair).2.trans (mem_pairsAt.mp hother).2.symm) (Ne.symm hne) hrefs
      rw [hrefs, hmax] at hpacked
      exact hpacked rfl
    have hkeys : (order.filter fun key => state.encodeKey prims key = encoded) = [pair.1] := by
      obtain ⟨hmem, hkey⟩ := mem_pairsAt.mp hpair
      refine eq_singleton_of_nodup ((horder.nodup_iff.mpr (List.nodup_dedup _)).filter _) ?_ fun key hother => ?_
      · exact List.mem_filter.mpr ⟨horder.mem_iff.mpr (mem_rawKeys.mpr ⟨_, hmem⟩), decide_eq_true hkey⟩
      · obtain ⟨hother, heq⟩ := List.mem_filter.mp hother
        obtain ⟨rowRef, hother⟩ := mem_rawKeys.mp (horder.mem_iff.mp hother)
        exact halone (key, rowRef) (mem_pairsAt.mpr ⟨hother, of_decide_eq_true heq⟩)
    have hgroups : groupsAt prims state pairs order encoded = [[pair.2]] := by
      rw [groupsAt, hkeys, List.map_singleton, hrefs]
    have hall : ∀ rowRef, rowRef ∈ (pairsAt prims state pairs encoded).map Prod.snd ↔ rowRef = pair.2 := by
      intro rowRef
      rw [← mem_flatten_groupsAt horder, hgroups]
      simp
    rw [hgroups]
    refine ⟨_, (stored_start.addSingle pair.2).listed, ?_⟩
    ext packed
    simp only [List.mem_toFinset, List.mem_filterMap, hall, exists_eq_left]
    cases hpack : pack pair.2 <;> simp [eq_comm]

include hentries horder in
theorem agrees_rebuilt (hindex : state.index = some index) (hunique : state.answersUnique = false)
    (hmerge : Mergeable prims state pairs) :
    ((state.rebuildWithRowRefs prims entries (groupsOf pairs order)).slotAt encoded).Agrees false
      ((insertPairs prims (start state.index state.coding) pairs).slotAt encoded) := by
  have hchanges : (start state.index state.coding).changesUnique = false := by
    rw [answersUnique, hindex] at hunique
    rwa [changesUnique, start, hindex]
  by_cases hpairs : pairsAt prims state pairs encoded = []
  · have hkeys : ∀ {keys : List KeyTuple}, keys.Perm (rawKeys pairs) →
      ∀ key ∈ keys, state.encodeKey prims key ≠ encoded := by
      intro keys hkeys key hkey heq
      obtain ⟨rowRef, hmem⟩ := mem_rawKeys.mp (hkeys.mem_iff.mp hkey)
      exact List.eq_nil_iff_forall_not_mem.mp hpairs (key, rowRef) (mem_pairsAt.mpr ⟨hmem, heq⟩)
    have hnone : ¬ ∃ key ∈ entries, state.encodeKey prims key = encoded := fun ⟨key, hkey, heq⟩ =>
      hkeys hentries key hkey heq
    have hgroups : (order.filter fun key => state.encodeKey prims key = encoded) = [] :=
      List.filter_eq_nil_iff.mpr fun key hkey heq => hkeys horder key hkey (of_decide_eq_true heq)
    rw [slotAt_rebuilt_non_unique hentries horder hunique, if_neg hnone, hgroups, slotAt_insertPairs]
    change Slot.Agrees false ⟨none, none⟩ ((pairsAt prims state pairs encoded).foldl _ _)
    rw [hpairs]
    exact ⟨fun _ => rfl, rfl, fun _ => rfl, rfl⟩
  · obtain ⟨rowRefs, hlisted, hset⟩ := listed_rebuilt hentries horder hunique hmerge hpairs
    obtain ⟨rowRefs', hlisted', hset'⟩ := listed_insertPairs state.index hchanges hpairs
    rw [hlisted.ext hlisted' (hset.trans hset'.symm)] at hlisted
    exact hlisted.agrees hlisted'

theorem groupsAt_last (h : state.encodeKey prims key = encoded) :
    groupsAt prims state pairs (order ++ [key]) encoded = groupsAt prims state pairs order encoded ++
    [refsOf pairs key] := by
  simp [groupsAt, h]

include hnodup in
theorem nodup_refsOf (key : KeyTuple) : (refsOf pairs key).Nodup :=
  hnodup.sublist (List.filter_sublist.map _)

include hnodup in
theorem mergeable_of_same (hindex : state.index = some index) (hunique : state.answersUnique = false)
    (h : ∀ order, order.Perm (rawKeys pairs) →
      SameAnswers prims (state.rebuildWithRowRefs prims (rawKeys pairs) (groupsOf pairs order))
        (insertPairs prims (start state.index state.coding) pairs)) : Mergeable prims state pairs := by
  rw [Mergeable, if_neg (by rw [hunique]; exact Bool.false_ne_true)]
  intro pair hpair other hother hkey hne hrefs
  by_contra hmax
  obtain ⟨packed, hpacked⟩ := Option.ne_none_iff_exists'.mp (mt pack_eq_none.mp hmax)
  have hchanges : (start state.index state.coding).changesUnique = false := by
    rw [answersUnique, hindex] at hunique
    rwa [changesUnique, start, hindex]
  have hat : pair ∈ pairsAt prims state pairs (state.encodeKey prims pair.1) := mem_pairsAt.mpr ⟨hpair, rfl⟩
  have hotherAt : other ∈ pairsAt prims state pairs (state.encodeKey prims pair.1) :=
    mem_pairsAt.mpr ⟨hother, hkey.symm⟩
  obtain ⟨shown, hshown, hset⟩ := listed_insertPairs state.index hchanges (List.ne_nil_of_mem hat)
  -- what a rebuild lists is what the insertions list
  have hsame : ∀ {order : List KeyTuple} {rowRefs : List NonZeroU64}, order.Perm (rawKeys pairs) →
      Listed ((groupsAt prims state pairs order (state.encodeKey prims pair.1)).foldl Slot.addGroup ⟨some none, none⟩)
        rowRefs → rowRefs = shown := by
    intro order rowRefs horder hlisted
    obtain ⟨hindex', hcoding', -⟩ := rebuilt_config prims state (rawKeys pairs) (groupsOf pairs order)
    obtain ⟨hindex'', hcoding'', -⟩ := insertPairs_config prims pairs (Ordered.start state.index state.coding)
    refine rowRefs_eq_of_agree ((h order horder).rowRefs pair.1 none) ?_ ?_ ?_ ?_
    · rw [answersUnique, hindex']
      exact hunique
    · rw [answersUnique, hindex'']
      exact hunique
    · rw [encodeKey, hcoding']
      rwa [← slotAt_rebuilt_groups (.refl _) horder hunique (List.ne_nil_of_mem hat)] at hlisted
    · rw [encodeKey, hcoding'']
      exact hshown
  have hlast : shown = [packed] := by
    obtain ⟨_, _, hstored, -⟩ := stored_start.addAll_subset
      (groupsAt prims state pairs ((rawKeys pairs).erase pair.1) (state.encodeKey prims pair.1))
    have hlisted := (hstored.addSingle pair.2).listed
    rw [hpacked, ← hrefs, ← List.foldl_concat Slot.addGroup, ← groupsAt_last rfl] at hlisted
    exact (hsame (perm_last (mem_rawKeys.mpr ⟨_, hpair⟩)) hlisted).symm
  have hothers : ∀ rowRef ∈ refsOf pairs other.1, rowRef = 0xFFFFFFFFFFFFFFFF := by
    intro rowRef hmem
    by_contra hstored
    obtain ⟨found, hfound⟩ := Option.ne_none_iff_exists'.mp (mt pack_eq_none.mp hstored)
    have hin : found ∈ shown.toFinset := by
      rw [hset, List.mem_toFinset, List.mem_filterMap]
      exact ⟨rowRef, List.mem_map.mpr ⟨(other.1, rowRef), mem_pairsAt.mpr ⟨mem_refsOf.mp hmem, hkey.symm⟩, rfl⟩, hfound⟩
    have heq : rowRef = pair.2 := by
      rw [hlast, List.mem_toFinset, List.mem_singleton] at hin
      exact pack_injective (by rw [hfound, hpacked, hin])
    exact hne (key_eq hnodup hpair (heq ▸ mem_refsOf.mp hmem))
  have hgroup : refsOf pairs other.1 = [0xFFFFFFFFFFFFFFFF] := by
    have hmem := mem_refsOf.mpr hother
    exact eq_singleton_of_nodup (nodup_refsOf hnodup _) (hothers _ hmem ▸ hmem) hothers
  obtain ⟨_, rowRefs, hstored, hsub⟩ := stored_start.addAll_subset
    (groupsAt prims state pairs ((rawKeys pairs).erase other.1) (state.encodeKey prims pair.1))
  have hlisted := (hstored.addSingle 0xFFFFFFFFFFFFFFFF).listed
  rw [pack_eq_none.mpr rfl, ← hgroup, ← List.foldl_concat Slot.addGroup, ← groupsAt_last hkey.symm, Option.elim_none]
    at hlisted
  have hin : packed ∈ rowRefs := by
    rw [hsame (perm_last (mem_rawKeys.mpr ⟨_, hother⟩)) hlisted, hlast]
    exact List.mem_singleton_self _
  rcases hsub packed hin with hnil | ⟨group, hgroup', hlength, hmem⟩
  · exact List.not_mem_nil hnil
  · obtain ⟨key, -, rfl⟩ := List.mem_map.mp hgroup'
    rw [← pack_eq_some.mp hpacked] at hmem
    rw [← key_eq hnodup hpair (mem_refsOf.mp hmem), hrefs] at hlength
    exact hlength rfl

/-! ### Unique indexes -/

theorem slotAt_insertPairs_unique (prims : ValuePrimitives) (pairs : List (KeyTuple × UInt64))
    (index : Option DatabaseIndex) (hunique : (start index state.coding).changesUnique = true) (encoded : Bytes) :
    (insertPairs prims (start index state.coding) pairs).slotAt encoded =
      (pairsAt prims state pairs encoded).getLast?.elim ⟨none, none⟩ fun pair => ⟨some (pack pair.2), none⟩ := by
  rw [slotAt_insertPairs, hunique]
  change (pairsAt prims state pairs encoded).foldl
    (fun (slot : Slot) pair => ({ slot with entry := some (pack pair.2) } : Slot)) ⟨none, none⟩ = _
  induction pairsAt prims state pairs encoded using List.reverseRecOn with
  | nil => rfl
  | append_singleton pairs pair ih =>
    rw [List.foldl_concat, ih]
    cases pairs.getLast? <;> simp

theorem refsOf_eq_pairsAt (h : state.encodeKey prims key = encoded) :
    refsOf pairs key = ((pairsAt prims state pairs encoded).filter (·.1 = key)).map Prod.snd := by
  rw [refsOf, pairsAt, List.filter_filter]
  congr 2
  funext pair
  by_cases hkey : pair.1 = key
  · simp [hkey, h]
  · simp [hkey]

include hentries horder in
theorem slotAt_rebuilt_eq (hunique : state.answersUnique = true) (hmerge : Mergeable prims state pairs)
    (index : Option DatabaseIndex)
    (hchanges : (start index state.coding).changesUnique = true) (encoded : Bytes) :
    (state.rebuildWithRowRefs prims entries (groupsOf pairs order)).slotAt encoded =
      (insertPairs prims (start index state.coding) pairs).slotAt encoded := by
  rw [Mergeable, if_pos hunique] at hmerge
  have halone : ∀ pair ∈ pairsAt prims state pairs encoded, pairsAt prims state pairs encoded = [pair] := by
    intro pair hpair
    refine eq_singleton_of_nodup (hmerge.of_map.filter _) hpair fun other hother => ?_
    exact List.inj_on_of_nodup_map hmerge (mem_pairsAt.mp hother).1 (mem_pairsAt.mp hpair).1
      ((mem_pairsAt.mp hother).2.trans (mem_pairsAt.mp hpair).2.symm)
  rw [slotAt_rebuilt_unique hentries horder prims hunique, slotAt_insertPairs_unique prims pairs index hchanges]
  cases hlast : (entries.filter fun key => state.encodeKey prims key = encoded).getLast? with
  | none =>
    have hnil : pairsAt prims state pairs encoded = [] := by
      refine List.eq_nil_iff_forall_not_mem.mpr fun pair hpair => ?_
      obtain ⟨hmem, hkey⟩ := mem_pairsAt.mp hpair
      have hentry := hentries.mem_iff.mpr (mem_rawKeys.mpr ⟨pair.2, hmem⟩)
      simpa [hkey] using List.filter_eq_nil_iff.mp (List.getLast?_eq_none_iff.mp hlast) pair.1 hentry
    rw [hnil]
    rfl
  | some key =>
    obtain ⟨hentry, hkey⟩ := List.mem_filter.mp (List.mem_of_getLast? hlast)
    obtain ⟨rowRef, hmem⟩ := mem_rawKeys.mp (hentries.mem_iff.mp hentry)
    have hpairs := halone (key, rowRef) (mem_pairsAt.mpr ⟨hmem, of_decide_eq_true hkey⟩)
    simp [refsOf_eq_pairsAt (of_decide_eq_true hkey), hpairs]

include hnodup in
theorem mergeable_of_same_unique (hunique : state.answersUnique = true)
    (hchanges : (start state.index state.coding).changesUnique = true)
    (h : ∀ entries, entries.Perm (rawKeys pairs) →
      SameAnswers prims (state.rebuildWithRowRefs prims entries (groupsOf pairs (rawKeys pairs)))
        (insertPairs prims (start state.index state.coding) pairs)) : Mergeable prims state pairs := by
  rw [Mergeable, if_pos hunique, List.nodup_iff_count_le_one]
  intro encoded
  have hcount : (pairs.map fun pair => state.encodeKey prims pair.1).count encoded =
      (pairsAt prims state pairs encoded).length := by
    rw [List.count_eq_countP, List.countP_map, List.countP_eq_length_filter]
    simp only [Function.comp_def, beq_eq_decide, pairsAt]
  rw [hcount]
  match hpairs : pairsAt prims state pairs encoded with
  | [] => exact Nat.zero_le _
  | [_] => exact le_rfl
  | first :: second :: rest =>
    exfalso
    obtain ⟨hmem, rfl⟩ := mem_pairsAt.mp (hpairs ▸ List.mem_cons_self : first ∈ pairsAt prims state pairs encoded)
    obtain ⟨hindex', hcoding', -⟩ := rebuilt_config prims state ((rawKeys pairs).erase first.1 ++ [first.1])
      (groupsOf pairs (rawKeys pairs))
    obtain ⟨hindex'', hcoding'', -⟩ := insertPairs_config prims pairs (Ordered.start state.index state.coding)
    have hperm := perm_last (mem_rawKeys.mpr ⟨first.2, hmem⟩)
    have hsame := (h _ hperm).rowRefs first.1 none
    have hrebuilt := slotAt_rebuilt_unique hperm (.refl _) prims hunique (state.encodeKey prims first.1)
    have hinserted := slotAt_insertPairs_unique prims pairs state.index hchanges (state.encodeKey prims first.1)
    have hhead : (refsOf pairs first.1).head? = some first.2 := by
      rw [refsOf_eq_pairsAt rfl, hpairs]
      simp
    rw [List.filter_append] at hrebuilt
    simp only [decide_true, List.filter_cons_of_pos, List.filter_nil, List.getLast?_concat, Option.elim_some, hhead,
      Option.bind_some] at hrebuilt
    rw [hpairs, List.getLast?_cons_cons, List.getLast?_eq_some_getLast (List.cons_ne_nil _ _), Option.elim_some]
      at hinserted
    rw [rowRefsForKey, rowRefsForKey, encodeKey, encodeKey, hcoding', hcoding''] at hsame
    change Slot.rowRefs (slotAt _ (state.encodeKey prims first.1)) _ _ =
      Slot.rowRefs (slotAt _ (state.encodeKey prims first.1)) _ _ at hsame
    rw [hrebuilt, hinserted, Slot.rowRefs_entry, Slot.rowRefs_entry] at hsame
    have heq := pack_injective (by simpa using congrArg List.head? (unpack_injective.list_map hsame))
    have hdistinct : ((pairsAt prims state pairs (state.encodeKey prims first.1)).map Prod.snd).Nodup :=
      hnodup.sublist (List.filter_sublist.map _)
    rw [hpairs, List.map_cons, List.nodup_cons, heq] at hdistinct
    exact hdistinct.1 (List.mem_map_of_mem (List.getLast_mem _))

/-- For every order of the hash tables a rebuilt index answers as one that the pairs are inserted into, if and only
if the pairs can be merged. -/
theorem rebuild_answers_iff (prims : ValuePrimitives) (state : PagedIndexState) {index : DatabaseIndex}
    (hindex : state.index = some index) (pairs : List (KeyTuple × UInt64)) (hnodup : (pairs.map Prod.snd).Nodup) :
    (∀ entries order, entries.Perm (rawKeys pairs) → order.Perm (rawKeys pairs) →
      SameAnswers prims (state.rebuildWithRowRefs prims entries (groupsOf pairs order))
        (insertPairs prims (start state.index state.coding) pairs)) ↔ Mergeable prims state pairs := by
  have hanswers : state.answersUnique = index.isUniqueKey := by rw [answersUnique, hindex]; rfl
  have hchanges : (start state.index state.coding).changesUnique = index.isUniqueKey := by
    rw [changesUnique, start, hindex]
    rfl
  constructor
  · intro h
    cases hunique : index.isUniqueKey with
    | true =>
      exact mergeable_of_same_unique hnodup (hanswers.trans hunique) (hchanges.trans hunique) fun entries hentries =>
        h entries _ hentries (.refl _)
    | false =>
      exact mergeable_of_same hnodup hindex (hanswers.trans hunique) fun order horder => h _ order (.refl _) horder
  · intro hmerge entries order hentries horder
    obtain ⟨hindex', hcoding', hordered⟩ := rebuilt_config prims state entries (groupsOf pairs order)
    obtain ⟨hindex'', hcoding'', hordered'⟩ := insertPairs_config prims pairs
      (Ordered.start state.index state.coding)
    refine sameAnswers_of_agrees (hindex'.trans hindex''.symm) (hcoding'.trans hcoding''.symm) hordered hordered' ?_
    intro encoded
    have hunique' : (state.rebuildWithRowRefs prims entries (groupsOf pairs order)).answersUnique =
      index.isUniqueKey := by
      rw [answersUnique, hindex', hindex]
      rfl
    rw [hunique']
    cases hunique : index.isUniqueKey with
    | true =>
      rw [slotAt_rebuilt_eq hentries horder (hanswers.trans hunique) hmerge state.index (hchanges.trans hunique)]
      exact ⟨fun _ => rfl, rfl, fun _ => rfl, rfl⟩
    | false => exact agrees_rebuilt hentries horder hindex (hanswers.trans hunique) hmerge

def foldedState : PagedIndexState := start (some ⟨"i", .indexed, .userDefined, ["note"], ""⟩) ⟨none, true⟩

def foldedPairs : List (KeyTuple × UInt64) := [([utf8Bytes "a"], 1), ([utf8Bytes "A"], 2)]

theorem shared_key_rebuilt :
    ([([utf8Bytes "a"], (1 : UInt64)), ([utf8Bytes "a"], 2)].map Prod.snd).Nodup ∧
    (∀ entries order, entries.Perm (rawKeys [([utf8Bytes "a"], 1), ([utf8Bytes "a"], 2)]) →
      order.Perm (rawKeys [([utf8Bytes "a"], 1), ([utf8Bytes "a"], 2)]) →
      SameAnswers .plain
        (foldedState.rebuildWithRowRefs .plain entries (groupsOf [([utf8Bytes "a"], 1), ([utf8Bytes "a"], 2)] order))
        (insertPairs .plain (start foldedState.index foldedState.coding)
        [([utf8Bytes "a"], 1), ([utf8Bytes "a"], 2)])) := by
  refine ⟨by decide, (rebuild_answers_iff .plain foldedState rfl _ (by decide)).mpr ?_⟩
  rw [Mergeable, if_neg (by decide)]
  decide +kernel

/-- Of two raw keys that fold together a rebuild keeps the reference of one. -/
theorem folded_keys_rebuilt :
    (foldedState.rebuildWithRowRefs .plain [[utf8Bytes "a"], [utf8Bytes "A"]]
        (groupsOf foldedPairs [[utf8Bytes "a"], [utf8Bytes "A"]])).rowRefsForKey .plain [utf8Bytes "a"] none = [2] ∧
      (insertPairs .plain foldedState foldedPairs).rowRefsForKey .plain [utf8Bytes "a"] none = [1, 2] := by
  decide +kernel

end PagedIndexState

end DistDb.Indexing
