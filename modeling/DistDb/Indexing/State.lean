import DistDb.Indexing.PostingPages
import DistDb.Indexing.Store

/-! # The state of an index

Entries, postings and ordered keys of one index under their encoded keys. The entry and the postings of a key are its
slot. -/

namespace DistDb.Indexing
open Lib NonZeroU64

def entryKeyCodec : Codec KeyTuple := Codec.bytes.vec encode_bytes_ne_nil

/-! ## Slots -/

structure Slot where
  entry : Option (Option NonZeroU64)
  postings : Option PostingPages
  deriving DecidableEq

namespace Slot

variable (slot : Slot)

def insertWithRowRef (unique : Bool) (rowRef : Option NonZeroU64) : Slot :=
  if unique then { slot with entry := some rowRef }
  else
    match rowRef, slot.entry with
    | none, none => { slot with entry := some none }
    | none, some _ => slot
    | some rowRef, none => { slot with entry := some (some rowRef) }
    | some rowRef, some (some existing) =>
      if existing = rowRef then slot
      else ⟨some none, some ((PostingPages.insertUniqueSorted {} existing).insertUniqueSorted rowRef)⟩
    | some rowRef, some none => { slot with postings := some ((slot.postings.getD {}).insertUniqueSorted rowRef) }

def replacePostings (postings : PostingPages) : Slot :=
  match postings.onlyRowRef with
  | some single => ⟨some (some single), none⟩
  | none => if postings.len = 0 then ⟨none, none⟩ else ⟨some none, some postings⟩

def removeWithRowRef (unique : Bool) (rowRef : Option UInt64) : Slot :=
  if unique then { slot with entry := none }
  else
    match slot.entry with
    | none => slot
    | some (some single) => if rowRef.all (pack · = some single) then { slot with entry := none } else slot
    | some none =>
      match rowRef.bind pack, slot.postings with
      | some rowRef, some postings => replacePostings (postings.remove rowRef).1
      | _, _ => ⟨none, none⟩

def postingsOf (rowRefs : List UInt64) : PostingPages :=
  (rowRefs.filterMap pack).foldl PostingPages.insertUniqueSorted {}

def restoreNonUniqueEntry : List UInt64 → Slot
  | [] => { slot with entry := some none }
  | [rowRef] => { slot with entry := some (pack rowRef) }
  | rowRefs =>
    let postings := postingsOf rowRefs
    match postings.onlyRowRef with
    | some single => { slot with entry := some (some single) }
    | none => if postings.len = 0 then { slot with entry := some none } else ⟨some none, some postings⟩

def rowRefs (unique : Bool) (limit : Option ℕ) : List UInt64 :=
  match slot.entry.join with
  | some rowRef => [rowRef.unpack]
  | none => if unique then [] else (slot.postings.map (·.appendRowRefs [] limit)).getD []

def rowRefCount : Option ℕ :=
  match slot.entry with
  | none => none
  | some (some _) => some 1
  | some none => (slot.postings.filter (·.len ≠ 0)).map (·.len)

def collect (rowRefs : List UInt64) : List UInt64 :=
  match slot.entry with
  | none => rowRefs
  | some (some rowRef) => rowRefs ++ [rowRef.unpack]
  | some none => slot.postings.elim rowRefs (·.appendRowRefs rowRefs none)

theorem isSome_insertWithRowRef (unique : Bool) (rowRef : Option NonZeroU64) :
    (slot.insertWithRowRef unique rowRef).entry.isSome = true := by
  unfold insertWithRowRef
  repeat' split
  all_goals simp_all

end Slot

/-! ## States -/

structure RuntimeIndexRangeBound where
  key : KeyTuple
  inclusive : Bool

structure PagedIndexState where
  index : Option DatabaseIndex
  coding : KeyCoding
  entries : Finmap fun _ : Bytes => Option NonZeroU64
  nonUniqueRowRefs : Finmap fun _ : Bytes => PostingPages
  orderedEntryKeys : Option (Finset Bytes)

namespace PagedIndexState

def start (index : Option DatabaseIndex) (coding : KeyCoding) : PagedIndexState :=
  ⟨index, coding, ∅, ∅, coding.numericKind.map fun _ => ∅⟩

variable (prims : ValuePrimitives) (state : PagedIndexState)

def encodeKey (key : KeyTuple) : Bytes := entryKeyCodec.encode (state.coding.encodeKey prims key)

def slotAt (encoded : Bytes) : Slot := ⟨state.entries.lookup encoded, state.nonUniqueRowRefs.lookup encoded⟩

def withSlot (encoded : Bytes) (slot : Slot) : PagedIndexState :=
  { state with
    entries := match slot.entry with
      | some entry => state.entries.insert encoded entry
      | none => state.entries.erase encoded
    nonUniqueRowRefs := match slot.postings with
      | some postings => state.nonUniqueRowRefs.insert encoded postings
      | none => state.nonUniqueRowRefs.erase encoded }

def changesUnique : Bool := state.index.elim true (·.isUniqueKey)

def answersUnique : Bool := state.index.elim false (·.isUniqueKey)

/-- The key is entered into the ordered keys unless its entry was there and a reference is added to it. -/
def insertWithRowRef (key : KeyTuple) (rowRef : Option UInt64) : PagedIndexState :=
  let encoded := state.encodeKey prims key
  let entered := state.changesUnique || (rowRef.bind pack).isNone || (state.entries.lookup encoded).isNone
  { state.withSlot encoded ((state.slotAt encoded).insertWithRowRef state.changesUnique (rowRef.bind pack)) with
    orderedEntryKeys :=
      if entered then state.orderedEntryKeys.map (insert encoded) else state.orderedEntryKeys }

def removeWithRowRef (key : KeyTuple) (rowRef : Option UInt64) : PagedIndexState :=
  let encoded := state.encodeKey prims key
  let slot := (state.slotAt encoded).removeWithRowRef state.changesUnique rowRef
  { state.withSlot encoded slot with
    orderedEntryKeys :=
      if state.changesUnique || (state.entries.lookup encoded).isSome && slot.entry.isNone then
        state.orderedEntryKeys.map (·.erase encoded)
      else state.orderedEntryKeys }

def restoreNonUniqueEntry (key : KeyTuple) (rowRefs : List UInt64) : PagedIndexState :=
  let encoded := state.encodeKey prims key
  { state.withSlot encoded ((state.slotAt encoded).restoreNonUniqueEntry rowRefs) with
    orderedEntryKeys := state.orderedEntryKeys.map (insert encoded) }

def rowRefsForKey (key : KeyTuple) (limit : Option ℕ) : List UInt64 :=
  (state.slotAt (state.encodeKey prims key)).rowRefs state.answersUnique limit

def rowRefCountForKey (key : KeyTuple) : Option ℕ := (state.slotAt (state.encodeKey prims key)).rowRefCount

def orderedKeys : Finset Bytes := state.orderedEntryKeys.getD state.entries.keys

def orderedKeyList : List Bytes := state.orderedKeys.sort (· ≤ ·)

def aboveLower (lower : Option RuntimeIndexRangeBound) (encoded : Bytes) : Prop :=
  ∀ bound ∈ lower, if bound.inclusive then state.encodeKey prims bound.key ≤ encoded
    else state.encodeKey prims bound.key < encoded

def belowUpper (upper : Option RuntimeIndexRangeBound) (encoded : Bytes) : Prop :=
  ∀ bound ∈ upper, if bound.inclusive then encoded ≤ state.encodeKey prims bound.key
    else encoded < state.encodeKey prims bound.key

instance (lower : Option RuntimeIndexRangeBound) (encoded : Bytes) : Decidable (state.aboveLower prims lower encoded) :=
  inferInstanceAs (Decidable (∀ bound ∈ lower, _))

instance (upper : Option RuntimeIndexRangeBound) (encoded : Bytes) : Decidable (state.belowUpper prims upper encoded) :=
  inferInstanceAs (Decidable (∀ bound ∈ upper, _))

def Crossed (lower upper : Option RuntimeIndexRangeBound) : Prop :=
  ∃ low ∈ lower, ∃ up ∈ upper, state.encodeKey prims up.key < state.encodeKey prims low.key ∨
    state.encodeKey prims low.key = state.encodeKey prims up.key ∧ ¬(low.inclusive = true ∧ up.inclusive = true)

instance (lower upper : Option RuntimeIndexRangeBound) : Decidable (state.Crossed prims lower upper) :=
  inferInstanceAs (Decidable (∃ low ∈ lower, ∃ up ∈ upper, _))

/-- The references are sorted by their numbers, whatever the order of their keys. -/
def rowRefsForKeyRange (lower upper : Option RuntimeIndexRangeBound) (limit : Option ℕ) : List UInt64 :=
  if state.Crossed prims lower upper then []
  else
    let keys := state.orderedKeyList.filter fun encoded =>
      decide (state.aboveLower prims lower encoded ∧ state.belowUpper prims upper encoded)
    let collected := keys.foldl (fun rowRefs encoded => (state.slotAt encoded).collect rowRefs) []
    let rowRefs := (collected.insertionSort (· ≤ ·)).dedup
    limit.elim rowRefs rowRefs.take

variable {prims state} {encoded other : Bytes} {slot : Slot}

theorem slotAt_withSlot : (state.withSlot encoded slot).slotAt other =
    if other = encoded then slot else state.slotAt other := by
  obtain ⟨entry, postings⟩ := slot
  unfold slotAt withSlot
  by_cases h : other = encoded
  · subst h
    cases entry <;> cases postings <;> simp
  · cases entry <;> cases postings <;> simp [h, Finmap.lookup_insert_of_ne, Finmap.lookup_erase_ne]

theorem mem_keys : encoded ∈ state.entries.keys ↔ (state.slotAt encoded).entry.isSome = true := by
  rw [Finmap.mem_keys, ← Finmap.lookup_isSome]
  rfl

theorem keys_withSlot_of_isSome (h : slot.entry.isSome = true) :
    (state.withSlot encoded slot).entries.keys = insert encoded state.entries.keys := by
  ext other
  rw [mem_keys, slotAt_withSlot, Finset.mem_insert, mem_keys]
  split <;> simp_all

theorem keys_withSlot_of_isNone (h : slot.entry = none) :
    (state.withSlot encoded slot).entries.keys = state.entries.keys.erase encoded := by
  ext other
  rw [mem_keys, slotAt_withSlot, Finset.mem_erase, mem_keys]
  split <;> simp_all

/-! ## Ordered keys -/

def Ordered (state : PagedIndexState) : Prop := ∀ keys ∈ state.orderedEntryKeys, keys = state.entries.keys

namespace Ordered

theorem start (index : Option DatabaseIndex) (coding : KeyCoding) : (start index coding).Ordered := by
  intro keys hkeys
  obtain ⟨-, -, rfl⟩ := Option.map_eq_some_iff.mp hkeys
  rfl

theorem mem_orderedKeys (h : state.Ordered) :
    encoded ∈ state.orderedKeys ↔ (state.slotAt encoded).entry.isSome = true := by
  have hkeys : state.orderedKeys = state.entries.keys := by
    unfold orderedKeys
    cases hordered : state.orderedEntryKeys with
    | none => rfl
    | some keys => exact h keys hordered
  rw [hkeys, mem_keys]

theorem of_map (h : state.Ordered) {change : Finset Bytes → Finset Bytes} {ordered : Option (Finset Bytes)}
    (hordered : ordered = state.orderedEntryKeys.map change)
    (hkeys : (state.withSlot encoded slot).entries.keys = change state.entries.keys) :
    Ordered { state.withSlot encoded slot with orderedEntryKeys := ordered } := by
  intro keys hmem
  rw [hordered] at hmem
  obtain ⟨before, hbefore, rfl⟩ := Option.map_eq_some_iff.mp hmem
  rw [h before hbefore]
  exact hkeys.symm

theorem of_unchanged (h : state.Ordered) (hentry : (state.slotAt encoded).entry.isSome = slot.entry.isSome) :
    Ordered { state.withSlot encoded slot with orderedEntryKeys := state.orderedEntryKeys } := by
  have hid : state.orderedEntryKeys = state.orderedEntryKeys.map id := by simp
  refine h.of_map hid ?_
  cases hslot : slot.entry with
  | none =>
    rw [hslot] at hentry
    rw [keys_withSlot_of_isNone hslot, id, Finset.erase_eq_self, mem_keys, hentry]
    simp
  | some entry =>
    rw [hslot] at hentry
    rw [keys_withSlot_of_isSome (by rw [hslot]; rfl), id, Finset.insert_eq_self, mem_keys, hentry]
    rfl

theorem insert (h : state.Ordered) (key : KeyTuple) (rowRef : Option UInt64) :
    (state.insertWithRowRef prims key rowRef).Ordered := by
  have hentry := (state.slotAt (state.encodeKey prims key)).isSome_insertWithRowRef state.changesUnique
    (rowRef.bind pack)
  unfold insertWithRowRef
  dsimp only
  split
  · exact h.of_map rfl (keys_withSlot_of_isSome hentry)
  · rename_i hentered
    refine h.of_unchanged ?_
    rw [hentry]
    simp only [Bool.not_eq_true, Bool.or_eq_false_iff, Option.isNone_eq_false_iff] at hentered
    exact hentered.2

theorem remove (h : state.Ordered) (key : KeyTuple) (rowRef : Option UInt64) :
    (state.removeWithRowRef prims key rowRef).Ordered := by
  unfold removeWithRowRef
  dsimp only
  generalize hslot : (state.slotAt (state.encodeKey prims key)).removeWithRowRef state.changesUnique rowRef = slot
  split
  · rename_i hcond
    refine h.of_map rfl (keys_withSlot_of_isNone ?_)
    rw [← hslot]
    rw [Bool.or_eq_true, Bool.and_eq_true] at hcond
    rcases hcond with hunique | hcond
    · rw [Slot.removeWithRowRef, if_pos hunique]
    · rw [hslot]
      simpa using hcond.2
  · rename_i hcond
    refine h.of_unchanged ?_
    simp only [Bool.or_eq_true, Bool.and_eq_true, not_or, not_and, Bool.not_eq_true] at hcond
    change (state.entries.lookup (state.encodeKey prims key)).isSome = _
    cases hentry : state.entries.lookup (state.encodeKey prims key) with
    | none =>
      rw [← hslot, Slot.removeWithRowRef, if_neg (by simp [hcond.1])]
      simp [slotAt, hentry]
    | some entry =>
      have := hcond.2 (by rw [hentry]; rfl)
      simpa using this

theorem restore (h : state.Ordered) (key : KeyTuple) (rowRefs : List UInt64) :
    (state.restoreNonUniqueEntry prims key rowRefs).Ordered := by
  refine h.of_map rfl (keys_withSlot_of_isSome ?_)
  unfold Slot.restoreNonUniqueEntry
  dsimp only
  repeat' split
  all_goals rfl

end Ordered

end PagedIndexState

end DistDb.Indexing
