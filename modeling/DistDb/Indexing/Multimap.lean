import DistDb.Indexing.Postings
import DistDb.Indexing.State

/-! # Index states and multimaps

The slot of a key against the set of references that the changes of the key leave. -/

namespace DistDb.Indexing
open Lib NonZeroU64

inductive KeyChange where
  | insertWithRowRef (rowRef : Option UInt64)
  | removeWithRowRef (rowRef : Option UInt64)
  | restoreNonUniqueEntry (rowRefs : List UInt64)

def Slot.apply (unique : Bool) (slot : Slot) : KeyChange → Slot
  | .insertWithRowRef rowRef => slot.insertWithRowRef unique (rowRef.bind pack)
  | .removeWithRowRef rowRef => slot.removeWithRowRef unique rowRef
  | .restoreNonUniqueEntry rowRefs => slot.restoreNonUniqueEntry rowRefs

def PagedIndexState.apply (prims : ValuePrimitives) (state : PagedIndexState) (key : KeyTuple) :
    KeyChange → PagedIndexState
  | .insertWithRowRef rowRef => state.insertWithRowRef prims key rowRef
  | .removeWithRowRef rowRef => state.removeWithRowRef prims key rowRef
  | .restoreNonUniqueEntry rowRefs => state.restoreNonUniqueEntry prims key rowRefs

/-! ## The multimap -/

def KeyChange.onRefs (unique : Bool) (refs : Finset UInt64) : KeyChange → Finset UInt64
  | .insertWithRowRef rowRef => if unique then rowRef.toFinset else rowRef.toFinset ∪ refs
  | .removeWithRowRef none => ∅
  | .removeWithRowRef (some rowRef) => if unique then ∅ else refs.erase rowRef
  | .restoreNonUniqueEntry rowRefs => rowRefs.toFinset

structure Held where
  refs : Finset UInt64 := ∅
  covers : Bool := false

def Held.apply (unique : Bool) (held : Held) (change : KeyChange) : Held where
  refs := change.onRefs unique held.refs
  covers :=
    match change with
    | .removeWithRowRef _ => held.covers
    | _ => (change.onRefs unique held.refs).card = 1 && (held.covers || decide (2 ≤ held.refs.card))

/-- The changes that a slot follows the multimap in. No entry may be without a reference, and no reference may be the
largest number; a single reference may not go from in front of older ones. -/
def KeyChange.Keeps (answersUnique unique : Bool) (held : Held) : KeyChange → Prop
  | .insertWithRowRef (some rowRef) => rowRef ≠ 0xFFFFFFFFFFFFFFFF
  | .insertWithRowRef none => unique = false ∧ held.refs ≠ ∅
  | .removeWithRowRef rowRef =>
    if unique then held.covers = false ∧ held.refs.card ≤ 1
    else (held.covers = true → ∃ r ∈ rowRef, r ∉ held.refs) ∧
      (rowRef = some 0xFFFFFFFFFFFFFFFF → held.refs.card ≤ 1)
  | .restoreNonUniqueEntry rowRefs =>
    rowRefs ≠ [] ∧ 0xFFFFFFFFFFFFFFFF ∉ rowRefs ∧ (answersUnique = true → rowRefs.toFinset.card = 1)

structure Slot.Answers (unique : Bool) (slot : Slot) (refs : Finset UInt64) : Prop where
  ascending : (slot.rowRefs unique none).Pairwise (· < ·)
  toFinset_eq : (slot.rowRefs unique none).toFinset = refs
  count_eq : slot.rowRefCount.getD 0 = (slot.rowRefs unique none).length
  isSome_iff : slot.entry.isSome = true ↔ refs ≠ ∅

/-- The forms of a slot, each with what is held. Only an index that is not unique answers from postings. -/
inductive Kept (answersUnique : Bool) : Slot → Held → Prop
  | absent : Kept answersUnique ⟨none, none⟩ ⟨∅, false⟩
  | single (rowRef : NonZeroU64) : Kept answersUnique ⟨some (some rowRef), none⟩ ⟨{rowRef.unpack}, false⟩
  | covered (rowRef : NonZeroU64) {postings : PostingPages} {rowRefs : List NonZeroU64} (holds : postings.Holds rowRefs)
      (length : 2 ≤ rowRefs.length) (answers : answersUnique = false) :
      Kept answersUnique ⟨some (some rowRef), some postings⟩ ⟨{rowRef.unpack}, true⟩
  | many {postings : PostingPages} {rowRefs : List NonZeroU64} (holds : postings.Holds rowRefs)
      (length : 2 ≤ rowRefs.length) (answers : answersUnique = false) :
      Kept answersUnique ⟨some none, some postings⟩ ⟨(rowRefs.map unpack).toFinset, false⟩

variable {answersUnique unique : Bool} {slot : Slot} {held : Held} {postings : PostingPages}
  {rowRefs : List NonZeroU64}

theorem toFinset_map_unpack (rowRefs : List NonZeroU64) :
    (rowRefs.map unpack).toFinset = rowRefs.toFinset.image unpack :=
  Finset.ext fun _ => by simp only [List.mem_toFinset, List.mem_map, Finset.mem_image]

theorem PostingPages.Holds.card_refs (h : postings.Holds rowRefs) :
    (rowRefs.map unpack).toFinset.card = rowRefs.length := by
  rw [List.toFinset_card_of_nodup (h.nodup.map unpack_injective), List.length_map]

theorem PostingPages.Holds.onlyRowRef_eq (h : postings.Holds rowRefs) :
    postings.onlyRowRef = if rowRefs.length = 1 then rowRefs.head? else none := by
  rw [PostingPages.onlyRowRef, h.len_eq, h.iter_eq]

theorem Slot.max_notMem_rowRefs : 0xFFFFFFFFFFFFFFFF ∉ slot.rowRefs unique none := by
  have hpostings : ∀ postings : PostingPages, 0xFFFFFFFFFFFFFFFF ∉ postings.appendRowRefs [] none := by
    intro postings
    unfold PostingPages.appendRowRefs
    split
    · simpa using (unpack_ne_max _).symm
    · rw [PostingPages.Holds.appendPages_none]
      intro hmem
      obtain ⟨rowRef, -, hmax⟩ := List.mem_map.mp hmem
      exact unpack_ne_max rowRef hmax
  unfold Slot.rowRefs
  split
  · simpa using (unpack_ne_max _).symm
  · split
    · simp
    · cases slot.postings with
      | none => simp
      | some postings => exact hpostings postings

namespace Kept

/-! ## Answers -/

theorem answers (h : Kept answersUnique slot held) : slot.Answers answersUnique held.refs := by
  cases h with
  | absent => exact ⟨by simp [Slot.rowRefs], by simp [Slot.rowRefs], by simp [Slot.rowRefs, Slot.rowRefCount], by simp⟩
  | single rowRef =>
    exact ⟨by simp [Slot.rowRefs], by simp [Slot.rowRefs], by simp [Slot.rowRefs, Slot.rowRefCount], by simp⟩
  | covered rowRef holds length answers =>
    exact ⟨by simp [Slot.rowRefs], by simp [Slot.rowRefs], by simp [Slot.rowRefs, Slot.rowRefCount], by simp⟩
  | @many postings rowRefs holds length answers =>
    have hrefs : Slot.rowRefs ⟨some none, some postings⟩ answersUnique none = rowRefs.map unpack := by
      simp [Slot.rowRefs, answers, holds.appendRowRefs_none]
    have hcount : Slot.rowRefCount ⟨some none, some postings⟩ = some rowRefs.length := by
      have hlen : rowRefs.length ≠ 0 := by omega
      simp [Slot.rowRefCount, Option.filter, holds.len_eq, hlen]
    refine ⟨?_, by rw [hrefs], by rw [hrefs, hcount]; simp, ?_⟩
    · rw [hrefs]
      exact List.pairwise_map.mpr (holds.sorted.imp unpack_lt)
    · refine iff_of_true rfl (Finset.card_ne_zero.mp ?_ |>.ne_empty)
      rw [holds.card_refs]
      omega

theorem limit_iff (h : Kept answersUnique slot held) (limit : ℕ) :
    slot.rowRefs answersUnique (some limit) = (slot.rowRefs answersUnique none).take limit ↔
      limit ≠ 0 ∨ held.refs.card ≠ 1 := by
  have hsingle : ∀ rowRef : UInt64, [rowRef] = [rowRef].take limit ↔ limit ≠ 0 := by
    intro rowRef
    cases limit <;> simp
  cases h with
  | absent => simp [Slot.rowRefs]
  | single rowRef => simpa [Slot.rowRefs] using hsingle rowRef.unpack
  | covered rowRef holds length answers => simpa [Slot.rowRefs] using hsingle rowRef.unpack
  | @many postings rowRefs holds length answers =>
    have hne : rowRefs.length ≠ 1 := by omega
    refine iff_of_true ?_ (Or.inr (by rwa [holds.card_refs]))
    simp [Slot.rowRefs, answers, holds.appendRowRefs_nil, hne]

/-! ## Changes -/

theorem replacePostings (h : postings.Holds rowRefs) (answers : answersUnique = false) :
    Kept answersUnique (Slot.replacePostings postings) ⟨(rowRefs.map unpack).toFinset, false⟩ := by
  unfold Slot.replacePostings
  rw [h.onlyRowRef_eq, h.len_eq]
  match rowRefs, h with
  | [], _ => exact absent
  | [rowRef], _ => exact single rowRef
  | _ :: _ :: _, h => exact many h (by simp) answers

theorem overwrite (h : Kept answersUnique slot held) (rowRef : NonZeroU64) :
    Kept answersUnique { slot with entry := some (some rowRef) }
      ⟨{rowRef.unpack}, held.covers || decide (2 ≤ held.refs.card)⟩ := by
  cases h with
  | absent => exact single rowRef
  | single existing => simpa using single rowRef
  | covered existing holds length answers => simpa using covered rowRef holds length answers
  | many holds length answers =>
    rw [holds.card_refs, decide_eq_true length, Bool.or_true]
    exact covered rowRef holds length answers

theorem of_many (holds : postings.Holds rowRefs) (answers : answersUnique = false)
    (hrefs : (rowRefs.map unpack).toFinset = held.refs) (hcard : 2 ≤ held.refs.card) (hcovers : held.covers = false) :
    Kept answersUnique ⟨some none, some postings⟩ held := by
  obtain ⟨refs, covers⟩ := held
  subst hrefs hcovers
  rw [holds.card_refs] at hcard
  exact many holds hcard answers

theorem insert_refs {rowRefs rowRefs' : List NonZeroU64} {rowRef : NonZeroU64}
    (h : rowRefs'.toFinset = Insert.insert rowRef rowRefs.toFinset) :
    (rowRefs'.map unpack).toFinset = {rowRef.unpack} ∪ (rowRefs.map unpack).toFinset := by
  rw [toFinset_map_unpack, h, Finset.image_insert, toFinset_map_unpack]
  rfl

theorem second {first second : NonZeroU64} (hne : first ≠ second) (answers : answersUnique = false)
    (hrefs : held.refs = {second.unpack} ∪ {first.unpack}) (hcovers : held.covers = false) :
    Kept answersUnique
      ⟨some none, some ((PostingPages.insertUniqueSorted {} first).insertUniqueSorted second)⟩ held := by
  obtain ⟨rowRefs, holds, hset⟩ := (PostingPages.Holds.single first).insert second
  have hne' : second.unpack ≠ first.unpack := fun h => hne (unpack_injective h).symm
  refine of_many holds answers ?_ ?_ hcovers
  · rw [hrefs, insert_refs hset]
    rfl
  · rw [hrefs, Finset.singleton_union, Finset.card_pair hne']

variable {rowRef : Option UInt64}

theorem insert (h : Kept answersUnique slot held) (hanswers : unique = false → answersUnique = false)
    (hkeeps : (KeyChange.insertWithRowRef rowRef).Keeps answersUnique unique held) :
    Kept answersUnique (slot.apply unique (.insertWithRowRef rowRef))
      (held.apply unique (.insertWithRowRef rowRef)) := by
  cases rowRef with
  | none =>
    obtain ⟨rfl, hrefs⟩ := hkeeps
    cases h with
    | absent => exact absurd rfl hrefs
    | single existing => simpa [Slot.apply, Slot.insertWithRowRef, Held.apply, KeyChange.onRefs] using single existing
    | covered existing holds length answers =>
      simpa [Slot.apply, Slot.insertWithRowRef, Held.apply, KeyChange.onRefs] using
        covered existing holds length answers
    | many holds length answers =>
      refine of_many holds answers (by simp [Held.apply, KeyChange.onRefs]) ?_ ?_
      · simpa [Held.apply, KeyChange.onRefs, holds.card_refs] using length
      · have hcard := holds.card_refs
        simp only [Held.apply, KeyChange.onRefs, Option.toFinset_none, Finset.empty_union]
        simp
        omega
  | some rowRef =>
    obtain ⟨packed, hpacked⟩ := Option.ne_none_iff_exists'.mp (mt pack_eq_none.mp hkeeps)
    obtain rfl := pack_eq_some.mp hpacked
    cases unique with
    | true => simpa [Slot.apply, Slot.insertWithRowRef, Held.apply, KeyChange.onRefs, hpacked] using h.overwrite packed
    | false =>
      have answers := hanswers rfl
      cases h with
      | absent =>
        simpa [Slot.apply, Slot.insertWithRowRef, Held.apply, KeyChange.onRefs, hpacked] using single packed
      | single existing =>
        by_cases heq : existing = packed
        · subst heq
          simpa [Slot.apply, Slot.insertWithRowRef, Held.apply, KeyChange.onRefs, hpacked] using single existing
        · simp only [Slot.apply, Slot.insertWithRowRef, Option.bind_some, hpacked, heq]
          exact second heq answers rfl (by simp [Held.apply])
      | covered existing holds length _ =>
        by_cases heq : existing = packed
        · subst heq
          simpa [Slot.apply, Slot.insertWithRowRef, Held.apply, KeyChange.onRefs, hpacked] using
            covered existing holds length answers
        · have hne : packed.unpack ≠ existing.unpack := fun h => heq (unpack_injective h).symm
          simp only [Slot.apply, Slot.insertWithRowRef, Option.bind_some, hpacked, heq]
          refine second heq answers rfl ?_
          simp [Held.apply, KeyChange.onRefs, Finset.card_pair hne]
      | @many postings rowRefs holds length _ =>
        obtain ⟨rowRefs', holds', hset⟩ := holds.insert packed
        have hcard : 2 ≤ ({packed.unpack} ∪ (rowRefs.map unpack).toFinset).card := by
          calc 2 ≤ (rowRefs.map unpack).toFinset.card := by rwa [holds.card_refs]
            _ ≤ _ := Finset.card_le_card Finset.subset_union_right
        simp only [Slot.apply, Slot.insertWithRowRef, Option.bind_some, hpacked]
        refine of_many holds' answers ?_ ?_ ?_
        · simp [Held.apply, KeyChange.onRefs, insert_refs hset]
        · simpa [Held.apply, KeyChange.onRefs] using hcard
        · have hne : ({packed.unpack} ∪ (rowRefs.map unpack).toFinset).card ≠ 1 := by omega
          simpa [Held.apply, KeyChange.onRefs] using fun h => absurd h hne

theorem remove_refs {rowRefs rowRefs' : List NonZeroU64} {rowRef : NonZeroU64}
    (h : rowRefs'.toFinset = rowRefs.toFinset.erase rowRef) :
    (rowRefs'.map unpack).toFinset = (rowRefs.map unpack).toFinset.erase rowRef.unpack := by
  rw [toFinset_map_unpack, h, toFinset_map_unpack, Finset.image_erase unpack_injective]

theorem remove (h : Kept answersUnique slot held)
    (hkeeps : (KeyChange.removeWithRowRef rowRef).Keeps answersUnique unique held) :
    Kept answersUnique (slot.apply unique (.removeWithRowRef rowRef))
      (held.apply unique (.removeWithRowRef rowRef)) := by
  cases unique with
  | true =>
    obtain ⟨hcovers, hcard⟩ := hkeeps
    have hrefs : (KeyChange.removeWithRowRef rowRef).onRefs true held.refs = ∅ := by cases rowRef <;> rfl
    unfold Held.apply
    rw [hrefs]
    cases h with
    | absent => exact absent
    | single existing => exact absent
    | covered existing holds length answers => cases hcovers
    | many holds length answers =>
      rw [holds.card_refs] at hcard
      omega
  | false =>
    obtain ⟨hcovers, hmax⟩ := hkeeps
    cases h with
    | absent => cases rowRef <;> exact absent
    | single existing =>
      cases rowRef with
      | none => exact absent
      | some rowRef =>
        simp only [Slot.apply, Slot.removeWithRowRef, Held.apply, KeyChange.onRefs, Option.all_some, pack_eq_some]
        by_cases heq : rowRef = existing.unpack
        · simpa [heq] using absent
        · simpa [heq, Finset.erase_eq_of_notMem] using single existing
    | covered existing holds length answers =>
      obtain ⟨rowRef, rfl, hnot⟩ := hcovers rfl
      have hne : rowRef ≠ existing.unpack := by simpa using hnot
      simp only [Slot.apply, Slot.removeWithRowRef, Held.apply, KeyChange.onRefs, Option.all_some, pack_eq_some]
      simpa [hne, Finset.erase_eq_of_notMem] using covered existing holds length answers
    | many holds length answers =>
      cases rowRef with
      | none => exact absent
      | some rowRef =>
        have hne : rowRef ≠ 0xFFFFFFFFFFFFFFFF := by
          intro heq
          have hcard := hmax (congrArg some heq)
          rw [holds.card_refs] at hcard
          omega
        obtain ⟨packed, hpacked⟩ := Option.ne_none_iff_exists'.mp (mt pack_eq_none.mp hne)
        obtain rfl := pack_eq_some.mp hpacked
        obtain ⟨-, rowRefs', holds', hset⟩ := holds.remove packed
        simp only [Slot.apply, Slot.removeWithRowRef, Held.apply, KeyChange.onRefs, Option.bind_some, hpacked]
        simpa [← remove_refs hset] using replacePostings holds' answers

theorem postingsOf_holds (rowRefs : List UInt64) (hmax : 0xFFFFFFFFFFFFFFFF ∉ rowRefs) :
    ∃ packed, (Slot.postingsOf rowRefs).Holds packed ∧ (packed.map unpack).toFinset = rowRefs.toFinset := by
  obtain ⟨packed, holds, hset⟩ := PostingPages.Holds.empty.insertAll (rowRefs.filterMap pack)
  refine ⟨packed, holds, ?_⟩
  rw [toFinset_map_unpack, hset]
  ext rowRef
  simp only [List.toFinset_nil, Finset.empty_union, Finset.mem_image, List.mem_toFinset, List.mem_filterMap,
    pack_eq_some]
  constructor
  · rintro ⟨packed, ⟨_, hmem, rfl⟩, rfl⟩
    exact hmem
  · intro hmem
    obtain ⟨packed, hpacked⟩ := Option.ne_none_iff_exists'.mp (mt pack_eq_none.mp (ne_of_mem_of_not_mem hmem hmax))
    exact ⟨packed, ⟨rowRef, hmem, pack_eq_some.mp hpacked⟩, (pack_eq_some.mp hpacked).symm⟩

theorem restore_cases (slot : Slot) {rowRefs : List UInt64} (hne : rowRefs ≠ []) (hmax : 0xFFFFFFFFFFFFFFFF ∉ rowRefs) :
    (∃ rowRef : NonZeroU64, rowRefs.toFinset = {rowRef.unpack} ∧
      slot.restoreNonUniqueEntry rowRefs = { slot with entry := some (some rowRef) }) ∨
    ∃ postings packed, PostingPages.Holds postings packed ∧ 2 ≤ packed.length ∧
      (packed.map unpack).toFinset = rowRefs.toFinset ∧
      slot.restoreNonUniqueEntry rowRefs = ⟨some none, some postings⟩ := by
  match rowRefs with
  | [] => exact absurd rfl hne
  | [rowRef] =>
    obtain ⟨packed, hpacked⟩ :=
      Option.ne_none_iff_exists'.mp (mt pack_eq_none.mp (ne_of_mem_of_not_mem (List.mem_singleton_self _) hmax))
    obtain rfl := pack_eq_some.mp hpacked
    exact .inl ⟨packed, rfl, by rw [Slot.restoreNonUniqueEntry, hpacked]⟩
  | first :: second :: rest =>
    obtain ⟨packed, holds, hrefs⟩ := postingsOf_holds (first :: second :: rest) hmax
    simp only [Slot.restoreNonUniqueEntry, holds.onlyRowRef_eq, holds.len_eq]
    match packed, holds, hrefs with
    | [], _, hrefs => exact absurd (List.toFinset_eq_empty_iff _ |>.mp hrefs.symm) hne
    | [rowRef], _, hrefs => exact .inl ⟨rowRef, hrefs.symm, rfl⟩
    | a :: b :: packed, holds, hrefs => exact .inr ⟨_, _, holds, by simp, hrefs, rfl⟩

theorem restore (h : Kept answersUnique slot held) {rowRefs : List UInt64}
    (hkeeps : (KeyChange.restoreNonUniqueEntry rowRefs).Keeps answersUnique unique held) :
    Kept answersUnique (slot.apply unique (.restoreNonUniqueEntry rowRefs))
      (held.apply unique (.restoreNonUniqueEntry rowRefs)) := by
  obtain ⟨hne, hmax, hcard⟩ := hkeeps
  rcases restore_cases slot hne hmax with ⟨rowRef, hrefs, hslot⟩ | ⟨postings, packed, holds, length, hrefs, hslot⟩
  · simpa [Slot.apply, Held.apply, KeyChange.onRefs, hslot, hrefs] using h.overwrite rowRef
  · have hlength := holds.card_refs
    rw [hrefs] at hlength
    have answers : answersUnique = false := by
      rw [← Bool.not_eq_true]
      intro hunique
      have := hcard hunique
      omega
    rw [Slot.apply, hslot]
    refine of_many holds answers hrefs (le_of_le_of_eq length hlength.symm) ?_
    have hone : rowRefs.toFinset.card ≠ 1 := by omega
    simp [Held.apply, KeyChange.onRefs, hone]

theorem apply (h : Kept answersUnique slot held) (hanswers : unique = false → answersUnique = false)
    {change : KeyChange} (hkeeps : change.Keeps answersUnique unique held) :
    Kept answersUnique (slot.apply unique change) (held.apply unique change) := by
  cases change with
  | insertWithRowRef rowRef => exact h.insert hanswers hkeeps
  | removeWithRowRef rowRef => exact h.remove hkeeps
  | restoreNonUniqueEntry rowRefs => exact h.restore hkeeps

/-! ## Changes that go wrong -/

theorem not_answers_of_exposed (holds : postings.Holds rowRefs) (length : 2 ≤ rowRefs.length) :
    ¬ Slot.Answers false ⟨none, some postings⟩ ∅ := by
  intro h
  have hrefs : Slot.rowRefs ⟨none, some postings⟩ false none = rowRefs.map unpack := by
    simp [Slot.rowRefs, holds.appendRowRefs_none]
  have hcard := holds.card_refs
  rw [← hrefs, h.toFinset_eq, Finset.card_empty] at hcard
  omega

theorem keeps_remove (h : Kept answersUnique slot held)
    (hanswers : (slot.apply unique (.removeWithRowRef rowRef)).Answers answersUnique
      ((KeyChange.removeWithRowRef rowRef).onRefs unique held.refs)) :
    (KeyChange.removeWithRowRef rowRef).Keeps answersUnique unique held := by
  cases unique with
  | true =>
    have hrefs : (KeyChange.removeWithRowRef rowRef).onRefs true held.refs = ∅ := by cases rowRef <;> rfl
    rw [hrefs] at hanswers
    cases h with
    | absent => exact ⟨rfl, Nat.zero_le _⟩
    | single existing => exact ⟨rfl, le_rfl⟩
    | covered existing holds length answers =>
      subst answers
      exact absurd hanswers (not_answers_of_exposed holds length)
    | many holds length answers =>
      subst answers
      exact absurd hanswers (not_answers_of_exposed holds length)
  | false =>
    cases h with
    | absent => exact ⟨fun hcovers => absurd hcovers Bool.false_ne_true, fun _ => Nat.zero_le _⟩
    | single existing => exact ⟨fun hcovers => absurd hcovers Bool.false_ne_true, fun _ => le_rfl⟩
    | covered existing holds length answers =>
      subst answers
      refine ⟨fun _ => ?_, fun _ => le_rfl⟩
      cases rowRef with
      | none => exact absurd hanswers (not_answers_of_exposed holds length)
      | some rowRef =>
        refine ⟨rowRef, rfl, fun hmem => ?_⟩
        obtain rfl := Finset.mem_singleton.mp hmem
        refine not_answers_of_exposed holds length ?_
        simpa [Slot.apply, Slot.removeWithRowRef, KeyChange.onRefs, pack_unpack] using hanswers
    | many holds length answers =>
      subst answers
      refine ⟨fun hcovers => absurd hcovers Bool.false_ne_true, ?_⟩
      rintro rfl
      -- the number cannot be packed, so the key goes with all its references
      rcases (Finset.erase_eq_empty_iff _ _).mp hanswers.toFinset_eq.symm with hnone | hone
      · exact (Finset.card_eq_zero.mpr hnone).le.trans (Nat.zero_le _)
      · exact (Finset.card_eq_one.mpr ⟨_, hone⟩).le

theorem keeps (h : Kept answersUnique slot held) {change : KeyChange}
    (hanswers : (slot.apply unique change).Answers answersUnique (change.onRefs unique held.refs)) :
    change.Keeps answersUnique unique held := by
  have hmax : 0xFFFFFFFFFFFFFFFF ∉ change.onRefs unique held.refs := by
    rw [← hanswers.toFinset_eq, List.mem_toFinset]
    exact Slot.max_notMem_rowRefs
  cases change with
  | insertWithRowRef rowRef =>
    cases rowRef with
    | none =>
      have hsome := hanswers.isSome_iff.mp (Slot.isSome_insertWithRowRef ..)
      cases unique with
      | true => exact absurd rfl hsome
      | false => exact ⟨rfl, by simpa [KeyChange.onRefs] using hsome⟩
    | some rowRef =>
      rintro rfl
      exact hmax (by cases unique <;> simp [KeyChange.onRefs])
  | removeWithRowRef rowRef => exact h.keeps_remove hanswers
  | restoreNonUniqueEntry rowRefs =>
    have hmax' : 0xFFFFFFFFFFFFFFFF ∉ rowRefs := fun hmem => hmax (List.mem_toFinset.mpr hmem)
    have hne : rowRefs ≠ [] := by
      rintro rfl
      exact hanswers.isSome_iff.mp rfl rfl
    refine ⟨hne, hmax', ?_⟩
    rintro rfl
    rcases restore_cases slot hne hmax' with ⟨rowRef, hrefs, -⟩ | ⟨postings, packed, -, -, -, hslot⟩
    · rw [hrefs, Finset.card_singleton]
    · have hempty := hanswers.toFinset_eq
      rw [Slot.apply, hslot] at hempty
      exact absurd (List.toFinset_eq_empty_iff _ |>.mp hempty.symm) hne

end Kept

/-! ## States -/

namespace PagedIndexState

variable {prims : ValuePrimitives} {state : PagedIndexState}

abbrev Mapped := PagedIndexState × (Bytes → Held)

def Mapped.apply (prims : ValuePrimitives) (mapped : Mapped) (op : KeyTuple × KeyChange) : Mapped :=
  (mapped.1.apply prims op.1 op.2,
    let encoded := mapped.1.encodeKey prims op.1
    Function.update mapped.2 encoded ((mapped.2 encoded).apply mapped.1.changesUnique op.2))

def Mapped.start (index : Option DatabaseIndex) (coding : KeyCoding) : Mapped := (.start index coding, fun _ => {})

/-- The change is one that the slot of its key follows. -/
def Mapped.Keeps (prims : ValuePrimitives) (mapped : Mapped) (op : KeyTuple × KeyChange) : Prop :=
  op.2.Keeps mapped.1.answersUnique mapped.1.changesUnique (mapped.2 (mapped.1.encodeKey prims op.1))

/-- The answers of the state are those of the multimap. -/
structure Mapped.Refines (prims : ValuePrimitives) (mapped : Mapped) : Prop where
  ascending : ∀ key, (mapped.1.rowRefsForKey prims key none).Pairwise (· < ·)
  rowRefs : ∀ key, (mapped.1.rowRefsForKey prims key none).toFinset = (mapped.2 (mapped.1.encodeKey prims key)).refs
  count : ∀ key, (mapped.1.rowRefCountForKey prims key).getD 0 = (mapped.1.rowRefsForKey prims key none).length
  keys : ∀ encoded, encoded ∈ mapped.1.orderedKeyList ↔ (mapped.2 encoded).refs ≠ ∅
  ordered : mapped.1.orderedKeyList.Pairwise fun a b => a ≤ b ∧ a ≠ b

variable {key : KeyTuple} {change : KeyChange}

theorem slotAt_apply (encoded : Bytes) : (state.apply prims key change).slotAt encoded =
    if encoded = state.encodeKey prims key then
      (state.slotAt (state.encodeKey prims key)).apply state.changesUnique change
    else state.slotAt encoded := by
  cases change <;> exact slotAt_withSlot

theorem index_apply : (state.apply prims key change).index = state.index := by
  cases change <;> rfl

theorem coding_apply : (state.apply prims key change).coding = state.coding := by
  cases change <;> rfl

theorem Ordered.apply (h : state.Ordered) : (state.apply prims key change).Ordered := by
  cases change with
  | insertWithRowRef rowRef => exact h.insert key rowRef
  | removeWithRowRef rowRef => exact h.remove key rowRef
  | restoreNonUniqueEntry rowRefs => exact h.restore key rowRefs

theorem encodeKey_apply (other : KeyTuple) :
    (state.apply prims key change).encodeKey prims other = state.encodeKey prims other := by
  rw [encodeKey, coding_apply]
  rfl

theorem answersUnique_apply : (state.apply prims key change).answersUnique = state.answersUnique := by
  rw [answersUnique, index_apply]
  rfl

theorem answersUnique_eq_false (h : state.changesUnique = false) : state.answersUnique = false := by
  unfold changesUnique at h
  unfold answersUnique
  cases hindex : state.index <;> simp_all

theorem mem_orderedKeyList {encoded : Bytes} : encoded ∈ state.orderedKeyList ↔ encoded ∈ state.orderedKeys :=
  Finset.mem_sort _

theorem pairwise_orderedKeyList : state.orderedKeyList.Pairwise fun a b => a ≤ b ∧ a ≠ b :=
  (Finset.pairwise_sort _ _).and (Finset.sort_nodup _ _)

structure Mapped.Inv (mapped : Mapped) : Prop where
  ordered : mapped.1.Ordered
  kept : ∀ encoded, Kept mapped.1.answersUnique (mapped.1.slotAt encoded) (mapped.2 encoded)

theorem Mapped.Inv.start (index : Option DatabaseIndex) (coding : KeyCoding) : (Mapped.start index coding).Inv :=
  ⟨.start index coding, fun _ => .absent⟩

variable {mapped : Mapped}

theorem Mapped.Inv.refines (h : mapped.Inv) : mapped.Refines prims where
  ascending _ := (h.kept _).answers.ascending
  rowRefs _ := (h.kept _).answers.toFinset_eq
  count _ := (h.kept _).answers.count_eq
  keys encoded := by rw [mem_orderedKeyList, h.ordered.mem_orderedKeys, (h.kept encoded).answers.isSome_iff]
  ordered := pairwise_orderedKeyList

theorem Mapped.Inv.apply (h : mapped.Inv) {op : KeyTuple × KeyChange} (hkeeps : mapped.Keeps prims op) :
    (mapped.apply prims op).Inv := by
  refine ⟨h.ordered.apply, fun encoded => ?_⟩
  unfold Mapped.apply
  dsimp only
  rw [answersUnique_apply, slotAt_apply]
  by_cases heq : encoded = mapped.1.encodeKey prims op.1
  · rw [if_pos heq, heq, Function.update_self]
    exact (h.kept _).apply answersUnique_eq_false hkeeps
  · rw [if_neg heq, Function.update_of_ne heq]
    exact h.kept encoded

theorem Mapped.Inv.keeps (h : mapped.Inv) {op : KeyTuple × KeyChange}
    (hrefines : (mapped.apply prims op).Refines prims) : mapped.Keeps prims op := by
  have hslot : (mapped.1.apply prims op.1 op.2).slotAt (mapped.1.encodeKey prims op.1) =
      (mapped.1.slotAt (mapped.1.encodeKey prims op.1)).apply mapped.1.changesUnique op.2 := by
    rw [slotAt_apply, if_pos rfl]
  have hrefs : (mapped.apply prims op).2 (mapped.1.encodeKey prims op.1) =
      (mapped.2 (mapped.1.encodeKey prims op.1)).apply mapped.1.changesUnique op.2 := Function.update_self ..
  have hfor : ∀ limit, (mapped.apply prims op).1.rowRefsForKey prims op.1 limit =
      ((mapped.1.slotAt (mapped.1.encodeKey prims op.1)).apply mapped.1.changesUnique op.2).rowRefs
        mapped.1.answersUnique limit := by
    intro limit
    rw [rowRefsForKey, Mapped.apply, encodeKey_apply, hslot, answersUnique_apply]
  refine (h.kept _).keeps ⟨?_, ?_, ?_, ?_⟩
  · rw [← hfor]
    exact hrefines.ascending op.1
  · rw [← hfor, hrefines.rowRefs, Mapped.apply, encodeKey_apply]
    exact congrArg Held.refs hrefs
  · rw [← hfor, ← hrefines.count, ← hslot, rowRefCountForKey, Mapped.apply, encodeKey_apply]
  · have hordered : (mapped.apply prims op).1.Ordered := h.ordered.apply
    have hkeys := hrefines.keys (mapped.1.encodeKey prims op.1)
    rw [mem_orderedKeyList, hordered.mem_orderedKeys, hrefs] at hkeys
    rwa [← hslot]

/-- Both models of an index state, with references in sets and in pages, answer alike where a key has the same
references. -/
theorem rowRefsForKey_eq {plain : RuntimeIndexState} (hindex : plain.index = state.index)
    (hkept : Kept state.answersUnique (state.slotAt (state.encodeKey prims key)) held)
    (hposted : plain.Posted key held.refs) :
    (state.rowRefsForKey prims key none).toFinset = plain.rowRefsForKey key := by
  have hcard : ∀ {slot : Slot}, Kept true slot held → held.refs.card ≤ 1 := by
    rintro _ (_ | _ | ⟨_, _, _, ⟨⟩⟩ | ⟨_, _, ⟨⟩⟩) <;> simp
  refine hkept.answers.toFinset_eq.trans (hposted.rowRefsForKey_eq fun hunique => ?_).symm
  have hanswers : state.answersUnique = true := by rwa [hindex] at hunique
  exact hcard (hanswers ▸ hkept)

/-- The answers of a state are those of the multimap throughout if and only if every change meets the condition; then
a limit cuts them off unless it is 0 and there is a single reference. -/
theorem index_state_refines_multimap_iff (prims : ValuePrimitives) (index : Option DatabaseIndex) (coding : KeyCoding)
    (ops : List (KeyTuple × KeyChange)) :
    ((∀ n, Mapped.Refines prims (runFrom (Mapped.apply prims) (.start index coding) (ops.take n))) ↔
      Along (Mapped.apply prims) (Mapped.Keeps prims) (.start index coding) ops) ∧
    (Along (Mapped.apply prims) (Mapped.Keeps prims) (.start index coding) ops → ∀ key limit,
      let mapped := runFrom (Mapped.apply prims) (.start index coding) ops
      mapped.1.rowRefsForKey prims key (some limit) = (mapped.1.rowRefsForKey prims key none).take limit ↔
        limit ≠ 0 ∨ (mapped.2 (mapped.1.encodeKey prims key)).refs.card ≠ 1) := by
  constructor
  · refine Along.forall_take_iff (C := fun _ _ => True) (I := Mapped.Inv) ?_ (fun _ h => h.refines)
      (along_of_forall (fun _ _ => trivial) _ _) (.start index coding)
    exact fun mapped op _ h => ⟨h.apply, h.keeps⟩
  · intro hrun key limit
    have h := hrun.invariant (fun _ _ hkeeps h => Mapped.Inv.apply h hkeeps) (Mapped.Inv.start index coding)
    exact (h.kept _).limit_iff limit

/-- A limit of 0 gives the reference of a key that has one. Where several references are restored and then a single
one, the removal of the single one brings the others back. -/
theorem single_reference_answers :
    let start := PagedIndexState.start (some ⟨"i", .indexed, .userDefined, ["note"], ""⟩) .plain
    let key := [utf8Bytes "a"]
    (start.insertWithRowRef .plain key (some 7)).rowRefsForKey .plain key (some 0) = [7] ∧
      (((start.restoreNonUniqueEntry .plain key [1, 2]).restoreNonUniqueEntry .plain key [3]).removeWithRowRef
      .plain key (some 3)).rowRefsForKey .plain key none = [1, 2] := by
  decide +kernel

end PagedIndexState

end DistDb.Indexing
