import DistDb.Sql.Request
import DistDb.Table.RuntimeIndex

/-! # Index states of any scope

A lookup that does not find its index in the table's scope goes through the map of all tables' indexes. -/

namespace DistDb

def DatabaseIndexKind.idPrefix : DatabaseIndexKind → String
  | .primaryKey => "pri"
  | .unique => "uni"
  | .indexed => "ind"

def DatabaseIndexOrigin.idPrefix : DatabaseIndexOrigin → String
  | .derived => "drv"
  | .userDefined => "usr"
  | .relationship => "rel"
  | .temporary => "tmp"

def DatabaseIndex.composeIndexId (tableId : String) (kind : DatabaseIndexKind) (origin : DatabaseIndexOrigin)
    (tempId : Option String) (fieldNames : List String) : String :=
  let fieldList := ",".intercalate fieldNames
  match origin with
  | .derived => kind.idPrefix ++ ":" ++ tableId ++ ":" ++ fieldList
  | .userDefined | .relationship =>
    origin.idPrefix ++ ":" ++ kind.idPrefix ++ ":" ++ tableId ++ ":" ++ fieldList
  | .temporary =>
    origin.idPrefix ++ ":" ++ tempId.getD "temp" ++ ":" ++ kind.idPrefix ++ ":" ++ tableId ++ ":" ++ fieldList

namespace Indexing
open Lib Sql

def scopedIndexId (tableScopeId indexId : String) : String := tableScopeId ++ "::" ++ indexId

/-- The text that is returned for an entry of the map, if its id is taken for the one that is looked for. -/
def matchedScope (indexId scopedId : String) : Option String :=
  let normalizedIndexId := normalizeIdentifier indexId
  let normalizedScopedId := normalizeIdentifier scopedId
  let byText :=
    if normalizedScopedId = normalizedIndexId ∨ normalizedIndexId.toList <:+ normalizedScopedId.toList ∨
        containsText normalizedScopedId normalizedIndexId then some scopedId
    else none
  match rsplitOn "::".toList scopedId.toList with
  | some (scopeId, scopedIndexId) =>
    if normalizeIdentifier (String.ofList scopedIndexId) = normalizedIndexId then some (String.ofList scopeId)
    else byText
  | none => byText

/-- The entry that a lookup finds, with the text that is returned for it. -/
def findScopedIndexEntry (entries : List (String × RuntimeIndexState)) (indexId : String) (lookupKey : KeyTuple) :
    Option (String × String × RuntimeIndexState) :=
  (entries.filterMap fun entry => (matchedScope indexId entry.1).map (·, entry)).find? fun found =>
    found.2.2.contains lookupKey

def findScopedIndexStateForLookup (entries : List (String × RuntimeIndexState)) (indexId : String)
    (lookupKey : KeyTuple) : Option (String × RuntimeIndexState) :=
  (findScopedIndexEntry entries indexId lookupKey).map fun found => (found.1, found.2.2)

/-! ## Ids of registered indexes -/

/-- An index of a table, which is registered under the id of the table's stream, with the database in front or not. -/
structure RegisteredIndex where
  databaseId : Option String
  storageKey : String
  tableId : String
  kind : DatabaseIndexKind
  origin : DatabaseIndexOrigin
  fieldNames : List String
  deriving DecidableEq

/-- Text without colons that `normalize_identifier` leaves as it is. -/
structure IsName (text : String) : Prop where
  normal : isNormal text = true
  no_colon : ':' ∉ text.toList
  ne_nil : text.toList ≠ []

namespace RegisteredIndex

variable (index other : RegisteredIndex)

def streamId : String :=
  match index.databaseId with
  | some databaseId => databaseId ++ ":" ++ index.storageKey
  | none => index.storageKey

def fieldList : String := ",".intercalate index.fieldNames

def indexId : String := DatabaseIndex.composeIndexId index.tableId index.kind index.origin none index.fieldNames

def scopedId : String := scopedIndexId index.streamId index.indexId

/-- Temporary indexes are not tracked. -/
structure Valid : Prop where
  databaseId : ∀ databaseId ∈ index.databaseId, IsName databaseId
  storageKey : IsName index.storageKey
  tableId : IsName index.tableId
  fieldList : IsName index.fieldList
  tracked : index.origin ≠ .temporary

/-- Both are of one kind, on tables of one name, and the fields of the other begin with those of the index, as
text. -/
def Resembles : Prop :=
  other.tableId = index.tableId ∧ other.kind = index.kind ∧
    (index.origin = .derived ∨ other.origin = index.origin) ∧
    index.fieldList.toList <+: other.fieldList.toList

variable {index other}

theorem isName_kind (kind : DatabaseIndexKind) : IsName kind.idPrefix := by
  refine ⟨?_, ?_, ?_⟩ <;> cases kind <;> decide +kernel

theorem isName_origin (origin : DatabaseIndexOrigin) : IsName origin.idPrefix := by
  refine ⟨?_, ?_, ?_⟩ <;> cases origin <;> decide +kernel

theorem kind_suffix_iff (kind kind' : DatabaseIndexKind) :
    kind.idPrefix.toList <:+ kind'.idPrefix.toList ↔ kind' = kind := by
  cases kind <;> cases kind' <;> decide +kernel

theorem kind_eq_iff (kind kind' : DatabaseIndexKind) :
    kind.idPrefix.toList = kind'.idPrefix.toList ↔ kind' = kind := by
  cases kind <;> cases kind' <;> decide +kernel

theorem origin_suffix_iff (origin origin' : DatabaseIndexOrigin) :
    origin.idPrefix.toList <:+ origin'.idPrefix.toList ↔ origin' = origin := by
  cases origin <;> cases origin' <;> decide +kernel

theorem kind_not_suffix_origin (kind : DatabaseIndexKind) (origin : DatabaseIndexOrigin) :
    ¬ kind.idPrefix.toList <:+ origin.idPrefix.toList := by
  cases kind <;> cases origin <;> decide +kernel

/-- The words behind the origin. -/
def words (index : RegisteredIndex) : List Char :=
  index.kind.idPrefix.toList ++ ':' :: (index.tableId.toList ++ ':' :: index.fieldList.toList)

theorem toList_indexId (h : index.origin ≠ .temporary) : index.indexId.toList =
    if index.origin = .derived then index.words else index.origin.idPrefix.toList ++ ':' :: index.words := by
  unfold indexId DatabaseIndex.composeIndexId words fieldList
  cases horigin : index.origin <;> simp_all

theorem infix_words_iff (hother : other.Valid) {x word rest : List Char} (hx : ':' ∉ x) (hword : ':' ∉ word) :
    x ++ ':' :: (word ++ ':' :: rest) <:+: other.words ↔
      x <:+ other.kind.idPrefix.toList ∧ word = other.tableId.toList ∧ rest <+: other.fieldList.toList := by
  have hfields : ∀ text, ¬ word ++ ':' :: text <+: other.fieldList.toList :=
    fun text hstarts => not_infix_word hother.fieldList.no_colon hstarts.isInfix
  rw [words, infix_word_iff hx (isName_kind _).no_colon, infix_word_iff hx hother.tableId.no_colon,
    prefix_word_iff hword hother.tableId.no_colon]
  simp only [hfields, and_false, not_infix_word hother.fieldList.no_colon, or_false]

/-- An index id does not begin in the id of a stream. -/
theorem infix_scopedId_iff_infix_indexId (hother : other.Valid) {x word rest : List Char} (hx : ':' ∉ x)
    (hword : ':' ∉ word) (hne : x ≠ []) (hne' : word ≠ []) (hrest : ∀ text, ¬ rest <+: ':' :: text) :
    x ++ ':' :: (word ++ ':' :: rest) <:+: other.scopedId.toList ↔
      x ++ ':' :: (word ++ ':' :: rest) <:+: other.indexId.toList := by
  have hstart : ∀ text, ¬ word ++ ':' :: rest <+: [] ++ ':' :: text := by
    intro text hstarts
    exact hne' ((prefix_word_iff hword List.not_mem_nil).mp hstarts).1
  have hkey : x ++ ':' :: (word ++ ':' :: rest) <:+: other.storageKey.toList ++
    ':' :: ([] ++ ':' :: other.indexId.toList) ↔
      x ++ ':' :: (word ++ ':' :: rest) <:+: other.indexId.toList := by
    rw [infix_word_iff hx hother.storageKey.no_colon, infix_word_iff hx List.not_mem_nil]
    simp only [hstart, and_false, List.suffix_nil, hne, false_and, false_or]
  rw [← hkey, scopedId, scopedIndexId, streamId]
  cases hdatabase : other.databaseId with
  | none => simp
  | some databaseId =>
    have htext : (databaseId ++ ":" ++ other.storageKey ++ "::" ++ other.indexId).toList =
        databaseId.toList ++ ':' :: (other.storageKey.toList ++ ':' :: ([] ++ ':' :: other.indexId.toList)) := by simp
    rw [htext, infix_word_iff hx (hother.databaseId databaseId hdatabase).no_colon,
      prefix_word_iff hword hother.storageKey.no_colon]
    simp only [List.nil_append, hrest, and_false, false_or]

theorem infix_scopedId_iff (h : index.Valid) (hother : other.Valid) :
    index.indexId.toList <:+: other.scopedId.toList ↔ index.Resembles other := by
  have hkind := isName_kind index.kind
  have horigin := isName_origin index.origin
  have hfields : ∀ text, ¬ index.fieldList.toList <+: ':' :: text :=
    fun text => not_prefix_cons_word h.fieldList.ne_nil h.fieldList.no_colon
  have htable : ∀ text, ¬ index.tableId.toList ++ ':' :: index.fieldList.toList <+: ':' :: text := by
    intro text hstarts
    exact not_prefix_cons_word h.tableId.ne_nil h.tableId.no_colon ((List.prefix_append _ _).trans hstarts)
  have hlong : ¬ index.tableId.toList ++ ':' :: index.fieldList.toList <+: other.fieldList.toList :=
    fun hstarts => not_infix_word hother.fieldList.no_colon hstarts.isInfix
  rw [toList_indexId h.tracked]
  unfold Resembles
  split
  · rename_i hderived
    rw [words, infix_scopedId_iff_infix_indexId hother hkind.no_colon h.tableId.no_colon hkind.ne_nil
      h.tableId.ne_nil hfields, toList_indexId hother.tracked]
    split
    · rw [infix_words_iff hother hkind.no_colon h.tableId.no_colon, kind_suffix_iff, String.toList_inj]
      simp only [hderived, true_or, true_and]
      grind
    · rw [infix_word_iff hkind.no_colon (isName_origin _).no_colon,
        infix_words_iff hother hkind.no_colon h.tableId.no_colon, kind_suffix_iff, String.toList_inj]
      simp only [kind_not_suffix_origin, false_and, false_or, hderived, true_or, true_and]
      grind
  · rename_i hderived
    rw [words, infix_scopedId_iff_infix_indexId hother horigin.no_colon hkind.no_colon horigin.ne_nil
      hkind.ne_nil htable, toList_indexId hother.tracked]
    split
    · rename_i hderived'
      rw [infix_words_iff hother horigin.no_colon hkind.no_colon]
      simp only [hlong, and_false, false_iff]
      grind
    · rw [infix_word_iff horigin.no_colon (isName_origin _).no_colon,
        infix_words_iff hother horigin.no_colon hkind.no_colon,
        origin_suffix_iff, words, prefix_word_iff hkind.no_colon (isName_kind _).no_colon, kind_eq_iff,
        prefix_word_iff h.tableId.no_colon hother.tableId.no_colon, String.toList_inj]
      simp only [hlong, and_false, or_false]
      grind

theorem isNormal_append {a b : String} (ha : isNormal a = true) (hb : isNormal b = true) :
    isNormal (a ++ b) = true := by
  rw [isNormal, String.toList_append, List.all_append]
  exact Bool.and_eq_true_iff.mpr ⟨ha, hb⟩

theorem Valid.isNormal_indexId (h : index.Valid) : isNormal index.indexId = true := by
  have hcolon : isNormal ":" = true := by decide +kernel
  have hwords : ∀ text, isNormal text = true →
      isNormal (text ++ ":" ++ index.tableId ++ ":" ++ index.fieldList) = true := fun text htext =>
    isNormal_append (isNormal_append (isNormal_append (isNormal_append htext hcolon) h.tableId.normal) hcolon)
      h.fieldList.normal
  have hkind := (isName_kind index.kind).normal
  have horigin := (isName_origin index.origin).normal
  unfold indexId DatabaseIndex.composeIndexId
  split
  · exact hwords _ hkind
  · exact hwords _ (isNormal_append (isNormal_append horigin hcolon) hkind)
  · exact hwords _ (isNormal_append (isNormal_append horigin hcolon) hkind)
  · exact absurd ‹_› h.tracked

theorem Valid.isNormal_scopedId (h : index.Valid) : isNormal index.scopedId = true := by
  have hcolon : isNormal ":" = true := by decide +kernel
  have hcolons : isNormal "::" = true := by decide +kernel
  have hstream : isNormal index.streamId = true := by
    unfold streamId
    cases hdatabase : index.databaseId with
    | none => exact h.storageKey.normal
    | some databaseId =>
      exact isNormal_append (isNormal_append (h.databaseId databaseId hdatabase).normal hcolon) h.storageKey.normal
  exact isNormal_append (isNormal_append hstream hcolons) h.isNormal_indexId

theorem doubled_infix_word_iff {word rest : List Char} (hword : ':' ∉ word) (hne : word ≠ []) :
    "::".toList <:+: ':' :: (word ++ ':' :: rest) ↔ "::".toList <:+: ':' :: rest := by
  have hnil : (':' : Char) ∉ [] := List.not_mem_nil
  have hstart : ¬ [':'] <+: word ++ ':' :: rest := by
    cases word with
    | nil => exact absurd rfl hne
    | cons c word => exact fun hstarts => hword ((List.cons_prefix_cons.mp hstarts).1 ▸ List.mem_cons_self)
  change [] ++ ':' :: [':'] <:+: [] ++ ':' :: (word ++ ':' :: rest) ↔ [] ++ ':' :: [':'] <:+: [] ++ ':' :: rest
  rw [infix_word_iff hnil hnil, infix_word_iff hnil hword, infix_word_iff hnil hnil]
  simp [hstart]

theorem Valid.rsplitOn_scopedId (h : index.Valid) :
    rsplitOn "::".toList index.scopedId.toList = some (index.streamId.toList, index.indexId.toList) := by
  have hkind := isName_kind index.kind
  have horigin := isName_origin index.origin
  have hlast : ¬ "::".toList <:+: ':' :: index.fieldList.toList := by
    change ¬ [] ++ ':' :: [':'] <:+: [] ++ ':' :: index.fieldList.toList
    rw [infix_word_iff List.not_mem_nil List.not_mem_nil]
    rintro (⟨-, hstarts⟩ | hinfix)
    · exact h.fieldList.no_colon (hstarts.subset List.mem_cons_self)
    · exact not_infix_word h.fieldList.no_colon hinfix
  have hno : ¬ "::".toList <:+: ':' :: index.indexId.toList := by
    rw [toList_indexId h.tracked, words]
    split
    · rwa [doubled_infix_word_iff hkind.no_colon hkind.ne_nil,
        doubled_infix_word_iff h.tableId.no_colon h.tableId.ne_nil]
    · rwa [doubled_infix_word_iff horigin.no_colon horigin.ne_nil, doubled_infix_word_iff hkind.no_colon hkind.ne_nil,
        doubled_infix_word_iff h.tableId.no_colon h.tableId.ne_nil]
  rw [scopedId, scopedIndexId, String.toList_append, String.toList_append]
  exact rsplitOn_append hno

theorem Valid.scopedId_inj (h : index.Valid) (hother : other.Valid) (heq : other.scopedId = index.scopedId) :
    other.streamId = index.streamId ∧ other.indexId = index.indexId := by
  have hsplit := h.rsplitOn_scopedId
  rw [← heq, hother.rsplitOn_scopedId] at hsplit
  simpa [String.toList_inj] using hsplit

theorem matchedScope_eq_some_iff (h : index.Valid) (hother : other.Valid) {text : String} :
    matchedScope index.indexId other.scopedId = some text ↔ index.Resembles other ∧
      text = if other.indexId = index.indexId then other.streamId else other.scopedId := by
  have hsuffix : other.indexId.toList <:+ other.scopedId.toList := by
    rw [scopedId, scopedIndexId, String.toList_append]
    exact List.suffix_append _ _
  rw [← infix_scopedId_iff h hother]
  simp only [matchedScope, hother.rsplitOn_scopedId, String.ofList_toList,
    normalizeIdentifier_eq_self h.isNormal_indexId,
    normalizeIdentifier_eq_self hother.isNormal_indexId, normalizeIdentifier_eq_self hother.isNormal_scopedId]
  split
  · rename_i heq
    rw [← heq]
    simp [hsuffix.isInfix, eq_comm]
  · have hany : (other.scopedId = index.indexId ∨ index.indexId.toList <:+ other.scopedId.toList ∨
        containsText other.scopedId index.indexId = true) ↔ index.indexId.toList <:+: other.scopedId.toList := by
      simp only [containsText, decide_eq_true_eq]
      constructor
      · rintro (heq | hsuffix | hinfix)
        · rw [heq]
        · exact hsuffix.isInfix
        · exact hinfix
      · exact fun hinfix => .inr (.inr hinfix)
    simp only [hany, Option.ite_none_right_eq_some, Option.some.injEq, @eq_comm _ text]

end RegisteredIndex

/-- The primary key of the table `users` of a database, and those of another table and of another database. -/
def primaryKeyOf (databaseId storageKey tableId : String) (fieldNames : List String) : RegisteredIndex :=
  ⟨some databaseId, storageKey, tableId, .primaryKey, .derived, fieldNames⟩

def keyedState : RuntimeIndexState := RuntimeIndexState.new.insertWithRowRef [[1]] (some 7)

theorem valid_primaryKeyOf {databaseId storageKey tableId : String} {fieldNames : List String}
    (h : ∀ text ∈ [databaseId, storageKey, tableId, ",".intercalate fieldNames],
      isNormal text = true ∧ ':' ∉ text.toList ∧ text.toList ≠ []) :
    (primaryKeyOf databaseId storageKey tableId fieldNames).Valid := by
  simp only [List.forall_mem_cons] at h
  obtain ⟨⟨h₁, h₂, h₃⟩, ⟨h₄, h₅, h₆⟩, ⟨h₇, h₈, h₉⟩, ⟨hnormal, hcolon, hne⟩, -⟩ := h
  exact ⟨fun _ hid => Option.some.inj hid ▸ ⟨h₁, h₂, h₃⟩, ⟨h₄, h₅, h₆⟩, ⟨h₇, h₈, h₉⟩, ⟨hnormal, hcolon, hne⟩, nofun⟩

end Indexing

end DistDb
