import DistDb.Cache.Patterns
import DistDb.Lib.Maps

/-! # Texts that are searched by their beginnings and ends

A map in the order of its keys, with a second tree of the keys turned round. Texts are ordered by their characters,
which is the order of their bytes in UTF-8. -/

namespace DistDb.Cache
open Lib Query

/-- `char::MAX` -/
def maxChar : Char := Char.ofNat 0x10FFFF

structure TPHashSet (T : Type) where
  itemsByKey : Finmap fun _ : String => T
  reverseKeyToKey : Finmap fun _ : String => String

inductive TPHashSetOp (T : Type) where
  | insert (key : String) (value : T)
  | remove (key : String)

def startsWithIgnoreAsciiCase (value text : String) : Bool :=
  decide ((utf8Bytes text).length ≤ (utf8Bytes value).length) &&
    eqIgnoreAsciiCase ((utf8Bytes value).take (utf8Bytes text).length) (utf8Bytes text)

def endsWithIgnoreAsciiCase (value text : String) : Bool :=
  decide ((utf8Bytes text).length ≤ (utf8Bytes value).length) &&
    eqIgnoreAsciiCase ((utf8Bytes value).drop ((utf8Bytes value).length - (utf8Bytes text).length)) (utf8Bytes text)

namespace TPHashSet

def reverseKey (key : String) : String := String.ofList key.toList.reverse

variable {T : Type} (set : TPHashSet T)

def new : TPHashSet T := ⟨∅, ∅⟩

def insert (key : String) (value : T) : TPHashSet T :=
  ⟨set.itemsByKey.insert key value, set.reverseKeyToKey.insert (reverseKey key) key⟩

def remove (key : String) : TPHashSet T :=
  if (set.itemsByKey.lookup key).isSome then
    ⟨set.itemsByKey.erase key, set.reverseKeyToKey.erase (reverseKey key)⟩
  else set

def apply : TPHashSetOp T → TPHashSet T
  | .insert key value => set.insert key value
  | .remove key => set.remove key

def searchPrefix (text : String) (caseInsensitive : Bool) : List (String × T) :=
  (byKey set.itemsByKey).filter fun entry =>
    if caseInsensitive then startsWithIgnoreAsciiCase entry.1 text
    else Cache.searchPrefix text.toList entry.1.toList

def searchSuffix (text : String) (caseInsensitive : Bool) : List (String × T) :=
  if caseInsensitive then (byKey set.itemsByKey).filter fun entry => endsWithIgnoreAsciiCase entry.1 text
  else (byKey set.reverseKeyToKey).filterMap fun entry =>
    if Cache.searchPrefix (reverseKey text).toList entry.1.toList then
      (set.itemsByKey.lookup entry.2).map (entry.2, ·)
    else none

def searchLike (pattern : String) : List (String × T) :=
  let chars := pattern.toList
  if chars = [] then byKey set.itemsByKey
  else if '%' ∉ chars ∧ '_' ∉ chars then ((set.itemsByKey.lookup pattern).map (pattern, ·)).toList
  else if chars.head? = some '%' ∧ '%' ∉ chars.tail ∧ '_' ∉ chars.tail then
    set.searchSuffix (String.ofList chars.tail) false
  else if chars.getLast? = some '%' ∧ '%' ∉ chars.dropLast ∧ '_' ∉ chars then
    set.searchPrefix (String.ofList chars.dropLast) false
  else (byKey set.itemsByKey).filter fun entry => likeMatchesChars entry.1.toList chars

/-- There is an item with this key. -/
def Has (key : String) : Prop := (set.itemsByKey.lookup key).isSome = true

/-- What was found are the items whose keys pass, each once. -/
def Finds (found : List (String × T)) (P : String → Prop) : Prop :=
  (found.map Prod.fst).Nodup ∧ ∀ key item, (key, item) ∈ found ↔ set.itemsByKey.lookup key = some item ∧ P key

/-- The reversed keys are those of the items. -/
def Paired : Prop := ∀ reversed key, set.reverseKeyToKey.lookup reversed = some key ↔
    key = reverseKey reversed ∧ set.Has key

variable {set}

/-! ## Two trees -/

@[simp] theorem toList_reverseKey (key : String) : (reverseKey key).toList = key.toList.reverse := by simp [reverseKey]

@[simp] theorem reverseKey_reverseKey (key : String) : reverseKey (reverseKey key) = key := by
  rw [reverseKey, toList_reverseKey, List.reverse_reverse, String.ofList_toList]

theorem ne_of_reverseKey_ne {key reversed other : String} (h : reversed ≠ reverseKey key)
    (hother : other = reverseKey reversed) : other ≠ key := by
  rintro rfl
  exact h (by rw [hother, reverseKey_reverseKey])

theorem paired_insert (h : set.Paired) (key : String) (value : T) : (set.insert key value).Paired := by
  intro reversed other
  unfold insert Has
  by_cases hreversed : reversed = reverseKey key
  · subst hreversed
    rw [Finmap.lookup_insert, reverseKey_reverseKey]
    constructor
    · rintro hother
      obtain rfl := Option.some.inj hother
      simp
    · rintro ⟨rfl, -⟩
      rfl
  · rw [Finmap.lookup_insert_of_ne _ hreversed, h reversed other]
    refine and_congr_right fun hother => ?_
    rw [Has, Finmap.lookup_insert_of_ne _ (ne_of_reverseKey_ne hreversed hother)]

theorem paired_remove (h : set.Paired) (key : String) : (set.remove key).Paired := by
  unfold remove
  split
  · intro reversed other
    unfold Has
    by_cases hreversed : reversed = reverseKey key
    · subst hreversed
      rw [Finmap.lookup_erase, reverseKey_reverseKey]
      refine iff_of_false nofun ?_
      rintro ⟨rfl, hhas⟩
      rw [Finmap.lookup_erase] at hhas
      cases hhas
    · rw [Finmap.lookup_erase_ne hreversed, h reversed other]
      refine and_congr_right fun hother => ?_
      rw [Has, Finmap.lookup_erase_ne (ne_of_reverseKey_ne hreversed hother)]
  · exact h

theorem paired_run (ops : List (TPHashSetOp T)) : (runFrom apply new ops).Paired := by
  refine runFrom_invariant (fun set op h => ?_) (fun reversed key => ?_) ops
  · cases op with
    | insert key value => exact paired_insert h key value
    | remove key => exact paired_remove h key
  · simp [new, Has]

/-! ## Searches -/

theorem finds_filter (p : String → Bool) :
    set.Finds ((byKey set.itemsByKey).filter fun entry => p entry.1) (p · = true) := by
  refine ⟨nodup_byKey.sublist (List.filter_sublist.map _), fun key item => ?_⟩
  simp [List.mem_filter]

theorem Finds.congr {found : List (String × T)} {P Q : String → Prop} (h : set.Finds found P)
    (hPQ : ∀ key, set.Has key → (P key ↔ Q key)) : set.Finds found Q := by
  refine ⟨h.1, fun key item => (h.2 key item).trans (and_congr_right fun hitem => hPQ key ?_)⟩
  exact Option.isSome_of_mem hitem

theorem Finds.iff {found : List (String × T)} {P Q : String → Prop} (h : set.Finds found P) :
    set.Finds found Q ↔ ∀ key, set.Has key → (P key ↔ Q key) := by
  refine ⟨fun hQ key hkey => ?_, h.congr⟩
  obtain ⟨item, hitem⟩ := Option.isSome_iff_exists.mp hkey
  exact ⟨fun hP => ((hQ.2 key item).mp ((h.2 key item).mpr ⟨hitem, hP⟩)).2,
    fun hQ' => ((h.2 key item).mp ((hQ.2 key item).mpr ⟨hitem, hQ'⟩)).2⟩

theorem le_maxChar (c : Char) : c ≤ maxChar := by
  have hvalid : c.toNat < 0x110000 := by
    rcases c.valid with hlow | ⟨-, hhigh⟩
    · exact hlow.trans (by decide)
    · exact hhigh
  have hmax : maxChar.toNat = 0x10FFFF := by decide
  rw [Char.le_def, UInt32.le_iff_toNat_le]
  change c.toNat ≤ maxChar.toNat
  omega

theorem searchPrefix_iff {text key : List Char} :
    Cache.searchPrefix text key = true ↔ text <+: key ∧ ¬ text ++ [maxChar] <+: key := by
  unfold Cache.searchPrefix
  rw [Bool.and_eq_true, Bool.and_eq_true, decide_eq_true_eq, decide_eq_true_eq, List.isPrefixOf_iff_prefix]
  constructor
  · rintro ⟨⟨-, hlt⟩, hstarts⟩
    exact ⟨hstarts, fun hmax => absurd hlt (List.not_lt.mpr hmax.le)⟩
  · rintro ⟨⟨rest, rfl⟩, hmax⟩
    refine ⟨⟨not_lt.mp (List.not_lt.mpr List.le_append_left), List.append_left_lt ?_⟩, List.prefix_append _ _⟩
    rw [List.prefix_append_right_inj] at hmax
    cases rest with
    | nil => exact List.nil_lt_cons _ _
    | cons c rest =>
      have hne : c ≠ maxChar := by
        rintro rfl
        exact hmax (List.prefix_append [maxChar] rest)
      exact List.cons_lt_cons_iff.mpr (.inl (lt_of_le_of_ne (le_maxChar c) hne))

theorem finds_searchPrefix (text : String) : set.Finds (set.searchPrefix text false) fun key =>
    text.toList <+: key.toList ∧ ¬ text.toList ++ [maxChar] <+: key.toList :=
  (finds_filter fun key => Cache.searchPrefix text.toList key.toList).congr fun _ _ => searchPrefix_iff

theorem finds_searchSuffix (h : set.Paired) (text : String) : set.Finds (set.searchSuffix text false) fun key =>
    text.toList <:+ key.toList ∧ ¬ maxChar :: text.toList <:+ key.toList := by
  have hsearch : ∀ key : String, Cache.searchPrefix (reverseKey text).toList (reverseKey key).toList = true ↔
      text.toList <:+ key.toList ∧ ¬ maxChar :: text.toList <:+ key.toList := by
    intro key
    rw [searchPrefix_iff, toList_reverseKey, toList_reverseKey, List.reverse_prefix, ← List.reverse_cons,
      List.reverse_prefix]
  constructor
  · -- the keys that are found are turned round from distinct keys of the second tree
    have hentries : (byKey set.reverseKeyToKey).Pairwise fun entry other => entry.2 ≠ other.2 := by
      refine (List.pairwise_map.mp nodup_byKey).imp_of_mem fun {entry other} hentry hother hne heq => hne ?_
      have hkey := ((h entry.1 entry.2).mp (mem_byKey.mp hentry)).1
      have hkey' := ((h other.1 other.2).mp (mem_byKey.mp hother)).1
      rw [← reverseKey_reverseKey entry.1, ← hkey, heq, hkey', reverseKey_reverseKey]
    have hfound : ∀ entry found : String × _, (if Cache.searchPrefix (reverseKey text).toList entry.1.toList then
        (set.itemsByKey.lookup entry.2).map (entry.2, ·) else none) = some found → found.1 = entry.2 := by
      intro entry found hsome
      split at hsome
      · obtain ⟨item, -, rfl⟩ := Option.map_eq_some_iff.mp hsome
        rfl
      · cases hsome
    refine List.pairwise_map.mpr (hentries.filterMap _ fun entry other hne found hsome found' hsome' => ?_)
    rw [hfound entry found hsome, hfound other found' hsome']
    exact hne
  · intro key item
    simp only [searchSuffix, Bool.false_eq_true, ↓reduceIte, List.mem_filterMap]
    constructor
    · rintro ⟨⟨reversed, key'⟩, hentry, hkey⟩
      obtain ⟨rfl, -⟩ := (h reversed key').mp (mem_byKey.mp hentry)
      split at hkey
      · rename_i hmatches
        obtain ⟨item', hitem, heq⟩ := Option.map_eq_some_iff.mp hkey
        obtain ⟨rfl, rfl⟩ := Prod.mk.inj heq
        refine ⟨hitem, (hsearch _).mp ?_⟩
        rwa [reverseKey_reverseKey]
      · cases hkey
    · rintro ⟨hitem, hmatches⟩
      refine ⟨(reverseKey key, key), mem_byKey.mpr ((h _ _).mpr ⟨?_, Option.isSome_of_mem hitem⟩), ?_⟩
      · rw [reverseKey_reverseKey]
      · rw [if_pos ((hsearch key).mpr hmatches), hitem]
        rfl

theorem startsWithIgnoreAsciiCase_iff {value text : String} : startsWithIgnoreAsciiCase value text = true ↔
    (utf8Bytes text).map lowerByte <+: (utf8Bytes value).map lowerByte := by
  unfold startsWithIgnoreAsciiCase eqIgnoreAsciiCase
  rw [Bool.and_eq_true, decide_eq_true_eq, beq_iff_eq, List.prefix_iff_eq_take, List.length_map, ← List.map_take]
  constructor
  · exact fun hand => hand.2.symm
  · intro heq
    refine ⟨?_, heq.symm⟩
    have hlength := congrArg List.length heq
    simp only [List.length_map, List.length_take] at hlength
    omega

theorem endsWithIgnoreAsciiCase_iff {value text : String} : endsWithIgnoreAsciiCase value text = true ↔
    (utf8Bytes text).map lowerByte <:+ (utf8Bytes value).map lowerByte := by
  unfold endsWithIgnoreAsciiCase eqIgnoreAsciiCase
  rw [Bool.and_eq_true, decide_eq_true_eq, beq_iff_eq, List.suffix_iff_eq_drop, List.length_map, List.length_map,
    ← List.map_drop]
  constructor
  · exact fun hand => hand.2.symm
  · intro heq
    refine ⟨?_, heq.symm⟩
    have hlength := congrArg List.length heq
    simp only [List.length_map, List.length_drop] at hlength
    omega

/-! ## Patterns -/

/-- Without wildcards. -/
def Plain (chars : List Char) : Prop := '%' ∉ chars ∧ '_' ∉ chars

theorem cover_plain {chars : List Char} (h : Plain chars) :
    (chars.map plainToken).map (·.cover false) = chars.map fun c => some (· == c) := by
  rw [List.map_map]
  refine List.map_congr_left fun c hc => ?_
  have hmany : c ≠ '%' := fun heq => h.1 (heq ▸ hc)
  have hsingle : c ≠ '_' := fun heq => h.2 (heq ▸ hc)
  simp [plainToken, hmany, hsingle, likeCharEq]

theorem likeMatchesChars_iff {key pattern : List Char} : likeMatchesChars key pattern = true ↔
    Wildcard.Matches ((pattern.map plainToken).map (·.cover false)) key := likeMatches_iff

theorem likeMatchesChars_plain {chars key : List Char} (h : Plain chars) :
    likeMatchesChars key chars = true ↔ key = chars := by
  rw [likeMatchesChars_iff, cover_plain h, ← List.append_nil (List.map _ _), Wildcard.matches_chars_append_iff]
  simp

theorem likeMatchesChars_suffix {chars key : List Char} (h : Plain chars) :
    likeMatchesChars key ('%' :: chars) = true ↔ chars <:+ key := by
  have htokens : (('%' :: chars).map plainToken).map (·.cover false) =
      none :: (chars.map (fun c => some (· == c)) ++ []) := by
    rw [List.append_nil, ← cover_plain h]
    rfl
  rw [likeMatchesChars_iff, htokens, Wildcard.matches_any_iff]
  constructor
  · rintro ⟨suffix, hsuffix, hmatches⟩
    obtain ⟨rest, rfl, hrest⟩ := (Wildcard.matches_chars_append_iff chars).mp hmatches
    rwa [Wildcard.matches_nil_iff.mp hrest, List.append_nil] at hsuffix
  · intro hsuffix
    exact ⟨chars, hsuffix, (Wildcard.matches_chars_append_iff chars).mpr ⟨[], by simp⟩⟩

theorem likeMatchesChars_prefix {chars key : List Char} (h : Plain chars) :
    likeMatchesChars key (chars ++ ['%']) = true ↔ chars <+: key := by
  have htokens : ((chars ++ ['%']).map plainToken).map (·.cover false) =
      chars.map (fun c => some (· == c)) ++ [none] := by
    rw [← cover_plain h, List.map_append, List.map_append]
    rfl
  rw [likeMatchesChars_iff, htokens, Wildcard.matches_chars_append_iff]
  constructor
  · rintro ⟨rest, rfl, -⟩
    exact List.prefix_append _ _
  · rintro ⟨rest, rfl⟩
    exact ⟨rest, rfl, Wildcard.matches_any_iff.mpr ⟨[], List.nil_suffix, by simp⟩⟩

/-- No key is lost to the bounds of the ranges that the pattern is looked up in. -/
structure LikeSafe (set : TPHashSet T) (pattern : List Char) : Prop where
  empty : pattern = [] → ∀ key, set.Has key → key = ""
  ends : ∀ chars, pattern = '%' :: chars → Plain chars → ∀ key, set.Has key → ¬ maxChar :: chars <:+ key.toList
  starts : ∀ chars, chars ≠ [] → pattern = chars ++ ['%'] → Plain chars →
    ∀ key, set.Has key → ¬ chars ++ [maxChar] <+: key.toList

theorem and_not_iff_left_iff {p q : Prop} (h : q → p) : (p ∧ ¬ q ↔ p) ↔ ¬ q := by tauto

theorem finds_searchLike_iff (h : set.Paired) (pattern : String) :
    set.Finds (set.searchLike pattern) (fun key => likeMatchesChars key.toList pattern.toList = true) ↔
      set.LikeSafe pattern.toList := by
  unfold searchLike
  generalize hchars : pattern.toList = chars
  dsimp only
  split
  · rename_i hnil
    subst hnil
    have hall : set.Finds (byKey set.itemsByKey) fun _ => True := by
      have hfilter : set.Finds _ _ := finds_filter fun _ => true
      simpa using hfilter
    rw [hall.iff]
    have hempty : ∀ key : String, (True ↔ likeMatchesChars key.toList [] = true) ↔ key = "" := by
      intro key
      rw [true_iff, likeMatchesChars_plain ⟨List.not_mem_nil, List.not_mem_nil⟩, String.toList_eq_nil_iff]
    simp only [hempty]
    refine ⟨fun hkeys => ⟨fun _ => hkeys, fun rest heq => ?_, fun rest _ heq => ?_⟩, fun hsafe => hsafe.empty rfl⟩
    · cases heq
    · simp at heq
  · rename_i hnil
    split
    · rename_i hplain
      refine iff_of_true ⟨?_, fun key item => ?_⟩
        ⟨fun heq => absurd heq hnil, fun rest heq _ => ?_, fun rest _ heq _ => ?_⟩
      · cases set.itemsByKey.lookup pattern <;> simp
      · dsimp only
        rw [likeMatchesChars_plain hplain, ← hchars, String.toList_inj]
        simp only [Option.mem_toList, Option.map_eq_some_iff, Prod.mk.injEq]
        constructor
        · rintro ⟨_, hitem, rfl, rfl⟩
          exact ⟨hitem, rfl⟩
        · rintro ⟨hitem, rfl⟩
          exact ⟨item, hitem, rfl, rfl⟩
      · exact absurd (heq ▸ List.mem_cons_self) hplain.1
      · exact absurd (heq ▸ by simp) hplain.1
    · split
      · rename_i hsuffix
        obtain ⟨rest, rfl⟩ := List.head?_eq_some_iff.mp hsuffix.1
        have hplain : Plain rest := hsuffix.2
        rw [(finds_searchSuffix h _).iff]
        simp only [List.tail_cons, String.toList_ofList, likeMatchesChars_suffix hplain,
          and_not_iff_left_iff fun hmax => (List.suffix_cons maxChar rest).trans hmax]
        refine ⟨fun hkeys => ⟨fun heq => absurd heq hnil, ?_, ?_⟩, fun hsafe => hsafe.ends rest rfl hplain⟩
        · rintro chars heq -
          obtain rfl := (List.cons.inj heq).2
          exact hkeys
        · rintro chars hne heq hchars'
          cases chars with
          | nil => exact absurd rfl hne
          | cons c chars =>
            obtain ⟨rfl, -⟩ := List.cons.inj heq
            exact absurd List.mem_cons_self hchars'.1
      · rename_i hsuffix
        split
        · rename_i hstarts
          obtain ⟨rest, rfl⟩ := List.getLast?_eq_some_iff.mp hstarts.1
          rw [List.dropLast_concat] at hstarts ⊢
          have hplain : Plain rest := ⟨hstarts.2.1, fun hmem => hstarts.2.2 (List.mem_append_left _ hmem)⟩
          have hne : rest ≠ [] := by
            rintro rfl
            exact hsuffix ⟨rfl, List.not_mem_nil, List.not_mem_nil⟩
          rw [(finds_searchPrefix _).iff]
          simp only [String.toList_ofList, likeMatchesChars_prefix hplain,
            and_not_iff_left_iff fun hmax => (List.prefix_append rest [maxChar]).trans hmax]
          refine ⟨fun hkeys => ⟨fun heq => absurd heq hnil, ?_, ?_⟩, fun hsafe => hsafe.starts rest hne rfl hplain⟩
          · rintro chars heq -
            cases rest with
            | nil => exact absurd rfl hne
            | cons c rest =>
              obtain ⟨rfl, -⟩ := List.cons.inj heq
              exact absurd List.mem_cons_self hplain.1
          · rintro chars - heq -
            obtain rfl := List.append_cancel_right heq
            exact hkeys
        · rename_i hstarts
          refine iff_of_true (finds_filter fun key => likeMatchesChars key.toList chars)
            ⟨fun heq => absurd heq hnil, fun rest heq hrest => ?_, fun rest hne heq hrest => ?_⟩
          · subst heq
            exact absurd ⟨rfl, hrest.1, hrest.2⟩ hsuffix
          · subst heq
            refine absurd ⟨by simp, by simpa using hrest.1, ?_⟩ hstarts
            simpa using hrest.2

/-- Both trees keep the same keys, and the searches find what they are asked for if and only if no key goes on with
`char::MAX` where a range ends, and an empty pattern meets no other key. -/
theorem text_searches_exact_iff (ops : List (TPHashSetOp T)) (query : String) :
    let set : TPHashSet T := runFrom apply new ops
    set.Paired ∧
    (set.Finds (set.searchPrefix query false) (query.toList <+: ·.toList) ↔
      ∀ key, set.Has key → ¬ query.toList ++ [maxChar] <+: key.toList) ∧
    (set.Finds (set.searchSuffix query false) (query.toList <:+ ·.toList) ↔
      ∀ key, set.Has key → ¬ maxChar :: query.toList <:+ key.toList) ∧
    set.Finds (set.searchPrefix query true)
      (fun key => (utf8Bytes query).map lowerByte <+: (utf8Bytes key).map lowerByte) ∧
    set.Finds (set.searchSuffix query true)
      (fun key => (utf8Bytes query).map lowerByte <:+ (utf8Bytes key).map lowerByte) ∧
    (set.Finds (set.searchLike query) (fun key => likeMatchesChars key.toList query.toList = true) ↔
      set.LikeSafe query.toList) := by
  intro set
  have hpaired : set.Paired := paired_run ops
  refine ⟨hpaired, ?_, ?_, ?_, ?_, finds_searchLike_iff hpaired query⟩
  · rw [(finds_searchPrefix query).iff]
    simp only [and_not_iff_left_iff fun hmax => (List.prefix_append query.toList [maxChar]).trans hmax]
  · rw [(finds_searchSuffix hpaired query).iff]
    simp only [and_not_iff_left_iff fun hmax => (List.suffix_cons maxChar query.toList).trans hmax]
  · exact (finds_filter fun key => startsWithIgnoreAsciiCase key query).congr fun _ _ => startsWithIgnoreAsciiCase_iff
  · exact (finds_filter fun key => endsWithIgnoreAsciiCase key query).congr fun _ _ => endsWithIgnoreAsciiCase_iff

/-- A key that goes on with the largest character is not found, and an empty pattern finds every key. -/
theorem largest_character_missed :
    (let key := String.ofList ['a', maxChar]
     let set : TPHashSet Unit := runFrom apply new [.insert key ()]
     set.searchPrefix "a" false = [] ∧ set.searchLike "a%" = [] ∧
       likeMatchesChars key.toList ['a', '%'] = true ∧ set.searchLike "" = [(key, ())] ∧
       likeMatchesChars key.toList [] = false) ∧
    (let key := String.ofList [maxChar, 'a']
     let set : TPHashSet Unit := runFrom apply new [.insert key ()]
     set.searchSuffix "a" false = [] ∧ likeMatchesChars key.toList ['%', 'a'] = true) := by
  decide +kernel

end TPHashSet

end DistDb.Cache
