import DistDb.Lib.Text

/-! # Inserts in chunks

The console looks for the value tuples by their parentheses, so it takes those of a trailing clause for tuples, and
leaves the clause itself out. -/

namespace DistDb.Transfer
open Lib

/-! ## The console -/

def trimStartText (text : List Char) : List Char := text.dropWhile isWhitespace

def trimEndText (text : List Char) : List Char := (text.reverse.dropWhile isWhitespace).reverse

def trimText (text : List Char) : List Char := trimEndText (trimStartText text)

structure QuoteState where
  inSingleQuote : Bool := false
  inDoubleQuote : Bool := false
  inBacktickQuote : Bool := false
  escapeNext : Bool := false

def findAsciiCaseInsensitive (haystack needle : List Char) : Option (List Char) :=
  haystack.tails.find? (matchesAt needle)

def coercesToInsertIgnore (statement : List Char) : Bool :=
  let trimmed := trimStartText statement
  matchesAt "insert ".toList trimmed && !matchesAt "insert ignore ".toList trimmed &&
    !matchesAt "insert /*".toList trimmed &&
    !(findAsciiCaseInsensitive trimmed " on duplicate key update ".toList).isSome

def insertIgnore (statement : List Char) : List Char :=
  let trimmed := trimStartText statement
  statement.take (statement.length - trimmed.length) ++ "insert ignore ".toList ++ trimmed.drop "insert ".length

def coerceImportInsertToInsertIgnore (statement : List Char) : List Char :=
  if coercesToInsertIgnore statement then insertIgnore statement else statement

def extractFrom : QuoteState → Nat → Option (List Char) → List Char → List (List Char)
  | _, _, _, [] => []
  | state, parenDepth, tuple, ch :: text =>
    let tuple' := tuple.map (· ++ [ch])
    if state.escapeNext then extractFrom { state with escapeNext := false } parenDepth tuple' text
    else if (state.inSingleQuote || state.inDoubleQuote) && ch == '\\' then
      extractFrom { state with escapeNext := true } parenDepth tuple' text
    else if ch == '\'' && !state.inDoubleQuote && !state.inBacktickQuote then
      extractFrom { state with inSingleQuote := !state.inSingleQuote } parenDepth tuple' text
    else if ch == '"' && !state.inSingleQuote && !state.inBacktickQuote then
      extractFrom { state with inDoubleQuote := !state.inDoubleQuote } parenDepth tuple' text
    else if ch == '`' && !state.inSingleQuote && !state.inDoubleQuote then
      extractFrom { state with inBacktickQuote := !state.inBacktickQuote } parenDepth tuple' text
    else if state.inSingleQuote || state.inDoubleQuote || state.inBacktickQuote then
      extractFrom state parenDepth tuple' text
    else if ch == '(' then
      extractFrom state (parenDepth + 1) (if parenDepth = 0 then some [ch] else tuple') text
    else if ch == ')' && 0 < parenDepth then
      if parenDepth = 1 then
        match tuple' with
        | some tuple => tuple :: extractFrom state 0 none text
        | none => extractFrom state 0 none text
      else extractFrom state (parenDepth - 1) tuple' text
    else extractFrom state parenDepth tuple' text

def extractInsertValueTuples (valuesTail : List Char) : List (List Char) := extractFrom {} 0 none valuesTail

def byteLength (text : List Char) : Nat := (text.map Char.utf8Size).sum

def chunkTuples (opening : List Char) (maxBytes maxTuplesPerChunk : Nat) :
    List Char → Nat → List (List Char) → List (List Char)
  | current, _, [] => if byteLength opening < byteLength current then [current] else []
  | current, tuplesInChunk, tuple :: tuples =>
    let tuple := trimText tuple
    let started := byteLength opening < byteLength current
    let additional := if started then byteLength tuple + 1 else byteLength tuple
    if started ∧ (maxBytes < byteLength current + additional ∨ maxTuplesPerChunk ≤ tuplesInChunk) then
      current :: chunkTuples opening maxBytes maxTuplesPerChunk (opening ++ tuple) 1 tuples
    else
      chunkTuples opening maxBytes maxTuplesPerChunk ((if started then current ++ [','] else current) ++ tuple)
        (tuplesInChunk + 1) tuples

def streamImportInsertValuesStatements (statement : List Char) (maxBytes maxTuplesPerChunk : Nat) :
    List (List Char) :=
  let statement := coerceImportInsertToInsertIgnore statement
  if !matchesAt "insert ".toList (trimStartText statement) then [statement]
  else
    match findAsciiCaseInsensitive statement " values ".toList with
    | none => [statement]
    | some rest =>
      let valuesTail := rest.drop " values ".length
      let opening := statement.take (statement.length - valuesTail.length)
      let tuples := extractInsertValueTuples valuesTail
      if tuples.length ≤ 1 then [statement]
      else chunkTuples opening maxBytes maxTuplesPerChunk opening 0 tuples

/-! ## Values as they are written -/

inductive Quote where
  | single
  | double
  deriving DecidableEq

def Quote.char : Quote → Char
  | single => '\''
  | double => '"'

def separates (ch : Char) : Bool := isAsciiWhitespace ch || ch.toNat < 32 || ch.toNat = 127

inductive Quoting where
  | bare
  | string (quote : Quote) (escaped : Bool)
  | identifier
  deriving DecidableEq

namespace Quoting

def next : Quoting → Char → Quoting
  | bare, ch => if ch = '\'' then .string .single false else if ch = '"' then .string .double false
      else if ch = '`' then .identifier else .bare
  | string quote true, _ => .string quote false
  | string quote false, ch => if ch = quote.char then .bare else .string quote (ch = '\\')
  | identifier, ch => if ch = '`' then .bare else .identifier

def depth : Quoting → Char → Nat → Nat
  | bare, '(', opened => opened + 1
  | bare, ')', opened => opened - 1
  | _, _, opened => opened

end Quoting

def readGroup : Quoting → Nat → List Char → Option (List Char × List Char)
  | _, _, [] => none
  | quoting, depth, ch :: text =>
    if quoting = .bare ∧ ch = ')' ∧ depth ≤ 1 then some ([ch], text)
    else (readGroup (quoting.next ch) (quoting.depth ch depth) text).map (Prod.map (ch :: ·) id)

/-- The text is a list of tuples with a clause behind it. -/
inductive ReadsValues : List Char → List (List Char) → List Char → Prop where
  | last {text tuple rest inner : List Char} (hopen : trimStartText text = '(' :: inner)
      (hgroup : readGroup .bare 1 inner = some (tuple, rest)) (hclause : (trimStartText rest).head? ≠ some ',') :
      ReadsValues text ['(' :: tuple] (trimStartText rest)
  | more {text tuple rest inner text' clause : List Char} {tuples : List (List Char)}
      (hopen : trimStartText text = '(' :: inner) (hgroup : readGroup .bare 1 inner = some (tuple, rest))
      (hcomma : trimStartText rest = ',' :: text') (hrest : ReadsValues text' tuples clause) :
      ReadsValues text (('(' :: tuple) :: tuples) clause

def hasComment : Quoting → List Char → Bool
  | _, [] => false
  | quoting, ch :: text =>
    (quoting == .bare && (ch == '#' || (ch == '/' && text.head? == some '*') ||
      (ch == '-' && text.head? == some '-' && (text.drop 1).head?.all separates))) ||
        hasComment (quoting.next ch) text

def hasGroup : Quoting → Nat → List Char → Bool
  | _, _, [] => false
  | quoting, depth, ch :: text =>
    (quoting == .bare && ch == ')' && depth == 1) || hasGroup (quoting.next ch) (quoting.depth ch depth) text

/-- An INSERT as it is written: what stands before the word VALUES, the word, and the rest. -/
structure InsertStatement where
  head : List Char
  keyword : List Char
  tail : List Char
  tuples : List (List Char)
  clause : List Char
  isInsert : matchesAt "insert".toList (trimStartText head) = true
  isSeparated : ((trimStartText head).drop "insert".length).head?.any isWhitespace = true
  isValues : keyword.map Char.toLower = "values".toList
  isCommentless : hasComment .bare tail = false
  reads : ReadsValues tail tuples clause

namespace InsertStatement

variable (insert : InsertStatement)

def text : List Char := insert.head ++ insert.keyword ++ insert.tail

def opening : List Char :=
  (if coercesToInsertIgnore insert.text then insertIgnore insert.head else insert.head) ++ insert.keyword

/-- The statements have all tuples once and in order, each with the same beginning and clause. -/
def Preserved (emitted : List (List Char)) : Prop :=
  ∃ parts : List (List Char × List (List Char)),
    emitted = parts.map (fun part => insert.opening ++ part.1) ∧ (parts.map Prod.snd).flatten = insert.tuples ∧
      ∀ part ∈ parts, ReadsValues part.1 part.2 insert.clause

/-- The console does not look for tuples: INSERT is not followed by a blank, or there is no ` values ` at all. -/
def SentWhole : Prop :=
  matchesAt "insert ".toList (trimStartText (coerceImportInsertToInsertIgnore insert.text)) = false ∨
    findAsciiCaseInsensitive (coerceImportInsertToInsertIgnore insert.text) " values ".toList = none

/-- The search for `VALUES` finds the keyword of the statement. -/
def Located : Prop :=
  matchesAt "insert ".toList (trimStartText (coerceImportInsertToInsertIgnore insert.text)) = true ∧
    findAsciiCaseInsensitive (coerceImportInsertToInsertIgnore insert.text) " values ".toList =
      some (' ' :: (insert.keyword ++ insert.tail))

instance : Decidable insert.Located := inferInstanceAs (Decidable (_ ∧ _))

end InsertStatement

/-! ## Groups in parentheses -/

variable {quoting : Quoting} {depth : Nat} {text group rest clause : List Char} {tuples : List (List Char)} {ch : Char}

theorem readGroup_cons : readGroup quoting depth (ch :: text) =
    if quoting = .bare ∧ ch = ')' ∧ depth ≤ 1 then some ([ch], text)
    else (readGroup (quoting.next ch) (quoting.depth ch depth) text).map (Prod.map (ch :: ·) id) := rfl

theorem readGroup_append (h : readGroup quoting depth text = some (group, rest)) (other : List Char) :
    readGroup quoting depth (group ++ other) = some (group, other) := by
  induction text generalizing quoting depth group with
  | nil => simp [readGroup] at h
  | cons ch text ih =>
    rw [readGroup_cons] at h
    split at h
    · next hclose =>
      cases h
      rw [List.singleton_append, readGroup_cons, if_pos hclose]
    · next hopen =>
      simp only [Option.map_eq_some_iff, Prod.exists, Prod.map_apply, id_eq, Prod.mk.injEq] at h
      obtain ⟨group', rest', hgroup, rfl, rfl⟩ := h
      rw [List.cons_append, readGroup_cons, if_neg hopen, ih hgroup]
      rfl

def Quoting.state : Quoting → QuoteState
  | .bare => {}
  | .string .single escaped => { inSingleQuote := true, escapeNext := escaped }
  | .string .double escaped => { inDoubleQuote := true, escapeNext := escaped }
  | .identifier => { inBacktickQuote := true }

theorem extractFrom_cons (tuple : Option (List Char)) :
    extractFrom quoting.state depth tuple (ch :: text) =
      if quoting = .bare ∧ ch = ')' ∧ depth = 1 then
        (tuple.map (· ++ [ch])).toList ++ extractFrom Quoting.bare.state 0 none text
      else
        extractFrom (quoting.next ch).state (quoting.depth ch depth)
          (if quoting = .bare ∧ ch = '(' ∧ depth = 0 then some [ch] else tuple.map (· ++ [ch])) text := by
  cases quoting with
  | bare =>
    by_cases hsingle : ch = '\''
    · subst hsingle
      rfl
    by_cases hdouble : ch = '"'
    · subst hdouble
      rfl
    by_cases hbacktick : ch = '`'
    · subst hbacktick
      rfl
    by_cases hopen : ch = '('
    · subst hopen
      simp [extractFrom, Quoting.state, Quoting.next, Quoting.depth]
    by_cases hclose : ch = ')'
    · subst hclose
      by_cases hone : depth = 1
      · subst hone
        cases tuple <;> simp [extractFrom, Quoting.state]
      · by_cases hzero : 0 < depth
        · simp [extractFrom, Quoting.state, Quoting.next, Quoting.depth, hone, hzero]
        · simp [extractFrom, Quoting.state, Quoting.next, Quoting.depth, Nat.eq_zero_of_not_pos hzero]
    simp [extractFrom, Quoting.state, Quoting.next, Quoting.depth, *]
  | string quote escaped =>
    have hbackslash : ch = '\\' → ch ≠ '\'' ∧ ch ≠ '"' := by
      rintro rfl
      decide
    cases quote <;> cases escaped <;>
      simp [extractFrom, Quoting.state, Quoting.next, Quoting.depth, Quote.char] <;> grind
  | identifier =>
    by_cases hbacktick : ch = '`' <;>
      simp [extractFrom, Quoting.state, Quoting.next, Quoting.depth, hbacktick]

theorem extractFrom_group (tuple : List Char) (h : readGroup quoting depth text = some (group, rest))
    (hdepth : 1 ≤ depth) :
    extractFrom quoting.state depth (some tuple) text =
      (tuple ++ group) :: extractFrom Quoting.bare.state 0 none rest := by
  induction text generalizing quoting depth group tuple with
  | nil => simp [readGroup] at h
  | cons ch text ih =>
    rw [readGroup_cons] at h
    rw [extractFrom_cons]
    split at h
    · next hclose =>
      cases h
      rw [if_pos ⟨hclose.1, hclose.2.1, by omega⟩]
      rfl
    · next hopen =>
      simp only [Option.map_eq_some_iff, Prod.exists, Prod.map_apply, id_eq, Prod.mk.injEq] at h
      obtain ⟨group', rest', hgroup, rfl, rfl⟩ := h
      have hdepth' : 1 ≤ quoting.depth ch depth := by
        unfold Quoting.depth
        split
        · omega
        · have hnested : ¬depth ≤ 1 := fun hle => hopen ⟨rfl, rfl, hle⟩
          omega
        · exact hdepth
      rw [if_neg fun hclose => hopen ⟨hclose.1, hclose.2.1, hclose.2.2.le⟩, if_neg (by omega), Option.map_some,
        ih _ hgroup hdepth']
      simp

theorem extractInsertValueTuples_cons (h : ch ∉ ['\'', '"', '`', '(', ')']) :
    extractInsertValueTuples (ch :: text) = extractInsertValueTuples text := by
  simp only [List.mem_cons, List.not_mem_nil, or_false, not_or] at h
  simp [extractInsertValueTuples, extractFrom, h]

theorem extractInsertValueTuples_group (h : readGroup .bare 1 text = some (group, rest)) :
    extractInsertValueTuples ('(' :: text) = ('(' :: group) :: extractInsertValueTuples rest :=
  extractFrom_group ['('] h le_rfl

theorem extractInsertValueTuples_trimStartText (text : List Char) :
    extractInsertValueTuples (trimStartText text) = extractInsertValueTuples text := by
  induction text with
  | nil => rfl
  | cons ch text ih =>
    by_cases hblank : isWhitespace ch = true
    · have hplain : ch ∉ ['\'', '"', '`', '(', ')'] := by
        rintro hmem
        simp only [List.mem_cons, List.not_mem_nil, or_false] at hmem
        rcases hmem with rfl | rfl | rfl | rfl | rfl <;> revert hblank <;> decide
      rw [extractInsertValueTuples_cons hplain, ← ih, trimStartText, List.dropWhile_cons_of_pos hblank]
      rfl
    · rw [trimStartText, List.dropWhile_cons_of_neg hblank]

theorem ReadsValues.extract (h : ReadsValues text tuples clause) :
    extractInsertValueTuples text = tuples ++ extractInsertValueTuples clause := by
  induction h with
  | @last text tuple rest inner hopen hgroup hclause =>
    rw [← extractInsertValueTuples_trimStartText text, hopen, extractInsertValueTuples_group hgroup,
      extractInsertValueTuples_trimStartText]
    rfl
  | @more text tuple rest inner text' clause tuples hopen hgroup hcomma hrest ih =>
    rw [← extractInsertValueTuples_trimStartText text, hopen, extractInsertValueTuples_group hgroup,
      ← extractInsertValueTuples_trimStartText rest, hcomma, extractInsertValueTuples_cons (by decide), ih]
    rfl

theorem Quoting.ne_zero_of_depth_ne_zero (h : quoting.depth ch depth ≠ 0)
    (hopen : ¬(quoting = .bare ∧ ch = '(' ∧ depth = 0)) : depth ≠ 0 := by
  rintro rfl
  unfold Quoting.depth at h
  split at h
  · exact hopen ⟨rfl, rfl, rfl⟩
  · exact h rfl
  · exact h rfl

theorem extractFrom_eq_nil_iff (quoting : Quoting) (depth : Nat) (tuple : Option (List Char)) (text : List Char)
    (htuple : depth ≠ 0 → tuple.isSome = true) :
    extractFrom quoting.state depth tuple text = [] ↔ hasGroup quoting depth text = false := by
  induction text generalizing quoting depth tuple with
  | nil => simp [extractFrom, hasGroup]
  | cons ch text ih =>
    rw [extractFrom_cons, hasGroup]
    by_cases hclose : quoting = .bare ∧ ch = ')' ∧ depth = 1
    · obtain ⟨rfl, rfl, rfl⟩ := hclose
      obtain ⟨tuple, rfl⟩ := Option.isSome_iff_exists.1 (htuple one_ne_zero)
      simp
    · have hkept : (quoting == .bare && ch == ')' && depth == 1) = false := by
        simpa [and_assoc] using hclose
      rw [if_neg hclose, hkept, Bool.false_or]
      apply ih
      intro hdepth
      by_cases hopen : quoting = .bare ∧ ch = '(' ∧ depth = 0
      · simp [hopen]
      · rw [if_neg hopen, Option.isSome_map]
        exact htuple (Quoting.ne_zero_of_depth_ne_zero hdepth hopen)

theorem extractInsertValueTuples_eq_nil_iff :
    extractInsertValueTuples text = [] ↔ hasGroup .bare 0 text = false :=
  extractFrom_eq_nil_iff .bare 0 none text (by simp)

/-! ## Reading -/

theorem getLast?_of_readGroup (h : readGroup quoting depth text = some (group, rest)) : group.getLast? = some ')' := by
  induction text generalizing quoting depth group with
  | nil => simp [readGroup] at h
  | cons ch text ih =>
    rw [readGroup_cons] at h
    split at h
    · next hclose =>
      cases h
      simp [hclose.2.1]
    · simp only [Option.map_eq_some_iff, Prod.exists, Prod.map_apply, id_eq, Prod.mk.injEq] at h
      obtain ⟨group', rest', hgroup, rfl, rfl⟩ := h
      rw [List.getLast?_cons, ih hgroup]
      rfl

def IsTuple (tuple : List Char) : Prop := ∃ inner, tuple = '(' :: inner ∧ readGroup .bare 1 inner = some (inner, [])

theorem isTuple_of_readGroup (h : readGroup .bare 1 text = some (group, rest)) : IsTuple ('(' :: group) :=
  ⟨group, rfl, by simpa using readGroup_append h []⟩

def Begins (quoting : Quoting) (depth : Nat) (tuple : List Char) : Prop :=
  ∃ inner, tuple = '(' :: inner ∧ ∀ rest, readGroup .bare 1 (inner ++ rest) =
    (readGroup quoting depth rest).map (Prod.map (inner ++ ·) id)

theorem Begins.next {tuple : List Char} (h : Begins quoting depth tuple)
    (hopen : ¬(quoting = .bare ∧ ch = ')' ∧ depth ≤ 1)) :
    Begins (quoting.next ch) (quoting.depth ch depth) (tuple ++ [ch]) := by
  obtain ⟨inner, rfl, hread⟩ := h
  refine ⟨inner ++ [ch], rfl, fun rest => ?_⟩
  rw [List.append_assoc, hread, List.singleton_append, readGroup_cons, if_neg hopen, Option.map_map]
  congr 1
  funext ⟨group, rest⟩
  simp

theorem Begins.isTuple {tuple : List Char} (h : Begins .bare 1 tuple) : IsTuple (tuple ++ [')']) := by
  obtain ⟨inner, rfl, hread⟩ := h
  refine ⟨inner ++ [')'], rfl, ?_⟩
  rw [hread, readGroup_cons, if_pos ⟨rfl, rfl, le_rfl⟩]
  rfl

theorem isTuple_extractFrom (quoting : Quoting) (depth : Nat) (tuple : Option (List Char)) (text : List Char)
    (hbegins : depth ≠ 0 → ∀ begun ∈ tuple, Begins quoting depth begun) :
    ∀ found ∈ extractFrom quoting.state depth tuple text, IsTuple found := by
  induction text generalizing quoting depth tuple with
  | nil => simp [extractFrom]
  | cons ch text ih =>
    rw [extractFrom_cons]
    split
    · next hclose =>
      obtain ⟨rfl, rfl, rfl⟩ := hclose
      intro found hfound
      rcases List.mem_append.1 hfound with htuple | hrest
      · simp only [Option.mem_toList, Option.map_eq_some_iff] at htuple
        obtain ⟨begun, rfl, rfl⟩ := htuple
        exact (hbegins one_ne_zero begun rfl).isTuple
      · exact ih .bare 0 none (by simp) found hrest
    · next hopen =>
      apply ih
      intro hdepth begun hbegun
      split at hbegun
      · next hstart =>
        obtain ⟨rfl, rfl, rfl⟩ := hstart
        cases hbegun
        refine ⟨[], rfl, fun rest => ?_⟩
        change _ = (readGroup .bare 1 rest).map (Prod.map id id)
        rw [Prod.map_id, Option.map_id]
        rfl
      · next hinside =>
        simp only [Option.mem_def, Option.map_eq_some_iff] at hbegun
        obtain ⟨begun, rfl, rfl⟩ := hbegun
        have hdepth' := Quoting.ne_zero_of_depth_ne_zero hdepth hinside
        exact (hbegins hdepth' begun rfl).next fun hclose => hopen ⟨hclose.1, hclose.2.1, by omega⟩

theorem isTuple_extractInsertValueTuples (text : List Char) : ∀ tuple ∈ extractInsertValueTuples text, IsTuple tuple :=
  isTuple_extractFrom .bare 0 none text (by simp)

theorem ReadsValues.isTuple (h : ReadsValues text tuples clause) : ∀ tuple ∈ tuples, IsTuple tuple := by
  induction h with
  | last hopen hgroup hclause => simpa using isTuple_of_readGroup hgroup
  | more hopen hgroup hcomma hrest ih =>
    rintro tuple (_ | ⟨_, htuple⟩)
    · exact isTuple_of_readGroup hgroup
    · exact ih tuple htuple

theorem ReadsValues.ne_nil (h : ReadsValues text tuples clause) : tuples ≠ [] := by
  cases h <;> simp

theorem ReadsValues.congr {text' : List Char} (h : ReadsValues text tuples clause)
    (htext : trimStartText text' = trimStartText text) : ReadsValues text' tuples clause := by
  cases h with
  | last hopen hgroup hclause => exact .last (htext.trans hopen) hgroup hclause
  | more hopen hgroup hcomma hrest => exact .more (htext.trans hopen) hgroup hcomma hrest

theorem ReadsValues.unique {tuples' : List (List Char)} {clause' : List Char} (h : ReadsValues text tuples clause)
    (h' : ReadsValues text tuples' clause') : tuples = tuples' ∧ clause = clause' := by
  induction h generalizing tuples' clause' with
  | last hopen hgroup hclause =>
    cases h' with
    | last hopened hgroup' hclause' =>
      cases hopen.symm.trans hopened
      cases hgroup.symm.trans hgroup'
      exact ⟨rfl, rfl⟩
    | more hopened hgroup' hcomma' hrest' =>
      cases hopen.symm.trans hopened
      cases hgroup.symm.trans hgroup'
      simp [hcomma'] at hclause
  | more hopen hgroup hcomma hrest ih =>
    cases h' with
    | last hopened hgroup' hclause' =>
      cases hopen.symm.trans hopened
      cases hgroup.symm.trans hgroup'
      simp [hcomma] at hclause'
    | more hopened hgroup' hcomma' hrest' =>
      cases hopen.symm.trans hopened
      cases hgroup.symm.trans hgroup'
      cases hcomma.symm.trans hcomma'
      obtain ⟨rfl, rfl⟩ := ih hrest'
      exact ⟨rfl, rfl⟩

/-! ## Chunks -/

def joined : List (List Char) → List Char
  | [] => []
  | [tuple] => tuple
  | tuple :: tuples => tuple ++ ',' :: joined tuples

theorem joined_cons (tuple : List Char) (h : tuples ≠ []) :
    joined (tuple :: tuples) = tuple ++ ',' :: joined tuples := by
  cases tuples with
  | nil => exact absurd rfl h
  | cons tuple' tuples => rfl

theorem joined_concat (tuple : List Char) (h : tuples ≠ []) :
    joined (tuples ++ [tuple]) = joined tuples ++ ',' :: tuple := by
  induction tuples with
  | nil => exact absurd rfl h
  | cons tuple' tuples ih =>
    by_cases hempty : tuples = []
    · subst hempty
      rfl
    · rw [List.cons_append, joined_cons _ (by simp), ih hempty, joined_cons _ hempty]
      simp

theorem trimText_tuple {tuple : List Char} (h : IsTuple tuple) : trimText tuple = tuple := by
  obtain ⟨inner, rfl, hgroup⟩ := h
  obtain ⟨inner', rfl⟩ := List.getLast?_eq_some_iff.1 (getLast?_of_readGroup hgroup)
  have hstart : trimStartText ('(' :: (inner' ++ [')'])) = '(' :: (inner' ++ [')']) := rfl
  have hend : isWhitespace ')' = false := by decide
  simp [trimText, hstart, trimEndText, hend]

theorem readsValues_joined (hne : tuples ≠ []) (h : ∀ tuple ∈ tuples, IsTuple tuple) :
    ReadsValues (joined tuples) tuples [] := by
  induction tuples with
  | nil => exact absurd rfl hne
  | cons tuple tuples ih =>
    obtain ⟨inner, rfl, hgroup⟩ := h tuple (by simp)
    by_cases hempty : tuples = []
    · subst hempty
      exact .last rfl hgroup (by decide)
    · have hrest := ih hempty fun tuple htuple => h tuple (List.mem_cons_of_mem _ htuple)
      rw [joined_cons _ hempty]
      exact .more rfl (readGroup_append hgroup (',' :: joined tuples)) rfl hrest

theorem byteLength_append (text text' : List Char) :
    byteLength (text ++ text') = byteLength text + byteLength text' := by
  simp [byteLength]

theorem byteLength_lt_append_iff (text text' : List Char) :
    byteLength text < byteLength (text ++ text') ↔ text' ≠ [] := by
  rw [byteLength_append]
  cases text' with
  | nil => simp [byteLength]
  | cons ch text' =>
    have := Char.utf8Size_pos ch
    simp [byteLength]
    omega

theorem joined_ne_nil (hne : tuples ≠ []) (h : ∀ tuple ∈ tuples, IsTuple tuple) : joined tuples ≠ [] := by
  cases tuples with
  | nil => exact absurd rfl hne
  | cons tuple tuples =>
    obtain ⟨inner, rfl, -⟩ := h tuple (by simp)
    by_cases hempty : tuples = []
    · subst hempty
      simp [joined]
    · rw [joined_cons _ hempty]
      simp

theorem started_iff (opening : List Char) (h : ∀ tuple ∈ tuples, IsTuple tuple) :
    byteLength opening < byteLength (opening ++ joined tuples) ↔ tuples ≠ [] := by
  rw [byteLength_lt_append_iff]
  constructor
  · rintro hjoined rfl
    exact hjoined rfl
  · exact fun hne => joined_ne_nil hne h

theorem chunkTuples_eq (opening : List Char) (maxBytes maxTuplesPerChunk tuplesInChunk : Nat)
    (tuples started : List (List Char)) (h : ∀ tuple ∈ started ++ tuples, IsTuple tuple) :
    ∃ groups : List (List (List Char)),
      chunkTuples opening maxBytes maxTuplesPerChunk (opening ++ joined started) tuplesInChunk tuples =
        groups.map (fun group => opening ++ joined group) ∧ groups.flatten = started ++ tuples ∧ [] ∉ groups := by
  induction tuples generalizing started tuplesInChunk with
  | nil =>
    rw [chunkTuples]
    by_cases hempty : started = []
    · subst hempty
      exact ⟨[], by simp [joined], rfl, by simp⟩
    · rw [if_pos ((started_iff opening fun tuple htuple => h tuple (by simp [htuple])).2 hempty)]
      exact ⟨[started], rfl, by simp, by simpa using Ne.symm hempty⟩
  | cons tuple tuples ih =>
    have hstarted := started_iff opening fun tuple (htuple : tuple ∈ started) => h tuple (by simp [htuple])
    have hnext : ∀ tuple' ∈ started ++ [tuple] ++ tuples, IsTuple tuple' := by simpa using h
    obtain ⟨groups, hchunks, hflatten, hne⟩ := ih (tuplesInChunk + 1) (started ++ [tuple]) hnext
    rw [chunkTuples, trimText_tuple (h tuple (by simp))]
    by_cases hempty : started = []
    · subst hempty
      refine ⟨groups, ?_, by simpa using hflatten, hne⟩
      rw [← hchunks]
      simp [joined]
    · simp only [hstarted.2 hempty, true_and, if_true]
      split
      · -- the chunk is complete, and the tuple begins the next one
        obtain ⟨groups, hchunks, hflatten, hne⟩ :=
          ih 1 [tuple] fun tuple' htuple => hnext tuple' (by simp at htuple ⊢; tauto)
        refine ⟨started :: groups, ?_, by simp [hflatten], by simpa [hne] using Ne.symm hempty⟩
        rw [List.map_cons, ← hchunks]
        rfl
      · refine ⟨groups, ?_, by simpa using hflatten, hne⟩
        rw [← hchunks, joined_concat _ hempty]
        simp

/-! ## Whole statements -/

namespace InsertStatement

variable (insert : InsertStatement)

theorem length_trimStartText_head : "insert ".length ≤ (trimStartText insert.head).length := by
  have hseparated := insert.isSeparated
  have hlength : "insert ".length = "insert".length + 1 := by decide
  by_contra hshort
  have hle : (trimStartText insert.head).length ≤ "insert".length := by omega
  rw [List.drop_eq_nil_of_le hle] at hseparated
  exact absurd hseparated (by decide)

theorem trimStartText_text :
    trimStartText insert.text = trimStartText insert.head ++ (insert.keyword ++ insert.tail) := by
  have hlength := insert.length_trimStartText_head
  rw [text, List.append_assoc, trimStartText, List.dropWhile_append, if_neg]
  · rfl
  · intro hempty
    rw [trimStartText, List.isEmpty_iff.1 hempty] at hlength
    exact absurd hlength (by decide)

theorem insertIgnore_text : insertIgnore insert.text = insertIgnore insert.head ++ (insert.keyword ++ insert.tail) := by
  have hle : (trimStartText insert.head).length ≤ insert.head.length := (List.dropWhile_sublist _).length_le
  simp only [insertIgnore, trimStartText_text]
  have htake : insert.text.length - (trimStartText insert.head ++ (insert.keyword ++ insert.tail)).length =
      insert.head.length - (trimStartText insert.head).length := by
    simp only [text, List.length_append]
    omega
  rw [List.drop_append_of_le_length insert.length_trimStartText_head, htake, text, List.append_assoc insert.head,
    List.take_append_of_le_length (by omega)]
  simp only [List.append_assoc]

theorem coerce_text : coerceImportInsertToInsertIgnore insert.text = insert.opening ++ insert.tail := by
  rw [coerceImportInsertToInsertIgnore, opening]
  split
  · rw [insertIgnore_text, List.append_assoc]
  · rw [text]

theorem preserved_whole : insert.Preserved [coerceImportInsertToInsertIgnore insert.text] :=
  ⟨[(insert.tail, insert.tuples)], by simp [coerce_text], by simp, by simpa using insert.reads⟩

theorem preserved_of_sentWhole (h : insert.SentWhole) (maxBytes maxTuplesPerChunk : Nat) :
    insert.Preserved (streamImportInsertValuesStatements insert.text maxBytes maxTuplesPerChunk) := by
  unfold streamImportInsertValuesStatements
  rcases h with hinsert | hvalues
  · simp only [hinsert]
    exact insert.preserved_whole
  · simp only [hvalues]
    split <;> exact insert.preserved_whole

theorem Located.tail_eq {insert : InsertStatement} (h : insert.Located) : ∃ tail, insert.tail = ' ' :: tail := by
  have hmatches : matchesAt " values ".toList (' ' :: (insert.keyword ++ insert.tail)) = true :=
    List.find?_some h.2
  have hpattern : " values ".toList.map Char.toLower = ' ' :: ("values".toList ++ [' ']) := by decide
  have htext : (' ' :: (insert.keyword ++ insert.tail)).map Char.toLower =
      ' ' :: ("values".toList ++ insert.tail.map Char.toLower) := by
    rw [List.map_cons, List.map_append, insert.isValues]
    rfl
  rw [matchesAt_eq_true, hpattern, htext, List.prefix_cons_inj, List.prefix_append_right_inj] at hmatches
  cases htail : insert.tail with
  | nil => simp [htail] at hmatches
  | cons ch tail =>
    rw [htail, List.map_cons, List.cons_prefix_cons] at hmatches
    rw [(toLower_eq_iff (by decide)).1 hmatches.1.symm]
    exact ⟨tail, rfl⟩

theorem drop_values {tail : List Char} (htail : insert.tail = ' ' :: tail) :
    (' ' :: (insert.keyword ++ insert.tail)).drop " values ".length = tail := by
  have hkeyword : insert.keyword.length = 6 := by simpa using congrArg List.length insert.isValues
  have hlength : " values ".length = insert.keyword.length + 1 + 1 := by
    rw [hkeyword]
    decide
  rw [hlength, List.drop_succ_cons, htail, List.drop_append]
  simp

theorem preserved_chunks_iff (maxBytes maxTuplesPerChunk : Nat) :
    insert.Preserved (chunkTuples (insert.opening ++ [' ']) maxBytes maxTuplesPerChunk (insert.opening ++ [' ']) 0
      (insert.tuples ++ extractInsertValueTuples insert.clause)) ↔ insert.clause = [] := by
  have htuples : ∀ tuple ∈ insert.tuples ++ extractInsertValueTuples insert.clause, IsTuple tuple := by
    intro tuple htuple
    rcases List.mem_append.1 htuple with hread | hclause
    · exact insert.reads.isTuple tuple hread
    · exact isTuple_extractInsertValueTuples _ tuple hclause
  obtain ⟨groups, hchunks, hflatten, hne⟩ := chunkTuples_eq (insert.opening ++ [' ']) maxBytes maxTuplesPerChunk 0
    (insert.tuples ++ extractInsertValueTuples insert.clause) [] htuples
  rw [joined, List.append_nil] at hchunks
  rw [List.nil_append] at hflatten
  rw [hchunks]
  have hreads : ∀ group ∈ groups, ReadsValues (' ' :: joined group) group [] := by
    intro group hgroup
    have hgroups : ∀ tuple ∈ group, IsTuple tuple := fun tuple htuple =>
      htuples tuple (hflatten ▸ List.mem_flatten_of_mem hgroup htuple)
    exact (readsValues_joined (ne_of_mem_of_not_mem hgroup hne) hgroups).congr rfl
  constructor
  · rintro ⟨parts, hparts, -, hclause⟩
    cases groups with
    | nil => exact absurd (List.append_eq_nil_iff.1 hflatten.symm).1 insert.reads.ne_nil
    | cons group groups =>
      cases parts with
      | nil => exact absurd hparts (by simp)
      | cons part parts =>
        rw [List.map_cons, List.map_cons, List.cons.injEq, List.append_assoc] at hparts
        have hpart : ' ' :: joined group = part.1 := List.append_cancel_left hparts.1
        have hread := hclause part (by simp)
        rw [← hpart] at hread
        exact (hread.unique (hreads group (by simp))).2
  · intro hclause
    rw [hclause] at hflatten
    refine ⟨groups.map fun group => (' ' :: joined group, group), by simp, ?_, ?_⟩
    · simpa [extractInsertValueTuples, extractFrom, Function.comp_def] using hflatten
    · rw [hclause]
      intro part hpart
      obtain ⟨group, hgroup, rfl⟩ := List.mem_map.1 hpart
      exact hreads group hgroup

theorem stream_of_located (h : insert.Located) (maxBytes maxTuplesPerChunk : Nat) :
    streamImportInsertValuesStatements insert.text maxBytes maxTuplesPerChunk =
      if (insert.tuples ++ extractInsertValueTuples insert.clause).length ≤ 1 then
        [coerceImportInsertToInsertIgnore insert.text]
      else chunkTuples (insert.opening ++ [' ']) maxBytes maxTuplesPerChunk (insert.opening ++ [' ']) 0
        (insert.tuples ++ extractInsertValueTuples insert.clause) := by
  obtain ⟨tail, htail⟩ := h.tail_eq
  have hextract : extractInsertValueTuples tail = insert.tuples ++ extractInsertValueTuples insert.clause := by
    rw [← insert.reads.extract, htail, extractInsertValueTuples_cons (by decide)]
  have hopening : (coerceImportInsertToInsertIgnore insert.text).take
      ((coerceImportInsertToInsertIgnore insert.text).length - tail.length) = insert.opening ++ [' '] := by
    have hlength : (insert.opening ++ ' ' :: tail).length - tail.length = (insert.opening ++ [' ']).length := by
      simp only [List.length_append, List.length_cons, List.length_nil]
      omega
    have hsplit : insert.opening ++ ' ' :: tail = insert.opening ++ [' '] ++ tail := by simp
    rw [coerce_text, htail, hlength, hsplit, List.take_left]
  unfold streamImportInsertValuesStatements
  simp only [h.1, h.2, insert.drop_values htail, hextract, hopening]
  rfl

theorem preserved_iff_of_located (h : insert.Located) (maxBytes maxTuplesPerChunk : Nat) :
    insert.Preserved (streamImportInsertValuesStatements insert.text maxBytes maxTuplesPerChunk) ↔
      insert.clause = [] ∨ (insert.tuples.length = 1 ∧ hasGroup .bare 0 insert.clause = false) := by
  have hpos := List.length_pos_of_ne_nil insert.reads.ne_nil
  have hgroup : hasGroup .bare 0 insert.clause = false ↔ (extractInsertValueTuples insert.clause).length = 0 := by
    rw [← extractInsertValueTuples_eq_nil_iff, List.length_eq_zero_iff]
  rw [insert.stream_of_located h, hgroup, List.length_append]
  split
  · next hone =>
    exact iff_of_true insert.preserved_whole (.inr (by omega))
  · next hmany =>
    rw [preserved_chunks_iff, or_iff_left (by omega)]

end InsertStatement

/-- An INSERT that is sent whole is preserved. One that is cut behind the word VALUES is preserved exactly if it has no
trailing clause, or one tuple and a clause without parentheses. -/
theorem insert_preserved_iff (insert : InsertStatement) (maxBytes maxTuplesPerChunk : Nat) :
    (insert.SentWhole →
        insert.Preserved (streamImportInsertValuesStatements insert.text maxBytes maxTuplesPerChunk)) ∧
      (insert.Located →
        (insert.Preserved (streamImportInsertValuesStatements insert.text maxBytes maxTuplesPerChunk) ↔
          insert.clause = [] ∨ (insert.tuples.length = 1 ∧ hasGroup .bare 0 insert.clause = false))) :=
  ⟨fun h => insert.preserved_of_sentWhole h maxBytes maxTuplesPerChunk,
    fun h => insert.preserved_iff_of_located h maxBytes maxTuplesPerChunk⟩

/-- `INSERT INTO t (a) VALUES (1),(')'), (3)`. -/
def threeTuples : InsertStatement where
  head := "INSERT INTO t (a) ".toList
  keyword := "VALUES".toList
  tail := " (1),(')'), (3)".toList
  tuples := ["(1)".toList, "(')')".toList, "(3)".toList]
  clause := []
  isInsert := by decide
  isSeparated := by decide
  isValues := by decide
  isCommentless := by decide
  reads := .more rfl rfl rfl (.more rfl rfl rfl
    (@ReadsValues.last " (3)".toList "3)".toList [] "3)".toList rfl rfl (by decide)))

theorem threeTuples_preserved : threeTuples.Located ∧
    threeTuples.Preserved (streamImportInsertValuesStatements threeTuples.text 1000 2) ∧
    streamImportInsertValuesStatements threeTuples.text 1000 2 =
      ["insert ignore INTO t (a) VALUES (1),(')')".toList, "insert ignore INTO t (a) VALUES (3)".toList] := by
  have hlocated : threeTuples.Located := by decide +kernel
  exact ⟨hlocated, ((insert_preserved_iff threeTuples 1000 2).2 hlocated).2 (.inl rfl), by decide +kernel⟩

/-- `INSERT INTO t (a, b) VALUES (1, 2) ON DUPLICATE KEY UPDATE b = VALUES(b)`. -/
def upsertingInsert : InsertStatement where
  head := "INSERT INTO t (a, b) ".toList
  keyword := "VALUES".toList
  tail := " (1, 2) ON DUPLICATE KEY UPDATE b = VALUES(b)".toList
  tuples := ["(1, 2)".toList]
  clause := "ON DUPLICATE KEY UPDATE b = VALUES(b)".toList
  isInsert := by decide
  isSeparated := by decide
  isValues := by decide
  isCommentless := by decide
  reads := @ReadsValues.last " (1, 2) ON DUPLICATE KEY UPDATE b = VALUES(b)".toList "1, 2)".toList
    " ON DUPLICATE KEY UPDATE b = VALUES(b)".toList "1, 2) ON DUPLICATE KEY UPDATE b = VALUES(b)".toList rfl rfl
    (by decide)

/-- The column of the trailing clause is sent as a second tuple, and the clause is not sent. -/
theorem upsertingInsert_not_preserved :
    streamImportInsertValuesStatements upsertingInsert.text 1000 2 =
        ["INSERT INTO t (a, b) VALUES (1, 2),(b)".toList] ∧
      ¬upsertingInsert.Preserved (streamImportInsertValuesStatements upsertingInsert.text 1000 2) := by
  refine ⟨by decide +kernel, ?_⟩
  rw [upsertingInsert.preserved_iff_of_located (by decide +kernel)]
  decide +kernel

end DistDb.Transfer
