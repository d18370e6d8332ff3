import DistDb.Lib.Codec

/-! # Text

String functions on lists of characters, so that they can be evaluated. -/

namespace DistDb.Lib

/-- The characters with the Unicode property `White_Space`. -/
def isWhitespace (c : Char) : Bool :=
  let n := c.toNat
  (9 ≤ n && n ≤ 13) || n == 0x20 || n == 0x85 || n == 0xa0 || n == 0x1680 ||
    (0x2000 ≤ n && n ≤ 0x200a) || n == 0x2028 || n == 0x2029 || n == 0x202f || n == 0x205f ||
    n == 0x3000

def isAsciiWhitespace (c : Char) : Bool := c = ' ' || c = '\t' || c = '\n' || c = '\x0c' || c = '\r'

def trim (text : String) : String :=
  String.ofList ((text.toList.dropWhile isWhitespace).reverse.dropWhile isWhitespace).reverse

def trimEndMatches (c : Char) (text : String) : String :=
  String.ofList (text.toList.reverse.dropWhile (· == c)).reverse

def trimMatches (c : Char) (text : String) : String :=
  trimEndMatches c (String.ofList (text.toList.dropWhile (· == c)))

def splitText (c : Char) (text : String) : List String := (text.toList.splitOn c).map String.ofList

def splitOnce (c : Char) (text : String) : Option (String × String) :=
  match text.toList.span (· ≠ c) with
  | (before, _ :: after) => some (String.ofList before, String.ofList after)
  | (_, []) => none

def rsplitOnce (c : Char) (text : String) : Option (String × String) :=
  let tail := (text.toList.reverse.takeWhile (· ≠ c)).reverse
  if c ∈ text.toList then
    some (String.ofList (text.toList.take (text.toList.length - tail.length - 1)), String.ofList tail)
  else none

def rsplitOn (sep : List Char) : List Char → Option (List Char × List Char)
  | [] => none
  | c :: text =>
    match rsplitOn sep text with
    | some (before, after) => some (c :: before, after)
    | none => if sep.isPrefixOf (c :: text) then some ([], (c :: text).drop sep.length) else none

def firstToken (text : String) : String :=
  String.ofList ((text.toList.dropWhile isWhitespace).takeWhile (!isWhitespace ·))

abbrev sortTexts (texts : Finset String) : List String := texts.sort (· ≤ ·)

def toAsciiLowercase (text : String) : String := String.ofList (text.toList.map Char.toLower)

def toAsciiUppercase (text : String) : String := String.ofList (text.toList.map Char.toUpper)

def containsText (text pattern : String) : Bool := decide (pattern.toList <:+: text.toList)

def startsWith (text pattern : String) : Bool := pattern.toList.isPrefixOf text.toList

def parseDigits : List Char → Option Nat
  | [] => none
  | digits =>
    digits.foldl (fun acc c => acc.bind fun n => if c.isDigit then some (n * 10 + (c.toNat - 48)) else none)
      (some 0)

def parseUnsigned (bound : Nat) (text : String) : Option Nat :=
  (match text.toList with
    | '+' :: digits => parseDigits digits
    | digits => parseDigits digits).filter (· < bound)

def parseSigned (bound : Nat) (text : String) : Option Int :=
  (match text.toList with
    | '-' :: digits => (parseDigits digits).map fun n => -(n : Int)
    | '+' :: digits => (parseDigits digits).map fun n => (n : Int)
    | digits => (parseDigits digits).map fun n => (n : Int)).filter
      fun v => -(bound : Int) ≤ v ∧ v < bound

theorem parseDigits_cons_of_not_digit {c : Char} {digits : List Char} (h : c.isDigit = false) :
    parseDigits (c :: digits) = none := by
  have hnone : ∀ digits : List Char, digits.foldl (fun (acc : Option Nat) c => acc.bind fun n =>
      if c.isDigit then some (n * 10 + (c.toNat - 48)) else none) none = none := by
    intro digits
    induction digits with
    | nil => rfl
    | cons c digits ih => exact ih
  simp [parseDigits, h, hnone]

variable {text : String}

theorem parseSigned_of_parseUnsigned {bound bound' n : Nat}
    (h : parseUnsigned bound text = some n) (hn : n < bound') : parseSigned bound' text = some (n : Int) := by
  unfold parseUnsigned at h
  unfold parseSigned
  obtain ⟨hdigits, -⟩ := Option.filter_eq_some_iff.mp h
  have hsigned : ((n : Int) < bound') ∧ -(bound' : Int) ≤ n := by omega
  split at hdigits
  · rename_i digits hlist
    rw [hlist]
    simp [hdigits, hsigned]
  · rename_i digits hplus
    split
    · rename_i digits' hlist
      rw [hlist, parseDigits_cons_of_not_digit (by decide)] at hdigits
      cases hdigits
    · rename_i digits' hlist
      exact absurd hlist (hplus digits')
    · simp [hdigits, hsigned]

theorem lt_of_parseUnsigned {bound n : Nat} (h : parseUnsigned bound text = some n) : n < bound := by
  obtain ⟨-, hn⟩ := Option.filter_eq_some_iff.mp h
  simpa using hn

theorem bounds_of_parseSigned {bound : Nat} {v : Int} (h : parseSigned bound text = some v) :
    -(bound : Int) ≤ v ∧ v < bound := by
  obtain ⟨-, hv⟩ := Option.filter_eq_some_iff.mp h
  simpa using hv

theorem parseSigned_mono {bound : Nat} (bound' : Nat) (hbound : bound ≤ bound') {v : Int}
    (h : parseSigned bound text = some v) : parseSigned bound' text = some v := by
  obtain ⟨hread, hv⟩ := Option.filter_eq_some_iff.mp h
  have hv : -(bound : Int) ≤ v ∧ v < bound := by simpa using hv
  refine Option.filter_eq_some_iff.mpr ⟨hread, ?_⟩
  simp only [decide_eq_true_eq]
  omega

def fromUtf8 (bs : Bytes) : Option String := String.fromUTF8? ⟨bs.toArray⟩

def leInt (bs : Bytes) : Int :=
  if 2 * leNat bs < 256 ^ bs.length then leNat bs else (leNat bs : Int) - 256 ^ bs.length

def leIntBytes (width : Nat) (v : Int) : Bytes := leBytes width (v % 256 ^ width).toNat

example : parseSigned (2 ^ 127) "-12" = some (-12) ∧ parseUnsigned 256 "256" = none := by decide

example : leInt (leIntBytes 2 (-2)) = -2 := by decide

/-! ## Trimmed text -/

def IsTrimmed (text : String) : Prop :=
  ∀ c, text.toList.head? = some c ∨ text.toList.getLast? = some c → isWhitespace c = false

theorem dropWhile_eq_self {α : Type*} {p : α → Bool} {l : List α} (h : ∀ c, l.head? = some c → p c = false) :
    l.dropWhile p = l := by
  cases l with
  | nil => rfl
  | cons c l => simp [h c rfl]

theorem trim_eq_self (h : IsTrimmed text) : trim text = text := by
  have hstart : text.toList.dropWhile isWhitespace = text.toList := dropWhile_eq_self fun c hc => h c (.inl hc)
  have hend : text.toList.reverse.dropWhile isWhitespace = text.toList.reverse :=
    dropWhile_eq_self fun c hc => h c (.inr (by rwa [List.head?_reverse] at hc))
  rw [trim, hstart, hend, List.reverse_reverse, String.ofList_toList]

theorem toLower_eq_iff {q : Char} (hq : q.isAlpha = false) {c : Char} : c.toLower = q ↔ c = q := by
  by_cases hupper : c.isUpper = true
  · refine ⟨fun h => ?_, fun h => ?_⟩
    · have hlower := Char.isLower_toLower_eq_isAlpha c
      rw [h, Char.isAlpha, hupper, Bool.true_or] at hlower
      rw [Char.isAlpha, hlower, Bool.or_true] at hq
      cases hq
    · rw [Char.isAlpha, ← h, hupper, Bool.true_or] at hq
      cases hq
  · rw [Char.toLower_eq_of_not_isUpper hupper]

theorem rsplitOn_of_not_infix {sep text : List Char} (h : ¬ sep <:+: text) : rsplitOn sep text = none := by
  induction text with
  | nil => rfl
  | cons c text ih =>
    have hstart : ¬ sep <+: c :: text := fun hstarts => h hstarts.isInfix
    rw [rsplitOn, ih fun hrest => h (hrest.trans (List.suffix_cons c text).isInfix)]
    exact if_neg (by rwa [List.isPrefixOf_iff_prefix])

theorem rsplitOn_append {c : Char} {sep before after : List Char} (h : ¬ c :: sep <:+: sep ++ after) :
    rsplitOn (c :: sep) (before ++ c :: sep ++ after) = some (before, after) := by
  induction before with
  | nil =>
    have hstart : (c :: sep).isPrefixOf (c :: (sep ++ after)) = true :=
      List.isPrefixOf_iff_prefix.mpr (List.prefix_append (c :: sep) after)
    rw [List.nil_append, List.cons_append, rsplitOn, rsplitOn_of_not_infix h]
    simp only [hstart, if_true, List.length_cons, List.drop_succ_cons, List.drop_left]
  | cons b before ih => rw [List.cons_append, List.cons_append, rsplitOn, ih]

/-! ## Words -/

section Words

variable {α : Type*} {c : α} {x y rest z : List α}

theorem cut_inj (hx : c ∉ x) (hy : c ∉ y) (h : x ++ c :: rest = y ++ c :: z) : x = y ∧ rest = z := by
  induction x generalizing y with
  | nil =>
    cases y with
    | nil => simpa using h
    | cons b y => exact absurd (List.cons_eq_cons.mp h).1 (List.ne_of_not_mem_cons hy)
  | cons b x ih =>
    cases y with
    | nil => exact absurd (List.cons_eq_cons.mp h).1.symm (List.ne_of_not_mem_cons hx)
    | cons b' y =>
      obtain ⟨hb, htail⟩ := List.cons_eq_cons.mp h
      obtain ⟨hword, hrest⟩ := ih (List.not_mem_of_not_mem_cons hx) (List.not_mem_of_not_mem_cons hy) htail
      exact ⟨by rw [hb, hword], hrest⟩

theorem prefix_word_iff (hx : c ∉ x) (hy : c ∉ y) : x ++ c :: rest <+: y ++ c :: z ↔ x = y ∧ rest <+: z := by
  constructor
  · rintro ⟨after, hafter⟩
    rw [List.append_assoc, List.cons_append] at hafter
    obtain ⟨rfl, rfl⟩ := cut_inj hx hy hafter
    exact ⟨rfl, List.prefix_append _ _⟩
  · rintro ⟨rfl, after, rfl⟩
    exact ⟨after, by simp⟩

/-- The first of some words ends a word of the text. -/
theorem infix_word_iff (hx : c ∉ x) (hy : c ∉ y) :
    x ++ c :: rest <:+: y ++ c :: z ↔ (x <:+ y ∧ rest <+: z) ∨ x ++ c :: rest <:+: z := by
  constructor
  · rintro ⟨before, after, htext⟩
    by_cases hbefore : c ∈ before
    · obtain ⟨first, others, rfl, hfirst⟩ := List.eq_append_cons_of_mem hbefore
      obtain ⟨-, rfl⟩ := cut_inj hfirst hy (by simpa using htext)
      exact .inr ⟨others, after, by simp⟩
    · have hword : c ∉ before ++ x := by simp [hbefore, hx]
      obtain ⟨rfl, rfl⟩ := cut_inj hword hy (by simpa using htext)
      exact .inl ⟨List.suffix_append _ _, List.prefix_append _ _⟩
  · rintro (⟨⟨before, rfl⟩, after, rfl⟩ | ⟨before, after, rfl⟩)
    · exact ⟨before, after, by simp⟩
    · exact ⟨y ++ c :: before, after, by simp⟩

theorem not_infix_word (hy : c ∉ y) : ¬ x ++ c :: rest <:+: y := fun h => hy (h.subset (by simp))

theorem not_prefix_cons_word (hne : x ≠ []) (hx : c ∉ x) : ¬ x <+: c :: z := by
  cases x with
  | nil => exact absurd rfl hne
  | cons b x => exact fun h => hx ((List.cons_prefix_cons.mp h).1 ▸ List.mem_cons_self)

end Words

/-! ## Patterns -/

def matchesAt (pattern text : List Char) : Bool :=
  (pattern.map Char.toLower).isPrefixOf (text.map Char.toLower)

theorem matchesAt_eq_true {pattern text : List Char} :
    matchesAt pattern text = true ↔ pattern.map Char.toLower <+: text.map Char.toLower :=
  List.isPrefixOf_iff_prefix

end DistDb.Lib
