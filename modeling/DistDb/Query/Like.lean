import DistDb.Lib.Numerals
import DistDb.Lib.Wildcard
import DistDb.Table.Value

/-! # LIKE

A pattern is compiled to tokens and matched with one place to go back to. Patterns of plain segments are matched on
the bytes, and those without wildcards, or with a single `%` at the end, by comparing texts. -/

namespace DistDb.Query
open Lib

inductive LikeToken where
  | anySingle
  | anyMany
  | literal (c : Char)
  deriving DecidableEq, Repr

inductive LikeFastPath (α : Type) where
  | exactly (expected : List α)
  | startsWith (expected : List α)
  deriving DecidableEq, Repr

def isAscii (b : UInt8) : Bool := b < 128

def lowerByte (b : UInt8) : UInt8 := if 65 ≤ b ∧ b ≤ 90 then b + 32 else b

def eqIgnoreAsciiCase (lhs rhs : Bytes) : Bool := lhs.map lowerByte == rhs.map lowerByte

/-! ## Segments -/

section Segments

def matchesSegmentAt (actual : Bytes) (start : Nat) (segment : Bytes) (caseInsensitive : Bool) : Bool :=
  if start + segment.length ≤ actual.length then
    let window := (actual.drop start).take segment.length
    if caseInsensitive then eqIgnoreAsciiCase window segment else window == segment
  else false

def findAllSegmentOccurrences (actual segment : Bytes) (caseInsensitive : Bool) : List Nat :=
  if segment = [] ∨ segment.length > actual.length then []
  else (List.range (actual.length - segment.length + 1)).filter fun start =>
    matchesSegmentAt actual start segment caseInsensitive

def findSegmentFrom (actual segment : Bytes) (start : Nat) (caseInsensitive : Bool) : Option Nat :=
  if segment = [] then some start
  else if start > actual.length ∨ segment.length > actual.length - start then none
  else (List.range' start (actual.length - segment.length + 1 - start)).find? fun candidateStart =>
    matchesSegmentAt actual candidateStart segment caseInsensitive

def escapeByte : Option Char → Option (Option UInt8)
  | some c => if c.toNat < 128 then some (some (UInt8.ofNat c.toNat)) else none
  | none => some none

/-- Reading on with the segments so far, the segment that is being read, and whether a wildcard came first and
last. -/
def parseSegmentsFrom (escape : Option UInt8) :
    Bytes → List Bytes → Bytes → Bool → Bool → Option (List Bytes × Bool × Bool)
  | [], segments, current, leading, trailing =>
    some (if current = [] then segments else segments ++ [current], leading, trailing)
  | b :: pattern, segments, current, leading, _ =>
    if escape = some b then
      match pattern with
      | escaped :: pattern =>
        if isAscii escaped then parseSegmentsFrom escape pattern segments (current ++ [escaped]) leading false
        else none
      | [] => parseSegmentsFrom escape [] segments (current ++ [b]) leading false
    else if !isAscii b then none
    else if b = 95 then none
    else if b = 37 then
      parseSegmentsFrom escape pattern (if current = [] then segments else segments ++ [current]) []
        (leading || (segments.isEmpty && current.isEmpty)) true
    else parseSegmentsFrom escape pattern segments (current ++ [b]) leading false

def parseLikeLiteralSegments (pattern : Bytes) (escapeChar : Option Char) : Option (List Bytes × Bool × Bool) :=
  match escapeByte escapeChar with
  | none => none
  | some escape => parseSegmentsFrom escape pattern [] [] false false

/-- Where the last of the segments ends, each at its first place behind the one before. -/
def walkSegments (actual : Bytes) (caseInsensitive : Bool) : List Bytes → Nat → Option Nat
  | [], cursor => some cursor
  | segment :: segments, cursor =>
    match findSegmentFrom actual segment cursor caseInsensitive with
    | some nextStart => walkSegments actual caseInsensitive segments (nextStart + segment.length)
    | none => none

def compareLikeByLiteralSegments (actual pattern : Bytes) (caseInsensitive : Bool) (escapeChar : Option Char) :
    Option Bool :=
  match parseLikeLiteralSegments pattern escapeChar with
  | none => none
  | some ([], _, _) => some true
  | some (firstSegment :: segments, leadingWildcard, trailingWildcard) =>
    let candidateStarts :=
      if leadingWildcard then findAllSegmentOccurrences actual firstSegment caseInsensitive
      else if matchesSegmentAt actual 0 firstSegment caseInsensitive then [0]
      else []
    some (candidateStarts.any fun start =>
      match walkSegments actual caseInsensitive segments (start + firstSegment.length) with
      | some cursor => trailingWildcard || cursor == actual.length
      | none => false)

end Segments

/-! ## Comparing texts -/

section Texts

def byteLength (text : String) : Nat := (utf8Bytes text).length

def isCharBoundary (text : String) (position : Nat) : Bool :=
  (List.range (text.toList.length + 1)).any fun n => byteLength (String.ofList (text.toList.take n)) = position

def classifyAsciiFrom (escape : Option UInt8) : Bytes → Bytes → Bool → Option (LikeFastPath UInt8)
  | [], literal, hasTrailingMany => some (if hasTrailingMany then .startsWith literal else .exactly literal)
  | b :: pattern, literal, hasTrailingMany =>
    if escape = some b then
      match pattern with
      | escaped :: pattern =>
        if isAscii escaped then classifyAsciiFrom escape pattern (literal ++ [escaped]) hasTrailingMany else none
      | [] => classifyAsciiFrom escape [] (literal ++ [b]) hasTrailingMany
    else if !isAscii b then none
    else if b = 95 then none
    else if b = 37 then
      if !pattern.isEmpty || hasTrailingMany then none else classifyAsciiFrom escape pattern literal true
    else if hasTrailingMany then none
    else classifyAsciiFrom escape pattern (literal ++ [b]) hasTrailingMany

def classifyLikeAsciiFastPath (pattern : Bytes) (escapeChar : Option Char) : Option (LikeFastPath UInt8) :=
  match escapeByte escapeChar with
  | none => none
  | some escape => classifyAsciiFrom escape pattern [] false

def applyLikeAsciiFastPath (actual : Bytes) (fastPath : LikeFastPath UInt8) (caseInsensitive : Bool) : Bool :=
  match fastPath with
  | .exactly expected => if caseInsensitive then eqIgnoreAsciiCase actual expected else actual == expected
  | .startsWith expected =>
    if caseInsensitive then
      if expected.length ≤ actual.length then eqIgnoreAsciiCase (actual.take expected.length) expected else false
    else expected.isPrefixOf actual

def classifyFrom (escapeChar : Option Char) : List Char → List Char → Bool → Bool → Option (LikeFastPath Char)
  | [], literal, escaped, hasTrailingMany =>
    let literal := if escaped then literal ++ escapeChar.toList else literal
    some (if hasTrailingMany then .startsWith literal else .exactly literal)
  | c :: pattern, literal, true, hasTrailingMany =>
    classifyFrom escapeChar pattern (literal ++ [c]) false hasTrailingMany
  | c :: pattern, literal, false, hasTrailingMany =>
    if escapeChar = some c then classifyFrom escapeChar pattern literal true hasTrailingMany
    else if c = '_' then none
    else if c = '%' then
      if !pattern.isEmpty || hasTrailingMany then none else classifyFrom escapeChar pattern literal false true
    else if hasTrailingMany then none
    else classifyFrom escapeChar pattern (literal ++ [c]) false hasTrailingMany

def classifyLikeFastPath (pattern : String) (escapeChar : Option Char) : Option (LikeFastPath Char) :=
  classifyFrom escapeChar pattern.toList [] false false

/-- Texts are compared without regard to case by their bytes, and a head of a text is taken only where no
character is cut. -/
def applyLikeFastPath (actual : String) (fastPath : LikeFastPath Char) (caseInsensitive : Bool) : Bool :=
  match fastPath with
  | .exactly expected =>
    if caseInsensitive then eqIgnoreAsciiCase (utf8Bytes actual) (utf8Bytes (String.ofList expected))
    else actual == String.ofList expected
  | .startsWith expected =>
    if caseInsensitive then
      if isCharBoundary actual (byteLength (String.ofList expected)) then
        eqIgnoreAsciiCase ((utf8Bytes actual).take (byteLength (String.ofList expected)))
          (utf8Bytes (String.ofList expected))
      else false
    else expected.isPrefixOf actual.toList

end Texts

/-! ## Tokens -/

section Tokens

def plainToken (c : Char) : LikeToken :=
  if c = '_' then .anySingle else if c = '%' then .anyMany else .literal c

def compileLikeTokens (escapeChar : Option Char) : List Char → List LikeToken
  | [] => []
  | [c] => if escapeChar = some c then [.literal c] else [plainToken c]
  | c :: next :: pattern =>
    if escapeChar = some c then .literal next :: compileLikeTokens escapeChar pattern
    else plainToken c :: compileLikeTokens escapeChar (next :: pattern)

def likeCharEq (actual pattern : Char) (caseInsensitive : Bool) : Bool :=
  if caseInsensitive then actual.toLower == pattern.toLower else actual == pattern

/-- The loop on what is left of the value and of the pattern. `last` holds the pattern behind the last `%` and the
characters from which it was tried last. Out of fuel there is no answer. -/
def likeMatchesFrom (caseInsensitive : Bool) :
    Nat → List Char → List LikeToken → Option (List LikeToken × List Char) → Option Bool
  | _, [], pattern, _ => some (pattern.all (· = .anyMany))
  | 0, _ :: _, _, _ => none
  | fuel + 1, _ :: actual, .anySingle :: pattern, last => likeMatchesFrom caseInsensitive fuel actual pattern last
  | fuel + 1, c :: actual, .anyMany :: pattern, _ =>
    likeMatchesFrom caseInsensitive fuel (c :: actual) pattern (some (pattern, c :: actual))
  | fuel + 1, c :: actual, .literal expected :: pattern, last =>
    if likeCharEq c expected caseInsensitive then likeMatchesFrom caseInsensitive fuel actual pattern last
    else match last with
      | some (percent, retry) => likeMatchesFrom caseInsensitive fuel retry.tail percent (some (percent, retry.tail))
      | none => some false
  | fuel + 1, _ :: _, [], last =>
    match last with
    | some (percent, retry) => likeMatchesFrom caseInsensitive fuel retry.tail percent (some (percent, retry.tail))
    | none => some false

/-- The fuel is enough for every value and pattern (`likeMatchesFrom_start`). -/
def likeMatches (actual : List Char) (pattern : List LikeToken) (caseInsensitive : Bool) : Bool :=
  likeMatchesFrom caseInsensitive ((pattern.length + 1) * (actual.length + 2) ^ 2) actual pattern none == some true

def percents (pattern : List LikeToken) : Nat := pattern.countP (· = .anyMany)

/-- A bound on the steps that are left, for values of at most `bound` characters: the value starts again at most once
for each place behind each `%`. -/
def stepsLeft (bound : Nat) (actual : List Char) (pattern : List LikeToken)
    (last : Option (List LikeToken × List Char)) : Nat :=
  percents pattern * (bound + 2) * (bound + 1) +
    (last.elim (bound + 1) fun place => place.2.length) * (bound + 1) + actual.length

theorem stepsLeft_back {bound : Nat} {c : Char} {actual retry : List Char} {pattern percent : List LikeToken}
    (hretry : retry.length ≤ bound) (hpercents : percents percent ≤ percents pattern) :
    stepsLeft bound retry.tail percent (some (percent, retry.tail)) <
      stepsLeft bound (c :: actual) pattern (some (percent, retry)) := by
  have hmul : percents percent * (bound + 2) * (bound + 1) ≤ percents pattern * (bound + 2) * (bound + 1) :=
    Nat.mul_le_mul_right _ (Nat.mul_le_mul_right _ hpercents)
  unfold stepsLeft
  cases retry with
  | nil =>
    simp only [List.tail_nil, List.length_nil, List.length_cons, Option.elim_some]
    omega
  | cons d retry =>
    have hsucc : (retry.length + 1) * (bound + 1) = retry.length * (bound + 1) + (bound + 1) := Nat.succ_mul _ _
    simp only [List.tail_cons, List.length_cons, Option.elim_some] at hretry ⊢
    omega

theorem stepsLeft_percent {bound : Nat} {actual : List Char} {pattern : List LikeToken}
    (last : Option (List LikeToken × List Char)) (hactual : actual.length ≤ bound) :
    stepsLeft bound actual pattern (some (pattern, actual)) < stepsLeft bound actual (.anyMany :: pattern) last := by
  have hcount : percents (.anyMany :: pattern) = percents pattern + 1 := by simp [percents]
  have hlength : actual.length * (bound + 1) ≤ bound * (bound + 1) := Nat.mul_le_mul_right _ hactual
  have hsucc : (percents pattern + 1) * (bound + 2) * (bound + 1) =
      percents pattern * (bound + 2) * (bound + 1) + (bound * (bound + 1) + 2 * (bound + 1)) := by ring
  unfold stepsLeft
  rw [hcount, hsucc]
  dsimp only [Option.elim_some]
  omega

def LikeToken.cover (caseInsensitive : Bool) : LikeToken → Option (Char → Bool)
  | .anySingle => some fun _ => true
  | .anyMany => none
  | .literal c => some (likeCharEq · c caseInsensitive)

variable {caseInsensitive : Bool}

@[simp] theorem LikeToken.cover_anySingle : LikeToken.anySingle.cover caseInsensitive = some fun _ => true := rfl

@[simp] theorem LikeToken.cover_anyMany : LikeToken.anyMany.cover caseInsensitive = none := rfl

@[simp] theorem LikeToken.cover_literal {c : Char} :
    (LikeToken.literal c).cover caseInsensitive = some (likeCharEq · c caseInsensitive) := rfl

/-- The text splits into pieces that the tokens of the pattern cover. -/
def LikeSplits (caseInsensitive : Bool) (actual : List Char) (pattern : List LikeToken) : Prop :=
  Wildcard.Matches (pattern.map (·.cover caseInsensitive)) actual

def Resumes (actual : List Char) (pattern : List LikeToken) (place : List LikeToken × List Char) : Prop :=
  ∃ segment taken, place = (segment ++ pattern, taken ++ actual) ∧ segment.length = taken.length ∧
    LikeToken.anyMany ∉ segment

/-- The value matches from here, or from a later place behind the last `%`. -/
def Outcome (caseInsensitive : Bool) (actual : List Char) (pattern : List LikeToken)
    (last : Option (List LikeToken × List Char)) : Prop :=
  LikeSplits caseInsensitive actual pattern ∨
    ∃ place ∈ last, ∃ suffix, suffix <:+ place.2.tail ∧ LikeSplits caseInsensitive suffix place.1

variable {actual : List Char} {pattern : List LikeToken}
  {last : Option (List LikeToken × List Char)} {place : List LikeToken × List Char}

theorem none_notMem_cover {segment : List LikeToken} (h : LikeToken.anyMany ∉ segment) :
    none ∉ segment.map (·.cover caseInsensitive) := by
  rintro hmem
  obtain ⟨token, htoken, hcover⟩ := List.mem_map.mp hmem
  cases token with
  | anyMany => exact h htoken
  | anySingle => cases hcover
  | literal c => cases hcover

theorem likeSplits_nil_iff : LikeSplits caseInsensitive [] pattern ↔ pattern.all (· = .anyMany) = true := by
  unfold LikeSplits
  induction pattern with
  | nil => simp
  | cons token pattern ih =>
    cases token with
    | anyMany => simpa [Wildcard.matches_any_iff] using ih
    | anySingle => simp
    | literal c => simp

theorem Resumes.later (h : Resumes actual pattern place) {suffix : List Char} (hsuffix : suffix <:+ place.2.tail)
    (hsplits : LikeSplits caseInsensitive suffix place.1) :
    ∃ rest, rest <:+ actual.tail ∧ LikeSplits caseInsensitive rest pattern := by
  obtain ⟨segment, taken, rfl, hlength, hsegment⟩ := h
  unfold LikeSplits at hsplits ⊢
  rw [List.map_append] at hsplits
  obtain ⟨hle, hrest⟩ := Wildcard.matches_drop_of_segment (none_notMem_cover hsegment) hsplits
  rw [List.length_map] at hle hrest
  refine ⟨suffix.drop segment.length, ?_, hrest⟩
  have hlen := hsuffix.length_le
  simp only [List.length_tail, List.length_append] at hlen
  have hwhole : suffix.drop segment.length <:+ taken ++ actual :=
    (List.drop_suffix _ _).trans (hsuffix.trans (List.tail_suffix _))
  refine List.suffix_of_suffix_length_le hwhole ((List.tail_suffix _).trans (List.suffix_append _ _)) ?_
  rw [List.length_drop, List.length_tail]
  omega

theorem Resumes.step {c : Char} {token : LikeToken} (h : Resumes (c :: actual) (token :: pattern) place)
    (htoken : token ≠ .anyMany) :
    Resumes actual pattern place := by
  obtain ⟨segment, taken, rfl, hlength, hsegment⟩ := h
  refine ⟨segment ++ [token], taken ++ [c], by simp, by simp [hlength], ?_⟩
  simp [hsegment, Ne.symm htoken]

theorem Resumes.percents_eq (h : Resumes actual pattern place) : percents place.1 = percents pattern := by
  obtain ⟨segment, taken, rfl, -, hsegment⟩ := h
  have hnone : segment.countP (· = LikeToken.anyMany) = 0 := by
    rw [List.countP_eq_zero]
    intro token htoken heq
    exact hsegment (of_decide_eq_true heq ▸ htoken)
  simp [percents, List.countP_append, hnone]

theorem resumes_self : Resumes actual pattern (pattern, actual) := ⟨[], [], rfl, rfl, List.not_mem_nil⟩

theorem outcome_percent (h : ∀ place ∈ last, Resumes actual (.anyMany :: pattern) place) :
    Outcome caseInsensitive actual (.anyMany :: pattern) last ↔
      Outcome caseInsensitive actual pattern (some (pattern, actual)) := by
  have hpercent : LikeSplits caseInsensitive actual (.anyMany :: pattern) ↔
      Outcome caseInsensitive actual pattern (some (pattern, actual)) := by
    unfold Outcome
    simp only [Option.mem_some_iff, exists_eq_left']
    rw [← Wildcard.exists_suffix_iff (LikeSplits caseInsensitive · pattern)]
    exact Wildcard.matches_any_iff
  rw [← hpercent]
  refine ⟨?_, .inl⟩
  rintro (hsplits | ⟨place, hplace, suffix, hsuffix, hsplits⟩)
  · exact hsplits
  · obtain ⟨rest, hrest, hmatches⟩ := (h place hplace).later hsuffix hsplits
    exact Wildcard.matches_any_of_suffix hmatches (hrest.trans (List.tail_suffix _))

theorem outcome_back (h : ¬ LikeSplits caseInsensitive actual pattern) : Outcome caseInsensitive actual pattern last ↔
      ∃ place ∈ last, Outcome caseInsensitive place.2.tail place.1 (some (place.1, place.2.tail)) := by
  unfold Outcome
  simp only [h, false_or, Option.mem_some_iff, exists_eq_left']
  refine exists_congr fun place => and_congr_right fun _ => ?_
  exact Wildcard.exists_suffix_iff (LikeSplits caseInsensitive · place.1)

/-- The loop comes to an answer, which is the outcome of splitting. -/
def Answers (answer : Option Bool) (outcome : Prop) : Prop := ∃ b, answer = some b ∧ (b = true ↔ outcome)

theorem Answers.congr {answer : Option Bool} {P Q : Prop} (h : Answers answer P) (hPQ : P ↔ Q) : Answers answer Q := by
  obtain ⟨b, hb, hP⟩ := h
  exact ⟨b, hb, hP.trans hPQ⟩

theorem likeMatchesFrom_nil {fuel : Nat} (h : ∀ place ∈ last, Resumes [] pattern place) :
    Answers (likeMatchesFrom caseInsensitive fuel [] pattern last) (Outcome caseInsensitive [] pattern last) := by
  refine ⟨_, likeMatchesFrom.eq_1 .., ?_⟩
  rw [← @likeSplits_nil_iff caseInsensitive]
  refine ⟨.inl, ?_⟩
  rintro (hsplits | ⟨place, hplace, suffix, hsuffix, hsplits⟩)
  · exact hsplits
  · obtain ⟨rest, hrest, hmatches⟩ := (h place hplace).later hsuffix hsplits
    rwa [List.suffix_nil.mp hrest] at hmatches

theorem outcome_step {c : Char} {token : LikeToken} {p : Char → Bool} (hcover : token.cover caseInsensitive = some p)
    (hc : p c = true) :
    Outcome caseInsensitive (c :: actual) (token :: pattern) last ↔ Outcome caseInsensitive actual pattern last := by
  unfold Outcome LikeSplits
  rw [List.map_cons, hcover, Wildcard.matches_class_cons_iff, hc]
  simp

theorem likeMatchesFrom_answers (caseInsensitive : Bool) (bound : Nat) :
    ∀ (fuel : Nat) (actual : List Char) (pattern : List LikeToken) (last : Option (List LikeToken × List Char)),
      actual.length ≤ bound → (∀ place ∈ last, place.2.length ≤ bound ∧ Resumes actual pattern place) →
      stepsLeft bound actual pattern last ≤ fuel →
      Answers (likeMatchesFrom caseInsensitive fuel actual pattern last)
        (Outcome caseInsensitive actual pattern last) := by
  intro fuel
  induction fuel with
  | zero =>
    intro actual pattern last _ hlast hsteps
    obtain rfl : actual = [] := List.length_eq_zero_iff.mp (by unfold stepsLeft at hsteps; omega)
    exact likeMatchesFrom_nil fun place hplace => (hlast place hplace).2
  | succ fuel ih =>
    intro actual pattern last hactual hlast hsteps
    cases actual with
    | nil => exact likeMatchesFrom_nil fun place hplace => (hlast place hplace).2
    | cons c actual =>
      have hrest : actual.length ≤ bound := Nat.le_of_succ_le hactual
      -- where the pattern does not go on, the value starts again behind the last percent sign
      have hback : ¬ LikeSplits caseInsensitive (c :: actual) pattern →
          Answers (last.elim (some false) fun place =>
              likeMatchesFrom caseInsensitive fuel place.2.tail place.1 (some (place.1, place.2.tail)))
            (Outcome caseInsensitive (c :: actual) pattern last) := by
        intro hsplits
        refine Answers.congr ?_ (outcome_back hsplits).symm
        cases last with
        | none => exact ⟨false, rfl, by simp⟩
        | some place =>
          obtain ⟨hretry, hresumes⟩ := hlast place rfl
          have htail : place.2.tail.length ≤ bound := by
            rw [List.length_tail]
            exact (Nat.sub_le ..).trans hretry
          simp only [Option.elim_some, Option.mem_some_iff, exists_eq_left']
          refine ih _ _ _ htail (fun place' hplace => ?_) (Nat.le_of_lt_succ
            (Nat.lt_of_lt_of_le (stepsLeft_back hretry hresumes.percents_eq.le) hsteps))
          obtain rfl := Option.some.inj hplace
          exact ⟨htail, resumes_self⟩
      -- a token that takes this character
      have hstep : ∀ token rest, pattern = token :: rest → token ≠ .anyMany →
          Answers (likeMatchesFrom caseInsensitive fuel actual rest last)
            (Outcome caseInsensitive actual rest last) := by
        rintro token rest rfl htoken
        refine ih _ _ _ hrest (fun place hplace => ?_) ?_
        · exact ⟨(hlast place hplace).1, (hlast place hplace).2.step htoken⟩
        · simp [stepsLeft, percents, htoken] at hsteps ⊢
          omega
      rcases pattern with _ | ⟨_ | _ | expected, pattern⟩
      · have hnil : likeMatchesFrom caseInsensitive (fuel + 1) (c :: actual) [] last =
            last.elim (some false) fun place =>
              likeMatchesFrom caseInsensitive fuel place.2.tail place.1 (some (place.1, place.2.tail)) := by
          cases last <;> rfl
        rw [hnil]
        exact hback (by simp [LikeSplits])
      · exact (hstep _ _ rfl (by simp)).congr (outcome_step rfl rfl).symm
      · refine Answers.congr ?_ (outcome_percent fun place hplace => (hlast place hplace).2).symm
        refine ih _ _ _ hactual (fun place hplace => ?_) (Nat.le_of_lt_succ
          (Nat.lt_of_lt_of_le (stepsLeft_percent last hactual) hsteps))
        obtain rfl := Option.some.inj hplace
        exact ⟨hactual, resumes_self⟩
      · have hliteral : likeMatchesFrom caseInsensitive (fuel + 1) (c :: actual) (.literal expected :: pattern) last =
            if likeCharEq c expected caseInsensitive = true then
              likeMatchesFrom caseInsensitive fuel actual pattern last
            else last.elim (some false) fun place =>
              likeMatchesFrom caseInsensitive fuel place.2.tail place.1 (some (place.1, place.2.tail)) := by
          cases last <;> rfl
        rw [hliteral]
        by_cases hc : likeCharEq c expected caseInsensitive = true
        · rw [if_pos hc]
          exact (hstep _ _ rfl (by simp)).congr (outcome_step rfl hc).symm
        · rw [if_neg hc]
          exact hback (by simp [LikeSplits, hc])

theorem likeMatchesFrom_start {fuel : Nat} (h : (pattern.length + 1) * (actual.length + 2) ^ 2 ≤ fuel) :
    Answers (likeMatchesFrom caseInsensitive fuel actual pattern none) (LikeSplits caseInsensitive actual pattern) := by
  have hcount : percents pattern * (actual.length + 2) * (actual.length + 1) ≤
      pattern.length * (actual.length + 2) * (actual.length + 2) := by
    gcongr
    · exact List.countP_le_length
    · omega
  have hsplit : (pattern.length + 1) * (actual.length + 2) ^ 2 =
      pattern.length * (actual.length + 2) * (actual.length + 2) +
        ((actual.length + 1) * (actual.length + 1) + 2 * actual.length + 3) := by ring
  refine (likeMatchesFrom_answers caseInsensitive actual.length fuel actual pattern none (Nat.le_refl _)
    (fun place hplace => absurd hplace (Option.not_mem_none _)) ?_).congr (by simp [Outcome])
  rw [stepsLeft]
  dsimp only [Option.elim_none]
  omega

theorem likeMatches_iff :
    likeMatches actual pattern caseInsensitive = true ↔ LikeSplits caseInsensitive actual pattern := by
  obtain ⟨b, hb, hsplits⟩ := @likeMatchesFrom_start caseInsensitive actual pattern _ (Nat.le_refl _)
  rw [likeMatches, hb, ← hsplits, beq_iff_eq, Option.some.injEq]

inductive LikeUnit where
  | plain (c : Char)
  | escaped (c : Char)
  deriving DecidableEq

def LikeUnit.written (escape : Char) : LikeUnit → List Char
  | .plain c => [c]
  | .escaped c => [escape, c]

def LikeUnit.token : LikeUnit → LikeToken
  | .plain c => plainToken c
  | .escaped c => .literal c

theorem compileLikeTokens_written {escape : Char} {units : List LikeUnit} (h : .plain escape ∉ units)
    (rest : List Char) :
    compileLikeTokens (some escape) (units.flatMap (·.written escape) ++ rest) =
      units.map (·.token) ++ compileLikeTokens (some escape) rest := by
  induction units with
  | nil => rfl
  | cons unit units ih =>
    have hrest := ih (List.not_mem_of_not_mem_cons h)
    cases unit with
    | escaped c =>
      change compileLikeTokens (some escape) (escape :: c :: (units.flatMap (·.written escape) ++ rest)) = _
      rw [compileLikeTokens, if_pos rfl, hrest]
      rfl
    | plain c =>
      have hc : escape ≠ c := fun heq => h (heq ▸ List.mem_cons_self)
      have hplain : ∀ text, compileLikeTokens (some escape) (c :: text) =
          plainToken c :: compileLikeTokens (some escape) text := by
        intro text
        cases text <;> simp [compileLikeTokens, hc]
      change compileLikeTokens (some escape) (c :: (units.flatMap (·.written escape) ++ rest)) = _
      rw [hplain, hrest]
      rfl

theorem exists_units (escape : Char) : ∀ pattern : List Char, ∃ units : List LikeUnit, .plain escape ∉ units ∧
    (pattern = units.flatMap (·.written escape) ∨ pattern = units.flatMap (·.written escape) ++ [escape])
  | [] => ⟨[], List.not_mem_nil, .inl rfl⟩
  | c :: pattern => by
    by_cases hc : c = escape
    · subst hc
      cases pattern with
      | nil => exact ⟨[], List.not_mem_nil, .inr rfl⟩
      | cons next pattern =>
        obtain ⟨units, hunits, hpattern⟩ := exists_units c pattern
        refine ⟨.escaped next :: units, by simp [hunits], ?_⟩
        rcases hpattern with rfl | hpattern
        · exact .inl rfl
        · exact .inr (by simp [LikeUnit.written, hpattern])
    · obtain ⟨units, hunits, hpattern⟩ := exists_units escape pattern
      refine ⟨.plain c :: units, by simp [hunits, Ne.symm hc], ?_⟩
      rcases hpattern with rfl | hpattern
      · exact .inl rfl
      · exact .inr (by simp [LikeUnit.written, hpattern])

end Tokens

def likeByTokens (prims : ValuePrimitives) (actual pattern : Bytes) (caseInsensitive : Bool)
    (escapeChar : Option Char) : Bool :=
  likeMatches (prims.fromUtf8Lossy actual).toList
    (compileLikeTokens escapeChar (prims.fromUtf8Lossy pattern).toList) caseInsensitive

def compareLikeValue (prims : ValuePrimitives) (actual pattern : Bytes) (caseInsensitive : Bool)
    (escapeChar : Option Char) : Bool :=
  let actualRendered := renderStoredFieldValue prims actual
  let patternRendered := renderStoredFieldValue prims pattern
  match compareLikeByLiteralSegments actualRendered patternRendered caseInsensitive escapeChar with
  | some matched => matched
  | none =>
  match classifyLikeAsciiFastPath patternRendered escapeChar with
  | some fastPath => applyLikeAsciiFastPath actualRendered fastPath caseInsensitive
  | none =>
  match classifyLikeFastPath (prims.fromUtf8Lossy patternRendered) escapeChar with
  | some fastPath => applyLikeFastPath (prims.fromUtf8Lossy actualRendered) fastPath caseInsensitive
  | none => likeByTokens prims actualRendered patternRendered caseInsensitive escapeChar

/-! ## Underscores -/

section Underscores

variable {pattern : Bytes}

theorem compileLikeTokens_none (pattern : List Char) : compileLikeTokens none pattern = pattern.map plainToken := by
  induction pattern with
  | nil => rfl
  | cons c pattern ih =>
    cases pattern with
    | nil => rfl
    | cons next pattern =>
      rw [compileLikeTokens, if_neg (by simp), ih]
      rfl

/-- The matcher ends, with the answer that splitting the value gives, and a pattern is compiled unit by unit. -/
theorem like_matcher_correct (actual : List Char) (tokens : List LikeToken) (caseInsensitive : Bool) :
    (∀ extra, likeMatchesFrom caseInsensitive ((tokens.length + 1) * (actual.length + 2) ^ 2 + extra) actual tokens
      none = some (likeMatches actual tokens caseInsensitive)) ∧
    (likeMatches actual tokens caseInsensitive = true ↔ LikeSplits caseInsensitive actual tokens) ∧
    (∀ pattern, compileLikeTokens none pattern = pattern.map plainToken) ∧
    ∀ escape pattern, ∃ units : List LikeUnit, .plain escape ∉ units ∧
      (pattern = units.flatMap (·.written escape) ∧ compileLikeTokens (some escape) pattern = units.map (·.token) ∨
        pattern = units.flatMap (·.written escape) ++ [escape] ∧
          compileLikeTokens (some escape) pattern = units.map (·.token) ++ [.literal escape]) := by
  refine ⟨fun extra => ?_, likeMatches_iff, compileLikeTokens_none, fun escape pattern => ?_⟩
  · obtain ⟨b, hb, hsplits⟩ := @likeMatchesFrom_start caseInsensitive actual tokens _ (Nat.le_add_right _ extra)
    rw [hb, Option.some.injEq, Bool.eq_iff_iff, likeMatches_iff, hsplits]
  · obtain ⟨units, hunits, rfl | rfl⟩ := exists_units escape pattern
    · refine ⟨units, hunits, .inl ⟨rfl, ?_⟩⟩
      simpa [compileLikeTokens] using compileLikeTokens_written hunits []
    · refine ⟨units, hunits, .inr ⟨rfl, ?_⟩⟩
      simpa [compileLikeTokens] using compileLikeTokens_written hunits [escape]

end Underscores

end DistDb.Query
