import DistDb.Cache.Ranges
import DistDb.Query.Like

/-! # LIKE on a cache entry

The texts of a field's values are searched instead of its rows. No escape character is passed on. -/

namespace DistDb.Cache
open Lib Mutation Query

/-! ## Keys -/

/-- `search_prefix`: a range of the ordered keys, up to the text with `char::MAX` behind it. -/
def searchPrefix (text key : List Char) : Bool :=
  decide (text ≤ key) && decide (key < text ++ [Char.ofNat 0x10FFFF]) && text.isPrefixOf key

def searchSuffix (text key : List Char) : Bool := searchPrefix text.reverse key.reverse

def likeMatchesChars (actual pattern : List Char) : Bool := likeMatches actual (pattern.map plainToken) false

def searchLike (pattern key : List Char) : Bool :=
  if pattern = [] then true
  else if '%' ∉ pattern ∧ '_' ∉ pattern then key = pattern
  else if pattern.head? = some '%' ∧ '%' ∉ pattern.tail ∧ '_' ∉ pattern.tail then searchSuffix pattern.tail key
  else if pattern.getLast? = some '%' ∧ '%' ∉ pattern.dropLast ∧ '_' ∉ pattern then searchPrefix pattern.dropLast key
  else likeMatchesChars key pattern

def keyMatches (prims : ValuePrimitives) (pattern : Bytes) (caseInsensitive : Bool) (key : String) : Bool :=
  let patternText := prims.fromUtf8Lossy pattern
  if caseInsensitive then
    if '%' ∈ patternText.toList ∨ '_' ∈ patternText.toList then compareLikeValue prims (utf8Bytes key) pattern true none
    else key = toAsciiLowercase patternText
  else searchLike patternText.toList key.toList

namespace AccessorEntry

section Lookup

variable (prims : ValuePrimitives) (entry : AccessorEntry) (fieldName : String) (pattern : Bytes)

def rowsLike (rows : List LiveRow) (caseInsensitive : Bool) (escapeChar : Option Char) : List LiveRow :=
  rows.filter fun row => (row.2.lookup fieldName).any (compareLikeValue prims · pattern caseInsensitive escapeChar)

def rowsForKeys (caseInsensitive : Bool) (index : StringIndex) (keys : List String) : List LiveRow :=
  entry.rowsForIds ((keys.filter (keyMatches prims pattern caseInsensitive)).flatMap index)

def rowsForFieldStringLikeCaseInsensitiveIndexed (keys : List String) : List LiveRow :=
  match entry.stringIndexes true fieldName with
  | some index => entry.rowsForKeys prims pattern true index keys
  | none => rowsLike prims fieldName pattern entry.rowsById true none

def rowsForFieldStringLikeIndexed (keys : List String) : Option (List LiveRow) :=
  (entry.stringIndexes false fieldName).map fun index => entry.rowsForKeys prims pattern false index keys

end Lookup

def notedRows (texts : List String) : List LiveRow :=
  texts.mapIdx fun position text => (UInt64.ofNat (position + 1), noted text)

end AccessorEntry

end DistDb.Cache
