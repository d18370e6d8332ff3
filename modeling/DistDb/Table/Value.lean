import DistDb.Lib.Text

/-! # Table schemas and stored field values

Values are bytes. Numbers and uuids are stored behind a tag; untagged bytes that read as a number are
numbers as well. Floats are their IEEE 754 bits. -/

namespace DistDb
open Lib

inductive FieldKind where
  | int (bits : UInt8)
  | uint (bits : UInt8)
  | float (bits : UInt8)
  | date
  | dateTime
  | timestamp
  | uuid
  | stringFixed (len : Nat)
  | text
  | enum (variants : List String)
  | spatial
  | blob
  deriving DecidableEq, Repr

inductive FieldIndex where
  | none
  | indexed
  | primaryKey
  deriving DecidableEq, Repr

structure FieldMetadata where
  autoIncrement : Bool
  unique : Bool
  deriving DecidableEq, Repr

structure FieldDef where
  seqno : UInt32
  fieldName : String
  fieldType : FieldKind
  nullable : Bool
  indexed : FieldIndex
  defaultValue : Option Bytes
  metadata : Option FieldMetadata
  deriving DecidableEq, Repr

/-- The index from names to positions that the source keeps beside `fields` is derived from them. -/
structure TableSchema where
  fields : List FieldDef
  deriving DecidableEq, Repr

namespace TableSchema

def field (schema : TableSchema) (name : String) : Option FieldDef :=
  schema.fields.find? fun field => field.fieldName = toAsciiLowercase (trim name)

end TableSchema

/-! ## Values -/

structure ValuePrimitives where
  parseF64 : String → Option UInt64
  renderF64 : UInt64 → String
  /-- The integer a finite float with no fraction stands for. -/
  integralF64 : UInt64 → Option Int
  f64OfInt : Int → UInt64
  f64OfF32 : UInt32 → UInt64
  f32OfF64 : UInt64 → UInt32
  /-- `NaiveDateTime::parse_from_str` of a text in a format, as a timestamp. -/
  parseDateTime : String → String → Option Int
  /-- `NaiveDate::parse_from_str` of a text in a format, as the timestamp of its midnight. -/
  parseDate : String → String → Option Int
  parseUuid : String → Option Bytes
  renderUuid : Bytes → String
  fromUtf8Lossy : Bytes → String

def ValuePrimitives.plain : ValuePrimitives where
  parseF64 := fun _ => none
  renderF64 := fun _ => ""
  integralF64 := fun _ => none
  f64OfInt := fun _ => 0
  f64OfF32 := fun _ => 0
  f32OfF64 := fun _ => 0
  parseDateTime := fun _ _ => none
  parseDate := fun _ _ => none
  parseUuid := fun _ => none
  renderUuid := fun _ => ""
  fromUtf8Lossy := fun bs => (fromUtf8 bs).getD ""

def isFiniteF64 (bits : UInt64) : Bool := (bits >>> 52) &&& 0x7ff != 0x7ff

inductive StoredNumericValue where
  | signed (v : Int)
  | unsigned (v : Nat)
  | float (bits : UInt64)
  deriving DecidableEq, Repr

inductive TypeConversionPolicy where
  | safe
  | force
  deriving DecidableEq, Repr

variable (prims : ValuePrimitives)

def parseI128Bytes (value : Bytes) : Option Int :=
  (fromUtf8 value).bind fun text => parseSigned (2 ^ 127) (trim text)

def parseU128Bytes (value : Bytes) : Option Nat :=
  (fromUtf8 value).bind fun text => parseUnsigned (2 ^ 128) (trim text)

def parseF64Bytes (value : Bytes) : Option UInt64 :=
  (fromUtf8 value).bind fun text => prims.parseF64 (trim text)

def decodeLegacyNumericValue (value : Bytes) : Option StoredNumericValue :=
  match parseI128Bytes value with
  | some v => some (.signed v)
  | none =>
  match parseU128Bytes value with
  | some v => some (.unsigned v)
  | none => (parseF64Bytes prims value).map .float

def decodeTaggedNumericValue (tag : UInt8) (bytes : Bytes) : Option StoredNumericValue :=
  match tag.toNat, bytes.length with
  | 0x01, 1 | 0x02, 2 | 0x03, 4 | 0x04, 8 | 0x05, 16 => some (.signed (leInt bytes))
  | 0x11, 1 | 0x12, 2 | 0x13, 4 | 0x14, 8 | 0x15, 16 => some (.unsigned (leNat bytes))
  | 0x21, 4 => some (.float (prims.f64OfF32 (.ofNat (leNat bytes))))
  | 0x22, 8 => some (.float (.ofNat (leNat bytes)))
  | _, _ => none

def decodeNumericValue : Bytes → Option StoredNumericValue
  | [] => decodeLegacyNumericValue prims []
  | tag :: bytes =>
    match decodeTaggedNumericValue prims tag bytes with
    | some v => some v
    | none => decodeLegacyNumericValue prims (tag :: bytes)

def saturateI128 (v : Int) : Int := max (-(2 ^ 127)) (min v (2 ^ 127 - 1))

def numericAsI128 : StoredNumericValue → Option Int
  | .signed v => some v
  | .unsigned v => if v < 2 ^ 127 then some v else none
  | .float bits => (prims.integralF64 bits).map saturateI128

def numericAsU128 : StoredNumericValue → Option Nat
  | .signed v => if 0 ≤ v then some v.toNat else none
  | .unsigned v => some v
  | .float bits =>
    (prims.integralF64 bits).bind fun v =>
      if 0 ≤ v then some (min v.toNat (2 ^ 128 - 1)) else none

def numericAsF64 : StoredNumericValue → UInt64
  | .signed v => prims.f64OfInt v
  | .unsigned v => prims.f64OfInt v
  | .float bits => bits

def decodeTaggedDbUuidBinary : Bytes → Option Bytes
  | tag :: bytes => if tag = 0x31 ∧ bytes.length = 16 then some bytes else none
  | [] => none

def decodeDbUuidBinaryForConversion (value : Bytes) : Option Bytes :=
  match decodeTaggedDbUuidBinary value with
  | some bytes => some bytes
  | none => if value.length = 16 then some value else none

def renderStoredFieldValue (value : Bytes) : Bytes :=
  match decodeTaggedDbUuidBinary value with
  | some bytes => utf8Bytes (prims.renderUuid bytes)
  | none =>
  match decodeNumericValue prims value with
  | some (.signed v) => utf8Bytes (toString v)
  | some (.unsigned v) => utf8Bytes (toString v)
  | some (.float bits) => utf8Bytes (prims.renderF64 bits)
  | none => value

def displayStoredFieldValue (value : Bytes) : String :=
  prims.fromUtf8Lossy (renderStoredFieldValue prims value)

def parseTemporalEpochSeconds (value : String) : Option Int :=
  match ["%Y-%m-%d %H:%M:%S%.f", "%Y-%m-%d %H:%M:%S", "%Y-%m-%dT%H:%M:%S%.f",
      "%Y-%m-%dT%H:%M:%S"].findSome? (prims.parseDateTime (trim value)) with
  | some seconds => some seconds
  | none => prims.parseDate (trim value) "%Y-%m-%d"

def encodeSignedWidth (tag : UInt8) (width : Nat) (v : Int) : Option Bytes :=
  if -(2 ^ (8 * width - 1)) ≤ v ∧ v < 2 ^ (8 * width - 1) then some (tag :: leIntBytes width v) else none

def encodeSignedNumeric (bits : UInt8) (v : Int) : Option Bytes :=
  match bits.toNat with
  | 8 => encodeSignedWidth 0x01 1 v
  | 16 => encodeSignedWidth 0x02 2 v
  | 32 => encodeSignedWidth 0x03 4 v
  | 64 => encodeSignedWidth 0x04 8 v
  | _ => some (0x05 :: leIntBytes 16 v)

def encodeUnsignedWidth (tag : UInt8) (width : Nat) (v : Nat) : Option Bytes :=
  if v < 2 ^ (8 * width) then some (tag :: leBytes width v) else none

def encodeUnsignedNumeric (bits : UInt8) (v : Nat) : Option Bytes :=
  match bits.toNat with
  | 8 => encodeUnsignedWidth 0x11 1 v
  | 16 => encodeUnsignedWidth 0x12 2 v
  | 32 => encodeUnsignedWidth 0x13 4 v
  | 64 => encodeUnsignedWidth 0x14 8 v
  | _ => some (0x15 :: leBytes 16 v)

def integerWidth (bits : UInt8) : Nat :=
  match bits.toNat with
  | 8 => 8
  | 16 => 16
  | 32 => 32
  | 64 => 64
  | _ => 128

theorem isSome_encodeSignedNumeric {bits : UInt8} {v : Int} (h : -(2 ^ 127) ≤ v ∧ v < 2 ^ 127) :
    (encodeSignedNumeric bits v).isSome = true ↔
      -(2 ^ (integerWidth bits - 1)) ≤ v ∧ v < 2 ^ (integerWidth bits - 1) := by
  unfold encodeSignedNumeric integerWidth encodeSignedWidth
  split
  · split <;> simp_all
  · split <;> simp_all
  · split <;> simp_all
  · split <;> simp_all
  · simpa using h

theorem isSome_encodeUnsignedNumeric {bits : UInt8} {v : Nat} (h : v < 2 ^ 128) :
    (encodeUnsignedNumeric bits v).isSome = true ↔ v < 2 ^ integerWidth bits := by
  unfold encodeUnsignedNumeric integerWidth encodeUnsignedWidth
  split
  · split <;> simp_all
  · split <;> simp_all
  · split <;> simp_all
  · split <;> simp_all
  · simpa using h

def encodeFloatNumeric (width : UInt8) (bits : UInt64) : Bytes :=
  if width ≤ 32 then 0x21 :: leBytes 4 (prims.f32OfF64 bits).toNat else 0x22 :: leBytes 8 bits.toNat

def TypeConversionPolicy.otherwise (policy : TypeConversionPolicy) (fallback : Option Bytes) :
    Option Bytes :=
  match policy with
  | .force => fallback
  | .safe => none

def readSigned (value : Bytes) : Option Int :=
  match (decodeNumericValue prims value).bind (numericAsI128 prims) with
  | some v => some v
  | none =>
    (fromUtf8 (renderStoredFieldValue prims value)).bind fun text =>
      match parseSigned (2 ^ 127) (trim text) with
      | some v => some v
      | none => parseTemporalEpochSeconds prims text

def convertValueToFieldType (value : Bytes) (targetType : FieldKind) (policy : TypeConversionPolicy) :
    Option Bytes :=
  match targetType with
  | .int bits =>
    match readSigned prims value with
    | some v => encodeSignedNumeric bits v
    | none => policy.otherwise (encodeSignedNumeric bits 0)
  | .uint bits =>
    match (decodeNumericValue prims value).bind (numericAsU128 prims) with
    | some v => encodeUnsignedNumeric bits v
    | none => policy.otherwise (encodeUnsignedNumeric bits 0)
  | .float width =>
    match ((decodeNumericValue prims value).map (numericAsF64 prims)).filter isFiniteF64 with
    | some bits => some (encodeFloatNumeric prims width bits)
    | none => policy.otherwise (some (encodeFloatNumeric prims width 0))
  | .stringFixed _ | .text | .date | .dateTime | .timestamp | .enum _ =>
    match fromUtf8 (renderStoredFieldValue prims value) with
    | some text => some (utf8Bytes text)
    | none =>
      policy.otherwise (some (utf8Bytes (prims.fromUtf8Lossy (renderStoredFieldValue prims value))))
  | .blob | .spatial => some value
  | .uuid =>
    match decodeDbUuidBinaryForConversion value with
    | some bytes => some (0x31 :: bytes)
    | none =>
    match (fromUtf8 (renderStoredFieldValue prims value)).bind fun text => prims.parseUuid (trim text) with
    | some bytes => some (0x31 :: bytes)
    | none => policy.otherwise (some (0x31 :: List.replicate 16 0))

example : convertValueToFieldType .plain (utf8Bytes "7") (.int 8) .safe = some [0x01, 7] := by decide

example : convertValueToFieldType .plain (utf8Bytes "300") (.int 8) .force = none := by decide

/-! ## Comparison -/

def decodeDbUuidBinaryForCompare (value : Bytes) : Option Bytes :=
  match decodeDbUuidBinaryForConversion value with
  | some bytes => some bytes
  | none => (fromUtf8 value).bind fun text => prims.parseUuid (trim text)

def isNanF64 (bits : UInt64) : Bool := !isFiniteF64 bits && bits <<< 12 != 0

/-- `partial_cmp` gives `Equal`, or nothing because one of the two is not a number. -/
def f64EqualOrUnordered (lhs rhs : UInt64) : Bool :=
  isNanF64 lhs || isNanF64 rhs || lhs == rhs || (lhs <<< 1 == 0 && rhs <<< 1 == 0)

def numericValuesEqual : StoredNumericValue → StoredNumericValue → Bool
  | .signed lhs, .signed rhs => lhs = rhs
  | .unsigned lhs, .unsigned rhs => lhs = rhs
  | .signed lhs, .unsigned rhs => lhs = rhs
  | .unsigned lhs, .signed rhs => lhs = rhs
  | lhs, rhs => f64EqualOrUnordered (numericAsF64 prims lhs) (numericAsF64 prims rhs)

def storedFieldValuesEqual (left right : Bytes) : Bool :=
  match decodeDbUuidBinaryForCompare prims left, decodeDbUuidBinaryForCompare prims right with
  | some left, some right => left = right
  | _, _ =>
    match decodeNumericValue prims left, decodeNumericValue prims right with
    | some left, some right => numericValuesEqual prims left right
    | _, _ => renderStoredFieldValue prims left = renderStoredFieldValue prims right

theorem numericValuesEqual_self (v : StoredNumericValue) : numericValuesEqual prims v v = true := by
  cases v with
  | signed v => simp [numericValuesEqual]
  | unsigned v => simp [numericValuesEqual]
  | float bits => simp [numericValuesEqual, f64EqualOrUnordered]

@[simp] theorem storedFieldValuesEqual_self (value : Bytes) : storedFieldValuesEqual prims value value = true := by
  unfold storedFieldValuesEqual
  cases decodeDbUuidBinaryForCompare prims value with
  | some bytes => simp
  | none =>
    cases decodeNumericValue prims value with
    | some v => exact numericValuesEqual_self prims v
    | none => simp

/-! ## Order -/

def compareBytes : Bytes → Bytes → Ordering
  | [], [] => .eq
  | [], _ :: _ => .lt
  | _ :: _, [] => .gt
  | left :: lefts, right :: rights => (compare left right).then (compareBytes lefts rights)

def f64Rank (bits : UInt64) : Int :=
  if bits.toNat < 2 ^ 63 then bits.toNat else -(bits.toNat - 2 ^ 63 : Int)

def compareF64 (lhs rhs : UInt64) : Ordering :=
  if isNanF64 lhs || isNanF64 rhs then .eq else compare (f64Rank lhs) (f64Rank rhs)

def compareNumericValues : StoredNumericValue → StoredNumericValue → Ordering
  | .signed lhs, .signed rhs => compare lhs rhs
  | .unsigned lhs, .unsigned rhs => compare lhs rhs
  | .signed lhs, .unsigned rhs => compare lhs (rhs : Int)
  | .unsigned lhs, .signed rhs => compare (lhs : Int) rhs
  | lhs, rhs => compareF64 (numericAsF64 prims lhs) (numericAsF64 prims rhs)

def compareStoredFieldValues (left right : Bytes) : Ordering :=
  match decodeDbUuidBinaryForCompare prims left, decodeDbUuidBinaryForCompare prims right with
  | some left, some right => compareBytes left right
  | _, _ =>
    match decodeNumericValue prims left, decodeNumericValue prims right with
    | some left, some right => compareNumericValues prims left right
    | _, _ => compareBytes (renderStoredFieldValue prims left) (renderStoredFieldValue prims right)

theorem compareBytes_eq_eq {left right : Bytes} : compareBytes left right = .eq ↔ left = right := by
  induction left generalizing right with
  | nil => cases right <;> simp [compareBytes]
  | cons byte left ih =>
    cases right with
    | nil => simp [compareBytes]
    | cons byte' right => simp [compareBytes, Ordering.then_eq_eq, ih]

theorem shiftLeft_one_eq_zero_iff (bits : UInt64) : bits <<< 1 = 0 ↔ bits.toNat = 0 ∨ bits.toNat = 2 ^ 63 := by
  have hlt := bits.toNat_lt
  rw [← UInt64.toNat_inj, UInt64.toNat_shiftLeft]
  simp only [UInt64.toNat_one, UInt64.toNat_zero, Nat.one_mod, Nat.shiftLeft_eq, pow_one]
  omega

theorem f64Rank_eq_iff (lhs rhs : UInt64) : f64Rank lhs = f64Rank rhs ↔ lhs = rhs ∨ lhs <<< 1 = 0 ∧ rhs <<< 1 = 0 := by
  rw [shiftLeft_one_eq_zero_iff, shiftLeft_one_eq_zero_iff, ← UInt64.toNat_inj]
  unfold f64Rank
  split <;> split <;> omega

theorem numericValuesEqual_iff (lhs rhs : StoredNumericValue) :
    numericValuesEqual prims lhs rhs = true ↔ compareNumericValues prims lhs rhs = .eq := by
  have hfloats : ∀ lhs rhs, f64EqualOrUnordered lhs rhs = true ↔ compareF64 lhs rhs = .eq := by
    intro lhs rhs
    unfold f64EqualOrUnordered compareF64
    by_cases hnan : (isNanF64 lhs || isNanF64 rhs) = true
    · simp [hnan]
    · rw [if_neg hnan, compare_eq_iff_eq, f64Rank_eq_iff]
      simp [hnan]
  cases lhs <;> cases rhs <;> simp [numericValuesEqual, compareNumericValues, hfloats]

theorem storedFieldValuesEqual_iff (left right : Bytes) :
    storedFieldValuesEqual prims left right = true ↔ compareStoredFieldValues prims left right = .eq := by
  unfold storedFieldValuesEqual compareStoredFieldValues
  split
  · simp [compareBytes_eq_eq]
  · split
    · exact numericValuesEqual_iff prims _ _
    · simp [compareBytes_eq_eq]

end DistDb
