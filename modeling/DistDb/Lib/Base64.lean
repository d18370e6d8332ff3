import DistDb.Lib.Codec

/-! # Base64 and hexadecimal texts

Texts are their bytes. Base64 is written without padding; the reader takes the URL alphabet and up to two padding
characters as well. -/

namespace DistDb.Lib

/-! ## Base64 -/

def base64Char (v : Nat) : UInt8 :=
  if v < 26 then .ofNat (65 + v) else if v < 52 then .ofNat (71 + v) else if v < 62 then .ofNat (v - 4)
  else if v = 62 then 43 else 47

def base64Value (char : UInt8) : Option Nat :=
  if 65 ≤ char ∧ char ≤ 90 then some (char.toNat - 65)
  else if 97 ≤ char ∧ char ≤ 122 then some (char.toNat - 71)
  else if 48 ≤ char ∧ char ≤ 57 then some (char.toNat + 4)
  else if char = 43 ∨ char = 45 then some 62
  else if char = 47 ∨ char = 95 then some 63
  else none

def sextet (n i : Nat) : UInt8 := base64Char (n / 64 ^ (3 - i) % 64)

def b64EncodeBytes : Bytes → Bytes
  | a :: b :: c :: bytes =>
    let n := a.toNat * 65536 + b.toNat * 256 + c.toNat
    sextet n 0 :: sextet n 1 :: sextet n 2 :: sextet n 3 :: b64EncodeBytes bytes
  | [a, b] =>
    let n := a.toNat * 65536 + b.toNat * 256
    [sextet n 0, sextet n 1, sextet n 2]
  | [a] => [sextet (a.toNat * 65536) 0, sextet (a.toNat * 65536) 1]
  | [] => []

def octet (n i : Nat) : UInt8 := .ofNat (n / 256 ^ (2 - i) % 256)

def decodeSextets : Bytes → Option Bytes
  | a :: b :: c :: d :: text => do
    let n := (← base64Value a) * 262144 + (← base64Value b) * 4096 + (← base64Value c) * 64 + (← base64Value d)
    let bytes ← decodeSextets text
    return octet n 0 :: octet n 1 :: octet n 2 :: bytes
  | [a, b, c] => do
    let n := (← base64Value a) * 262144 + (← base64Value b) * 4096 + (← base64Value c) * 64
    return [octet n 0, octet n 1]
  | [a, b] => do
    let n := (← base64Value a) * 262144 + (← base64Value b) * 4096
    return [octet n 0]
  | [_] => none
  | [] => some []

def b64DecodeImpl (text : Bytes) : Option Bytes :=
  let data := (text.reverse.dropWhile (· = 61)).reverse
  if 2 < text.length - data.length then none else decodeSextets data

theorem base64Value_base64Char {v : Nat} (h : v < 64) : base64Value (base64Char v) = some v := by
  have hall : ∀ v < 64, base64Value (base64Char v) = some v := by decide
  exact hall v h

theorem base64Char_ne_padding {v : Nat} (h : v < 64) : base64Char v ≠ 61 := by
  have hall : ∀ v < 64, base64Char v ≠ 61 := by decide
  exact hall v h

theorem octet_eq {n i : Nat} {byte : UInt8} (h : n / 256 ^ (2 - i) % 256 = byte.toNat) : octet n i = byte := by
  rw [octet, h, UInt8.ofNat_toNat]

@[simp] theorem base64Value_sextet (n i : Nat) : base64Value (sextet n i) = some (n / 64 ^ (3 - i) % 64) :=
  base64Value_base64Char (Nat.mod_lt _ (by decide))

theorem decodeSextets_b64EncodeBytes (bytes : Bytes) : decodeSextets (b64EncodeBytes bytes) = some bytes := by
  induction bytes using b64EncodeBytes.induct with
  | case1 a b c bytes ih =>
    have ha := a.toNat_lt
    have hb := b.toNat_lt
    have hc := c.toNat_lt
    simp only [b64EncodeBytes, decodeSextets, base64Value_sextet, ih, Option.bind_eq_bind, Option.bind_some,
      Option.pure_def, Option.some.injEq, List.cons.injEq, and_true]
    exact ⟨octet_eq (by omega), octet_eq (by omega), octet_eq (by omega)⟩
  | case2 a b =>
    have ha := a.toNat_lt
    have hb := b.toNat_lt
    simp only [b64EncodeBytes, decodeSextets, base64Value_sextet, Option.bind_eq_bind, Option.bind_some,
      Option.pure_def, Option.some.injEq, List.cons.injEq, and_true]
    exact ⟨octet_eq (by omega), octet_eq (by omega)⟩
  | case3 a =>
    have ha := a.toNat_lt
    simp only [b64EncodeBytes, decodeSextets, base64Value_sextet, Option.bind_eq_bind, Option.bind_some,
      Option.pure_def, Option.some.injEq, List.cons.injEq, and_true]
    exact octet_eq (by omega)
  | case4 => rfl

theorem b64DecodeImpl_of_not_padded {text : Bytes} (h : 61 ∉ text) : b64DecodeImpl text = decodeSextets text := by
  have hdata : text.reverse.dropWhile (· = 61) = text.reverse := by
    cases hreverse : text.reverse with
    | nil => rfl
    | cons char rest =>
      have hchar : char ≠ 61 := by
        rintro rfl
        exact h (List.mem_reverse.mp (hreverse ▸ List.mem_cons_self))
      simp [hchar]
  simp [b64DecodeImpl, hdata]

theorem padding_notMem_b64EncodeBytes (bytes : Bytes) : 61 ∉ b64EncodeBytes bytes := by
  have hsextet : ∀ n i, 61 ≠ sextet n i := fun n i => (base64Char_ne_padding (Nat.mod_lt _ (by decide))).symm
  induction bytes using b64EncodeBytes.induct with
  | case1 a b c bytes ih => simp [b64EncodeBytes, hsextet, ih]
  | case2 a b => simp [b64EncodeBytes, hsextet]
  | case3 a => simp [b64EncodeBytes, hsextet]
  | case4 => simp [b64EncodeBytes]

theorem b64DecodeImpl_b64EncodeBytes (bytes : Bytes) : b64DecodeImpl (b64EncodeBytes bytes) = some bytes := by
  rw [b64DecodeImpl_of_not_padded (padding_notMem_b64EncodeBytes bytes), decodeSextets_b64EncodeBytes]

/-! ## Hexadecimal digits -/

def hexDigit (upper : Bool) (v : Nat) : UInt8 := .ofNat (if v < 10 then 48 + v else if upper then 55 + v else 87 + v)

def hexText (upper : Bool) (bytes : Bytes) : Bytes :=
  bytes.flatMap fun byte => [hexDigit upper (byte.toNat / 16), hexDigit upper (byte.toNat % 16)]

def hexValue (char : UInt8) : Option Nat :=
  if 48 ≤ char ∧ char ≤ 57 then some (char.toNat - 48)
  else if 97 ≤ char ∧ char ≤ 102 then some (char.toNat - 87)
  else if 65 ≤ char ∧ char ≤ 70 then some (char.toNat - 55)
  else none

/-- `u8::from_str_radix` of two characters, of which the first may be a plus sign. -/
def hexByteOf (high low : UInt8) : Option UInt8 :=
  if high = 43 then (hexValue low).map .ofNat
  else (hexValue high).bind fun high => (hexValue low).map fun low => .ofNat (high * 16 + low)

theorem hexValue_hexDigit (upper : Bool) {v : Nat} (h : v < 16) : hexValue (hexDigit upper v) = some v := by
  have hall : ∀ upper, ∀ v < 16, hexValue (hexDigit upper v) = some v := by decide
  exact hall upper v h

theorem hexDigit_ne (upper : Bool) {v : Nat} (h : v < 16) : hexDigit upper v ≠ 43 ∧ hexDigit upper v ≠ 61 := by
  have hall : ∀ upper, ∀ v < 16, hexDigit upper v ≠ 43 ∧ hexDigit upper v ≠ 61 := by decide
  exact hall upper v h

theorem hexByteOf_digits (upper : Bool) (byte : UInt8) :
    hexByteOf (hexDigit upper (byte.toNat / 16)) (hexDigit upper (byte.toNat % 16)) = some byte := by
  have hhigh : byte.toNat / 16 < 16 := by
    have := byte.toNat_lt
    omega
  rw [hexByteOf, if_neg (hexDigit_ne upper hhigh).1, hexValue_hexDigit upper hhigh,
    hexValue_hexDigit upper (Nat.mod_lt _ (by decide)), Option.bind_some, Option.map_some, Nat.div_add_mod',
    UInt8.ofNat_toNat]

end DistDb.Lib
