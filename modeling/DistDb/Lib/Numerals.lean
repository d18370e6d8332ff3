import DistDb.Lib.Text

/-! # Numerals

The decimal numeral of an integer reads as that integer, and text and its bytes determine each other. -/

namespace DistDb.Lib

/-! ## Bytes of text -/

theorem fromUtf8_utf8Bytes (text : String) : fromUtf8 (utf8Bytes text) = some text := by
  have hbytes : (⟨(utf8Bytes text).toArray⟩ : ByteArray) = text.toUTF8 := rfl
  rw [fromUtf8, hbytes, String.fromUTF8?, String.toUTF8_eq_toByteArray, dif_pos text.isValidUTF8]
  rfl

theorem utf8Bytes_of_fromUtf8 {bs : Bytes} {text : String} (h : fromUtf8 bs = some text) : utf8Bytes text = bs := by
  rw [fromUtf8, String.fromUTF8?] at h
  split at h
  · cases h
    rfl
  · cases h

theorem utf8Bytes_injective {text text' : String} (h : utf8Bytes text = utf8Bytes text') : text = text' := by
  have := congrArg fromUtf8 h
  rw [fromUtf8_utf8Bytes, fromUtf8_utf8Bytes] at this
  exact Option.some.inj this

theorem utf8Bytes_eq_flatMap (text : String) : utf8Bytes text = text.toList.flatMap String.utf8EncodeChar := by
  rw [utf8Bytes, String.toUTF8_eq_toByteArray, ← String.utf8Encode_toList, List.utf8Encode]
  simp

theorem utf8EncodeChar_of_ascii {c : Char} (h : c.toNat < 128) : String.utf8EncodeChar c = [c.toNat.toUInt8] := by
  rw [String.utf8EncodeChar_eq_singleton]
  · rfl
  · have hval : c.val ≤ 127 := by
      rw [UInt32.le_iff_toNat_le]
      exact Nat.le_of_lt_succ h
    simp [Char.utf8Size, hval]

/-! ## Digits -/

theorem parseDigits_eq_ofDigitChars {digits : List Char} (hne : digits ≠ [])
    (h : ∀ c ∈ digits, c.isDigit = true) : parseDigits digits = some (Nat.ofDigitChars 10 digits 0) := by
  have hfold : ∀ (digits : List Char) (n : Nat), (∀ c ∈ digits, c.isDigit = true) →
      digits.foldl (fun (acc : Option Nat) c => acc.bind fun n =>
        if c.isDigit then some (n * 10 + (c.toNat - 48)) else none) (some n) =
      some (Nat.ofDigitChars 10 digits n) := by
    intro digits
    induction digits with
    | nil => intro n _; rfl
    | cons c digits ih =>
      intro n h
      obtain ⟨hc, hdigits⟩ := List.forall_mem_cons.mp h
      rw [List.foldl_cons, Option.bind_some, if_pos hc, ih _ hdigits, Nat.ofDigitChars_cons, Nat.mul_comm]
      rfl
  cases digits with
  | nil => exact absurd rfl hne
  | cons c digits => exact hfold (c :: digits) 0 h

theorem parseDigits_toDigits (n : Nat) : parseDigits (Nat.toDigits 10 n) = some n := by
  rw [parseDigits_eq_ofDigitChars Nat.toDigits_ne_nil fun c hc =>
    Nat.isDigit_of_mem_toDigits (by decide) (by decide) hc, Nat.ofDigitChars_toDigits (by decide) (by decide)]

theorem parseDigits_lt {digits : List Char} {n : Nat} (h : parseDigits digits = some n) : n < 10 ^ digits.length := by
  have hfold : ∀ (digits : List Char) (acc : Option Nat) (n bound : Nat), (∀ m ∈ acc, m < bound) →
      digits.foldl (fun (acc : Option Nat) c => acc.bind fun n =>
        if c.isDigit then some (n * 10 + (c.toNat - 48)) else none) acc = some n →
      n < bound * 10 ^ digits.length := by
    intro digits
    induction digits with
    | nil =>
      intro acc n bound hacc h
      simpa using hacc n h
    | cons c digits ih =>
      intro acc n bound hacc h
      have hnext := ih _ n (bound * 10) ?_ h
      · rw [List.length_cons, pow_succ]
        calc n < bound * 10 * 10 ^ digits.length := hnext
          _ = bound * (10 ^ digits.length * 10) := by ring
      · intro m hm
        obtain ⟨k, hk, hkm⟩ := Option.bind_eq_some_iff.mp hm
        have hless := hacc k hk
        split at hkm
        · rename_i hdigit
          have hrange : c.toNat ≤ 57 := by
            have hboth : 48 ≤ c.toNat ∧ c.toNat ≤ 57 := by
              simpa [Char.isDigit, UInt32.le_iff_toNat_le] using hdigit
            exact hboth.2
          cases hkm
          omega
        · cases hkm
  cases digits with
  | nil => cases h
  | cons c digits =>
    have hlt := hfold (c :: digits) (some 0) n 1 (by simp) h
    simpa using hlt

theorem isWhitespace_of_isDigit {c : Char} (h : c.isDigit = true) : isWhitespace c = false := by
  have hrange : 48 ≤ c.toNat ∧ c.toNat ≤ 57 := by
    simpa [Char.isDigit, UInt32.le_iff_toNat_le] using h
  have h1 := hrange.1
  have h2 := hrange.2
  unfold isWhitespace
  generalize c.toNat = n at *
  interval_cases n <;> rfl

/-! ## Integers -/

theorem toList_toString_nat (n : Nat) : (toString n).toList = Nat.toDigits 10 n := by
  rw [Nat.toString_eq_repr, Nat.toList_repr]

theorem toString_int (v : Int) :
    (toString v).toList = if 0 ≤ v then Nat.toDigits 10 v.toNat else '-' :: Nat.toDigits 10 (-v).toNat := by
  rw [Int.toString_eq_repr, Int.repr_eq_if]
  split
  · exact Nat.toList_repr
  · rw [String.toList_append, Nat.toList_repr]
    rfl

theorem isTrimmed_toString_int (v : Int) : IsTrimmed (toString v) := by
  intro c hc
  have hmem : c ∈ (toString v).toList := by
    rcases hc with hc | hc
    · exact List.mem_of_mem_head? hc
    · exact List.mem_of_getLast? hc
  rw [toString_int] at hmem
  split at hmem
  · exact isWhitespace_of_isDigit (Nat.isDigit_of_mem_toDigits (by decide) (by decide) hmem)
  · rcases List.mem_cons.mp hmem with rfl | hmem
    · decide
    · exact isWhitespace_of_isDigit (Nat.isDigit_of_mem_toDigits (by decide) (by decide) hmem)

theorem parseUnsigned_of_toList {bound n : Nat} {text : String} (htext : text.toList = Nat.toDigits 10 n)
    (h : n < bound) : parseUnsigned bound text = some n := by
  have hplus : ∀ digits, text.toList ≠ '+' :: digits := by
    intro digits heq
    have hplus : '+' ∈ Nat.toDigits 10 n := by rw [← htext, heq]; exact List.mem_cons_self
    exact absurd (Nat.isDigit_of_mem_toDigits (by decide) (by decide) hplus) (by decide)
  unfold parseUnsigned
  split
  · rename_i digits heq
    exact absurd heq (hplus digits)
  · rw [htext, parseDigits_toDigits]
    simp [h]

theorem parseSigned_toString {bound : Nat} {v : Int} (h : -(bound : Int) ≤ v ∧ v < bound) :
    parseSigned bound (toString v) = some v := by
  have htext := toString_int v
  by_cases hv : 0 ≤ v
  · rw [if_pos hv] at htext
    have hbound : v.toNat < bound := by omega
    rw [parseSigned_of_parseUnsigned (parseUnsigned_of_toList htext hbound) hbound, Int.toNat_of_nonneg hv]
  · rw [if_neg hv] at htext
    have hneg : -max (-v) 0 = v := by omega
    unfold parseSigned
    rw [htext]
    simp [parseDigits_toDigits, hneg, h]

theorem parseUnsigned_toString {bound n : Nat} (h : n < bound) : parseUnsigned bound (toString n) = some n :=
  parseUnsigned_of_toList (toList_toString_nat n) h

theorem toString_natCast (n : Nat) : toString (n : Int) = toString n := rfl

theorem leInt_bounds (bs : Bytes) : -(256 ^ bs.length : Int) ≤ 2 * leInt bs ∧ 2 * leInt bs < 256 ^ bs.length := by
  have hlt : (leNat bs : Int) < 256 ^ bs.length := by exact_mod_cast leNat_lt bs
  unfold leInt
  split
  · rename_i hhalf
    have hhalf : 2 * (leNat bs : Int) < 256 ^ bs.length := by exact_mod_cast hhalf
    omega
  · rename_i hhalf
    have hhalf : ¬2 * (leNat bs : Int) < 256 ^ bs.length := by exact_mod_cast hhalf
    omega

end DistDb.Lib
