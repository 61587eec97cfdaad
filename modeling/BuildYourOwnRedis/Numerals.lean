/-
  Numerals.lean --- the texts that the number readers of `utils.cpp` take.

  A number is a non-empty run of digits.  `parseUInt64` skips one plus sign in front of
  it, and does not look at what stands behind the digits; of a text where nothing does
  (`hasTrailing`), it reads exactly the numbers that fit 64 bits.
-/
import BuildYourOwnRedis.Utils

set_option autoImplicit false

namespace BuildYourOwnRedis

open Foundation

/-! ## Printed numbers -/

theorem decimal_injective {n n' : Nat} (h : decimal n = decimal n') : n = n' := by
  rw [← decimalValue_decimal n, h, decimalValue_decimal]

theorem decimalInt_injective {i i' : Int} (h : decimalInt i = decimalInt i') : i = i' := by
  have hsign (n n' : Nat) : decimal n ≠ minusByte :: decimal n' := by
    intro heq
    have hmem : minusByte ∈ decimal n := by
      rw [heq]
      exact List.mem_cons_self
    exact absurd hmem (not_mem_decimal (by decide))
  cases i with
  | ofNat n =>
      cases i' with
      | ofNat n' => exact congrArg Int.ofNat (decimal_injective h)
      | negSucc n' => exact absurd h (hsign n (n' + 1))
  | negSucc n =>
      cases i' with
      | ofNat n' => exact absurd h.symm (hsign n' (n + 1))
      | negSucc n' =>
          have hsucc := decimal_injective (List.cons.inj h).2
          rw [Nat.succ.inj hsucc]

/-! ## The conversion to `std::size_t` -/

theorem toSizeT_natCast (n : Nat) : toSizeT n = UInt64.ofNat n := by
  apply UInt64.toNat.inj
  simp only [toSizeT, UInt64.ofInt, UInt64.toNat_ofNat']
  omega

theorem toNat_toSizeT {n : Nat} (h : n < 2 ^ 63) : (toSizeT n).toNat = n := by
  rw [toSizeT_natCast, UInt64.toNat_ofNat']
  exact Nat.mod_eq_of_lt (by omega)

theorem toSizeT_toNat (n : UInt64) : toSizeT n.toNat = n := by
  rw [toSizeT_natCast, UInt64.ofNat_toNat]

/-! ## `parseUInt64` -/

/-- A run of digits whose value is this number. -/
def DigitsText (n : UInt64) (text : Bytes) : Prop :=
  isNumber text = true ∧ decimalValue text = n.toNat

/-- The texts of a 64-bit number: a plus sign may stand in front of the digits.  This is what
`parseUInt64` is to take, and nothing behind the digits belongs to it. -/
inductive UInt64Text : UInt64 → Bytes → Prop where
  | unsigned {n : UInt64} {digits : Bytes} (h : DigitsText n digits) : UInt64Text n digits
  | plus {n : UInt64} {digits : Bytes} (h : DigitsText n digits) :
      UInt64Text n (plusByte :: digits)

/-- Something stands behind the digits of a number. -/
def hasTrailing (text : Bytes) : Bool :=
  (skipPlus text).takeWhile isDigit ≠ [] && (skipPlus text).dropWhile isDigit ≠ []

theorem digitsText_decimal (n : UInt64) : DigitsText n (decimal n.toNat) :=
  ⟨isNumber_decimal _, decimalValue_decimal _⟩

theorem skipPlus_plus (text : Bytes) : skipPlus (plusByte :: text) = text := by
  rw [skipPlus, List.head?_cons, if_pos rfl, List.tail_cons]

theorem DigitsText.fromChars {n : UInt64} {text : Bytes} (h : DigitsText n text) :
    fromCharsUInt64 text = some n := by
  rw [fromCharsUInt64, leadingNumber_of_isNumber h.1]
  simp only [h.2, n.toNat_lt, if_true, UInt64.ofNat_toNat]

/-- Every text of a number is read as that number. -/
theorem UInt64Text.parse {n : UInt64} {text : Bytes} (h : UInt64Text n text) :
    parseUInt64 text = some n := by
  cases h with
  | unsigned h =>
      have hne := (isNumber_iff.mp h.1).1
      rw [parseUInt64, skipPlus_of_isNumber h.1, if_neg hne, if_neg hne, h.fromChars]
  | plus h =>
      have hne := (isNumber_iff.mp h.1).1
      rw [parseUInt64, skipPlus_plus, if_neg (List.cons_ne_nil _ _), if_neg hne, h.fromChars]

/-- What `std::from_chars` reads, when nothing stands behind the digits. -/
theorem digitsText_of_fromChars {n : UInt64} {text : Bytes}
    (hend : text.takeWhile isDigit = [] ∨ text.dropWhile isDigit = [])
    (h : fromCharsUInt64 text = some n) : DigitsText n text := by
  unfold fromCharsUInt64 leadingNumber at h
  split at h
  · next value hvalue =>
      split at hvalue
      · cases hvalue
      · next hdigits =>
          have hdrop := hend.resolve_left hdigits
          have htake : text.takeWhile isDigit = text := by
            have := List.takeWhile_append_dropWhile (p := isDigit) (l := text)
            rwa [hdrop, List.append_nil] at this
          rw [htake] at hvalue hdigits
          obtain rfl := Option.some.inj hvalue
          split at h
          · next hlt =>
              obtain rfl := Option.some.inj h
              refine ⟨isNumber_iff.mpr ⟨hdigits, List.takeWhile_eq_self_iff.mp htake⟩, ?_⟩
              rw [UInt64.toNat_ofNat_of_lt' hlt]
          · cases h
  · cases h

/-- **Where nothing stands behind the digits, `parseUInt64` takes the texts of 64-bit
numbers and no others.** -/
theorem parseUInt64_eq_some_iff {n : UInt64} {text : Bytes} (hend : hasTrailing text = false) :
    parseUInt64 text = some n ↔ UInt64Text n text := by
  refine ⟨fun h => ?_, UInt64Text.parse⟩
  have hend' : (skipPlus text).takeWhile isDigit = [] ∨
      (skipPlus text).dropWhile isDigit = [] := by
    simpa [hasTrailing, or_iff_not_imp_left] using hend
  unfold parseUInt64 at h
  split at h
  · cases h
  · split at h
    · cases h
    · have hdigits := digitsText_of_fromChars hend' h
      unfold skipPlus at hdigits
      split at hdigits
      · next hplus =>
          cases text with
          | nil => simp at hplus
          | cons b text =>
              obtain rfl := Option.some.inj hplus
              exact .plus hdigits
      · exact .unsigned hdigits

theorem UInt64Text.not_mem {n : UInt64} {text : Bytes} (h : UInt64Text n text) {b : Byte}
    (hb : isDigit b = false) (hplus : b ≠ plusByte) : b ∉ text := by
  cases h with
  | unsigned h => exact not_mem_of_isNumber h.1 hb
  | plus h => simpa [hplus] using not_mem_of_isNumber h.1 hb

end BuildYourOwnRedis
