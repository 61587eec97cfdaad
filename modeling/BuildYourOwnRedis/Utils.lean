/-
  Utils.lean --- the text helpers of `utils.cpp`.

  `std::from_chars` reads the longest prefix that has the form of a number and
  ignores what stands behind it; `parseInt` and `parseUInt64` do not look at the
  position where it stopped, so trailing text is accepted.  Both skip one leading
  `+` first.
-/
import BuildYourOwnRedis.Foundation.Bytes

set_option autoImplicit false

namespace BuildYourOwnRedis

open Foundation

/-- `'+'`. -/
def plusByte : Byte := 43

/-- `'-'`. -/
def minusByte : Byte := 45

/-! ## `std::from_chars` -/

/-- The digits `std::from_chars` reads, when there is at least one. -/
def leadingNumber (text : Bytes) : Option Nat :=
  match text.takeWhile isDigit with
  | [] => none
  | digits => some (decimalValue digits)

/-- `std::from_chars` into an `int`: an optional minus sign, then digits; `none`
stands for an `ec` other than `std::errc{}`. -/
def fromCharsInt (text : Bytes) : Option Int :=
  if text.head? = some minusByte then
    match leadingNumber text.tail with
    | some magnitude => if magnitude ≤ 2 ^ 31 then some (-(magnitude : Int)) else none
    | none => none
  else
    match leadingNumber text with
    | some magnitude => if magnitude < 2 ^ 31 then some (magnitude : Int) else none
    | none => none

/-- `std::from_chars` into a `std::uint64_t`: digits only. -/
def fromCharsUInt64 (text : Bytes) : Option UInt64 :=
  match leadingNumber text with
  | some value => if value < 2 ^ 64 then some (UInt64.ofNat value) else none
  | none => none

/-- `utils.cpp`: one leading `+` is skipped; nothing may be left empty. -/
def skipPlus (text : Bytes) : Bytes :=
  if text.head? = some plusByte then text.tail else text

/-- `parseInt(std::string_view)`: an optional `+`, then `std::from_chars` to an `int`.  What
stands behind the digits is not looked at, and a number that does not fit is none. -/
def parseInt (text : Bytes) : Option Int :=
  if text = [] then none
  else if skipPlus text = [] then none
  else fromCharsInt (skipPlus text)

/-- `parseUInt64(std::string_view)`: an optional `+`, then `std::from_chars` to a
`std::uint64_t`, which takes no sign.  What stands behind the digits is not looked at. -/
def parseUInt64 (text : Bytes) : Option UInt64 :=
  if text = [] then none
  else if skipPlus text = [] then none
  else fromCharsUInt64 (skipPlus text)

/-- `std::to_string(int)`. -/
def decimalInt : Int → Bytes
  | .ofNat n => decimal n
  | .negSucc n => minusByte :: decimal (n + 1)

/-- The conversion of an `int` to `std::size_t`. -/
def toSizeT (i : Int) : UInt64 := UInt64.ofInt i

/-- The conversion of a `std::size_t` to `int`. -/
def toInt (n : Nat) : Int := Int.bmod n (2 ^ 32)

/-! ## Letter case -/

/-- `std::tolower` on one byte in the `"C"` locale. -/
def toLowerByte (b : Byte) : Byte := if 65 ≤ b ∧ b ≤ 90 then b + 32 else b

/-- `std::toupper` on one byte in the `"C"` locale. -/
def toUpperByte (b : Byte) : Byte := if 97 ≤ b ∧ b ≤ 122 then b - 32 else b

/-- `to_lower_case`. -/
def toLowerCase (text : Bytes) : Bytes := text.map toLowerByte

/-- `to_upper_case`. -/
def toUpperCase (text : Bytes) : Bytes := text.map toUpperByte

/-! ## Runs of digits -/

/-- A plain decimal number. -/
def isNumber (text : Bytes) : Bool := text ≠ [] && text.all isDigit

theorem isNumber_iff {text : Bytes} :
    isNumber text = true ↔ text ≠ [] ∧ ∀ b ∈ text, isDigit b = true := by
  simp [isNumber]

theorem isNumber_decimal (n : Nat) : isNumber (decimal n) = true :=
  isNumber_iff.mpr ⟨decimal_ne_nil n, fun _ => isDigit_of_mem_decimal⟩

theorem not_mem_of_isNumber {text : Bytes} (h : isNumber text = true) {b : Byte}
    (hb : isDigit b = false) : b ∉ text := by
  intro hmem
  rw [(isNumber_iff.mp h).2 b hmem] at hb
  cases hb

theorem head?_ne_of_isNumber {text : Bytes} (h : isNumber text = true) {b : Byte}
    (hb : isDigit b = false) : text.head? ≠ some b :=
  fun hhead => not_mem_of_isNumber h hb (List.mem_of_mem_head? hhead)

theorem takeWhile_of_isNumber {text : Bytes} (h : isNumber text = true) :
    text.takeWhile isDigit = text :=
  List.takeWhile_eq_self_iff.mpr (isNumber_iff.mp h).2

theorem leadingNumber_of_isNumber {text : Bytes} (h : isNumber text = true) :
    leadingNumber text = some (decimalValue text) := by
  have htake := takeWhile_of_isNumber h
  unfold leadingNumber
  split
  · next hnil => exact absurd (htake ▸ hnil) (isNumber_iff.mp h).1
  · rw [htake]

theorem skipPlus_of_isNumber {text : Bytes} (h : isNumber text = true) :
    skipPlus text = text := by
  rw [skipPlus, if_neg (head?_ne_of_isNumber h (by decide))]

theorem fromCharsInt_isNumber {text : Bytes} (h : isNumber text = true) :
    fromCharsInt text =
      if decimalValue text < 2 ^ 31 then some (decimalValue text : Int) else none := by
  rw [fromCharsInt, if_neg (head?_ne_of_isNumber h (by decide)), leadingNumber_of_isNumber h]

/-- `parseInt` reads a run of digits as its value, when this fits an `int`. -/
theorem parseInt_isNumber {text : Bytes} (h : isNumber text = true) :
    parseInt text =
      if decimalValue text < 2 ^ 31 then some (decimalValue text : Int) else none := by
  have hne : text ≠ [] := (isNumber_iff.mp h).1
  rw [parseInt, skipPlus_of_isNumber h, if_neg hne, if_neg hne, fromCharsInt_isNumber h]

/-- `parseInt` reads any run of at most nine digits. -/
theorem parseInt_digits {digits : Bytes} (hne : digits ≠ [])
    (h : ∀ b ∈ digits, isDigit b = true) (hlen : digits.length ≤ 9) :
    parseInt digits = some (decimalValue digits : Int) := by
  have hlt : decimalValue digits < 2 ^ 31 :=
    calc decimalValue digits < 10 ^ digits.length := decimalValue_lt h
      _ ≤ 10 ^ 9 := Nat.pow_le_pow_right (by decide) hlen
      _ < 2 ^ 31 := by decide
  rw [parseInt_isNumber (isNumber_iff.mpr ⟨hne, h⟩), if_pos hlt]

/-! ## Reading printed numbers -/

/-- A printed number is read whole. -/
theorem leadingNumber_decimal (n : Nat) : leadingNumber (decimal n) = some n := by
  rw [leadingNumber_of_isNumber (isNumber_decimal n), decimalValue_decimal]

/-- `parseInt` reads back every printed number that fits an `int`. -/
theorem parseInt_decimal {n : Nat} (h : n < 2 ^ 31) :
    parseInt (decimal n) = some (n : Int) := by
  rw [parseInt_isNumber (isNumber_decimal n), decimalValue_decimal, if_pos h]

/-- A printed number from `2 ^ 31` on is out of range for `parseInt`. -/
theorem parseInt_decimal_eq_none {n : Nat} (h : 2 ^ 31 ≤ n) :
    parseInt (decimal n) = none := by
  rw [parseInt_isNumber (isNumber_decimal n), decimalValue_decimal, if_neg (Nat.not_lt.mpr h)]

/-- `parseInt` reads back every printed `int`. -/
theorem parseInt_decimalInt {i : Int} (hlow : -2 ^ 31 ≤ i) (hhigh : i < 2 ^ 31) :
    parseInt (decimalInt i) = some i := by
  cases i with
  | ofNat n =>
      have hn : n < 2 ^ 31 := by
        simp only [Int.ofNat_eq_natCast] at hhigh
        omega
      simpa [decimalInt] using parseInt_decimal hn
  | negSucc n =>
      have hn : n + 1 ≤ 2 ^ 31 := by omega
      have hplus : skipPlus (minusByte :: decimal (n + 1)) =
          minusByte :: decimal (n + 1) := by
        simp [skipPlus, minusByte, plusByte]
      simp only [decimalInt, parseInt, hplus, List.cons_ne_nil, if_false, fromCharsInt,
        List.head?_cons, List.tail_cons, leadingNumber_decimal, hn, if_true]
      rfl

/-- `parseUInt64` reads back every printed 64-bit number. -/
theorem parseUInt64_decimal (n : UInt64) : parseUInt64 (decimal n.toNat) = some n := by
  simp only [parseUInt64, skipPlus_of_isNumber (isNumber_decimal n.toNat), decimal_ne_nil,
    if_false, fromCharsUInt64, leadingNumber_decimal, n.toNat_lt, if_true, UInt64.ofNat_toNat]

/-- What `parseInt` accepts is in the range of an `int`. -/
theorem parseInt_range {text : Bytes} {i : Int} (h : parseInt text = some i) :
    -2 ^ 31 ≤ i ∧ i < 2 ^ 31 := by
  simp only [parseInt, fromCharsInt] at h
  grind

end BuildYourOwnRedis
