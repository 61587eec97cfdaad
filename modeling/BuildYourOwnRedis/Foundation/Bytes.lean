/-
  Foundation/Bytes.lean --- byte strings: text literals, decimal numbers and the
  search for a delimiter.

  Everything here is general.  A wire format writes numbers in decimal and ends
  lines with a delimiter; what a reader needs to know about both is

    * a printed number is a non-empty run of digits and reads back to itself
      (`decimalValue_decimal`), and
    * the first occurrence of a delimiter does not move when bytes are appended
      behind it (`splitAtDelim_append`), and a line followed by the delimiter is
      found whole when the line does not contain it (`splitAtDelim_line`).
-/
import Mathlib

set_option autoImplicit false

namespace BuildYourOwnRedis.Foundation

/-- A `char` of a buffer or a string. -/
abbrev Byte := UInt8

/-- A `std::string`, or the contents of a byte buffer. -/
abbrev Bytes := List Byte

/-- The bytes of a text literal; every literal of the sources is ASCII. -/
def ascii (text : String) : Bytes :=
  text.toList.map fun c => UInt8.ofNat c.toNat

/-! ## Decimal numbers -/

/-- `'0' <= b && b <= '9'`. -/
def isDigit (b : Byte) : Bool := 48 ≤ b && b ≤ 57

/-- The byte of a digit character. -/
def digitByte (c : Char) : Byte := UInt8.ofNat c.toNat

/-- `std::to_string` of an unsigned number. -/
def decimal (n : Nat) : Bytes := (Nat.toDigits 10 n).map digitByte

/-- The number a run of digits denotes. -/
def decimalValue (digits : Bytes) : Nat :=
  digits.foldl (fun value d => 10 * value + (d.toNat - 48)) 0

theorem toNat_digitByte {c : Char} (h : c.isDigit = true) :
    (digitByte c).toNat = c.toNat := by
  have hle : c.toNat ≤ 57 := by
    simp only [Char.isDigit, Bool.and_eq_true, decide_eq_true_eq] at h
    exact UInt32.le_iff_toNat_le.mp h.2
  simp only [digitByte, UInt8.toNat_ofNat']
  omega

theorem isDigit_digitByte {c : Char} (h : c.isDigit = true) :
    isDigit (digitByte c) = true := by
  have hval := toNat_digitByte h
  simp only [Char.isDigit, Bool.and_eq_true, decide_eq_true_eq] at h
  have hlow : 48 ≤ c.toNat := UInt32.le_iff_toNat_le.mp h.1
  have hhigh : c.toNat ≤ 57 := UInt32.le_iff_toNat_le.mp h.2
  simp only [isDigit, Bool.and_eq_true, decide_eq_true_eq, UInt8.le_iff_toNat_le, hval]
  exact ⟨hlow, hhigh⟩

theorem isDigit_of_mem_decimal {n : Nat} {b : Byte} (h : b ∈ decimal n) :
    isDigit b = true := by
  obtain ⟨c, hc, rfl⟩ := List.mem_map.mp h
  exact isDigit_digitByte (Nat.isDigit_of_mem_toDigits (by decide) (by decide) hc)

@[simp] theorem decimal_ne_nil (n : Nat) : decimal n ≠ [] := by
  simp [decimal]

/-- A number below `10 ^ k` has at most `k` digits. -/
theorem length_decimal_le {n k : Nat} (hk : 0 < k) (h : n < 10 ^ k) :
    (decimal n).length ≤ k := by
  rw [decimal, List.length_map]
  exact (Nat.length_toDigits_le_iff (by decide) hk).mpr h

/-- Reading more digits behind a number `start`. -/
theorem foldl_digits_lt {digits : Bytes} (h : ∀ b ∈ digits, isDigit b = true) (start : Nat) :
    digits.foldl (fun value d => 10 * value + (d.toNat - 48)) start <
      (start + 1) * 10 ^ digits.length := by
  induction digits generalizing start with
  | nil => simp
  | cons d digits ih =>
      have hd := h d (by simp)
      simp only [isDigit, Bool.and_eq_true, decide_eq_true_eq, UInt8.le_iff_toNat_le] at hd
      have hdigit : d.toNat - 48 ≤ 9 := by
        have := hd.2
        simp only [UInt8.reduceToNat] at this
        omega
      have hstep : 10 * start + (d.toNat - 48) + 1 ≤ (start + 1) * 10 := by omega
      rw [List.foldl_cons, List.length_cons]
      calc _ < (10 * start + (d.toNat - 48) + 1) * 10 ^ digits.length :=
            ih (fun b hb => h b (by simp [hb])) _
        _ ≤ (start + 1) * 10 * 10 ^ digits.length := Nat.mul_le_mul_right _ hstep
        _ = (start + 1) * 10 ^ (digits.length + 1) := by
            rw [Nat.pow_succ', Nat.mul_assoc]

/-- So many digits denote a number with at most so many digits. -/
theorem decimalValue_lt {digits : Bytes} (h : ∀ b ∈ digits, isDigit b = true) :
    decimalValue digits < 10 ^ digits.length := by
  have hlt := foldl_digits_lt h 0
  rwa [Nat.zero_add, Nat.one_mul] at hlt

/-- The fold over the printed characters is the fold over their bytes. -/
theorem foldl_digitByte (cs : List Char) (hcs : ∀ c ∈ cs, c.isDigit = true)
    (start : Nat) :
    (cs.map digitByte).foldl (fun value d => 10 * value + (d.toNat - 48)) start =
      Nat.ofDigitChars 10 cs start := by
  induction cs generalizing start with
  | nil => simp
  | cons c cs ih =>
      have hc : (digitByte c).toNat = c.toNat := toNat_digitByte (hcs c (by simp))
      rw [List.map_cons, List.foldl_cons, Nat.ofDigitChars_cons, hc]
      exact ih (fun d hd => hcs d (by simp [hd])) _

/-- A printed number reads back to itself. -/
@[simp] theorem decimalValue_decimal (n : Nat) : decimalValue (decimal n) = n := by
  have hdigits : ∀ c ∈ Nat.toDigits 10 n, c.isDigit = true := fun c hc =>
    Nat.isDigit_of_mem_toDigits (by decide) (by decide) hc
  rw [decimalValue, decimal, foldl_digitByte _ hdigits, Nat.ofDigitChars_ten_toDigits]

theorem not_mem_decimal {n : Nat} {b : Byte} (hb : isDigit b = false) :
    b ∉ decimal n := by
  intro hmem
  rw [isDigit_of_mem_decimal hmem] at hb
  exact Bool.noConfusion hb

/-! ## The first occurrence of a delimiter -/

section Delimiter

variable {α : Type} [DecidableEq α]

/-- Split at the first occurrence of `delim`: what stands before it and what
stands behind it.  `none` when it does not occur. -/
def splitAtDelim (delim : List α) : List α → Option (List α × List α)
  | [] => if delim = [] then some ([], []) else none
  | a :: rest =>
      if delim <+: a :: rest then some ([], (a :: rest).drop delim.length)
      else (splitAtDelim delim rest).map fun cut => (a :: cut.1, cut.2)

/-- A cut is a decomposition of the text around the delimiter. -/
theorem splitAtDelim_eq_append {delim text line rest : List α}
    (h : splitAtDelim delim text = some (line, rest)) :
    text = line ++ delim ++ rest := by
  induction text generalizing line with
  | nil =>
      simp only [splitAtDelim] at h
      split at h
      · next hnil => simp_all
      · cases h
  | cons a text ih =>
      simp only [splitAtDelim] at h
      split at h
      · next hpre =>
          obtain ⟨tail, htail⟩ := hpre
          obtain ⟨rfl, rfl⟩ : [] = line ∧ (a :: text).drop delim.length = rest := by
            simpa using h
          rw [← htail]
          simp
      · obtain ⟨⟨line', rest'⟩, hcut, heq⟩ := Option.map_eq_some_iff.mp h
        obtain ⟨rfl, rfl⟩ : a :: line' = line ∧ rest' = rest := by simpa using heq
        rw [ih hcut]
        simp

/-- The line in front of the first occurrence holds none. -/
theorem splitAtDelim_not_infix {delim text line rest : List α} (hne : delim ≠ [])
    (h : splitAtDelim delim text = some (line, rest)) : ¬ delim <:+: line := by
  induction text generalizing line with
  | nil => simp [splitAtDelim, hne] at h
  | cons a text ih =>
      simp only [splitAtDelim] at h
      split at h
      · obtain ⟨rfl, -⟩ := Prod.mk.inj (Option.some.inj h)
        simpa using hne
      · next hpre =>
          obtain ⟨⟨line', rest'⟩, hcut, heq⟩ := Option.map_eq_some_iff.mp h
          obtain ⟨rfl, rfl⟩ : a :: line' = line ∧ rest' = rest := by simpa using heq
          intro hin
          rcases List.infix_cons_iff.mp hin with hfirst | hin
          · refine hpre (hfirst.trans ⟨delim ++ rest', ?_⟩)
            rw [splitAtDelim_eq_append hcut]
            simp
          · exact ih hcut hin

/-- Bytes appended behind the text do not move the first occurrence. -/
theorem splitAtDelim_append {delim text line rest : List α} (more : List α)
    (h : splitAtDelim delim text = some (line, rest)) :
    splitAtDelim delim (text ++ more) = some (line, rest ++ more) := by
  induction text generalizing line with
  | nil =>
      simp only [splitAtDelim] at h
      split at h
      · next hnil =>
          obtain ⟨rfl, rfl⟩ : [] = line ∧ [] = rest := by simpa using h
          subst hnil
          cases more <;> simp [splitAtDelim]
      · cases h
  | cons a text ih =>
      simp only [splitAtDelim] at h
      split at h
      · next hpre =>
          obtain ⟨rfl, rfl⟩ : [] = line ∧ (a :: text).drop delim.length = rest := by
            simpa using h
          have hpre' : delim <+: a :: (text ++ more) :=
            hpre.trans (List.prefix_append (a :: text) more)
          rw [List.cons_append, splitAtDelim, if_pos hpre', ← List.cons_append,
            List.drop_append_of_le_length hpre.length_le]
      · next hpre =>
          obtain ⟨⟨line', rest'⟩, hcut, heq⟩ := Option.map_eq_some_iff.mp h
          obtain ⟨rfl, rfl⟩ : a :: line' = line ∧ rest' = rest := by simpa using heq
          have hlen : delim.length ≤ (a :: text).length := by
            rw [splitAtDelim_eq_append hcut]
            simp only [List.length_cons, List.length_append]
            omega
          have hpre' : ¬ delim <+: a :: (text ++ more) := by
            intro hp
            rw [← List.cons_append] at hp
            exact hpre (List.prefix_of_prefix_length_le hp
              (List.prefix_append _ _) hlen)
          rw [List.cons_append, splitAtDelim, if_neg hpre', ih hcut]
          rfl

/-- A line directly followed by the delimiter is found whole when no earlier
position of the two together starts a delimiter. -/
theorem splitAtDelim_line {delim line : List α} (rest : List α)
    (hne : delim ≠ [])
    (hline : ∀ before after, line ++ delim = before ++ delim ++ after → after = []) :
    splitAtDelim delim (line ++ delim ++ rest) = some (line, rest) := by
  induction line with
  | nil =>
      cases delim with
      | nil => exact absurd rfl hne
      | cons d delim =>
          have hpre : d :: delim <+: d :: (delim ++ rest) := by
            rw [← List.cons_append]
            exact List.prefix_append _ _
          simp only [List.nil_append, List.cons_append, splitAtDelim, hpre, if_true]
          simp
  | cons a line ih =>
      have hpre : ¬ delim <+: a :: (line ++ delim ++ rest) := by
        intro hp
        have hshort : delim <+: a :: (line ++ delim) := by
          refine List.prefix_of_prefix_length_le hp ?_ (by simp; omega)
          exact ⟨rest, by simp⟩
        obtain ⟨after, hafter⟩ := hshort
        have hnil := hline [] after (by simpa using hafter.symm)
        have := congrArg List.length hafter
        simp [hnil] at this
        omega
      have htail : ∀ before after,
          line ++ delim = before ++ delim ++ after → after = [] := by
        intro before after h
        exact hline (a :: before) after (by simp only [List.cons_append, h])
      simp only [List.cons_append, splitAtDelim, hpre, if_false]
      have hrec := ih htail
      rw [hrec]
      rfl

/-- For a delimiter of two different symbols it is enough that the line does not
contain it: the two together hold no occurrence that straddles the border. -/
theorem splitAtDelim_pair {a b : α} (hab : a ≠ b) {line : List α} (rest : List α)
    (hline : ¬ [a, b] <:+: line) :
    splitAtDelim [a, b] (line ++ [a, b] ++ rest) = some (line, rest) := by
  refine splitAtDelim_line rest (by simp) ?_
  intro before after h
  rcases List.eq_nil_or_concat after with rfl | ⟨after, y, rfl⟩
  · rfl
  exfalso
  rcases List.eq_nil_or_concat after with rfl | ⟨after, x, rfl⟩
  · have hlast : line ++ [a] = before ++ [a] ++ [b] := by
      have h' : line ++ [a] ++ [b] = before ++ [a] ++ [b] ++ [y] := by simpa using h
      exact (List.append_inj' h' rfl).1
    have hlast' := (List.append_inj' hlast rfl).2
    exact hab (by simpa using hlast')
  · have h' : line ++ [a, b] = before ++ [a, b] ++ after ++ [x, y] := by simpa using h
    exact hline ⟨before, after, ((List.append_inj' h' rfl).1).symm⟩

/-- For a delimiter of one symbol it is enough that the line does not hold it. -/
theorem splitAtDelim_single {a : α} {line : List α} (rest : List α) (h : a ∉ line) :
    splitAtDelim [a] (line ++ [a] ++ rest) = some (line, rest) := by
  induction line with
  | nil => simp [splitAtDelim]
  | cons b line ih =>
      obtain ⟨hne, hline⟩ : a ≠ b ∧ a ∉ line := by simpa using h
      have hpre : ¬ [a] <+: b :: (line ++ [a] ++ rest) := by simp [List.cons_prefix_cons, hne]
      rw [List.cons_append, List.cons_append, splitAtDelim, if_neg hpre, ih hline]
      rfl

theorem splitAtDelim_single_eq_none {a : α} {text : List α} (h : a ∉ text) :
    splitAtDelim [a] text = none := by
  induction text with
  | nil => simp [splitAtDelim]
  | cons b text ih =>
      obtain ⟨hne, htext⟩ : a ≠ b ∧ a ∉ text := by simpa using h
      have hpre : ¬ [a] <+: b :: text := by simp [List.cons_prefix_cons, hne]
      rw [splitAtDelim, if_neg hpre, ih htext]
      rfl

end Delimiter

end BuildYourOwnRedis.Foundation
