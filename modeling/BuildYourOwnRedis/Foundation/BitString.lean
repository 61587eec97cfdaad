/-
  Foundation/BitString.lean --- numbers as runs of bits, and a register of fixed width
  that bits are shifted through.

  `lowBits w n` are the lowest `w` bits of a number, the highest first.  A register that
  only ever grows to the left loses what it shifts out at its upper end, so only so many
  of its lowest bits mean anything:

    * shifting a digit of `w` bits in appends its bits to those (`lowBits_shiftIn`), and
    * the upper `w` of them can be read off by a shift to the right
      (`lowBits_shiftOut`), which leaves the others.

  Read as a signed number, the register does not overflow when the digit is added
  (`toInt_shiftLeft_add`).

  A code whose words all have one length tells its words apart also when fewer bits than
  a word follow (`words_eq_of_append`).  The last section is about the table of a code: a
  loop over its words fills it, each at its own place.
-/
import Mathlib

set_option autoImplicit false

namespace BuildYourOwnRedis.Foundation

/-! ## The lowest bits of a number -/

/-- The lowest `w` bits of a number, the highest of them first. -/
def lowBits : Nat → Nat → List Bool
  | 0, _ => []
  | w + 1, n => n.testBit w :: lowBits w n

@[simp] theorem length_lowBits (w n : Nat) : (lowBits w n).length = w := by
  induction w with
  | zero => rfl
  | succ w ih => rw [lowBits, List.length_cons, ih]

theorem lowBits_congr {w n m : Nat} (h : ∀ i < w, n.testBit i = m.testBit i) :
    lowBits w n = lowBits w m := by
  induction w with
  | zero => rfl
  | succ w ih =>
      rw [lowBits, lowBits, h w (Nat.lt_succ_self w), ih fun i hi => h i (Nat.lt_succ_of_lt hi)]

theorem testBit_of_lowBits_eq {w n m : Nat} (h : lowBits w n = lowBits w m) :
    ∀ i < w, n.testBit i = m.testBit i := by
  induction w with
  | zero =>
      intro i hi
      omega
  | succ w ih =>
      obtain ⟨hbit, hrest⟩ := List.cons.inj h
      intro i hi
      rcases Nat.lt_succ_iff_lt_or_eq.mp hi with hlt | rfl
      · exact ih hrest i hlt
      · exact hbit

/-- A number of at most `w` bits is told by them. -/
theorem lowBits_injective {w n m : Nat} (hn : n < 2 ^ w) (hm : m < 2 ^ w)
    (h : lowBits w n = lowBits w m) : n = m := by
  apply Nat.eq_of_testBit_eq
  intro i
  by_cases hi : i < w
  · exact testBit_of_lowBits_eq h i hi
  · have hpow : 2 ^ w ≤ 2 ^ i := Nat.pow_le_pow_right (by decide) (Nat.not_lt.mp hi)
    rw [Nat.testBit_lt_two_pow (Nat.lt_of_lt_of_le hn hpow),
      Nat.testBit_lt_two_pow (Nat.lt_of_lt_of_le hm hpow)]

/-- Bits above the `k`-th do not matter to the lowest `w ≤ k`. -/
theorem lowBits_mod {w k : Nat} (h : w ≤ k) (n : Nat) : lowBits w (n % 2 ^ k) = lowBits w n := by
  apply lowBits_congr
  intro i hi
  have hk : i < k := Nat.lt_of_lt_of_le hi h
  rw [Nat.testBit_mod_two_pow, decide_eq_true hk, Bool.true_and]

theorem lowBits_zero (w : Nat) : lowBits w 0 = List.replicate w false := by
  induction w with
  | zero => rfl
  | succ w ih => rw [lowBits, ih, Nat.zero_testBit, List.replicate_succ]

/-- The lowest bits are those of the shifted number, then those shifted out. -/
theorem lowBits_add (v w n : Nat) :
    lowBits (v + w) n = lowBits v (n >>> w) ++ lowBits w n := by
  induction v with
  | zero => rw [Nat.zero_add, lowBits, List.nil_append]
  | succ v ih =>
      rw [Nat.succ_add, lowBits, lowBits, ih, Nat.testBit_shiftRight, Nat.add_comm w v,
        List.cons_append]

/-- A digit of `w` bits stands behind what was shifted to the left for it. -/
theorem lowBits_shiftLeft_add {k w c : Nat} (n : Nat) (hc : c < 2 ^ w) :
    lowBits (k + w) (n * 2 ^ w + c) = lowBits k n ++ lowBits w c := by
  have hdiv : (n * 2 ^ w + c) / 2 ^ w = n := by
    rw [Nat.mul_comm, Nat.mul_add_div (Nat.two_pow_pos w), Nat.div_eq_of_lt hc, Nat.add_zero]
  have hmod : (n * 2 ^ w + c) % 2 ^ w = c := by
    rw [Nat.mul_comm, Nat.mul_add_mod, Nat.mod_eq_of_lt hc]
  rw [lowBits_add, Nat.shiftRight_eq_div_pow, hdiv, ← lowBits_mod (Nat.le_refl w), hmod]

/-! ## A register -/

section Register

variable {W : Nat}

/-- A digit shifted into the register stands behind the bits that were there, as long as
they all have room. -/
theorem lowBits_shiftIn {k w c : Nat} (val : BitVec W) (hroom : k + w ≤ W) (hc : c < 2 ^ w) :
    lowBits (k + w) (val <<< w + BitVec.ofNat W c).toNat = lowBits k val.toNat ++ lowBits w c := by
  have hval : (val <<< w + BitVec.ofNat W c).toNat = (val.toNat * 2 ^ w + c) % 2 ^ W := by
    rw [BitVec.toNat_add, BitVec.toNat_shiftLeft, BitVec.toNat_ofNat, Nat.shiftLeft_eq,
      ← Nat.add_mod]
  rw [hval, lowBits_mod hroom, lowBits_shiftLeft_add _ hc]

/-- As long as no sign bit gets among them, the arithmetic shift moves the bits as the
logical one does. -/
theorem lowBits_sshiftRight {k w : Nat} (val : BitVec W) (hroom : w + k ≤ W) :
    lowBits w (val.sshiftRight k).toNat = lowBits w (val.toNat >>> k) := by
  apply lowBits_congr
  intro i hi
  have hW : ¬ W ≤ i := by omega
  have hk : k + i < W := by omega
  rw [BitVec.testBit_toNat, BitVec.getLsbD_sshiftRight, Nat.testBit_shiftRight,
    BitVec.testBit_toNat]
  simp only [hW, hk, decide_false, Bool.not_false, Bool.true_and, if_true]

/-- Of the lowest `w + k` bits, the arithmetic shift to the right by `k` moves the upper
`w` to the lower end. -/
theorem lowBits_shiftOut {k w : Nat} (val : BitVec W) (hroom : w + k ≤ W) :
    lowBits (w + k) val.toNat = lowBits w (val.sshiftRight k).toNat ++ lowBits k val.toNat := by
  rw [lowBits_add, lowBits_sshiftRight val hroom]

/-- The bits that were there are filled up to `w` bits with zeros: more zeros than needed
are shifted in, and the rest of them out again. -/
theorem lowBits_fill {k w m : Nat} (val : BitVec W) (hk : k ≤ w) (hw : w ≤ k + m)
    (hroom : k + m ≤ W) :
    lowBits w ((val <<< m).sshiftRight (k + m - w)).toNat =
      lowBits k val.toNat ++ List.replicate (w - k) false := by
  have hin : lowBits (k + m) (val <<< m).toNat =
      lowBits k val.toNat ++ List.replicate m false := by
    have hzero := lowBits_shiftIn val hroom (Nat.two_pow_pos m)
    rwa [BitVec.add_zero, lowBits_zero] at hzero
  have hout := lowBits_shiftOut (val <<< m) (k := k + m - w) (w := w) (by omega)
  have hsplit : m = (w - k) + (k + m - w) := by omega
  rw [Nat.add_sub_cancel' hw, hin] at hout
  nth_rewrite 1 [hsplit] at hout
  rw [List.replicate_add, ← List.append_assoc] at hout
  refine (List.append_inj_left hout ?_).symm
  rw [List.length_append, length_lowBits, length_lowBits, List.length_replicate]
  omega

/-- Masking the lowest `w` bits keeps them. -/
theorem lowBits_mask (w : Nat) (val : BitVec W) (hroom : w ≤ W) :
    lowBits w (val &&& BitVec.ofNat W (2 ^ w - 1)).toNat = lowBits w val.toNat := by
  have hlt : 2 ^ w - 1 < 2 ^ W :=
    Nat.lt_of_lt_of_le (Nat.sub_lt (Nat.two_pow_pos w) Nat.one_pos)
      (Nat.pow_le_pow_right (by decide) hroom)
  rw [BitVec.toNat_and, BitVec.toNat_ofNat, Nat.mod_eq_of_lt hlt, Nat.and_two_pow_sub_one_eq_mod,
    lowBits_mod (Nat.le_refl w)]

/-- Behind a shift to the left there is room for a digit: the sum does not overflow. -/
theorem toInt_shiftLeft_add {w c : Nat} (val : BitVec W) (hw : w < W) (hc : c < 2 ^ w) :
    (val <<< w + BitVec.ofNat W c).toInt = (val <<< w).toInt + c := by
  obtain ⟨m, rfl⟩ : ∃ m, W = w + (m + 1) := ⟨W - w - 1, by omega⟩
  have hleft : (val <<< w).toNat = 2 ^ w * (val.toNat % 2 ^ (m + 1)) := by
    rw [BitVec.toNat_shiftLeft, Nat.shiftLeft_eq, Nat.mul_comm, Nat.pow_add, Nat.mul_mod_mul_left]
  have hq := Nat.mod_lt val.toNat (Nat.two_pow_pos (m + 1))
  generalize val.toNat % 2 ^ (m + 1) = q at hleft hq
  -- the digit fits between two multiples of `2 ^ w`, and the sign changes at one of them
  have hfit {n : Nat} (h : q < n) : 2 ^ w * q + c < 2 ^ w * n :=
    calc 2 ^ w * q + c < 2 ^ w * (q + 1) := by rw [Nat.mul_succ]; omega
      _ ≤ 2 ^ w * n := Nat.mul_le_mul_left _ h
  have hsign : 2 ^ m ≤ q → 2 ^ w * 2 ^ m ≤ 2 ^ w * q := Nat.mul_le_mul_left _
  have hsum : (val <<< w + BitVec.ofNat (w + (m + 1)) c).toNat = 2 ^ w * q + c := by
    have hlt : 2 ^ w * q + c < 2 ^ (w + (m + 1)) := by
      rw [Nat.pow_add]
      exact hfit hq
    rw [BitVec.toNat_add, BitVec.toNat_ofNat, hleft, Nat.add_mod_mod, Nat.mod_eq_of_lt hlt]
  have hpow : 2 ^ (w + (m + 1)) = 2 * (2 ^ w * 2 ^ m) := by
    rw [Nat.pow_add, Nat.pow_succ, ← Nat.mul_assoc, Nat.mul_comm]
  rw [BitVec.toInt_eq_toNat_cond, BitVec.toInt_eq_toNat_cond, hsum, hleft, hpow]
  rcases Nat.lt_or_ge q (2 ^ m) with hlow | hhigh
  · have hsmall := hfit hlow
    rw [if_pos (by omega), if_pos (by omega)]
    omega
  · have hlarge := hsign hhigh
    rw [if_neg (by omega), if_neg (by omega)]
    omega

end Register

/-! ## Words of one length -/

/-- Words of one length, with less than a word behind them, are told by their bits. -/
theorem words_eq_of_append {α β : Type} {word : α → List β} {w : Nat}
    (hlength : ∀ a, (word a).length = w) (hinj : Function.Injective word)
    {xs ys : List α} {rest rest' : List β} (hrest : rest.length < w) (hrest' : rest'.length < w)
    (h : xs.flatMap word ++ rest = ys.flatMap word ++ rest') : xs = ys := by
  have hshort {rest : List β} (hrest : rest.length < w) (a : α) (tail : List β) :
      rest ≠ word a ++ tail := by
    rintro rfl
    rw [List.length_append, hlength] at hrest
    omega
  induction xs generalizing ys with
  | nil =>
      cases ys with
      | nil => rfl
      | cons y ys =>
          rw [List.flatMap_cons, List.append_assoc] at h
          exact absurd h (hshort hrest y _)
  | cons x xs ih =>
      cases ys with
      | nil =>
          rw [List.flatMap_cons, List.append_assoc] at h
          exact absurd h.symm (hshort hrest' x _)
      | cons y ys =>
          rw [List.flatMap_cons, List.flatMap_cons, List.append_assoc, List.append_assoc] at h
          obtain ⟨hword, htail⟩ := List.append_inj h (by rw [hlength, hlength])
          rw [hinj hword, ih htail]

/-! ## A table filled in a loop -/

section Table

variable {ι α β : Type} [DecidableEq α] {key : ι → α} (value : ι → β)

/-- A place that no turn of the loop writes keeps its first value. -/
theorem foldl_update_of_not_mem (table : α → β) (l : List ι) {a : α} (h : ∀ i ∈ l, key i ≠ a) :
    l.foldl (fun T i => Function.update T (key i) (value i)) table a = table a := by
  induction l generalizing table with
  | nil => rfl
  | cons i l ih =>
      rw [List.foldl_cons, ih _ fun j hj => h j (List.mem_cons_of_mem i hj)]
      exact Function.update_of_ne (h i List.mem_cons_self).symm _ _

/-- When no two turns write the same place, each value stays where it was written. -/
theorem foldl_update_of_mem (hkey : Function.Injective key) (table : α → β) {l : List ι}
    (hl : l.Nodup) {i : ι} (hi : i ∈ l) :
    l.foldl (fun T i => Function.update T (key i) (value i)) table (key i) = value i := by
  induction l generalizing table with
  | nil => cases hi
  | cons j l ih =>
      obtain ⟨hj, hl⟩ := List.nodup_cons.mp hl
      rw [List.foldl_cons]
      rcases List.mem_cons.mp hi with rfl | hmem
      · rw [foldl_update_of_not_mem value _ l, Function.update_self]
        intro k hk heq
        exact hj (hkey heq ▸ hk)
      · exact ih _ hl hmem

end Table

end BuildYourOwnRedis.Foundation
