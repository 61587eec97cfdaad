/-
  Server/Base64.lean --- `base64_encode` and `base64_decode` of `base64.h`.

  Both loops shift their input through `val`, an `int` that is never cleared: what is
  shifted out at the upper end is lost, and the bits above the last `valb + 6` (when
  encoding) or `valb + 8` (when decoding) are left over from before.  Only those last bits
  are ever read.  So neither loop loses or adds a bit: what was put out, followed by them,
  is what was put in (`Encoder.Carries`, `Decoder.Carries`).
-/
import BuildYourOwnRedis.Foundation.BitString
import BuildYourOwnRedis.Utils

set_option autoImplicit false

namespace BuildYourOwnRedis

open Foundation

namespace Base64

/-! ## The alphabet -/

/-- The alphabet of `base64_encode` and `base64_decode`. -/
def base64Alphabet : Bytes :=
  ascii "ABCDEFGHIJKLMNOPQRSTUVWXYZabcdefghijklmnopqrstuvwxyz0123456789+/"

/-- The codes of the letters: `A` to `Z`, `a` to `z`, `0` to `9`, `+` and `/`. -/
def letterCodes : List Nat :=
  List.range' 65 26 ++ List.range' 97 26 ++ List.range' 48 10 ++ [43, 47]

theorem base64Alphabet_eq : base64Alphabet = letterCodes.map UInt8.ofNat := rfl

theorem length_alphabet : base64Alphabet.length = 64 := by
  rw [base64Alphabet_eq]
  rfl

/-- The letter of a digit. -/
def letter (digit : Fin 64) : Byte := base64Alphabet.get (digit.cast length_alphabet.symm)

/-- `'='`. -/
def padByte : Byte := 61

/-- The table `T` of `base64_decode`, with -1 for what is no letter. -/
@[irreducible] def table : Byte → Int :=
  (List.finRange 64).foldl (fun T i => Function.update T (letter i) i) fun _ => -1

theorem mask_lt (x : BitVec 32) : (x &&& 0x3F).toNat < 64 :=
  Nat.lt_of_le_of_lt Nat.and_le_right (by decide)

/-- `x & 0x3F`, which is the position of a letter. -/
def digit (x : BitVec 32) : Fin 64 := ⟨(x &&& 0x3F).toNat, mask_lt x⟩

/-! ## `base64_encode` -/

/-- The variables of `base64_encode`.  `val` is a shift register whose upper bits are never
cleared; `valb` is six less than the number of bits that are left over in it. -/
structure Encoder where
  out : Bytes := []
  val : BitVec 32 := 0
  valb : Int := -6
  deriving DecidableEq, Repr

namespace Encoder

/-- `while (valb >= 0)`. -/
def flush (s : Encoder) : Encoder :=
  if 0 ≤ s.valb then
    flush { s with
      out := s.out ++ [letter (digit (s.val.sshiftRight s.valb.toNat))]
      valb := s.valb - 6 }
  else s
termination_by (s.valb + 6).toNat

/-- The loop over the input, for one byte. -/
def push (s : Encoder) (c : Byte) : Encoder :=
  flush { s with val := s.val <<< 8 + BitVec.ofNat 32 c.toNat, valb := s.valb + 8 }

/-- `if (valb > -6)`: the letter of the bits that are left over. -/
def finish (s : Encoder) : Encoder :=
  if -6 < s.valb then
    { s with out := s.out ++ [letter (digit ((s.val <<< 8).sshiftRight (s.valb + 8).toNat))] }
  else s

end Encoder

/-- `while (out.size() % 4)`. -/
def pad (out : Bytes) : Bytes :=
  if out.length % 4 ≠ 0 then pad (out ++ [padByte]) else out
termination_by (4 - out.length % 4) % 4
decreasing_by
  rw [List.length_append, List.length_singleton]
  omega

/-- `base64_encode`: a turn of the loop for each byte, the digit of the bits that are left
over, and equality signs up to a multiple of four. -/
def encode (text : Bytes) : Bytes := pad (text.foldl Encoder.push {}).finish.out

/-! ## `base64_decode` -/

/-- The variables of `base64_decode`.  `valb` is eight less than the number of bits that are
left over in `val`. -/
structure Decoder where
  out : Bytes := []
  val : BitVec 32 := 0
  valb : Int := -8
  deriving DecidableEq, Repr

namespace Decoder

/-- The loop over the input, for one byte; `none` is the `break`. -/
def take (s : Decoder) (c : Byte) : Option Decoder :=
  if table c = -1 then none
  else
    let val := s.val <<< 6 + BitVec.ofInt 32 (table c)
    let valb := s.valb + 6
    if 0 ≤ valb then
      some {
        out := s.out ++ [UInt8.ofNat (val.sshiftRight valb.toNat &&& 0xFF).toNat]
        val := val
        valb := valb - 8 }
    else some { s with val := val, valb := valb }

/-- The loop over the input. -/
def takeAll (s : Decoder) : Bytes → Decoder
  | [] => s
  | c :: rest =>
      match s.take c with
      | none => s
      | some s' => s'.takeAll rest

end Decoder

/-- `base64_decode`.  It ends at the first byte that is no digit, so the equality signs of the
padding and whatever is behind them are not looked at. -/
def decode (text : Bytes) : Bytes := (Decoder.takeAll {} text).out

/-! ## The letters -/

theorem letterCodes_lt : ∀ n ∈ letterCodes, n < 256 := by decide

theorem nodup_alphabet : base64Alphabet.Nodup := by
  rw [base64Alphabet_eq]
  refine List.Nodup.map_on ?_ (by decide)
  intro n hn m hm h
  have hcode := congrArg UInt8.toNat h
  rwa [UInt8.toNat_ofNat_of_lt' (letterCodes_lt n hn),
    UInt8.toNat_ofNat_of_lt' (letterCodes_lt m hm)] at hcode

theorem letter_injective : Function.Injective letter :=
  (List.nodup_iff_injective_get.mp nodup_alphabet).comp (Fin.cast_injective length_alphabet.symm)

theorem letter_mem (d : Fin 64) : letter d ∈ base64Alphabet := List.get_mem _ _

theorem exists_letter {c : Byte} (h : c ∈ base64Alphabet) : ∃ d, letter d = c := by
  obtain ⟨n, rfl⟩ := List.get_of_mem h
  refine ⟨n.cast length_alphabet, ?_⟩
  rw [letter, Fin.cast_cast, Fin.cast_eq_self]

theorem padByte_not_mem : padByte ∉ base64Alphabet := by
  rw [base64Alphabet_eq]
  decide

/-- The table holds the position of a letter. -/
theorem table_letter (d : Fin 64) : table (letter d) = d := by
  unfold table
  exact foldl_update_of_mem _ letter_injective _ (List.nodup_finRange 64) (List.mem_finRange d)

theorem table_of_not_mem {c : Byte} (h : c ∉ base64Alphabet) : table c = -1 := by
  unfold table
  refine foldl_update_of_not_mem _ _ _ ?_
  rintro d - rfl
  exact h (letter_mem d)

/-- The bits that a digit stands for. -/
def sextet (d : Fin 64) : List Bool := lowBits 6 d

/-- The bits of a byte. -/
def octet (c : Byte) : List Bool := lowBits 8 c.toNat

theorem length_octet (c : Byte) : (octet c).length = 8 := length_lowBits 8 c.toNat

theorem octet_injective : Function.Injective octet :=
  fun c c' h => UInt8.toNat_inj.mp (lowBits_injective c.toNat_lt c'.toNat_lt h)

theorem octet_ofNat (n : Nat) : octet (UInt8.ofNat n) = lowBits 8 n := by
  rw [octet, UInt8.toNat_ofNat', lowBits_mod (by decide)]

/-- The mask of a byte keeps its bits. -/
theorem octet_mask (x : BitVec 32) :
    octet (UInt8.ofNat (x &&& 0xFF).toNat) = lowBits 8 x.toNat := by
  rw [octet_ofNat]
  exact lowBits_mask 8 x (by decide)

theorem sextet_digit (x : BitVec 32) : sextet (digit x) = lowBits 6 x.toNat :=
  lowBits_mask 6 x (by decide)

/-! ## Arithmetic of the `int` -/

/-- The addition of `base64_encode` does not overflow. -/
theorem toInt_push (val : BitVec 32) (c : Byte) :
    (val <<< 8 + BitVec.ofNat 32 c.toNat).toInt = (val <<< 8).toInt + c.toNat :=
  toInt_shiftLeft_add val (by decide) c.toNat_lt

/-- The addition of `base64_decode` does not overflow. -/
theorem toInt_take (val : BitVec 32) {c : Byte} (h : table c ≠ -1) :
    (val <<< 6 + BitVec.ofInt 32 (table c)).toInt = (val <<< 6).toInt + table c := by
  have hmem : c ∈ base64Alphabet := by
    by_contra hmem
    exact h (table_of_not_mem hmem)
  obtain ⟨d, rfl⟩ := exists_letter hmem
  rw [table_letter]
  exact toInt_shiftLeft_add val (by decide) d.isLt

/-! ## What the encoder carries -/

namespace Encoder

/-- What was put out stands for these bits, together with those that are left over.  Only the
low bits of `val` are spoken of, since its upper ones are those of bytes put out long ago. -/
def Carries (s : Encoder) (bits : List Bool) : Prop :=
  ∃ digits : List (Fin 64), s.out = digits.map letter ∧
    digits.flatMap sextet ++ lowBits (s.valb + 6).toNat s.val.toNat = bits

/-- Between two turns less than a digit is left over.  `bits` are those of all bytes that were
pushed, and no bit of them is lost. -/
structure Inv (s : Encoder) (bits : List Bool) : Prop where
  low : -6 ≤ s.valb
  high : s.valb < 0
  carries : s.Carries bits

theorem flush_spec {s : Encoder} {bits : List Bool} (hlow : -6 ≤ s.valb) (hroom : s.valb ≤ 26)
    (h : s.Carries bits) : s.flush.Inv bits := by
  fun_induction flush s with
  | case1 s hvalb ih =>
      -- the digit that is put out is the upper part of what was left over
      obtain ⟨digits, hout, hbits⟩ := h
      have hcut : lowBits (s.valb + 6).toNat s.val.toNat =
          lowBits 6 (s.val.sshiftRight s.valb.toNat).toNat ++ lowBits s.valb.toNat s.val.toNat := by
        have hk : (s.valb + 6).toNat = 6 + s.valb.toNat := by omega
        rw [hk, lowBits_shiftOut s.val (by omega)]
      apply ih
      · simp only
        omega
      · simp only
        omega
      · refine ⟨digits ++ [digit (s.val.sshiftRight s.valb.toNat)], ?_, ?_⟩
        · simp only [hout, List.map_append, List.map_cons, List.map_nil]
        · have hrest : s.valb - 6 + 6 = s.valb := by omega
          rw [← hbits, hcut, List.flatMap_append, List.flatMap_singleton, sextet_digit, hrest,
            List.append_assoc]
  | case2 s hvalb => exact ⟨hlow, Int.not_le.mp hvalb, h⟩

/-- A turn of the loop takes in the bits of a byte, and puts out digits while six bits or more
are left over. -/
theorem push_spec {s : Encoder} {bits : List Bool} (h : s.Inv bits) (c : Byte) :
    (s.push c).Inv (bits ++ octet c) := by
  obtain ⟨hlow, hhigh, digits, hout, hbits⟩ := h
  refine flush_spec ?_ ?_ ⟨digits, hout, ?_⟩
  · simp only
    omega
  · simp only
    omega
  · have hk : (s.valb + 8 + 6).toNat = (s.valb + 6).toNat + 8 := by omega
    rw [hk, lowBits_shiftIn s.val (by omega) c.toNat_lt, ← hbits, List.append_assoc]
    rfl

theorem foldl_push_spec {s : Encoder} {bits : List Bool} (h : s.Inv bits) (text : Bytes) :
    (text.foldl push s).Inv (bits ++ text.flatMap octet) := by
  induction text generalizing s bits with
  | nil => simpa using h
  | cons c text ih =>
      have hrest := ih (push_spec h c)
      rwa [List.append_assoc] at hrest

/-- The last letter holds what is left over, and zeros. -/
theorem finish_spec {s : Encoder} {bits : List Bool} (h : s.Inv bits) :
    ∃ (digits : List (Fin 64)) (zeros : Nat), s.finish.out = digits.map letter ∧
      digits.flatMap sextet = bits ++ List.replicate zeros false ∧ zeros < 8 := by
  obtain ⟨hlow, hhigh, digits, hout, hbits⟩ := h
  unfold finish
  split
  · next hleft =>
      have hk : (s.valb + 8).toNat = (s.valb + 6).toNat + 8 - 6 := by omega
      have hfill : lowBits 6 ((s.val <<< 8).sshiftRight (s.valb + 8).toNat).toNat =
          lowBits (s.valb + 6).toNat s.val.toNat ++
            List.replicate (6 - (s.valb + 6).toNat) false := by
        rw [hk]
        exact lowBits_fill s.val (by omega) (by omega) (by omega)
      refine ⟨digits ++ [digit ((s.val <<< 8).sshiftRight (s.valb + 8).toNat)],
        6 - (s.valb + 6).toNat, ?_, ?_, by omega⟩
      · simp only [hout, List.map_append, List.map_cons, List.map_nil]
      · rw [List.flatMap_append, List.flatMap_singleton, sextet_digit, hfill, ← hbits,
          List.append_assoc]
  · next hnone =>
      have hk : (s.valb + 6).toNat = 0 := by omega
      rw [hk, lowBits, List.append_nil] at hbits
      exact ⟨digits, 0, hout, by simpa using hbits, by decide⟩

end Encoder

theorem pad_spec (out : Bytes) : ∃ n, pad out = out ++ List.replicate n padByte := by
  fun_induction pad out with
  | case1 out hlen ih =>
      obtain ⟨n, hn⟩ := ih
      refine ⟨n + 1, ?_⟩
      rw [hn, List.append_assoc, List.replicate_succ, List.singleton_append]
  | case2 out hlen => exact ⟨0, (List.append_nil out).symm⟩

/-- The letters stand for the bits of the text and less than a byte of zeros, and behind them
there is only the padding. -/
theorem encode_spec (text : Bytes) :
    ∃ (digits : List (Fin 64)) (zeros pads : Nat),
      encode text = digits.map letter ++ List.replicate pads padByte ∧
      digits.flatMap sextet = text.flatMap octet ++ List.replicate zeros false ∧ zeros < 8 := by
  have hstart : Encoder.Inv {} [] := ⟨by decide, by decide, [], rfl, rfl⟩
  obtain ⟨digits, zeros, hout, hbits, hzeros⟩ :=
    Encoder.finish_spec (Encoder.foldl_push_spec hstart text)
  obtain ⟨pads, hpad⟩ := pad_spec (text.foldl Encoder.push {}).finish.out
  refine ⟨digits, zeros, pads, ?_, hbits, hzeros⟩
  rw [encode, hpad, hout]

example : encode (ascii "Ma") = ascii "TWE=" := by decide +kernel

/-! ## What the decoder carries -/

namespace Decoder

/-- What was put out is these bits, together with those that are left over.  `bits` are those
of all digits that were taken. -/
def Carries (s : Decoder) (bits : List Bool) : Prop :=
  s.out.flatMap octet ++ lowBits (s.valb + 8).toNat s.val.toNat = bits

/-- Between two turns less than a byte is left over, so the loop puts a byte out as soon as
there is one. -/
structure Inv (s : Decoder) (bits : List Bool) : Prop where
  low : -8 ≤ s.valb
  high : s.valb < 0
  carries : s.Carries bits

/-- What is no letter ends the loop. -/
theorem take_of_not_mem {c : Byte} (h : c ∉ base64Alphabet) (s : Decoder) : s.take c = none := by
  rw [take, table_of_not_mem h, if_pos rfl]

/-- A turn of the loop takes in the bits of a letter. -/
theorem take_letter {s : Decoder} {bits : List Bool} (h : s.Inv bits) (d : Fin 64) :
    ∃ s', s.take (letter d) = some s' ∧ s'.Inv (bits ++ sextet d) := by
  obtain ⟨hlow, hhigh, hbits⟩ := h
  have hletter : ¬ ((d : Nat) : Int) = -1 := by omega
  have hin : lowBits ((s.valb + 8).toNat + 6) (s.val <<< 6 + BitVec.ofInt 32 (d : Nat)).toNat =
      lowBits (s.valb + 8).toNat s.val.toNat ++ sextet d :=
    lowBits_shiftIn s.val (by omega) d.isLt
  unfold take
  rw [table_letter, if_neg hletter]
  simp only
  generalize s.val <<< 6 + BitVec.ofInt 32 (d : Nat) = val at hin
  split
  · next hvalb =>
      refine ⟨_, rfl, ?_, ?_, ?_⟩
      · simp only
        omega
      · simp only
        omega
      · have hk : (s.valb + 8).toNat + 6 = 8 + (s.valb + 6).toNat := by omega
        have hrest : s.valb + 6 - 8 + 8 = s.valb + 6 := by omega
        rw [hk, lowBits_shiftOut val (by omega)] at hin
        rw [Carries] at hbits ⊢
        rw [List.flatMap_append, List.flatMap_singleton, octet_mask, hrest, List.append_assoc, hin,
          ← hbits, List.append_assoc]
  · next hvalb =>
      refine ⟨_, rfl, ?_, ?_, ?_⟩
      · simp only
        omega
      · simp only
        omega
      · have hk : (s.valb + 6 + 8).toNat = (s.valb + 8).toNat + 6 := by omega
        rw [Carries] at hbits ⊢
        rw [hk, hin, ← hbits, List.append_assoc]

theorem takeAll_letters {s : Decoder} {bits : List Bool} (h : s.Inv bits)
    (digits : List (Fin 64)) (pads : Nat) :
    (s.takeAll (digits.map letter ++ List.replicate pads padByte)).Inv
      (bits ++ digits.flatMap sextet) := by
  induction digits generalizing s bits with
  | nil =>
      -- the first padding byte ends the loop
      have hstop : s.takeAll (List.replicate pads padByte) = s := by
        cases pads with
        | zero => rfl
        | succ pads => rw [List.replicate_succ, takeAll, take_of_not_mem padByte_not_mem]
      simpa [hstop] using h
  | cons d digits ih =>
      obtain ⟨s', htake, hs'⟩ := take_letter h d
      have hrest := ih hs'
      rw [List.append_assoc] at hrest
      rw [List.map_cons, List.cons_append, takeAll, htake]
      exact hrest

end Decoder

/-- What is decoded is the bits of the letters, but for less than a byte at the end.  The
padding is not read. -/
theorem decode_spec (digits : List (Fin 64)) (pads : Nat) :
    ∃ rest : List Bool, rest.length < 8 ∧
      (decode (digits.map letter ++ List.replicate pads padByte)).flatMap octet ++ rest =
        digits.flatMap sextet := by
  have hstart : Decoder.Inv {} [] := ⟨by decide, by decide, rfl⟩
  obtain ⟨hlow, hhigh, hbits⟩ := Decoder.takeAll_letters hstart digits pads
  refine ⟨_, ?_, hbits⟩
  rw [length_lowBits]
  omega

/-- **`base64_decode` undoes `base64_encode`**, for every text and with a `val` of 32 bits.
Both sides are compared as strings of bits: the digits stand for the bits of the text and fewer
than eight zeros, and a decoder gives the bytes that these bits make up. -/
theorem decode_encode (text : Bytes) : decode (encode text) = text := by
  obtain ⟨digits, zeros, pads, hencode, hbits, hzeros⟩ := encode_spec text
  obtain ⟨rest, hrest, hdecode⟩ := decode_spec digits pads
  have hpad : (List.replicate zeros false).length < 8 := by rwa [List.length_replicate]
  rw [hencode]
  refine words_eq_of_append length_octet octet_injective hrest hpad ?_
  rw [hdecode, hbits]

end Base64

end BuildYourOwnRedis
