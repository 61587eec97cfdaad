/-
  Resp/Grammar.lean --- what the parser accepts, against the grammar of the wire form.

  `Wire` is the grammar, and mentions no parser: the texts that stand for messages, one
  after the other.  `Plain` is a walk over the lines of an input, from each header to the
  next, which looks at the characters alone.

  The parser is laxer than the grammar.  `parseInt` ignores what stands behind a number and
  takes a second sign, every negative count is an empty array, and the two bytes behind a
  payload are never looked at.  `returned_denotes_iff` says that there is nothing else:
  what a fresh parser has read for a message is a text of that message exactly if the
  input is plain.
-/
import BuildYourOwnRedis.Numerals
import BuildYourOwnRedis.Resp.Completion
import BuildYourOwnRedis.Resp.Framing

set_option autoImplicit false

namespace BuildYourOwnRedis

open Foundation

/-! ## The grammar -/

/-- The numbers of `:` lines: a sign may stand in front. -/
inductive IntText : Int → Bytes → Prop where
  | unsigned {digits : Bytes} (h : isNumber digits) : IntText (decimalValue digits) digits
  | plus {digits : Bytes} (h : isNumber digits) :
      IntText (decimalValue digits) (plusByte :: digits)
  | minus {digits : Bytes} (h : isNumber digits) :
      IntText (-(decimalValue digits : Int)) (minusByte :: digits)

/-- The length of what is absent. -/
def absentLength : Bytes := ascii "-1"

/-- The texts of these messages, one after the other.  There is no message for an absent
string or array: they stand for the empty ones. -/
inductive Wire : List Message → Bytes → Prop where
  | nil : Wire [] []
  | simpleString {text rest : Bytes} {ms : List Message} (h : ¬ crlf <:+: text)
      (tail : Wire ms rest) :
      Wire (.simpleString text :: ms) (messageSimpleString :: text ++ crlf ++ rest)
  | simpleError {text rest : Bytes} {ms : List Message} (h : ¬ crlf <:+: text)
      (tail : Wire ms rest) :
      Wire (.simpleError text :: ms) (messageSimpleError :: text ++ crlf ++ rest)
  | integer {i : Int} {text rest : Bytes} {ms : List Message} (h : IntText i text)
      (hlow : -2 ^ 31 ≤ i) (hhigh : i < 2 ^ 31) (tail : Wire ms rest) :
      Wire (.integer i :: ms) (messageInteger :: text ++ crlf ++ rest)
  | bulkString {digits payload rest : Bytes} {ms : List Message} (h : isNumber digits)
      (hlen : decimalValue digits = payload.length) (tail : Wire ms rest) :
      Wire (.bulkString payload :: ms)
        (messageBulkString :: digits ++ crlf ++ (payload ++ crlf ++ rest))
  | absentString {rest : Bytes} {ms : List Message} (tail : Wire ms rest) :
      Wire (.bulkString [] :: ms) (messageBulkString :: absentLength ++ crlf ++ rest)
  | array {digits body rest : Bytes} {elements ms : List Message} (h : isNumber digits)
      (hcount : decimalValue digits = elements.length) (inner : Wire elements body)
      (tail : Wire ms rest) :
      Wire (.array elements :: ms) (messageArray :: digits ++ crlf ++ (body ++ rest))
  | absentArray {rest : Bytes} {ms : List Message} (tail : Wire ms rest) :
      Wire (.array [] :: ms) (messageArray :: absentLength ++ crlf ++ rest)

theorem Wire.append {ms ms' : List Message} {text text' : Bytes} (h : Wire ms text)
    (h' : Wire ms' text') : Wire (ms ++ ms') (text ++ text') := by
  induction h with
  | nil => exact h'
  | simpleString h tail ih => simpa using ih.simpleString h
  | simpleError h tail ih => simpa using ih.simpleError h
  | integer h hlow hhigh tail ih => simpa using ih.integer h hlow hhigh
  | bulkString h hlen tail ih => simpa using ih.bulkString h hlen
  | absentString tail ih => simpa using ih.absentString
  | array h hcount inner tail _ ih => simpa using Wire.array h hcount inner ih
  | absentArray tail ih => simpa using ih.absentArray

/-! ## Plain inputs -/

/-- A number with one sign at most. -/
def isSigned (text : Bytes) : Bool :=
  isNumber text ||
    (text.head? = some plusByte || text.head? = some minusByte) && isNumber text.tail

/-- The line of a value, with what follows it: how many more values it announces, and what
stands behind the value; nothing when a number is not plain, or a payload does not end in
CR LF. -/
def plainLine (line rest : Bytes) : Option (Nat × Bytes) :=
  let type := line.headD 0
  let text := line.tail
  if type = messageInteger then
    if isSigned text then some (0, rest) else none
  else if type = messageBulkString then
    if text = absentLength then some (0, rest)
    else if isNumber text then
      if (rest.drop (decimalValue text)).take 2 = crlf then
        some (0, rest.drop (decimalValue text + 2))
      else none
    else none
  else if type = messageArray then
    if text = absentLength then some (0, rest)
    else if isNumber text then some (decimalValue text, rest)
    else none
  else some (0, rest)

/-- Walk over so many values; the fuel is spent on lines. -/
def plainValues : Nat → Nat → Bytes → Bool
  | _, 0, _ => true
  | 0, _ + 1, _ => false
  | fuel + 1, n + 1, input =>
      match splitAtDelim crlf input with
      | none => false
      | some (line, rest) =>
          match plainLine line rest with
          | none => false
          | some (more, rest) => plainValues fuel (more + n) rest

/-- The first value of the input is plain, and so are the values in it.  This is decided by a
walk over the lines, which asks no parser. -/
def Plain (input : Bytes) : Prop := plainValues input.length 1 input = true

instance (input : Bytes) : Decidable (Plain input) := inferInstanceAs (Decidable (_ = _))

/-! ## A text of the grammar is plain -/

theorem not_crlf_of_isNumber {text : Bytes} (h : isNumber text = true) :
    ¬ crlf <:+: text := by
  apply not_crlf_of_not_mem
  intro hmem
  exact absurd ((isNumber_iff.mp h).2 13 hmem) (by decide)

theorem IntText.isSigned {i : Int} {text : Bytes} (h : IntText i text) :
    isSigned text = true := by
  cases h with
  | unsigned h => simp [BuildYourOwnRedis.isSigned, h]
  | plus h => simp [BuildYourOwnRedis.isSigned, h]
  | minus h => simp [BuildYourOwnRedis.isSigned, h]

theorem IntText.not_crlf {i : Int} {text : Bytes} (h : IntText i text) :
    ¬ crlf <:+: text := by
  cases h with
  | unsigned h => exact not_crlf_of_isNumber h
  | plus h => exact not_crlf_cons (by decide) (not_crlf_of_isNumber h)
  | minus h => exact not_crlf_cons (by decide) (not_crlf_of_isNumber h)

theorem ne_absentLength_of_isNumber {text : Bytes} (h : isNumber text = true) :
    text ≠ absentLength := by
  rintro rfl
  exact absurd h (by decide)

/-- More fuel does no harm. -/
theorem plainValues_mono {fuel fuel' n : Nat} {input : Bytes} (hfuel : fuel ≤ fuel')
    (h : plainValues fuel n input = true) : plainValues fuel' n input = true := by
  induction fuel generalizing fuel' n input with
  | zero =>
      cases n with
      | zero => simp [plainValues]
      | succ n => simp [plainValues] at h
  | succ fuel ih =>
      obtain ⟨fuel', rfl⟩ : ∃ k, fuel' = k + 1 := ⟨fuel' - 1, by omega⟩
      cases n with
      | zero => simp [plainValues]
      | succ n =>
          simp only [plainValues] at h ⊢
          cases hcut : splitAtDelim crlf input with
          | none => simp [hcut] at h
          | some cut =>
              simp only [hcut] at h ⊢
              cases hplain : plainLine cut.1 cut.2 with
              | none => simp [hplain] at h
              | some next =>
                  simp only [hplain] at h ⊢
                  exact ih (by omega) h

/-- One line of the walk. -/
theorem plainValues_line {b : Byte} {text rest rest' : Bytes} {more n fuel fuel' : Nat}
    (hb : b ≠ 13) (hline : ¬ crlf <:+: text)
    (hplain : plainLine (b :: text) rest = some (more, rest'))
    (hrest : plainValues fuel (more + n) rest' = true) (hfuel : fuel < fuel') :
    plainValues fuel' (n + 1) (b :: text ++ crlf ++ rest) = true := by
  have hcut : splitAtDelim crlf (b :: text ++ crlf ++ rest) = some (b :: text, rest) :=
    splitAtDelim_pair (by decide) rest (not_crlf_cons hb hline)
  apply plainValues_mono hfuel
  rw [plainValues, hcut]
  simp only [hplain, hrest]

/-- A number line announces what its digits say. -/
theorem plainLine_bulkString {digits payload : Bytes} (h : isNumber digits = true)
    (hlen : decimalValue digits = payload.length) (rest : Bytes) :
    plainLine (messageBulkString :: digits) (payload ++ crlf ++ rest) = some (0, rest) := by
  have hend : ((payload ++ crlf ++ rest).drop payload.length).take 2 = crlf := by
    rw [List.append_assoc, List.drop_left]
    rfl
  have hdrop : (payload ++ crlf ++ rest).drop (payload.length + 2) = rest := by
    rw [show payload.length + 2 = (payload ++ crlf).length by simp [crlf], List.drop_left]
  have hother : messageBulkString ≠ messageInteger := by decide
  simp only [plainLine, List.headD_cons, List.tail_cons, hother, if_false, if_true,
    ne_absentLength_of_isNumber h, h, hlen, hend, hdrop]

theorem plainLine_array {digits : Bytes} (h : isNumber digits = true) (rest : Bytes) :
    plainLine (messageArray :: digits) rest = some (decimalValue digits, rest) := by
  have hother : messageArray ≠ messageInteger := by decide
  have hother' : messageArray ≠ messageBulkString := by decide
  simp only [plainLine, List.headD_cons, List.tail_cons, hother, hother', if_false, if_true,
    ne_absentLength_of_isNumber h, h]

theorem plainLine_integer {text : Bytes} (h : isSigned text = true) (rest : Bytes) :
    plainLine (messageInteger :: text) rest = some (0, rest) := by
  simp only [plainLine, List.headD_cons, List.tail_cons, if_true, h]

/-- A line that announces nothing more, and what belongs to it, in front of texts that are
walked over. -/
theorem walk_line {b : Byte} (line behind : Bytes) {rest after : Bytes} {count n fuel : Nat}
    (hb : b ≠ 13) (hline : ¬ crlf <:+: line)
    (hplain : plainLine (b :: line) (behind ++ (rest ++ after)) = some (0, rest ++ after))
    (htail : plainValues (fuel + rest.length) (count + n) (rest ++ after) = true) :
    plainValues (fuel + (b :: line ++ crlf ++ (behind ++ rest)).length) (count + 1 + n)
      (b :: line ++ crlf ++ (behind ++ rest) ++ after) = true := by
  have hshape : b :: line ++ crlf ++ (behind ++ rest) ++ after =
      b :: line ++ crlf ++ (behind ++ (rest ++ after)) := by simp
  rw [hshape, Nat.succ_add]
  rw [← Nat.zero_add (count + n)] at htail
  exact plainValues_line hb hline hplain htail (by simp; omega)

/-- The walk over a text of the grammar goes on behind it, whatever stands there. -/
theorem Wire.walk {ms : List Message} {text : Bytes} (h : Wire ms text)
    {fuel n : Nat} {after : Bytes} (hafter : plainValues fuel n after = true) :
    plainValues (fuel + text.length) (ms.length + n) (text ++ after) = true := by
  have habsent : ¬ crlf <:+: absentLength := not_crlf_of_not_mem (by decide)
  induction h generalizing fuel n after with
  | nil => simpa using hafter
  | simpleString h tail ih => exact walk_line _ [] (by decide) h rfl (ih hafter)
  | simpleError h tail ih => exact walk_line _ [] (by decide) h rfl (ih hafter)
  | integer h hlow hhigh tail ih =>
      exact walk_line _ [] (by decide) h.not_crlf (plainLine_integer h.isSigned _) (ih hafter)
  | @bulkString digits payload rest ms h hlen tail ih =>
      exact walk_line digits (payload ++ crlf) (by decide) (not_crlf_of_isNumber h)
        (plainLine_bulkString h hlen _) (ih hafter)
  | absentString tail ih => exact walk_line _ [] (by decide) habsent rfl (ih hafter)
  | absentArray tail ih => exact walk_line _ [] (by decide) habsent rfl (ih hafter)
  | @array digits body rest elements ms h hcount inner tail ihbody ih =>
      have hbody := ihbody (ih hafter)
      have hshape : messageArray :: digits ++ crlf ++ (body ++ rest) ++ after =
          messageArray :: digits ++ crlf ++ (body ++ (rest ++ after)) := by simp
      rw [hshape, List.length_cons, Nat.succ_add]
      rw [← hcount] at hbody
      exact plainValues_line (by decide) (not_crlf_of_isNumber h) (plainLine_array h _) hbody
        (by simp; omega)

/-- What stands behind a text of the grammar does not matter. -/
theorem Wire.plain {m : Message} {text : Bytes} (h : Wire [m] text) (after : Bytes) :
    Plain (text ++ after) := by
  have hnil : plainValues 0 0 after = true := by simp [plainValues]
  apply plainValues_mono (show 0 + text.length ≤ (text ++ after).length by simp)
  exact h.walk hnil

/-! ## What `parseInt` makes of plain numbers -/

theorem fromCharsInt_of_isNumber {text : Bytes} (h : isNumber text = true) {i : Int}
    (hvalue : fromCharsInt text = some i) : i = decimalValue text := by
  rw [fromCharsInt_isNumber h] at hvalue
  split at hvalue
  · exact (Option.some.inj hvalue).symm
  · cases hvalue

/-- Of a plain number, when it is in range, `parseInt` makes its value. -/
theorem parseInt_of_isNumber {text : Bytes} (h : isNumber text = true) {i : Int}
    (hvalue : parseInt text = some i) : i = decimalValue text := by
  have hplus : skipPlus text = text := by
    rw [skipPlus, if_neg (head?_ne_of_isNumber h (by decide))]
  rw [parseInt, hplus, if_neg (isNumber_iff.mp h).1, if_neg (isNumber_iff.mp h).1] at hvalue
  exact fromCharsInt_of_isNumber h hvalue

/-- The same with a sign. -/
theorem parseInt_of_isSigned {text : Bytes} (h : isSigned text = true) {i : Int}
    (hvalue : parseInt text = some i) : IntText i text := by
  rw [isSigned, Bool.or_eq_true, Bool.and_eq_true, Bool.or_eq_true, decide_eq_true_eq,
    decide_eq_true_eq] at h
  rcases h with h | ⟨hsign, h⟩
  · rw [parseInt_of_isNumber h hvalue]
    exact .unsigned h
  · have hne := (isNumber_iff.mp h).1
    cases text with
    | nil => simp at hsign
    | cons b digits =>
        simp only [List.head?_cons, Option.some.injEq, List.tail_cons] at hsign h hne
        rcases hsign with rfl | rfl
        · rw [parseInt, skipPlus_plus, if_neg (by simp), if_neg hne] at hvalue
          rw [fromCharsInt_of_isNumber h hvalue]
          exact .plus h
        · have hskip : skipPlus (minusByte :: digits) = minusByte :: digits := by
            rw [skipPlus, List.head?_cons, if_neg (by decide)]
          rw [parseInt, hskip, if_neg (by simp), if_neg (by simp), fromCharsInt,
            List.head?_cons, if_pos rfl, List.tail_cons, leadingNumber_of_isNumber h] at hvalue
          simp only at hvalue
          split at hvalue
          · rw [← Option.some.inj hvalue]
            exact .minus h
          · cases hvalue

/-! ## The first cut of several -/

variable {p p₂ : MessageParser} {raw : Bytes} {raws : List Bytes}

/-- The first cut takes a line. -/
theorem Cuts.line (hpending : p.lengthEncodedMessageExpected = none)
    (h : Cuts p (raw :: raws) p₂) :
    ∃ rest, splitAtDelim crlf p.buffer = some (raw, rest) ∧
      Cuts ⟨rest, p.rawMessageBuffer ++ [raw], (announced raw).map toSizeT⟩ raws p₂ := by
  cases h with
  | cons nonempty cut queued tail =>
      simp only [MessageParser.getNextRawMessage, hpending] at cut
      rcases MessageParser.getLine_cases hpending cut with
        ⟨rfl, -⟩ | ⟨line, rest, hsplit, rfl⟩
      · simp at queued
      · obtain rfl : line = raw := by simpa using queued
        exact ⟨rest, hsplit, tail⟩

/-- The first cut takes a payload, with two bytes behind it that are not looked at. -/
theorem Cuts.payload {length : UInt64} (hpending : p.lengthEncodedMessageExpected = some length)
    (h : Cuts p (raw :: raws) p₂) :
    ¬ toPtrdiff length < 0 ∧ length.toNat + 2 ≤ p.buffer.length ∧
      raw = p.buffer.take length.toNat ∧
      Cuts ⟨p.buffer.drop (length.toNat + 2), p.rawMessageBuffer ++ [raw], none⟩ raws p₂ := by
  cases h with
  | cons nonempty cut queued tail =>
      simp only [MessageParser.getNextRawMessage, hpending, MessageParser.getPayload] at cut
      split at cut
      · simp at cut
      · next hlong =>
          split at cut
          · simp at cut
          · next hneg =>
              obtain ⟨-, rfl⟩ := Prod.mk.inj cut
              have hsum := MessageParser.toNat_add_delimSize hneg .any
              have htwo : (2 : UInt64).toNat = 2 := rfl
              simp only [MessageParser.delimSize_any, htwo] at hsum hlong tail
              obtain rfl : p.buffer.take length.toNat = raw := by simpa using queued
              exact ⟨hneg, by omega, rfl, tail⟩

/-! ## What was read is a text of the grammar -/

/-- These messages were read, `p` being the parser in front of them: their text stands in
the buffer, and the parser behind it goes on with the cuts of `rest`, and with a walk over
so many values. -/
def ReadOff (p p₁ : MessageParser) (ms : List Message) (rest : List Bytes) (n : Nat) : Prop :=
  ∃ consumed p₂ fuel, p.buffer = consumed ++ p₂.buffer ∧ Wire ms consumed ∧
    Cuts p₂ rest p₁ ∧ (p₂.lengthEncodedMessageExpected = none ∨ rest = []) ∧
    plainValues fuel n p₂.buffer = true

/-- The walk over the first line. -/
theorem plainValues_cut {fuel n : Nat} {input line rest : Bytes}
    (hcut : splitAtDelim crlf input = some (line, rest))
    (h : plainValues fuel (n + 1) input = true) :
    ∃ fuel' more rest', plainLine line rest = some (more, rest') ∧
      plainValues fuel' (more + n) rest' = true := by
  cases fuel with
  | zero => simp [plainValues] at h
  | succ fuel =>
      simp only [plainValues, hcut] at h
      cases hplain : plainLine line rest with
      | none => simp [hplain] at h
      | some next =>
          simp only [hplain] at h
          exact ⟨fuel, next.1, next.2, rfl, h⟩

/-- The elements of an array: the induction is on how many are still to come, and each is
read in front of those behind it. -/
theorem readOff_elements {element : List Bytes → Decoded Message} {p₁ : MessageParser}
    (hnil : element [] = .incomplete)
    (helement : ∀ (p : MessageParser) (raws rest : List Bytes) (m : Message) (fuel n : Nat),
      p.lengthEncodedMessageExpected = none → Cuts p raws p₁ →
      element raws = .value m rest → plainValues fuel (n + 1) p.buffer = true →
      ReadOff p p₁ [m] rest n)
    (count : Nat) (before out : List Message) (p : MessageParser) (raws rest : List Bytes)
    (fuel n : Nat) (hpending : p.lengthEncodedMessageExpected = none ∨ raws = [])
    (hcuts : Cuts p raws p₁)
    (hdecode : decodeElements element count before raws = .value out rest)
    (hwalk : plainValues fuel (count + n) p.buffer = true) :
    ∃ ms, out = before ++ ms ∧ ms.length = count ∧ ReadOff p p₁ ms rest n := by
  induction count generalizing before p raws fuel with
  | zero =>
      obtain ⟨rfl, rfl⟩ : before = out ∧ raws = rest := by simpa [decodeElements] using hdecode
      rw [Nat.zero_add] at hwalk
      exact ⟨[], by simp, rfl, [], p, fuel, rfl, .nil, hcuts, hpending, hwalk⟩
  | succ count ih =>
      rw [decodeElements] at hdecode
      have hnone : p.lengthEncodedMessageExpected = none := by
        rcases hpending with hnone | rfl
        · exact hnone
        · rw [hnil] at hdecode
          cases hdecode
      cases hd : element raws with
      | incomplete => simp [hd] at hdecode
      | malformed e rest' => simp [hd] at hdecode
      | value m rest' =>
          rw [hd] at hdecode
          rw [Nat.succ_add] at hwalk
          obtain ⟨consumed, p₂, fuel', hbuffer, hvalues, hcuts', hpending', hwalk'⟩ :=
            helement p raws rest' m fuel (count + n) hnone hcuts hd hwalk
          obtain ⟨ms, hout, hcount, hread⟩ :=
            ih (before ++ [m]) p₂ rest' fuel' hpending' hcuts' hdecode hwalk'
          refine ⟨m :: ms, by simp [hout], by simp [hcount], ?_⟩
          obtain ⟨consumed', p₃, fuel'', hbuffer', hvalues', hlater⟩ := hread
          refine ⟨consumed ++ consumed', p₃, fuel'', ?_, hvalues.append hvalues', hlater⟩
          rw [hbuffer, hbuffer', List.append_assoc]

/-- A line of a known type. -/
theorem eq_cons_of_headD {line : Bytes} {b : Byte} (hb : b ≠ 0) (h : line.headD 0 = b) :
    line = b :: line.tail := by
  cases line with
  | nil => exact absurd h.symm hb
  | cons c line =>
      obtain rfl : c = b := h
      rfl

/-- A line of text announces nothing. -/
theorem plainLine_text {line : Bytes}
    (h : line.headD 0 = messageSimpleString ∨ line.headD 0 = messageSimpleError)
    (rest : Bytes) : plainLine line rest = some (0, rest) := by
  unfold plainLine
  rcases h with h | h
  · rw [h]
    rfl
  · rw [h]
    rfl

/-- A value of one line is read. -/
theorem ReadOff.line {p p₁ : MessageParser} {raw behind : Bytes} {raws : List Bytes}
    {m : Message} {fuel n : Nat} (hsplit : splitAtDelim crlf p.buffer = some (raw, behind))
    (hcuts : Cuts ⟨behind, p.rawMessageBuffer ++ [raw], (announced raw).map toSizeT⟩ raws p₁)
    (hpending : announced raw = none ∨ raws = []) (hvalues : Wire [m] (raw ++ crlf))
    (hwalk : plainValues fuel n behind = true) : ReadOff p p₁ [m] raws n := by
  refine ⟨raw ++ crlf, _, fuel, splitAtDelim_eq_append hsplit, hvalues, hcuts, ?_, hwalk⟩
  rcases hpending with hnone | rfl
  · exact Or.inl (by rw [hnone, Option.map_none])
  · exact Or.inr rfl

/-- `$-1`: its number is waited for as a length, and no payload of that length can be cut. -/
theorem readOff_absentString {p p₁ : MessageParser} {raw behind : Bytes}
    {raws rest : List Bytes} {m : Message} {fuel n : Nat}
    (htype : raw.headD 0 = messageBulkString)
    (hsplit : splitAtDelim crlf p.buffer = some (raw, behind))
    (hcuts : Cuts ⟨behind, p.rawMessageBuffer ++ [raw], (announced raw).map toSizeT⟩ raws p₁)
    (hdecode : decodeBulkString .any raw raws = .value m rest)
    (habsent : raw.tail = absentLength) (hwalk : plainValues fuel n behind = true) :
    ReadOff p p₁ [m] rest n := by
  have hraw : raw = messageBulkString :: raw.tail := eq_cons_of_headD (by decide) htype
  have hvalue : parseInt raw.tail = some (-1) := by
    rw [habsent]
    decide
  simp only [decodeBulkString, hvalue, if_true] at hdecode
  obtain ⟨rfl, rfl⟩ : Message.bulkString [] = m ∧ raws = rest := by simpa using hdecode
  have hlast : raws = [] := by
    cases raws with
    | nil => rfl
    | cons payload raws =>
        have hpending : (announced raw).map toSizeT = some (toSizeT (-1)) := by
          rw [announced, if_pos htype, hvalue, Option.map_some]
        have hneg := (hcuts.payload hpending).1
        exact absurd (by decide) hneg
  refine .line hsplit hcuts (Or.inr hlast) ?_ hwalk
  rw [hraw, habsent]
  simpa using Wire.absentString .nil

/-- A length, and behind it a payload that ends with CRLF. -/
theorem readOff_payload {p p₁ : MessageParser} {raw behind : Bytes}
    {raws rest : List Bytes} {m : Message} {fuel n : Nat}
    (htype : raw.headD 0 = messageBulkString)
    (hsplit : splitAtDelim crlf p.buffer = some (raw, behind))
    (hcuts : Cuts ⟨behind, p.rawMessageBuffer ++ [raw], (announced raw).map toSizeT⟩ raws p₁)
    (hdecode : decodeBulkString .any raw raws = .value m rest)
    (hnumber : isNumber raw.tail = true)
    (hend : (behind.drop (decimalValue raw.tail)).take 2 = crlf)
    (hwalk : plainValues fuel n (behind.drop (decimalValue raw.tail + 2)) = true) :
    ReadOff p p₁ [m] rest n := by
  have hraw : raw = messageBulkString :: raw.tail := eq_cons_of_headD (by decide) htype
  simp only [decodeBulkString] at hdecode
  cases hvalue : parseInt raw.tail with
  | none => simp [hvalue] at hdecode
  | some length =>
      obtain rfl := parseInt_of_isNumber hnumber hvalue
      have hrange := (parseInt_range hvalue).2
      have hnull : (decimalValue raw.tail : Int) ≠ -1 := by omega
      have hsize : (toSizeT (decimalValue raw.tail)).toNat = decimalValue raw.tail :=
        toNat_toSizeT (by omega)
      simp only [hvalue, hnull, if_false] at hdecode
      cases raws with
      | nil => simp at hdecode
      | cons payload raws =>
          obtain ⟨rfl, rfl⟩ : Message.bulkString payload = m ∧ raws = rest := by
            simpa using hdecode
          have hpending : (announced raw).map toSizeT =
              some (toSizeT (decimalValue raw.tail)) := by
            rw [announced, if_pos htype, hvalue, Option.map_some]
          obtain ⟨-, hlong, rfl, hlater⟩ := hcuts.payload hpending
          simp only [hsize] at hlong hlater ⊢
          have hbehind : behind = behind.take (decimalValue raw.tail) ++
              (crlf ++ behind.drop (decimalValue raw.tail + 2)) := by
            have hrest := List.take_append_drop 2 (behind.drop (decimalValue raw.tail))
            rw [hend, List.drop_drop] at hrest
            rw [hrest, List.take_append_drop]
          have hlen : decimalValue raw.tail =
              (behind.take (decimalValue raw.tail)).length := by
            rw [List.length_take]
            omega
          have hvalues := Wire.bulkString hnumber hlen .nil
          rw [← hraw] at hvalues
          refine ⟨raw ++ crlf ++ (behind.take (decimalValue raw.tail) ++ crlf), _,
            fuel, ?_, by simpa using hvalues, hlater, Or.inl rfl, hwalk⟩
          rw [splitAtDelim_eq_append hsplit, List.append_assoc _ _ (_ ++ _)]
          simpa using hbehind

/-- The `$` line of a value, and its payload. -/
theorem readOff_bulkString {p p₁ : MessageParser} {raw behind : Bytes}
    {raws rest : List Bytes} {m : Message} {fuel n : Nat}
    (htype : raw.headD 0 = messageBulkString)
    (hsplit : splitAtDelim crlf p.buffer = some (raw, behind))
    (hcuts : Cuts ⟨behind, p.rawMessageBuffer ++ [raw], (announced raw).map toSizeT⟩ raws p₁)
    (hdecode : decodeBulkString .any raw raws = .value m rest) {more : Nat} {after : Bytes}
    (hplain : plainLine raw behind = some (more, after))
    (hwalk : plainValues fuel (more + n) after = true) : ReadOff p p₁ [m] rest n := by
  have hother : messageBulkString ≠ messageInteger := by decide
  simp only [plainLine, htype, hother, if_false, if_true] at hplain
  by_cases habsent : raw.tail = absentLength
  · simp only [habsent, if_true, Option.some.injEq, Prod.mk.injEq] at hplain
    obtain ⟨rfl, rfl⟩ := hplain
    rw [Nat.zero_add] at hwalk
    exact readOff_absentString htype hsplit hcuts hdecode habsent hwalk
  · simp only [habsent, if_false] at hplain
    split at hplain
    · next hnumber =>
        split at hplain
        · next hend =>
            obtain ⟨rfl, rfl⟩ := Prod.mk.inj (Option.some.inj hplain)
            rw [Nat.zero_add] at hwalk
            exact readOff_payload htype hsplit hcuts hdecode hnumber hend hwalk
        · cases hplain
    · cases hplain

/-- The `*` line of a value, and its elements. -/
theorem readOff_array {depth : Nat} {p p₁ : MessageParser} {raw behind : Bytes}
    {raws rest : List Bytes} {m : Message} {fuel n : Nat}
    (htype : raw.headD 0 = messageArray)
    (hsplit : splitAtDelim crlf p.buffer = some (raw, behind))
    (hcuts : Cuts ⟨behind, p.rawMessageBuffer ++ [raw], none⟩ raws p₁)
    (helement : ∀ (p : MessageParser) (raws rest : List Bytes) (m : Message) (fuel n : Nat),
      p.lengthEncodedMessageExpected = none → Cuts p raws p₁ →
      decode depth .any raws = .value m rest → plainValues fuel (n + 1) p.buffer = true →
      ReadOff p p₁ [m] rest n)
    (hdecode : decodeArray (decode depth .any) raw raws = .value m rest) {more : Nat}
    {after : Bytes} (hplain : plainLine raw behind = some (more, after))
    (hwalk : plainValues fuel (more + n) after = true) : ReadOff p p₁ [m] rest n := by
  have hraw : raw = messageArray :: raw.tail := eq_cons_of_headD (by decide) htype
  have hsilent : announced raw = none := if_neg (by rw [htype]; decide)
  have hother : messageArray ≠ messageInteger := by decide
  have hother' : messageArray ≠ messageBulkString := by decide
  simp only [plainLine, htype, hother, hother', if_false, if_true] at hplain
  simp only [decodeArray] at hdecode
  by_cases habsent : raw.tail = absentLength
  · have hvalue : parseInt raw.tail = some (-1) := by
      rw [habsent]
      decide
    simp only [habsent, if_true, Option.some.injEq, Prod.mk.injEq] at hplain
    obtain ⟨rfl, rfl⟩ := hplain
    rw [Nat.zero_add] at hwalk
    simp only [hvalue, if_true] at hdecode
    obtain ⟨rfl, rfl⟩ : Message.array [] = m ∧ raws = rest := by simpa using hdecode
    refine .line hsplit (by rw [hsilent]; exact hcuts) (Or.inl hsilent) ?_ hwalk
    rw [hraw, habsent]
    simpa using Wire.absentArray .nil
  · simp only [habsent, if_false] at hplain
    split at hplain
    · next hnumber =>
        obtain ⟨rfl, rfl⟩ := Prod.mk.inj (Option.some.inj hplain)
        cases hvalue : parseInt raw.tail with
        | none => simp [hvalue] at hdecode
        | some length =>
            obtain rfl := parseInt_of_isNumber hnumber hvalue
            have hnull : (decimalValue raw.tail : Int) ≠ -1 := by omega
            simp only [hvalue, hnull, if_false, Int.toNat_natCast] at hdecode
            cases hd : decodeElements (decode depth .any) (decimalValue raw.tail) [] raws with
            | incomplete => simp [hd, Decoded.map] at hdecode
            | malformed e rest' => simp [hd, Decoded.map] at hdecode
            | value ms rest' =>
                obtain ⟨rfl, rfl⟩ : Message.array ms = m ∧ rest' = rest := by
                  simpa [hd, Decoded.map] using hdecode
                obtain ⟨elements, rfl, hcount, consumed, p₂, fuel', hbuffer, hvalues, hlater⟩ :=
                  readOff_elements (decode_nil depth .any) helement _ [] ms _ raws rest'
                    fuel n (Or.inl rfl) hcuts hd hwalk
                refine ⟨raw ++ crlf ++ consumed, p₂, fuel', ?_, ?_, hlater⟩
                · simp only at hbuffer
                  rw [splitAtDelim_eq_append hsplit, hbuffer]
                  simp only [List.append_assoc]
                · have harray := Wire.array hnumber hcount.symm hvalues .nil
                  rw [← hraw] at harray
                  simpa using harray
    · cases hplain

/-- **Soundness of the cuts.**  What `decode` reads off the queue stands, as a text of the
grammar, in the bytes that were cut, when these are plain. -/
theorem readOff_of_decode (depth : Nat) (p p₁ : MessageParser) (raws rest : List Bytes)
    (m : Message) (fuel n : Nat) (hpending : p.lengthEncodedMessageExpected = none)
    (hcuts : Cuts p raws p₁) (hdecode : decode depth .any raws = .value m rest)
    (hwalk : plainValues fuel (n + 1) p.buffer = true) : ReadOff p p₁ [m] rest n := by
  induction depth generalizing p raws rest m fuel n with
  | zero => simp [decode] at hdecode
  | succ depth ih =>
      cases raws with
      | nil => simp [decode] at hdecode
      | cons raw raws =>
          obtain ⟨behind, hsplit, hlater⟩ := hcuts.line hpending
          obtain ⟨fuel', more, after, hplain, hwalk'⟩ := plainValues_cut hsplit hwalk
          have hline : ¬ crlf <:+: raw := splitAtDelim_not_infix (by decide) hsplit
          have htail : ¬ crlf <:+: raw.tail :=
            fun hin => hline (hin.trans (List.tail_suffix raw).isInfix)
          have hsilent : raw.headD 0 ≠ messageBulkString → announced raw = none :=
            fun htype => if_neg htype
          simp only [decode] at hdecode
          by_cases h1 : raw.headD 0 = messageSimpleString
          · rw [if_pos h1] at hdecode
            obtain ⟨rfl, rfl⟩ : Message.simpleString raw.tail = m ∧ raws = rest := by
              simpa using hdecode
            rw [plainLine_text (Or.inl h1)] at hplain
            obtain ⟨rfl, rfl⟩ := Prod.mk.inj (Option.some.inj hplain)
            rw [Nat.zero_add] at hwalk'
            refine .line hsplit hlater (Or.inl (hsilent (by rw [h1]; decide))) ?_ hwalk'
            rw [eq_cons_of_headD (by decide) h1]
            simpa using Wire.simpleString htail .nil
          by_cases h2 : raw.headD 0 = messageSimpleError
          · rw [if_neg h1, if_pos h2] at hdecode
            obtain ⟨rfl, rfl⟩ : Message.simpleError raw.tail = m ∧ raws = rest := by
              simpa using hdecode
            rw [plainLine_text (Or.inr h2)] at hplain
            obtain ⟨rfl, rfl⟩ := Prod.mk.inj (Option.some.inj hplain)
            rw [Nat.zero_add] at hwalk'
            refine .line hsplit hlater (Or.inl (hsilent (by rw [h2]; decide))) ?_ hwalk'
            rw [eq_cons_of_headD (by decide) h2]
            simpa using Wire.simpleError htail .nil
          by_cases h3 : raw.headD 0 = messageInteger
          · rw [if_neg h1, if_neg h2, if_pos h3] at hdecode
            simp only [plainLine, h3, if_true] at hplain
            split at hplain
            · next hsigned =>
                obtain ⟨rfl, rfl⟩ := Prod.mk.inj (Option.some.inj hplain)
                rw [Nat.zero_add] at hwalk'
                cases hvalue : parseInt raw.tail with
                | none => simp [hvalue] at hdecode
                | some value =>
                    rw [hvalue] at hdecode
                    obtain ⟨rfl, rfl⟩ : Message.integer value = m ∧ raws = rest := by
                      simpa using hdecode
                    obtain ⟨hlow, hhigh⟩ := parseInt_range hvalue
                    refine .line hsplit hlater (Or.inl (hsilent (by rw [h3]; decide))) ?_ hwalk'
                    have hint := parseInt_of_isSigned hsigned hvalue
                    rw [eq_cons_of_headD (by decide) h3]
                    simpa using Wire.integer hint hlow hhigh .nil
            · cases hplain
          by_cases h4 : raw.headD 0 = messageBulkString
          · rw [if_neg h1, if_neg h2, if_neg h3, if_pos h4] at hdecode
            exact readOff_bulkString h4 hsplit hlater hdecode hplain hwalk'
          by_cases h5 : raw.headD 0 = messageArray
          · rw [if_neg h1, if_neg h2, if_neg h3, if_neg h4, if_pos h5] at hdecode
            have hnone := hsilent h4
            rw [hnone, Option.map_none] at hlater
            exact readOff_array h5 hsplit hlater
              (fun p raws rest m fuel n => ih p raws rest m fuel n) hdecode hplain hwalk'
          · rw [if_neg h1, if_neg h2, if_neg h3, if_neg h4, if_neg h5] at hdecode
            cases hdecode

/-! ## A fresh parser -/

namespace MessageParser

/-- The cuts behind a message that `try_parse` returns: they start where the queue was
empty, and the last of them completes the message. -/
theorem cuts_of_tryParse {start p p' : MessageParser} {m : Message}
    (hcuts : Cuts start p.rawMessageBuffer p)
    (hopen : p.Open) (h : p.tryParse .any = (.ok (some m), p')) :
    ∃ p₁, Cuts start p₁.rawMessageBuffer p₁ ∧ p'.buffer = p₁.buffer ∧
      decode p₁.rawMessageBuffer.length .any p₁.rawMessageBuffer = .value m [] := by
  induction hw : p.weight using Nat.strongRecOn generalizing p with
  | ind n ih =>
      subst hw
      obtain ⟨nonempty, p₁, hcut, hdecode⟩ := tryParse_cases h
      obtain ⟨rawMessage, hqueue, -⟩ := queued_of_cut hcut
      have hcuts₁ : Cuts start p₁.rawMessageBuffer p₁ := by
        rw [hqueue]
        exact hcuts.append (.cons nonempty hcut hqueue (.nil p₁))
      obtain ⟨hd, h⟩ | ⟨rest, hd, rfl⟩ := hdecode
      · exact ih _ (weight_getNextRawMessage hcut) hcuts₁ hd h rfl
      · obtain ⟨last, hclosed, -⟩ := hopen.cut hcut
        rw [hd] at hclosed
        obtain rfl : rest = [] := hclosed
        exact ⟨p₁, hcuts₁, rfl, hd⟩

/-- **What is accepted.**  The bytes that a fresh parser has read for a message are one text
of the grammar, and a text of this message, exactly if the input is plain. -/
theorem returned_denotes_iff {input : Bytes} {m : Message} {p' : MessageParser}
    (h : (fresh.feed input).tryParse .any = (.ok (some m), p')) :
    (∃ consumed, input = consumed ++ p'.buffer ∧ Wire [m] consumed) ↔ Plain input := by
  constructor
  · rintro ⟨consumed, rfl, hvalues⟩
    exact hvalues.plain p'.buffer
  · intro hplain
    obtain ⟨p₁, hcuts, hbuffer, hdecode⟩ := 
      cuts_of_tryParse (.nil _) (open_of_queue_eq_nil rfl) h
    obtain ⟨consumed, p₂, -, hinput, hvalues, hlater, -⟩ :=
      readOff_of_decode _ _ p₁ _ [] m _ 0 rfl hcuts hdecode hplain
    cases hlater
    exact ⟨consumed, by rw [hbuffer, ← hinput]; rfl, hvalues⟩

/-- An array with a sign, a payload with a line end in it, and something behind. -/
def plainInput : Bytes := ascii "*2\r\n:+5\r\n$4\r\na\r\nb\r\n:7"

theorem returned_denotes_iff_array :
    (fresh.feed plainInput).tryParse .any =
        (.ok (some (.array [.integer 5, .bulkString (ascii "a\r\nb")])),
          ⟨ascii ":7", [], none⟩) ∧
      ((∃ consumed, plainInput = consumed ++ ascii ":7" ∧
        Wire [.array [.integer 5, .bulkString (ascii "a\r\nb")]] consumed) ↔
          Plain plainInput) := by
  have hrun : (fresh.feed plainInput).tryParse .any =
      (.ok (some (.array [.integer 5, .bulkString (ascii "a\r\nb")])),
        ⟨ascii ":7", [], none⟩) := by
    decide +kernel
  exact ⟨hrun, returned_denotes_iff hrun⟩

/-- What stands behind the number of a length line is ignored, so a text is accepted that no
message has. -/
theorem not_returned_denotes :
    ¬ ∀ (input : Bytes) (m : Message) (p' : MessageParser),
      (fresh.feed input).tryParse .any = (.ok (some m), p') →
        ∃ consumed, input = consumed ++ p'.buffer ∧ Wire [m] consumed := by
  intro h
  have hrun : (fresh.feed (ascii "$3abc\r\nfoo\r\n")).tryParse .any =
      (.ok (some (.bulkString (ascii "foo"))), ⟨[], [], none⟩) := by
    decide +kernel
  obtain ⟨consumed, hinput, hvalues⟩ := h _ _ _ hrun
  have hplain := hvalues.plain []
  rw [← hinput] at hplain
  exact absurd hplain (by decide +kernel)

end MessageParser

end BuildYourOwnRedis
