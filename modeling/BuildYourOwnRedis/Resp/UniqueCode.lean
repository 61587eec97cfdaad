/-
  Resp/UniqueCode.lean --- no two messages are written alike.

  The wire form of a message is a line, and behind it what the line announces.  The first
  line of a text is found without knowing what follows, its first byte says what kind of
  message it is, and its number how long the payload or how many the elements are: so the
  bytes determine the message and where it ends, whatever comes behind it.
-/
import BuildYourOwnRedis.Numerals
import BuildYourOwnRedis.Resp.Framing

set_option autoImplicit false

namespace BuildYourOwnRedis

open Foundation

/-! ## Code words in a row -/

section

variable {α β : Type} {code : α → List β}

/-- As many code words in a row are told apart when single ones are. -/
theorem words_unique {words words' : List α} {x y : List β}
    (h : ∀ a ∈ words, ∀ b ∈ words', ∀ x y, code a ++ x = code b ++ y → a = b ∧ x = y)
    (hlength : words.length = words'.length)
    (heq : words.flatMap code ++ x = words'.flatMap code ++ y) : words = words' ∧ x = y := by
  induction words generalizing words' with
  | nil =>
      obtain rfl := List.eq_nil_of_length_eq_zero hlength.symm
      exact ⟨rfl, heq⟩
  | cons a words ih =>
      cases words' with
      | nil => cases hlength
      | cons b words' =>
          rw [List.flatMap_cons, List.flatMap_cons, List.append_assoc, List.append_assoc] at heq
          obtain ⟨rfl, hrest⟩ := h a (by simp) b (by simp) _ _ heq
          obtain ⟨rfl, rfl⟩ := ih (fun a ha b hb => h a (by simp [ha]) b (by simp [hb]))
            (Nat.succ.inj hlength) hrest
          exact ⟨rfl, rfl⟩

end

/-- Two lines with their delimiters. -/
theorem line_unique {line line' rest rest' : Bytes} (h : ¬ crlf <:+: line)
    (h' : ¬ crlf <:+: line') (heq : line ++ crlf ++ rest = line' ++ crlf ++ rest') :
    line = line' ∧ rest = rest' := by
  have hcut := splitAtDelim_pair (by decide : (13 : Byte) ≠ 10) rest h
  have hcut' := splitAtDelim_pair (by decide : (13 : Byte) ≠ 10) rest' h'
  have hsame : some (line, rest) = some (line', rest') := by
    rw [← hcut, ← hcut']
    exact congrArg _ heq
  exact Prod.mk.inj (Option.some.inj hsame)

namespace Message

/-! ## Line and rest -/

mutual

/-- A simple string or simple error whose text holds no delimiter, an integer, a bulk
string, or an array of such. -/
def Delimited : Message → Prop
  | .simpleString value => ¬ crlf <:+: value
  | .simpleError value => ¬ crlf <:+: value
  | .integer _ => True
  | .bulkString _ => True
  | .array elements => DelimitedAll elements
  | .undefined => False
  | .leave => False
  | .syncResponse _ => False

def DelimitedAll : List Message → Prop
  | [] => True
  | m :: ms => Delimited m ∧ DelimitedAll ms

end

theorem delimitedAll_iff (ms : List Message) : DelimitedAll ms ↔ ∀ m ∈ ms, Delimited m := by
  induction ms with
  | nil => simp [DelimitedAll]
  | cons m ms ih => simp [DelimitedAll, ih]

/-- The number in front of a payload or of elements. -/
def countText (n : Nat) : Bytes := if n = 0 then ascii "-1" else decimal n

/-- The type byte. -/
def typeByte : Message → Byte
  | .simpleString _ => messageSimpleString
  | .simpleError _ => messageSimpleError
  | .integer _ => messageInteger
  | .bulkString _ => messageBulkString
  | .array _ => messageArray
  | .undefined | .leave | .syncResponse _ => messageUndefined

/-- The text behind the type byte. -/
def lineText : Message → Bytes
  | .simpleString value => value
  | .simpleError value => value
  | .integer value => decimalInt value
  | .bulkString data => countText data.length
  | .array elements => countText elements.length
  | .undefined | .leave | .syncResponse _ => []

/-- What stands behind the line. -/
def behindLine : Message → Bytes
  | .bulkString data => if data.length = 0 then [] else data ++ crlf
  | .array elements => toStringAll elements
  | .simpleString _ | .simpleError _ | .integer _ | .undefined | .leave | .syncResponse _ => []

theorem toString_eq_line {m : Message} (h : m.Delimited) :
    m.toString = m.typeByte :: m.lineText ++ crlf ++ m.behindLine := by
  cases m with
  | simpleString value => simp [toString, typeByte, lineText, behindLine]
  | simpleError value => simp [toString, typeByte, lineText, behindLine]
  | integer value => simp [toString, typeByte, lineText, behindLine]
  | bulkString data =>
      simp only [toString, typeByte, lineText, behindLine, countText]
      split
      · rfl
      · simp
  | array elements =>
      simp only [toString, typeByte, lineText, behindLine, countText]
      split
      · next hzero =>
          obtain rfl := List.length_eq_zero_iff.mp hzero
          rw [toStringAll_nil]
          rfl
      · rfl
  | undefined | leave | syncResponse _ => exact absurd h id

theorem not_crlf_countText {b : Byte} (hb : b ≠ 13) (n : Nat) : ¬ crlf <:+: b :: countText n := by
  unfold countText
  split
  · exact not_crlf_cons hb (not_crlf_of_not_mem (by decide))
  · exact not_crlf_cons_decimal hb n

theorem typeByte_ne (m : Message) : m.typeByte ≠ 13 := by
  cases m <;> simp only [typeByte] <;> decide

theorem not_crlf_line {m : Message} (h : m.Delimited) :
    ¬ crlf <:+: m.typeByte :: m.lineText := by
  have hb := m.typeByte_ne
  cases m with
  | simpleString value => exact not_crlf_cons hb h
  | simpleError value => exact not_crlf_cons hb h
  | integer value => exact not_crlf_cons_decimalInt hb value
  | bulkString data => exact not_crlf_countText hb _
  | array elements => exact not_crlf_countText hb _
  | undefined | leave | syncResponse _ => exact absurd h id

theorem countText_injective {n n' : Nat} (h : countText n = countText n') : n = n' := by
  have hminus (k : Nat) : ascii "-1" ≠ decimal k := by
    intro heq
    have hmem : minusByte ∈ decimal k := by
      rw [← heq]
      decide
    exact absurd hmem (not_mem_decimal (by decide))
  unfold countText at h
  split at h
  · split at h
    · omega
    · exact absurd h (hminus n')
  · split at h
    · exact absurd h.symm (hminus n)
    · exact decimal_injective h

/-- The first byte tells the kinds apart. -/
theorem type_of_typeByte {m m' : Message} (h : m.Delimited) (h' : m'.Delimited)
    (hbyte : m.typeByte = m'.typeByte) : m.type = m'.type := by
  cases m <;> cases m' <;> first
    | rfl
    | exact absurd h id
    | exact absurd h' id
    | (simp only [typeByte] at hbyte
       exact absurd hbyte (by decide))

/-- The line says what the message is, up to a payload or elements. -/
theorem cases_of_line {m m' : Message} (h : m.Delimited) (h' : m'.Delimited)
    (htype : m.type = m'.type) (htext : m.lineText = m'.lineText) :
    m = m' ∧ m.behindLine = [] ∧ m'.behindLine = [] ∨
    (∃ data data', m = .bulkString data ∧ m' = .bulkString data' ∧
      data.length = data'.length) ∨
    ∃ elements elements', m = .array elements ∧ m' = .array elements' ∧
      elements.length = elements'.length := by
  cases m with
  | simpleString value =>
      cases m' with
      | simpleString value' => exact .inl ⟨congrArg Message.simpleString htext, rfl, rfl⟩
      | simpleError _ | integer _ | bulkString _ | array _ => cases htype
      | undefined | leave | syncResponse _ => exact absurd h' id
  | simpleError value =>
      cases m' with
      | simpleError value' => exact .inl ⟨congrArg Message.simpleError htext, rfl, rfl⟩
      | simpleString _ | integer _ | bulkString _ | array _ => cases htype
      | undefined | leave | syncResponse _ => exact absurd h' id
  | integer value =>
      cases m' with
      | integer value' =>
          exact .inl ⟨congrArg Message.integer (decimalInt_injective htext), rfl, rfl⟩
      | simpleString _ | simpleError _ | bulkString _ | array _ => cases htype
      | undefined | leave | syncResponse _ => exact absurd h' id
  | bulkString data =>
      cases m' with
      | bulkString data' => exact .inr (.inl ⟨data, data', rfl, rfl, countText_injective htext⟩)
      | simpleString _ | simpleError _ | integer _ | array _ => cases htype
      | undefined | leave | syncResponse _ => exact absurd h' id
  | array elements =>
      cases m' with
      | array elements' =>
          exact .inr (.inr ⟨elements, elements', rfl, rfl, countText_injective htext⟩)
      | simpleString _ | simpleError _ | integer _ | bulkString _ => cases htype
      | undefined | leave | syncResponse _ => exact absurd h' id
  | undefined | leave | syncResponse _ => exact absurd h id

/-- Payloads of the same length. -/
theorem payload_unique {data data' x y : Bytes} (hlength : data.length = data'.length)
    (heq : (Message.bulkString data).behindLine ++ x =
      (Message.bulkString data').behindLine ++ y) : data = data' ∧ x = y := by
  simp only [behindLine, ← hlength] at heq
  split at heq
  · next hzero =>
      have hnil := List.length_eq_zero_iff.mp hzero
      have hnil' : data' = [] := List.length_eq_zero_iff.mp (hlength.symm.trans hzero)
      exact ⟨hnil.trans hnil'.symm, heq⟩
  · rw [List.append_assoc, List.append_assoc] at heq
    obtain ⟨rfl, hrest⟩ := List.append_inj heq hlength
    exact ⟨rfl, List.append_cancel_left hrest⟩

/-- **The wire form is uniquely decodable.**  Two texts that start with messages agree only if
the messages do, and then what stands behind them does as well.  The messages are delimited: no
line of theirs holds a delimiter. -/
theorem toString_unique {m m' : Message} {x y : Bytes} (h : m.Delimited) (h' : m'.Delimited)
    (heq : m.toString ++ x = m'.toString ++ y) : m = m' ∧ x = y := by
  induction hsize : sizeOf m using Nat.strong_induction_on generalizing m m' x y with
  | _ size ih =>
      rw [toString_eq_line h, toString_eq_line h', List.append_assoc _ m.behindLine,
        List.append_assoc _ m'.behindLine] at heq
      obtain ⟨hline, hbehind⟩ := line_unique (not_crlf_line h) (not_crlf_line h') heq
      obtain ⟨hbyte, htext⟩ := List.cons.inj hline
      have htype := type_of_typeByte h h' hbyte
      rcases cases_of_line h h' htype htext with ⟨rfl, hnil, -⟩ |
        ⟨data, data', rfl, rfl, hlength⟩ | ⟨elements, elements', rfl, rfl, hlength⟩
      · exact ⟨rfl, List.append_cancel_left hbehind⟩
      · obtain ⟨rfl, rfl⟩ := payload_unique hlength hbehind
        exact ⟨rfl, rfl⟩
      · -- the elements are smaller, and as many on both sides
        simp only [behindLine, toStringAll_eq_flatMap] at hbehind
        have htold : ∀ a ∈ elements, ∀ b ∈ elements', ∀ x y,
            a.toString ++ x = b.toString ++ y → a = b ∧ x = y := by
          intro a ha b hb x y hab
          have hsmall : sizeOf a < size := by
            have := List.sizeOf_lt_of_mem ha
            rw [← hsize, Message.array.sizeOf_spec]
            omega
          exact ih _ hsmall ((delimitedAll_iff _).mp h a ha) ((delimitedAll_iff _).mp h' b hb)
            hab rfl
        obtain ⟨rfl, rfl⟩ := words_unique htold hlength hbehind
        exact ⟨rfl, rfl⟩

theorem toString_unique_empty :
    (array [bulkString (ascii "GET"), bulkString [], integer (-5)]).toString ++ ascii "+" =
        (array [bulkString (ascii "GET"), bulkString [], integer (-5)]).toString ++ ascii "+" ∧
      array [bulkString (ascii "GET"), bulkString [], integer (-5)] =
        array [bulkString (ascii "GET"), bulkString [], integer (-5)] ∧
      ascii "+" = ascii "+" :=
  ⟨rfl, toString_unique (by simp [Delimited, DelimitedAll]) (by simp [Delimited, DelimitedAll])
    rfl⟩

end Message

end BuildYourOwnRedis
