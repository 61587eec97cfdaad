/-
  Resp/MessageParser.lean --- `MessageParser`: cutting the read buffer into raw
  messages and asking `ParseHelper` after each of them.

  The state kept between calls is the unread buffer, the queue of raw messages that
  do not make up a message yet, and, after a `$` line, the length of the payload that
  must come next.  `tryParse_eq` unfolds one turn of the loop of `try_parse`;
  `tryParse_feed` says that bytes which arrive later change no answer that was
  already determined.
-/
import BuildYourOwnRedis.Resp.ParseHelper

set_option autoImplicit false

namespace BuildYourOwnRedis

open Foundation

/-- `EXPECTED_TYPES`. -/
def expectedTypes : List Byte :=
  [messageSimpleString, messageSimpleError, messageInteger, messageBulkString, messageArray]

/-- `LENGTH_TYPES`. -/
def lengthTypes : List Byte := [messageBulkString]

/-- The conversion of a `std::size_t` to the difference type of an iterator. -/
def toPtrdiff (n : UInt64) : Int :=
  if n.toNat < 2 ^ 63 then n.toNat else (n.toNat : Int) - 2 ^ 64

/-- `MessageParser<std::deque<char>>`, with the read buffer of the handler that it
refers to. -/
structure MessageParser where
  buffer : Bytes
  rawMessageBuffer : List Bytes
  lengthEncodedMessageExpected : Option UInt64
  deriving DecidableEq, Repr

namespace MessageParser

/-- A parser on an empty read buffer. -/
def fresh : MessageParser := ⟨[], [], none⟩

/-- The handler appends received bytes to the read buffer. -/
def feed (p : MessageParser) (received : Bytes) : MessageParser :=
  { p with buffer := p.buffer ++ received }

/-- An exception or a result, and the parser afterwards. -/
abbrev Outcome (α : Type) : Type := Except ParseError α × MessageParser

/-! ## `get_next_raw_message` -/

/-- How many bytes follow a payload: none after the payload of a sync response. -/
def delimSize (expected : MessageType) : UInt64 :=
  if expected = .syncResponse then 0 else 2

/-- The payload of a `$` line.  The sum is taken in `std::size_t`; the iterator
`begin() + length` lies before the buffer when `length` is negative as an offset. -/
def getPayload (expected : MessageType) (length : UInt64) (p : MessageParser) : Outcome Bool :=
  if p.buffer.length < (length + delimSize expected).toNat then (.ok false, p)
  else if toPtrdiff length < 0 then (.error .outsideBuffer, p)
  else
    (.ok true,
      { buffer := p.buffer.drop (length.toNat + (delimSize expected).toNat)
        rawMessageBuffer := p.rawMessageBuffer ++ [p.buffer.take length.toNat]
        lengthEncodedMessageExpected := none })

/-- A line, with its length read when it is a `$` line. -/
def getLine (p : MessageParser) : Outcome Bool :=
  let type := p.buffer.headD 0
  if type ∉ expectedTypes then
    (.error (.runtimeError (ascii "Unknown message type: " ++ [type])), p)
  else
    match splitAtDelim crlf p.buffer with
    | none => (.ok false, p)
    | some (line, rest) =>
        let p := { p with buffer := rest, rawMessageBuffer := p.rawMessageBuffer ++ [line] }
        if type ∉ lengthTypes then (.ok true, p)
        else
          match parseInt line.tail with
          | some value =>
              (.ok true, { p with lengthEncodedMessageExpected := some (toSizeT value) })
          | none =>
              (.error (.runtimeError
                (ascii "Malformed length for array message: " ++ line)), p)

/-- `MessageParser::get_next_raw_message`, called with a non-empty buffer only. -/
def getNextRawMessage (expected : MessageType) (p : MessageParser) : Outcome Bool :=
  match p.lengthEncodedMessageExpected with
  | some length => p.getPayload expected length
  | none => p.getLine

/-! ## `try_parse` -/

/-- What is left to cut: a line takes at least its delimiter, and a payload, which may
take nothing, is cut once only. -/
def weight (p : MessageParser) : Nat :=
  2 * p.buffer.length + (if p.lengthEncodedMessageExpected.isSome then 1 else 0)

/-- The loop of `try_parse`; the unget stack of its helper is carried along. -/
def tryParseLoop (expected : MessageType) :
    Nat → List Bytes → MessageParser → Outcome (Option Message)
  | 0, _, p => (.ok none, p)
  | fuel + 1, ungetStack, p =>
      if p.buffer.length = 0 then (.ok none, p)
      else
        match p.getNextRawMessage expected with
        | (.error e, p) => (.error e, p)
        | (.ok false, p) => (.ok none, p)
        | (.ok true, p) =>
            match ParseHelper.parse expected ⟨p.rawMessageBuffer, ungetStack⟩ with
            | (.error e, h) => (.error e, { p with rawMessageBuffer := h.buffer })
            | (.ok (some message), h) =>
                (.ok (some message), { p with rawMessageBuffer := h.buffer })
            | (.ok none, h) =>
                tryParseLoop expected fuel h.ungetStack { p with rawMessageBuffer := h.buffer }

/-- `MessageParser::try_parse`.  Each turn of its loop cuts a raw message, and every cut costs
weight, so the weight of the parser is fuel enough. -/
def tryParse (expected : MessageType) (p : MessageParser) : Outcome (Option Message) :=
  tryParseLoop expected (p.weight + 1) [] p

/-! ## One cut -/

@[simp] theorem delimSize_any : delimSize .any = 2 := rfl

theorem delimSize_le (expected : MessageType) : (delimSize expected).toNat ≤ 2 := by
  unfold delimSize
  split <;> decide

theorem toPtrdiff_neg_iff (n : UInt64) : toPtrdiff n < 0 ↔ 2 ^ 63 ≤ n.toNat := by
  have hn := n.toNat_lt
  simp only [toPtrdiff]
  split <;> omega

/-- A length that is no negative offset leaves room for the delimiter. -/
theorem toNat_add_delimSize {n : UInt64} (h : ¬ toPtrdiff n < 0) (expected : MessageType) :
    (n + delimSize expected).toNat = n.toNat + (delimSize expected).toNat := by
  have hdelim := delimSize_le expected
  rw [toPtrdiff_neg_iff] at h
  rw [UInt64.toNat_add]
  exact Nat.mod_eq_of_lt (by omega)

/-- A cut that succeeded costs weight. -/
theorem weight_getNextRawMessage {expected : MessageType} {p p' : MessageParser}
    (h : p.getNextRawMessage expected = (.ok true, p')) : p'.weight < p.weight := by
  simp only [getNextRawMessage] at h
  cases hpending : p.lengthEncodedMessageExpected with
  | some length =>
      simp only [hpending, getPayload] at h
      split at h
      · simp at h
      · split at h
        · simp at h
        · obtain ⟨-, rfl⟩ := Prod.mk.inj h
          simp only [weight, hpending, List.length_drop, Option.isSome_some, if_true,
            Option.isSome_none, Bool.false_eq_true, if_false]
          omega
  | none =>
      simp only [hpending, getLine] at h
      split at h
      · simp at h
      · split at h
        · simp at h
        · next line rest hcut =>
            have hlen := congrArg List.length (splitAtDelim_eq_append hcut)
            simp only [List.length_append, crlf, List.length_cons, List.length_nil] at hlen
            split at h
            · obtain ⟨-, rfl⟩ := Prod.mk.inj h
              simp only [weight, hpending]
              omega
            · split at h
              · obtain ⟨-, rfl⟩ := Prod.mk.inj h
                simp only [weight, hpending, Option.isSome_some, Option.isSome_none, if_true,
                  Bool.false_eq_true, if_false]
                omega
              · simp at h

/-- Without a cut nothing has changed. -/
theorem getNextRawMessage_false {expected : MessageType} {p p' : MessageParser}
    (h : p.getNextRawMessage expected = (.ok false, p')) : p' = p := by
  simp only [getNextRawMessage, getPayload, getLine] at h
  grind

theorem headD_append {α : Type} {l : List α} (h : l.length ≠ 0) (more : List α) (a : α) :
    (l ++ more).headD a = l.headD a := by
  cases l with
  | nil => exact absurd rfl h
  | cons b l => rfl

theorem getPayload_feed {expected : MessageType} {length : UInt64} {p p' : MessageParser}
    {r : Except ParseError Bool} (received : Bytes) (hr : r ≠ .ok false)
    (h : p.getPayload expected length = (r, p')) :
    (p.feed received).getPayload expected length = (r, p'.feed received) := by
  simp only [getPayload, feed, List.length_append] at h ⊢
  split at h
  · exact absurd (Prod.mk.inj h).1.symm hr
  · next hshort =>
      have hsize : ¬ p.buffer.length + received.length <
          (length + delimSize expected).toNat := by omega
      simp only [hsize, if_false]
      split at h
      · next hneg =>
          obtain ⟨rfl, rfl⟩ := Prod.mk.inj h
          simp only [hneg, if_true]
      · next hneg =>
          obtain ⟨rfl, rfl⟩ := Prod.mk.inj h
          have hsum := toNat_add_delimSize hneg expected
          simp only [hneg, if_false,
            List.drop_append_of_le_length (show length.toNat + (delimSize expected).toNat ≤
              p.buffer.length by omega),
            List.take_append_of_le_length (show length.toNat ≤ p.buffer.length by omega)]

theorem getLine_feed {p p' : MessageParser} {r : Except ParseError Bool} (received : Bytes)
    (hbuffer : p.buffer.length ≠ 0) (hr : r ≠ .ok false) (h : p.getLine = (r, p')) :
    (p.feed received).getLine = (r, p'.feed received) := by
  simp only [getLine, feed, headD_append hbuffer] at h ⊢
  split at h
  · next htype =>
      obtain ⟨rfl, rfl⟩ := Prod.mk.inj h
      simp only [htype, not_false_eq_true, if_true]
  · next htype =>
      simp only [htype, if_false]
      split at h
      · exact absurd (Prod.mk.inj h).1.symm hr
      · next line rest hcut =>
          rw [splitAtDelim_append received hcut]
          simp only
          split at h
          · next hplain =>
              obtain ⟨rfl, rfl⟩ := Prod.mk.inj h
              simp only [hplain, not_false_eq_true, if_true]
          · next hplain =>
              simp only [hplain, if_false]
              split at h
              · obtain ⟨rfl, rfl⟩ := Prod.mk.inj h
                simp only
              · obtain ⟨rfl, rfl⟩ := Prod.mk.inj h
                simp only

/-- Bytes that arrive behind the buffer change no cut. -/
theorem getNextRawMessage_feed {expected : MessageType} {p p' : MessageParser}
    {r : Except ParseError Bool} (received : Bytes) (hbuffer : p.buffer.length ≠ 0)
    (hr : r ≠ .ok false) (h : p.getNextRawMessage expected = (r, p')) :
    (p.feed received).getNextRawMessage expected = (r, p'.feed received) := by
  have hfeed : (p.feed received).lengthEncodedMessageExpected =
      p.lengthEncodedMessageExpected := rfl
  cases hpending : p.lengthEncodedMessageExpected with
  | some length =>
      simp only [getNextRawMessage, hfeed, hpending] at h ⊢
      exact getPayload_feed received hr h
  | none =>
      simp only [getNextRawMessage, hfeed, hpending] at h ⊢
      exact getLine_feed received hbuffer hr h

/-! ## One turn of the loop -/

/-- What `try_parse` does with the queue after a cut. -/
def afterCut (expected : MessageType) (p : MessageParser) : Outcome (Option Message) :=
  match decode p.rawMessageBuffer.length expected p.rawMessageBuffer with
  | .incomplete => tryParse expected p
  | .value m rest => (.ok (some m), { p with rawMessageBuffer := rest })
  | .malformed e rest => (.error e, { p with rawMessageBuffer := rest })

/-- The loop with an empty unget stack, one turn unfolded. -/
theorem tryParseLoop_succ (expected : MessageType) (fuel : Nat) (p : MessageParser) :
    tryParseLoop expected (fuel + 1) [] p =
      if p.buffer.length = 0 then (.ok none, p)
      else
        match p.getNextRawMessage expected with
        | (.error e, p) => (.error e, p)
        | (.ok false, p) => (.ok none, p)
        | (.ok true, p) =>
            match decode p.rawMessageBuffer.length expected p.rawMessageBuffer with
            | .incomplete => tryParseLoop expected fuel [] p
            | .value m rest => (.ok (some m), { p with rawMessageBuffer := rest })
            | .malformed e rest => (.error e, { p with rawMessageBuffer := rest }) := by
  rw [tryParseLoop]
  split
  · rfl
  · rcases hcut : p.getNextRawMessage expected with ⟨⟨e⟩ | ⟨_ | _⟩, p'⟩
    · rfl
    · rfl
    · simp only [ParseHelper.parse_eq_decode]
      cases decode p'.rawMessageBuffer.length expected p'.rawMessageBuffer <;> rfl

/-- Fuel beyond the weight makes no difference. -/
theorem tryParseLoop_eq_tryParse (expected : MessageType) (fuel : Nat) (p : MessageParser)
    (hfuel : p.weight < fuel) :
    tryParseLoop expected fuel [] p = tryParse expected p := by
  induction fuel using Nat.strongRecOn generalizing p with
  | ind fuel ih =>
      obtain ⟨fuel, rfl⟩ : ∃ k, fuel = k + 1 := ⟨fuel - 1, by omega⟩
      simp only [tryParse, tryParseLoop_succ]
      split
      · rfl
      · rcases hcut : p.getNextRawMessage expected with ⟨⟨e⟩ | ⟨_ | _⟩, p'⟩
        · rfl
        · rfl
        · have hlt := weight_getNextRawMessage hcut
          simp only
          cases decode p'.rawMessageBuffer.length expected p'.rawMessageBuffer with
          | value m rest => rfl
          | malformed e rest => rfl
          | incomplete =>
              simp only
              rw [ih fuel (by omega) p' (by omega)]
              by_cases hw : p.weight = fuel
              · rw [hw, ih fuel (by omega) p' (by omega)]
              · rw [ih p.weight (by omega) p' hlt]

/-- `try_parse` cuts once and then looks at the queue. -/
theorem tryParse_eq (expected : MessageType) (p : MessageParser) :
    p.tryParse expected =
      if p.buffer.length = 0 then (.ok none, p)
      else
        match p.getNextRawMessage expected with
        | (.error e, p) => (.error e, p)
        | (.ok false, p) => (.ok none, p)
        | (.ok true, p) => p.afterCut expected := by
  rw [tryParse, tryParseLoop_succ]
  split
  · rfl
  · rcases hcut : p.getNextRawMessage expected with ⟨⟨e⟩ | ⟨_ | _⟩, p'⟩
    · rfl
    · rfl
    · simp only [afterCut,
        tryParseLoop_eq_tryParse expected p.weight p' (weight_getNextRawMessage hcut)]

@[simp] theorem feed_feed (p : MessageParser) (x y : Bytes) :
    (p.feed x).feed y = p.feed (x ++ y) := by
  simp [feed]

/-- Bytes that arrive behind the buffer change no answer of `try_parse`: a message or an
exception stays, and after "nothing yet" they are read from where it stopped. -/
theorem tryParse_feed (expected : MessageType) (p : MessageParser) (received : Bytes) :
    (p.feed received).tryParse expected =
      match p.tryParse expected with
      | (.ok none, p') => (p'.feed received).tryParse expected
      | (r, p') => (r, p'.feed received) := by
  induction hw : p.weight using Nat.strongRecOn generalizing p with
  | ind n ih =>
      subst hw
      by_cases hbuffer : p.buffer.length = 0
      · rw [tryParse_eq expected p, if_pos hbuffer]
      · have hbuffer' : (p.feed received).buffer.length ≠ 0 := by
          simp only [feed, List.length_append]
          omega
        rw [tryParse_eq expected p, if_neg hbuffer]
        rcases hcut : p.getNextRawMessage expected with ⟨⟨e⟩ | ⟨_ | _⟩, p'⟩
        · rw [tryParse_eq, if_neg hbuffer',
            getNextRawMessage_feed received hbuffer (by simp) hcut]
        · rw [getNextRawMessage_false hcut]
        · have hlt := weight_getNextRawMessage hcut
          rw [tryParse_eq, if_neg hbuffer',
            getNextRawMessage_feed received hbuffer (by simp) hcut]
          simp only [afterCut]
          rw [show (p'.feed received).rawMessageBuffer = p'.rawMessageBuffer from rfl]
          cases decode p'.rawMessageBuffer.length expected p'.rawMessageBuffer with
          | value m rest => rfl
          | malformed e rest => rfl
          | incomplete => exact ih p'.weight hlt p' rfl

/-- `try_parse` delivers a message behind a cut that completes it; before that one, it
makes only cuts that leave the message open. -/
theorem tryParse_cases {expected : MessageType} {p p' : MessageParser} {m : Message}
    (h : p.tryParse expected = (.ok (some m), p')) :
    p.buffer.length ≠ 0 ∧ ∃ p₁, p.getNextRawMessage expected = (.ok true, p₁) ∧
      (decode p₁.rawMessageBuffer.length expected p₁.rawMessageBuffer = .incomplete ∧
          p₁.tryParse expected = (.ok (some m), p') ∨
        ∃ rest, decode p₁.rawMessageBuffer.length expected p₁.rawMessageBuffer = .value m rest ∧
          p' = { p₁ with rawMessageBuffer := rest }) := by
  rw [tryParse_eq] at h
  split at h
  · simp at h
  · next nonempty =>
      refine ⟨nonempty, ?_⟩
      rcases hcut : p.getNextRawMessage expected with ⟨⟨e⟩ | ⟨_ | _⟩, p₁⟩
      · simp [hcut] at h
      · simp [hcut] at h
      · refine ⟨p₁, rfl, ?_⟩
        simp only [hcut, afterCut] at h
        split at h
        · next hdecode => exact .inl ⟨hdecode, h⟩
        · next m' rest hdecode =>
            obtain ⟨hm, rfl⟩ := Prod.mk.inj h
            obtain rfl := Option.some.inj (Except.ok.inj hm)
            exact .inr ⟨rest, hdecode, rfl⟩
        · simp at h

/-- Delivering a message costs weight. -/
theorem weight_tryParse {expected : MessageType} {p p' : MessageParser} {m : Message}
    (h : p.tryParse expected = (.ok (some m), p')) : p'.weight < p.weight := by
  induction hw : p.weight using Nat.strongRecOn generalizing p with
  | ind n ih =>
      subst hw
      obtain ⟨-, p₁, hcut, hdecode⟩ := tryParse_cases h
      have hlt := weight_getNextRawMessage hcut
      obtain ⟨-, h⟩ | ⟨rest, -, rfl⟩ := hdecode
      · exact Nat.lt_trans (ih _ hlt h rfl) hlt
      · exact hlt

end MessageParser

end BuildYourOwnRedis
