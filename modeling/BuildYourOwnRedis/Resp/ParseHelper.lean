/-
  Resp/ParseHelper.lean --- `ParseHelper` of `message_parser.cpp`: reading one
  message from the queue of raw lines and payloads.

  `parse` takes raw messages from the front of the queue and keeps them on a stack,
  so that they can be put back when the queue ends in the middle of a message.
  `decode` is the same reading without the stack: a function of the queue alone.
  The two are connected by `parse_spec`, and what later modules need about parsing
  is proved of `decode`: its outcome does not change when raw messages are appended
  behind the queue (`decode_append`).
-/
import BuildYourOwnRedis.Resp.Message

set_option autoImplicit false

namespace BuildYourOwnRedis

open Foundation

/-- What the parser throws.  Only the first one has a text of the program's own; the second
comes from the library, which is to copy a range that ends before it begins. -/
inductive ParseError where
  /-- `std::runtime_error` with this text -/
  | runtimeError (what : Bytes)
  /-- a payload cut outside the read buffer, which throws `std::length_error` -/
  | outsideBuffer
  deriving DecidableEq, Repr

/-- `ParseHelper`: the queue it works on and the raw messages taken from it, the
last one first. -/
structure ParseHelper where
  buffer : List Bytes
  ungetStack : List Bytes
  deriving DecidableEq, Repr

namespace ParseHelper

/-- `ParseHelper::size`. -/
def size (h : ParseHelper) : Nat := h.buffer.length

/-- `ParseHelper::get`, called with a non-empty queue only. -/
def get (h : ParseHelper) : Bytes × ParseHelper :=
  (h.buffer.headD [], ⟨h.buffer.tail, h.buffer.headD [] :: h.ungetStack⟩)

/-- `ParseHelper::unget`, called with a non-empty stack only. -/
def unget (h : ParseHelper) : ParseHelper :=
  ⟨h.ungetStack.headD [] :: h.buffer, h.ungetStack.tail⟩

/-- `ParseHelper::unget_all`: `unget` as long as the stack is not empty. -/
def ungetAll (h : ParseHelper) : ParseHelper :=
  h.ungetStack.foldl (fun h _ => h.unget) h

/-- The outcome of a parsing function: an exception, nothing yet or a value,
together with the helper afterwards. -/
abbrev Outcome (α : Type) : Type := Except ParseError (Option α) × ParseHelper

/-! ## `ParseHelper::parse`, branch by branch -/

/-- The branch of `:`. -/
def parseInteger (rawMessage : Bytes) (h : ParseHelper) : Outcome Message :=
  match if 1 < rawMessage.length then parseInt rawMessage.tail else none with
  | some value => (.ok (some (.integer value)), h)
  | none =>
      (.error (.runtimeError (ascii "Malformed integer message: " ++ rawMessage)), h)

/-- The branch of `$`. For a length of -1 there is no payload; for any other it is the next raw
message, and without one everything is put back. -/
def parseBulkString (expected : MessageType) (rawMessage : Bytes) (h : ParseHelper) :
    Outcome Message :=
  let message := if expected = .syncResponse then Message.syncResponse else Message.bulkString
  let malformed := ParseError.runtimeError
    (ascii "Malformed length for bulk string message: " ++ rawMessage)
  if rawMessage.length = 1 then (.error malformed, h)
  else
    match parseInt rawMessage.tail with
    | none => (.error malformed, h)
    | some length =>
        if length = -1 then (.ok (some (message [])), h)
        else if h.size = 0 then (.ok none, h.ungetAll)
        else (.ok (some (message h.get.1)), h.get.2)

/-- The loop over the elements of an array; `element` is the recursive call. -/
def parseElements (element : ParseHelper → Outcome Message) :
    Nat → List Message → ParseHelper → Outcome (List Message)
  | 0, messages, h => (.ok (some messages), h)
  | n + 1, messages, h =>
      match element h with
      | (.ok (some message), h) => parseElements element n (messages ++ [message]) h
      | (.ok none, h) => (.ok none, h.ungetAll)
      | (.error e, h) => (.error e, h)

/-- The branch of `*`.  Its elements are parsed as any type of message.  Where the queue ends
inside one of them, the raw messages of all elements before it are put back too. -/
def parseArray (element : ParseHelper → Outcome Message) (rawMessage : Bytes)
    (h : ParseHelper) : Outcome Message :=
  let malformed := ParseError.runtimeError
    (ascii "Malformed length for array message: " ++ rawMessage)
  if rawMessage.length = 1 then (.error malformed, h)
  else
    match parseInt rawMessage.tail with
    | none => (.error malformed, h)
    | some length =>
        if length = -1 then (.ok (some (.array [])), h)
        else
          match parseElements element length.toNat [] h with
          | (.ok (some messages), h) => (.ok (some (.array messages)), h)
          | (.ok none, h) => (.ok none, h)
          | (.error e, h) => (.error e, h)

/-- `ParseHelper::parse`.  Every nested call has taken a raw message from the queue,
so the length of the queue is fuel enough. -/
def parseFuel : Nat → MessageType → ParseHelper → Outcome Message
  | 0, _, h => (.ok none, h)
  | fuel + 1, expected, h =>
      if h.size = 0 then (.ok none, h)
      else
        let rawMessage := h.get.1
        let h := h.get.2
        let type := rawMessage.headD 0
        if type = messageSimpleString then
          (.ok (some (.simpleString rawMessage.tail)), h)
        else if type = messageSimpleError then
          (.ok (some (.simpleError rawMessage.tail)), h)
        else if type = messageInteger then parseInteger rawMessage h
        else if type = messageBulkString then parseBulkString expected rawMessage h
        else if type = messageArray then parseArray (parseFuel fuel .any) rawMessage h
        else (.error (.runtimeError (ascii "Unknown message type: " ++ rawMessage)), h)

/-- `ParseHelper::parse`.  The recursion goes down by one raw message at each level, so the
length of the queue is fuel enough. -/
def parse (expected : MessageType) (h : ParseHelper) : Outcome Message :=
  parseFuel h.size expected h

/-! ## The stack -/

theorem foldl_unget (l buffer : List Bytes) :
    l.foldl (fun h _ => h.unget) (⟨buffer, l⟩ : ParseHelper) = ⟨l.reverse ++ buffer, []⟩ := by
  induction l generalizing buffer with
  | nil => rfl
  | cons top l ih =>
      have hstep : (⟨buffer, top :: l⟩ : ParseHelper).unget = ⟨top :: buffer, l⟩ := rfl
      rw [List.foldl_cons, hstep, ih]
      simp

theorem ungetAll_eq (h : ParseHelper) :
    h.ungetAll = ⟨h.ungetStack.reverse ++ h.buffer, []⟩ :=
  foldl_unget h.ungetStack h.buffer

@[simp] theorem ungetStack_ungetAll (h : ParseHelper) : h.ungetAll.ungetStack = [] := by
  rw [ungetAll_eq]

/-- Putting everything back twice is putting it back once. -/
theorem ungetAll_of_ungetStack_eq_nil {h : ParseHelper} (hnil : h.ungetStack = []) :
    h.ungetAll = h := by
  obtain ⟨buffer, stack⟩ := h
  obtain rfl : stack = [] := hnil
  rfl

/-- Taking raw messages and keeping them on the stack loses nothing. -/
theorem ungetAll_advance (used rest stack : List Bytes) :
    (⟨rest, used.reverse ++ stack⟩ : ParseHelper).ungetAll =
      (⟨used ++ rest, stack⟩ : ParseHelper).ungetAll := by
  simp [ungetAll_eq]

end ParseHelper

/-! ## Reading a queue without the stack -/

/-- The outcome of reading the front of a queue: what `parse` does, without the stack of the
raw messages that were taken. -/
inductive Decoded (α : Type) where
  /-- the queue ends inside the value -/
  | incomplete
  | value (a : α) (rest : List Bytes)
  | malformed (e : ParseError) (rest : List Bytes)

namespace Decoded

variable {α β : Type}

/-- Change the value read. -/
def map (f : α → β) : Decoded α → Decoded β
  | .incomplete => .incomplete
  | .value a rest => .value (f a) rest
  | .malformed e rest => .malformed e rest

/-- The same outcome with raw messages appended behind the queue. -/
def extend (more : List Bytes) : Decoded α → Decoded α
  | .incomplete => .incomplete
  | .value a rest => .value a (rest ++ more)
  | .malformed e rest => .malformed e (rest ++ more)

theorem extend_map (f : α → β) (more : List Bytes) (d : Decoded α) :
    (d.map f).extend more = (d.extend more).map f := by
  cases d <;> rfl

end Decoded

/-- The value of a `$` line: the length line is followed by its payload. -/
def decodeBulkString (expected : MessageType) (rawMessage : Bytes) (rest : List Bytes) :
    Decoded Message :=
  let message := if expected = .syncResponse then Message.syncResponse else Message.bulkString
  match parseInt rawMessage.tail with
  | none => .malformed (.runtimeError
      (ascii "Malformed length for bulk string message: " ++ rawMessage)) rest
  | some length =>
      if length = -1 then .value (message []) rest
      else
        match rest with
        | [] => .incomplete
        | payload :: rest => .value (message payload) rest

/-- So many values in a row. -/
def decodeElements (element : List Bytes → Decoded Message) :
    Nat → List Message → List Bytes → Decoded (List Message)
  | 0, messages, queue => .value messages queue
  | n + 1, messages, queue =>
      match element queue with
      | .incomplete => .incomplete
      | .value message rest => decodeElements element n (messages ++ [message]) rest
      | .malformed e rest => .malformed e rest

/-- The value of a `*` line: its elements follow. -/
def decodeArray (element : List Bytes → Decoded Message) (rawMessage : Bytes)
    (rest : List Bytes) : Decoded Message :=
  match parseInt rawMessage.tail with
  | none => .malformed (.runtimeError
      (ascii "Malformed length for array message: " ++ rawMessage)) rest
  | some length =>
      if length = -1 then .value (.array []) rest
      else (decodeElements element length.toNat [] rest).map .array

/-- The value at the front of a queue of raw messages. -/
def decode : Nat → MessageType → List Bytes → Decoded Message
  | 0, _, _ => .incomplete
  | _ + 1, _, [] => .incomplete
  | fuel + 1, expected, rawMessage :: rest =>
      let type := rawMessage.headD 0
      if type = messageSimpleString then .value (.simpleString rawMessage.tail) rest
      else if type = messageSimpleError then .value (.simpleError rawMessage.tail) rest
      else if type = messageInteger then
        match parseInt rawMessage.tail with
        | some value => .value (.integer value) rest
        | none => .malformed (.runtimeError
            (ascii "Malformed integer message: " ++ rawMessage)) rest
      else if type = messageBulkString then decodeBulkString expected rawMessage rest
      else if type = messageArray then decodeArray (decode fuel .any) rawMessage rest
      else .malformed (.runtimeError (ascii "Unknown message type: " ++ rawMessage)) rest

/-! ## `parse` is `decode` -/

namespace ParseHelper

/-- How an outcome of `decode` on the queue of `h` shows in the helper. -/
def Shows {α : Type} (h : ParseHelper) : Decoded α → Outcome α → Prop
  | .incomplete, o => ∃ h', o = (.ok none, h') ∧ h'.ungetAll = h.ungetAll
  | .value a rest, o => ∃ used, h.buffer = used ++ rest ∧
      o = (.ok (some a), ⟨rest, used.reverse ++ h.ungetStack⟩)
  | .malformed e rest, o => ∃ used, h.buffer = used ++ rest ∧
      o = (.error e, ⟨rest, used.reverse ++ h.ungetStack⟩)

/-- Raw messages taken before the outcome belong to what the outcome used. -/
theorem Shows.advance {α : Type} {used rest stack : List Bytes} {d : Decoded α}
    {o : Outcome α} (h : Shows ⟨rest, used.reverse ++ stack⟩ d o) :
    Shows ⟨used ++ rest, stack⟩ d o := by
  cases d with
  | incomplete =>
      obtain ⟨h', ho, hback⟩ := h
      exact ⟨h', ho, by rw [hback, ungetAll_advance]⟩
  | value a rest' =>
      obtain ⟨used', hbuf, ho⟩ := h
      simp only at hbuf ho
      exact ⟨used ++ used', by rw [hbuf, List.append_assoc], by simp [ho]⟩
  | malformed e rest' =>
      obtain ⟨used', hbuf, ho⟩ := h
      simp only at hbuf ho
      exact ⟨used ++ used', by rw [hbuf, List.append_assoc], by simp [ho]⟩

/-- The loop over the elements.  The induction is on the number of elements still to
come; in front of each turn the helper is `h` advanced by what was used so far. -/
theorem parseElements_spec {element : ParseHelper → Outcome Message}
    {decodeElement : List Bytes → Decoded Message}
    (helement : ∀ h, Shows h (decodeElement h.buffer) (element h))
    (n : Nat) (messages : List Message) (h : ParseHelper) :
    Shows h (decodeElements decodeElement n messages h.buffer)
      (parseElements element n messages h) := by
  induction n generalizing messages h with
  | zero => exact ⟨[], by simp, by simp [parseElements]⟩
  | succ n ih =>
      have hturn := helement h
      simp only [parseElements, decodeElements]
      cases hd : decodeElement h.buffer with
      | incomplete =>
          rw [hd] at hturn
          obtain ⟨h', ho, hback⟩ := hturn
          rw [ho]
          exact ⟨h'.ungetAll, rfl, by rw [ungetAll_of_ungetStack_eq_nil (by simp), hback]⟩
      | malformed e rest =>
          rw [hd] at hturn
          obtain ⟨used, hbuf, ho⟩ := hturn
          rw [ho]
          exact ⟨used, hbuf, rfl⟩
      | value message rest =>
          rw [hd] at hturn
          obtain ⟨used, hbuf, ho⟩ := hturn
          obtain ⟨buffer, stack⟩ := h
          obtain rfl : buffer = used ++ rest := hbuf
          rw [ho]
          exact (ih (messages ++ [message]) ⟨rest, used.reverse ++ stack⟩).advance

theorem parseInteger_spec (rawMessage : Bytes) (rest stack : List Bytes) :
    Shows ⟨rest, stack⟩
      (match parseInt rawMessage.tail with
        | some value => .value (.integer value) rest
        | none => .malformed (.runtimeError
            (ascii "Malformed integer message: " ++ rawMessage)) rest)
      (parseInteger rawMessage ⟨rest, stack⟩) := by
  -- a raw message of one byte has nothing behind its type, which `parseInt` refuses too
  have hshort : (if 1 < rawMessage.length then parseInt rawMessage.tail else none) =
      parseInt rawMessage.tail := by
    split
    · rfl
    · next hlen =>
        have hnil : rawMessage.tail = [] := by
          apply List.eq_nil_of_length_eq_zero
          simp only [List.length_tail]
          omega
        rw [hnil]
        rfl
  rw [parseInteger, hshort]
  cases parseInt rawMessage.tail with
  | none => exact ⟨[], rfl, rfl⟩
  | some value => exact ⟨[], rfl, rfl⟩

/-- `raw_message.size() == 1` is the case of an empty length, which `parseInt`
refuses. -/
theorem parseInt_tail_of_length_eq_one {rawMessage : Bytes} (h : rawMessage.length = 1) :
    parseInt rawMessage.tail = none := by
  obtain ⟨b, rfl⟩ := List.length_eq_one_iff.mp h
  rfl

theorem parseBulkString_spec (expected : MessageType) (rawMessage : Bytes)
    (rest stack : List Bytes) :
    Shows ⟨rest, stack⟩ (decodeBulkString expected rawMessage rest)
      (parseBulkString expected rawMessage ⟨rest, stack⟩) := by
  by_cases hone : rawMessage.length = 1
  · simp only [parseBulkString, decodeBulkString, hone, if_true,
      parseInt_tail_of_length_eq_one hone]
    exact ⟨[], rfl, rfl⟩
  · simp only [parseBulkString, decodeBulkString, hone, if_false]
    cases parseInt rawMessage.tail with
    | none => exact ⟨[], rfl, rfl⟩
    | some length =>
        by_cases hnull : length = -1
        · simp only [hnull, if_true]
          exact ⟨[], rfl, rfl⟩
        · cases rest with
          | nil =>
              simp only [hnull, if_false, size, List.length_nil, if_true]
              exact ⟨_, rfl, ungetAll_of_ungetStack_eq_nil (by simp)⟩
          | cons payload rest =>
              simp only [hnull, if_false, size, List.length_cons, Nat.add_eq_zero_iff,
                Nat.one_ne_zero, and_false]
              exact ⟨[payload], rfl, rfl⟩

theorem parseArray_spec {element : ParseHelper → Outcome Message}
    {decodeElement : List Bytes → Decoded Message}
    (helement : ∀ h, Shows h (decodeElement h.buffer) (element h))
    (rawMessage : Bytes) (rest stack : List Bytes) :
    Shows ⟨rest, stack⟩ (decodeArray decodeElement rawMessage rest)
      (parseArray element rawMessage ⟨rest, stack⟩) := by
  by_cases hone : rawMessage.length = 1
  · simp only [parseArray, decodeArray, hone, if_true, parseInt_tail_of_length_eq_one hone]
    exact ⟨[], rfl, rfl⟩
  · simp only [parseArray, decodeArray, hone, if_false]
    cases parseInt rawMessage.tail with
    | none => exact ⟨[], rfl, rfl⟩
    | some length =>
        by_cases hnull : length = -1
        · simp only [hnull, if_true]
          exact ⟨[], rfl, rfl⟩
        · simp only [hnull, if_false]
          have hloop := parseElements_spec helement length.toNat [] ⟨rest, stack⟩
          simp only at hloop
          cases hd : decodeElements decodeElement length.toNat [] rest with
          | incomplete =>
              rw [hd] at hloop
              obtain ⟨h', ho, hback⟩ := hloop
              rw [ho]
              exact ⟨h', rfl, hback⟩
          | value messages rest' =>
              rw [hd] at hloop
              obtain ⟨used, hbuf, ho⟩ := hloop
              rw [ho]
              exact ⟨used, hbuf, rfl⟩
          | malformed e rest' =>
              rw [hd] at hloop
              obtain ⟨used, hbuf, ho⟩ := hloop
              rw [ho]
              exact ⟨used, hbuf, rfl⟩

/-- Parsing is decoding the queue; what it used is on the stack, and when the queue
ended too early everything can be put back. -/
theorem parseFuel_spec (fuel : Nat) (expected : MessageType) (h : ParseHelper) :
    Shows h (decode fuel expected h.buffer) (parseFuel fuel expected h) := by
  induction fuel generalizing expected h with
  | zero => exact ⟨h, rfl, rfl⟩
  | succ fuel ih =>
      obtain ⟨buffer, stack⟩ := h
      cases buffer with
      | nil => exact ⟨_, rfl, rfl⟩
      | cons rawMessage rest =>
          refine @Shows.advance Message [rawMessage] rest stack _ _ ?_
          simp only [parseFuel, decode, size, List.length_cons, Nat.add_eq_zero_iff,
            Nat.one_ne_zero, and_false, if_false, get, List.headD_cons, List.tail_cons]
          by_cases h1 : rawMessage.headD 0 = messageSimpleString
          · simp only [h1, if_true]
            exact ⟨[], rfl, rfl⟩
          by_cases h2 : rawMessage.headD 0 = messageSimpleError
          · simp only [h2, ↓reduceIte]
            exact ⟨[], rfl, rfl⟩
          by_cases h3 : rawMessage.headD 0 = messageInteger
          · simp only [h3, ↓reduceIte]
            exact parseInteger_spec rawMessage rest _
          by_cases h4 : rawMessage.headD 0 = messageBulkString
          · simp only [h4, ↓reduceIte]
            exact parseBulkString_spec expected rawMessage rest _
          by_cases h5 : rawMessage.headD 0 = messageArray
          · simp only [h5, ↓reduceIte]
            exact parseArray_spec (ih .any) rawMessage rest _
          · simp only [h1, h2, h3, h4, h5, ↓reduceIte]
            exact ⟨[], rfl, rfl⟩

/-! ## An incomplete message is put back -/

theorem parseElements_eq_none {element : ParseHelper → Outcome Message} {n : Nat}
    {messages : List Message} {h h' : ParseHelper}
    (heq : parseElements element n messages h = (.ok none, h')) : h'.ungetStack = [] := by
  induction n generalizing messages h with
  | zero => simp [parseElements] at heq
  | succ n ih =>
      simp only [parseElements] at heq
      split at heq
      · exact ih heq
      · next h₁ _ =>
          obtain rfl : h₁.ungetAll = h' := by simpa using heq
          simp
      · simp at heq

theorem parseBulkString_eq_none {expected : MessageType} {rawMessage : Bytes}
    {h h' : ParseHelper}
    (heq : parseBulkString expected rawMessage h = (.ok none, h')) :
    h'.ungetStack = [] := by
  simp only [parseBulkString] at heq
  grind [ungetStack_ungetAll]

theorem parseArray_eq_none {element : ParseHelper → Outcome Message} {rawMessage : Bytes}
    {h h' : ParseHelper} (heq : parseArray element rawMessage h = (.ok none, h')) :
    h'.ungetStack = [] := by
  simp only [parseArray] at heq
  grind [parseElements_eq_none]

/-- When `parse` returns nothing it has put everything back, or taken nothing. -/
theorem parseFuel_eq_none {fuel : Nat} {expected : MessageType} {h h' : ParseHelper}
    (heq : parseFuel fuel expected h = (.ok none, h')) : h' = h ∨ h'.ungetStack = [] := by
  cases fuel with
  | zero => exact Or.inl (by simpa [parseFuel] using heq.symm)
  | succ fuel =>
      simp only [parseFuel] at heq
      grind [parseInteger, parseBulkString_eq_none, parseArray_eq_none]

/-- `parse` on a fresh stack, in terms of the queue alone. -/
theorem parse_eq_decode (expected : MessageType) (queue : List Bytes) :
    parse expected ⟨queue, []⟩ =
      match decode queue.length expected queue with
      | .incomplete => (.ok none, ⟨queue, []⟩)
      | .value m rest => (.ok (some m), ⟨rest, (queue.take (queue.length - rest.length)).reverse⟩)
      | .malformed e rest =>
          (.error e, ⟨rest, (queue.take (queue.length - rest.length)).reverse⟩) := by
  have hspec := parseFuel_spec queue.length expected ⟨queue, []⟩
  simp only [parse, size]
  cases hd : decode queue.length expected queue with
  | incomplete =>
      simp only [hd] at hspec
      obtain ⟨h', ho, hback⟩ := hspec
      have hfresh : h' = ⟨queue, []⟩ := by
        rcases parseFuel_eq_none ho with rfl | hnil
        · rfl
        · rw [← ungetAll_of_ungetStack_eq_nil hnil, hback]
          rfl
      rw [ho, hfresh]
  | value m rest =>
      simp only [hd] at hspec
      obtain ⟨used, hbuf, ho⟩ := hspec
      simp only at hbuf
      rw [ho, hbuf]
      simp
  | malformed e rest =>
      simp only [hd] at hspec
      obtain ⟨used, hbuf, ho⟩ := hspec
      simp only at hbuf
      rw [ho, hbuf]
      simp

end ParseHelper

/-! ## The type byte -/

/-- The type byte of the first raw message decides how the queue is read: it is a value of
its own, or malformed, or the line of a payload or of elements. -/
theorem decode_cons (expected : MessageType) (rawMessage : Bytes) :
    (rawMessage.headD 0 ≠ messageBulkString ∧ ∃ m, ∀ fuel rest,
      decode (fuel + 1) expected (rawMessage :: rest) = .value m rest) ∨
    (rawMessage.headD 0 ≠ messageBulkString ∧ ∃ e, ∀ fuel rest,
      decode (fuel + 1) expected (rawMessage :: rest) = .malformed e rest) ∨
    (rawMessage.headD 0 = messageBulkString ∧ ∀ fuel rest,
      decode (fuel + 1) expected (rawMessage :: rest) =
        decodeBulkString expected rawMessage rest) ∨
    (rawMessage.headD 0 = messageArray ∧ ∀ fuel rest,
      decode (fuel + 1) expected (rawMessage :: rest) =
        decodeArray (decode fuel .any) rawMessage rest) := by
  simp only [decode]
  by_cases h1 : rawMessage.headD 0 = messageSimpleString
  · refine Or.inl ⟨by rw [h1]; decide, .simpleString rawMessage.tail, fun fuel rest => ?_⟩
    rw [if_pos h1]
  by_cases h2 : rawMessage.headD 0 = messageSimpleError
  · refine Or.inl ⟨by rw [h2]; decide, .simpleError rawMessage.tail, fun fuel rest => ?_⟩
    rw [if_neg h1, if_pos h2]
  by_cases h3 : rawMessage.headD 0 = messageInteger
  · have hother : rawMessage.headD 0 ≠ messageBulkString := by
      rw [h3]
      decide
    simp only [if_neg h1, if_neg h2, if_pos h3]
    cases parseInt rawMessage.tail with
    | some value => exact Or.inl ⟨hother, .integer value, fun _ _ => rfl⟩
    | none => exact Or.inr (Or.inl ⟨hother, _, fun _ _ => rfl⟩)
  by_cases h4 : rawMessage.headD 0 = messageBulkString
  · refine Or.inr (Or.inr (Or.inl ⟨h4, fun fuel rest => ?_⟩))
    rw [if_neg h1, if_neg h2, if_neg h3, if_pos h4]
  by_cases h5 : rawMessage.headD 0 = messageArray
  · refine Or.inr (Or.inr (Or.inr ⟨h5, fun fuel rest => ?_⟩))
    rw [if_neg h1, if_neg h2, if_neg h3, if_neg h4, if_pos h5]
  · simp only [if_neg h1, if_neg h2, if_neg h3, if_neg h4, if_neg h5]
    exact Or.inr (Or.inl ⟨h4, _, fun _ _ => rfl⟩)

/-! ## Raw messages behind the value make no difference -/

theorem decodeBulkString_append {expected : MessageType} {rawMessage : Bytes}
    {rest : List Bytes} (more : List Bytes)
    (h : decodeBulkString expected rawMessage rest ≠ .incomplete) :
    decodeBulkString expected rawMessage (rest ++ more) =
      (decodeBulkString expected rawMessage rest).extend more := by
  simp only [decodeBulkString] at h ⊢
  cases hlen : parseInt rawMessage.tail with
  | none => rfl
  | some length =>
      simp only [hlen] at h
      by_cases hnull : length = -1
      · simp [hnull, Decoded.extend]
      · cases rest with
        | nil => simp [hnull] at h
        | cons payload rest => simp [hnull, Decoded.extend]

theorem decodeElements_append {element element' : List Bytes → Decoded Message}
    (helement : ∀ queue more, element queue ≠ .incomplete →
      element' (queue ++ more) = (element queue).extend more)
    (n : Nat) (messages : List Message) (queue more : List Bytes)
    (h : decodeElements element n messages queue ≠ .incomplete) :
    decodeElements element' n messages (queue ++ more) =
      (decodeElements element n messages queue).extend more := by
  induction n generalizing messages queue with
  | zero => rfl
  | succ n ih =>
      simp only [decodeElements] at h ⊢
      cases hd : element queue with
      | incomplete => simp [hd] at h
      | malformed e rest =>
          rw [helement queue more (by simp [hd]), hd]
          rfl
      | value m rest =>
          rw [helement queue more (by simp [hd]), hd]
          exact ih _ rest (by simpa [hd] using h)

theorem decodeArray_append {element element' : List Bytes → Decoded Message}
    (helement : ∀ queue more, element queue ≠ .incomplete →
      element' (queue ++ more) = (element queue).extend more)
    {rawMessage : Bytes} {rest : List Bytes} (more : List Bytes)
    (h : decodeArray element rawMessage rest ≠ .incomplete) :
    decodeArray element' rawMessage (rest ++ more) =
      (decodeArray element rawMessage rest).extend more := by
  simp only [decodeArray] at h ⊢
  cases hlen : parseInt rawMessage.tail with
  | none => rfl
  | some length =>
      simp only [hlen] at h
      by_cases hnull : length = -1
      · simp [hnull, Decoded.extend]
      · simp only [hnull, if_false] at h ⊢
        rw [Decoded.extend_map,
          decodeElements_append helement _ _ _ _ (fun hinc => h (by rw [hinc]; rfl))]

/-- A complete or malformed value at the front of the queue stays what it is when raw
messages are appended; more fuel does not change it either. -/
theorem decode_append {fuel fuel' : Nat} (hfuel : fuel ≤ fuel') (expected : MessageType)
    (queue more : List Bytes) (h : decode fuel expected queue ≠ .incomplete) :
    decode fuel' expected (queue ++ more) = (decode fuel expected queue).extend more := by
  induction fuel generalizing fuel' expected queue more with
  | zero => simp [decode] at h
  | succ fuel ih =>
      obtain ⟨fuel', rfl⟩ : ∃ k, fuel' = k + 1 := ⟨fuel' - 1, by omega⟩
      cases queue with
      | nil => simp [decode] at h
      | cons rawMessage rest =>
          rw [List.cons_append]
          rcases decode_cons expected rawMessage with ⟨-, m, hread⟩ | ⟨-, e, hread⟩ |
            ⟨-, hread⟩ | ⟨-, hread⟩
          · rw [hread, hread]
            rfl
          · rw [hread, hread]
            rfl
          · rw [hread] at h
            rw [hread, hread]
            exact decodeBulkString_append more h
          · rw [hread] at h
            rw [hread, hread]
            exact decodeArray_append (fun queue more hq => ih (by omega) .any queue more hq)
              more h

end BuildYourOwnRedis
