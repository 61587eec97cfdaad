/-
  Resp/Message.lean --- `message.h`, `message_common.h` and `message.cpp`: the
  messages and their wire form.

  A `Message` of the sources is a type tag and a `std::variant` of string, int and
  vector.  Every constructor call in the sources stores the alternative that its
  tag calls for (a tag without a value stores the empty string), so the two are one
  inductive type here and a message whose variant contradicts its tag cannot be
  built.  The tag `Any` is only used to say which message is expected.
-/
import BuildYourOwnRedis.Utils

set_option autoImplicit false

namespace BuildYourOwnRedis

open Foundation

/-- `Message::Type`.  `any` is no type of a message but what a parser is asked for, and `leave`
is never written: it tells the handler to close. -/
inductive MessageType where
  | undefined
  | any
  | leave
  | simpleString
  | simpleError
  | integer
  | bulkString
  | syncResponse
  | array
  deriving DecidableEq, Repr, Inhabited

/-- `Message`, with its type and its value in one constructor.  There is no null: a bulk string
and an array without a value are empty ones, as in the sources, which write them with the
length -1. -/
inductive Message where
  | undefined
  | leave
  | simpleString (value : Bytes)
  | simpleError (value : Bytes)
  | integer (value : Int)
  | bulkString (value : Bytes)
  | syncResponse (value : Bytes)
  | array (elements : List Message)
  deriving Repr, Inhabited

/-! ## `message_common.h` -/

/-- `MESSAGE_UNDEFINED`. -/
def messageUndefined : Byte := 85

/-- `MESSAGE_SIMPLE_STRING`. -/
def messageSimpleString : Byte := 43

/-- `MESSAGE_SIMPLE_ERROR`. -/
def messageSimpleError : Byte := 45

/-- `MESSAGE_INTEGER`. -/
def messageInteger : Byte := 58

/-- `MESSAGE_BULK_STRING`. -/
def messageBulkString : Byte := 36

/-- `MESSAGE_ARRAY`. -/
def messageArray : Byte := 42

/-- `"\r\n"`. -/
def crlf : Bytes := [13, 10]

namespace Message

/-! ## Equality is decidable

The type is nested in `List`, so the instance is written by recursion over a
message and a list of messages together. -/

mutual

/-- Decide equality of two messages. -/
def decEq : (a b : Message) → Decidable (a = b)
  | .undefined, b =>
      match b with
      | .undefined => isTrue rfl
      | .leave | .simpleString _ | .simpleError _ | .integer _ | .bulkString _
      | .syncResponse _ | .array _ => isFalse nofun
  | .leave, b =>
      match b with
      | .leave => isTrue rfl
      | .undefined | .simpleString _ | .simpleError _ | .integer _ | .bulkString _
      | .syncResponse _ | .array _ => isFalse nofun
  | .simpleString x, b =>
      match b with
      | .simpleString y => decidable_of_iff (x = y) (by simp)
      | .undefined | .leave | .simpleError _ | .integer _ | .bulkString _
      | .syncResponse _ | .array _ => isFalse nofun
  | .simpleError x, b =>
      match b with
      | .simpleError y => decidable_of_iff (x = y) (by simp)
      | .undefined | .leave | .simpleString _ | .integer _ | .bulkString _
      | .syncResponse _ | .array _ => isFalse nofun
  | .integer x, b =>
      match b with
      | .integer y => decidable_of_iff (x = y) (by simp)
      | .undefined | .leave | .simpleString _ | .simpleError _ | .bulkString _
      | .syncResponse _ | .array _ => isFalse nofun
  | .bulkString x, b =>
      match b with
      | .bulkString y => decidable_of_iff (x = y) (by simp)
      | .undefined | .leave | .simpleString _ | .simpleError _ | .integer _
      | .syncResponse _ | .array _ => isFalse nofun
  | .syncResponse x, b =>
      match b with
      | .syncResponse y => decidable_of_iff (x = y) (by simp)
      | .undefined | .leave | .simpleString _ | .simpleError _ | .integer _
      | .bulkString _ | .array _ => isFalse nofun
  | .array xs, b =>
      match b with
      | .array ys =>
          match decEqAll xs ys with
          | isTrue h => isTrue (by rw [h])
          | isFalse h => isFalse (by simp [h])
      | .undefined | .leave | .simpleString _ | .simpleError _ | .integer _
      | .bulkString _ | .syncResponse _ => isFalse nofun

/-- Decide equality of two lists of messages. -/
def decEqAll : (xs ys : List Message) → Decidable (xs = ys)
  | [], [] => isTrue rfl
  | [], _ :: _ => isFalse nofun
  | _ :: _, [] => isFalse nofun
  | x :: xs, y :: ys =>
      match decEq x y, decEqAll xs ys with
      | isTrue h, isTrue h' => isTrue (by rw [h, h'])
      | isFalse h, _ => isFalse (by simp [h])
      | _, isFalse h' => isFalse (by simp [h'])

end

instance : DecidableEq Message := decEq

/-! ## The accessors and the wire form -/

/-- `Message::type`. -/
def type : Message → MessageType
  | .undefined => .undefined
  | .leave => .leave
  | .simpleString _ => .simpleString
  | .simpleError _ => .simpleError
  | .integer _ => .integer
  | .bulkString _ => .bulkString
  | .syncResponse _ => .syncResponse
  | .array _ => .array

mutual

/-- `Message::to_string`: an empty bulk string and an empty array are written with
length -1, a sync response without a trailing delimiter. -/
def toString : Message → Bytes
  | .undefined => messageUndefined :: crlf
  | .leave => []
  | .simpleString value => messageSimpleString :: value ++ crlf
  | .simpleError value => messageSimpleError :: value ++ crlf
  | .integer value => messageInteger :: decimalInt value ++ crlf
  | .bulkString data =>
      if data.length = 0 then messageBulkString :: ascii "-1\r\n"
      else messageBulkString :: decimal data.length ++ crlf ++ data ++ crlf
  | .syncResponse data => messageBulkString :: decimal data.length ++ crlf ++ data
  | .array elements =>
      if elements.length = 0 then messageArray :: ascii "-1\r\n"
      else messageArray :: decimal elements.length ++ crlf ++ toStringAll elements

/-- The encodings of the elements, one after the other. -/
def toStringAll : List Message → Bytes
  | [] => []
  | m :: ms => toString m ++ toStringAll ms

end

/-- `Message::size`, the number of bytes on the wire, which is what both ends of a replication
connection count. -/
def size (m : Message) : Nat := m.toString.length

@[simp] theorem toStringAll_nil : toStringAll [] = [] := by
  simp only [toStringAll]

@[simp] theorem toStringAll_cons (m : Message) (ms : List Message) :
    toStringAll (m :: ms) = m.toString ++ toStringAll ms := by
  simp only [toStringAll]

theorem toStringAll_eq_flatMap (ms : List Message) :
    toStringAll ms = ms.flatMap toString := by
  induction ms with
  | nil => simp
  | cons m ms ih => simp [ih]

example : (Message.array [.bulkString (ascii "GET"), .bulkString [], .integer (-5)]).toString =
    ascii "*3\r\n$3\r\nGET\r\n$-1\r\n:-5\r\n" := by decide

end Message

end BuildYourOwnRedis
