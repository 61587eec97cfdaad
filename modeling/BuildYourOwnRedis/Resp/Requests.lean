/-
  Resp/Requests.lean --- requests as a client writes them: an array of bulk strings,
  every argument with its length, an empty one included.
-/
import BuildYourOwnRedis.Resp.Framing

set_option autoImplicit false

namespace BuildYourOwnRedis

open Foundation

/-- One argument: `$len` CRLF, the bytes, CRLF. -/
def encodeArgument (argument : Bytes) : Bytes :=
  messageBulkString :: decimal argument.length ++ crlf ++ argument ++ crlf

/-- One request: `*n` CRLF, then its arguments. -/
def encodeRequest (arguments : List Bytes) : Bytes :=
  messageArray :: decimal arguments.length ++ crlf ++ arguments.flatMap encodeArgument

/-- The message a request stands for. -/
def requestMessage (arguments : List Bytes) : Message :=
  .array (arguments.map .bulkString)

/-- Lengths that fit an `int`, which is what `parseInt` reads.  Beyond them a request is
written with a length that the parser refuses. -/
def RequestFits (arguments : List Bytes) : Prop :=
  arguments.length < 2 ^ 31 ∧ ∀ argument ∈ arguments, argument.length < 2 ^ 31

theorem encodesAll_bulkStrings {arguments : List Bytes}
    (h : ∀ argument ∈ arguments, argument.length < 2 ^ 31) :
    EncodesAll (arguments.map .bulkString) (arguments.map .bulk) := by
  induction arguments with
  | nil => exact .nil
  | cons argument arguments ih =>
      have hfirst : Encodes (.bulkString argument) [.bulk argument] :=
        .bulkString (h argument (by simp))
      exact .cons hfirst (ih fun a ha => h a (by simp [ha]))

theorem encodes_request {arguments : List Bytes} (h : RequestFits arguments) :
    Encodes (requestMessage arguments)
      (.line (messageArray :: decimal arguments.length) :: arguments.map .bulk) := by
  have hall := encodesAll_bulkStrings h.2
  have hlen : (arguments.map Message.bulkString).length < 2 ^ 31 := by simpa using h.1
  simpa [requestMessage] using Encodes.array hlen hall

theorem bytes_request (arguments : List Bytes) :
    (Frame.line (messageArray :: decimal arguments.length) ::
      arguments.map Frame.bulk).flatMap Frame.bytes = encodeRequest arguments := by
  simp only [List.flatMap_cons, List.flatMap_map, Frame.bytes, encodeRequest]
  rfl

/-- A request is read back in front of any further bytes. -/
theorem reads_request {arguments : List Bytes} (h : RequestFits arguments) :
    Reads (requestMessage arguments) (encodeRequest arguments) := by
  rw [← bytes_request]
  exact reads_of_encodes (encodes_request h)

/-- **Request decoding.**  A stream of requests of any content, delimiters included, is read as
exactly one array of bulk strings per request, and leaves a parser without unread state. -/
theorem readAtOnce_requests (requests : List (List Bytes))
    (h : ∀ arguments ∈ requests, RequestFits arguments) :
    readAtOnce (fun _ => .any) (requests.flatMap encodeRequest) =
      ⟨requests.map requestMessage, .ok MessageParser.fresh⟩ := by
  have hstream := readAtOnce_of_reads
    (requests.map fun arguments => (requestMessage arguments, encodeRequest arguments))
    (by
      intro x hx
      obtain ⟨arguments, hmem, rfl⟩ := List.mem_map.mp hx
      exact reads_request (h arguments hmem))
  simpa [List.flatMap_map, List.map_map, Function.comp_def] using hstream

/-- Two pipelined requests whose payloads look like headers, and an empty one. -/
theorem readAtOnce_requests_pipelined :
    readAtOnce (fun _ => .any)
        ([[ascii "SET", [], ascii "a\r\n$3\r\n"], [], [ascii "*1\r\n"]].flatMap encodeRequest) =
      ⟨[.array [.bulkString (ascii "SET"), .bulkString [], .bulkString (ascii "a\r\n$3\r\n")],
        .array [], .array [.bulkString (ascii "*1\r\n")]], .ok MessageParser.fresh⟩ :=
  readAtOnce_requests [[ascii "SET", [], ascii "a\r\n$3\r\n"], [], [ascii "*1\r\n"]]
    (by
      have hfits : ∀ arguments ∈ [[ascii "SET", [], ascii "a\r\n$3\r\n"], [], [ascii "*1\r\n"]],
          arguments.length < 4 ∧ ∀ argument ∈ arguments, argument.length < 8 := by decide
      intro arguments hmem
      obtain ⟨hcount, hsize⟩ := hfits arguments hmem
      exact ⟨by omega, fun argument ha => by have := hsize argument ha; omega⟩)

end BuildYourOwnRedis
