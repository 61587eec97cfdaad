/-
  Resp/Reader.lean --- the read side of a connection: the loop of
  `Handler::process_read` that asks the parser until it returns nothing.

  `Talker::expected` is asked before every call of `try_parse`, so the expected type
  is a function of the messages passed to `Talker::listen` so far.  The parser is a
  pull parser in the sense of `Foundation/Puller.lean`, and the general theorem about
  those says that the messages do not depend on how the bytes were received.
-/
import BuildYourOwnRedis.Foundation.Puller
import BuildYourOwnRedis.Resp.MessageParser

set_option autoImplicit false

namespace BuildYourOwnRedis

open Foundation

namespace MessageParser

/-- One call of `try_parse` as the loop of `process_read` sees it. -/
def pull (expected : MessageType) (p : MessageParser) :
    Pulled MessageParser Message ParseError :=
  match p.tryParse expected with
  | (.ok none, p') => .idle p'
  | (.ok (some m), p') => .item m p'
  | (.error e, _) => .fault e

theorem pull_eq_item {expected : MessageType} {p p' : MessageParser} {m : Message} :
    p.pull expected = .item m p' ↔ p.tryParse expected = (.ok (some m), p') := by
  simp only [pull]
  split <;> simp_all

theorem pull_eq_idle {expected : MessageType} {p p' : MessageParser} :
    p.pull expected = .idle p' ↔ p.tryParse expected = (.ok none, p') := by
  simp only [pull]
  split <;> simp_all

theorem pull_eq_fault {expected : MessageType} {p : MessageParser} {e : ParseError} :
    p.pull expected = .fault e ↔ ∃ p', p.tryParse expected = (.error e, p') := by
  simp only [pull]
  split <;> simp_all

end MessageParser

/-- The message parser is a pull parser: received bytes are fed into the read buffer,
and the mode is the expected type. -/
def messagePuller : Puller MessageType Byte MessageParser Message ParseError where
  pull := MessageParser.pull
  feed := MessageParser.feed
  weight := MessageParser.weight
  feed_feed := MessageParser.feed_feed
  weight_item := by
    intro expected p m p' h
    exact MessageParser.weight_tryParse (MessageParser.pull_eq_item.mp h)
  item_feed := by
    intro expected p m p' received h
    rw [MessageParser.pull_eq_item] at h ⊢
    rw [MessageParser.tryParse_feed, h]
  fault_feed := by
    intro expected p e received h
    rw [MessageParser.pull_eq_fault] at h ⊢
    obtain ⟨p', h⟩ := h
    exact ⟨p'.feed received, by rw [MessageParser.tryParse_feed, h]⟩
  idle_feed := by
    intro expected p p' received h
    rw [MessageParser.pull_eq_idle] at h
    simp only [MessageParser.pull, MessageParser.tryParse_feed expected p, h]

/-- The messages delivered, and how it ended. -/
abbrev ReadResult : Type := Drained MessageParser Message ParseError

/-- Receive the chunks one after the other on a fresh parser; after each of them call
`try_parse` until it returns nothing.  An exception ends the reading. -/
def readChunks (listener : List Message → MessageType) (chunks : List Bytes) : ReadResult :=
  messagePuller.run listener chunks MessageParser.fresh

/-- Receive all bytes at once. -/
def readAtOnce (listener : List Message → MessageType) (received : Bytes) : ReadResult :=
  messagePuller.drain listener [] (MessageParser.fresh.feed received)

/-- Asking a fresh parser gives nothing. -/
theorem settled_fresh (listener : List Message → MessageType) :
    messagePuller.Settled listener ⟨[], .ok MessageParser.fresh⟩ := by
  simp only [Puller.Settled, Puller.step]
  rw [Puller.drain_eq]
  rfl

/-- **Chunk independence.**  However the bytes are cut into chunks and whatever the listener
expects, the messages are those of receiving all bytes at once, and so is the state of the
parser or the exception at the end.  This is what is known of any `Puller`, for the one that
`try_parse` is. -/
theorem readChunks_eq_readAtOnce (listener : List Message → MessageType)
    (chunks : List Bytes) :
    readChunks listener chunks = readAtOnce listener chunks.flatten := by
  have hone : chunks.flatten = [chunks.flatten].flatten := by simp
  rw [readChunks, messagePuller.run_eq_of_flatten_eq listener _ (settled_fresh listener) hone]
  rfl

-- a cut between CR and LF, and a bulk string cut in its payload
example :
    (readChunks (fun _ => .any) [ascii "+OK\r", ascii "\n$4\r\na", ascii "\r\nb\r\n:"]).items =
      [.simpleString (ascii "OK"), .bulkString (ascii "a\r\nb")] := by decide +kernel

end BuildYourOwnRedis
