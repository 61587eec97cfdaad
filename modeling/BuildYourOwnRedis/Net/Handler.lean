/-
  Net/Handler.lean --- `talker.h` and `handler.cpp`: what a handler does with its buffers
  and its talker.

  The calls that reach the poller or the manager are in Net/Network.lean.  What `::read`
  and `::write` answer is input.
-/
import BuildYourOwnRedis.Resp.MessageParser
import BuildYourOwnRedis.Net.Poller

set_option autoImplicit false

namespace BuildYourOwnRedis

open Foundation

/-! ## Talkers -/

/-- `Talker`: the state of the derived class and `_pending`, the messages that are to be said.
-/
structure Talker (T : Type) where
  state : T
  pending : List Message

namespace Talker

variable {T : Type}

/-- `Talker::say`: the next message is taken from the queue, if there is one. -/
def say (t : Talker T) : Option (Message × Talker T) :=
  match t.pending with
  | [] => none
  | m :: pending => some (m, { t with pending := pending })

end Talker

/-- A derived class: its virtual functions, and the talker that `TalkerBuilder` makes.  The
handlers are verified for all of them at once. -/
structure TalkerClass (T : Type) where
  build : Talker T
  expected : Talker T → MessageType
  /-- `listen`, and whether it throws -/
  listen : Message → Talker T → Talker T × Bool
  interrupt : Talker T → Talker T

/-! ## Answers of the kernel -/

/-- How the loop in `Handler::read` ends.  It goes on as long as there is something to read, so
each call has an end of one of these kinds. -/
inductive ReadEnd where
  /-- `EAGAIN` or `EWOULDBLOCK` -/
  | again
  /-- 0, the end of the stream -/
  | closed
  /-- `ECONNRESET` -/
  | reset
  /-- any other error -/
  | failed
  deriving DecidableEq, Repr

/-- What the calls of `::read` in one `Handler::read` give: pieces of any sizes, and how the
reading ended. -/
structure Received where
  chunks : List Bytes
  ending : ReadEnd
  deriving DecidableEq, Repr

/-- What one `::write` answers.  Any part of what it was given may be transferred. -/
inductive Written where
  | transferred (size : Nat)
  | again
  | reset
  | failed
  deriving DecidableEq, Repr

/-- What the calls of `::write` in one `Handler::write` give, `EAGAIN` behind the list, and
what stands in the `flags` that are not initialized when the poll is set up after them. -/
structure WriteCall where
  results : List Written := []
  stray : PollBits := 0
  deriving DecidableEq, Repr, Inhabited

/-- What is thrown: `ConnReset`, or an exception that the event loop catches.
`ConnReset` inherits privately, so `catch (const std::exception&)` does not catch it. -/
inductive Thrown where
  | connReset
  | caught
  deriving DecidableEq, Repr

/-! ## Handlers -/

/-- `Handler`, with the parser that works on its read buffer; `managed` says that it was made
by `HandlersManager` and not by `Replica`.  A handler that has been closed has no descriptor.
-/
structure Handler (T : Type) where
  managed : Bool
  fd : Option Nat
  talker : Talker T
  parser : MessageParser
  writeBuffer : Bytes

/-- `WRITE_BUFFER_SIZE`. -/
def writeBufferSize : Nat := 1024

namespace Handler

variable {T : Type}

/-- A new handler. -/
def make (managed : Bool) (fd : Nat) (talker : Talker T) : Handler T :=
  ⟨managed, some fd, talker, .fresh, []⟩

/-- `Handler::read`.  All that was received is in the buffer, however the reading ended; an end
of the stream is thrown like a reset. -/
def read (received : Received) (h : Handler T) : Handler T × Except Thrown Unit :=
  match h.fd with
  | none => (h, .error .caught)
  | some _ =>
      ({ h with parser := h.parser.feed received.chunks.flatten },
        match received.ending with
        | .again => .ok ()
        | .closed => .error .connReset
        | .reset => .error .connReset
        | .failed => .error .caught)

/-- The loop of `Handler::process_read`.  Every message takes bytes from the parser. -/
def listenAll (C : TalkerClass T) : Nat → Handler T → Handler T × Except Thrown Unit
  | 0, h => (h, .ok ())
  | fuel + 1, h =>
      match h.parser.tryParse (C.expected h.talker) with
      | (.error _, p) => ({ h with parser := p }, .error .caught)
      | (.ok none, p) => ({ h with parser := p }, .ok ())
      | (.ok (some m), p) =>
          match C.listen m h.talker with
          | (t, true) => ({ h with parser := p, talker := t }, .error .caught)
          | (t, false) => listenAll C fuel { h with parser := p, talker := t }

/-- The `try` block of `Handler::process_read`. -/
def receive (C : TalkerClass T) (received : Received) (h : Handler T) :
    Handler T × Except Thrown Unit :=
  match h.read received with
  | (h, .ok ()) => h.listenAll C (h.parser.weight + 1)
  | (h, .error thrown) => (h, .error thrown)

/-- The loop of `Handler::write`: how much of `size` bytes has been transferred. -/
def writeLoop : List Written → Nat → Nat → Except Thrown Nat
  | [], _, total => .ok total
  | result :: results, size, total =>
      if size ≤ total then .ok total
      else
        match result with
        | .transferred n =>
            writeLoop results size (total + min n (min writeBufferSize (size - total)))
        | .again => .ok total
        | .reset => .error .connReset
        | .failed => .error .caught

/-- `Handler::write` up to `setup_poll`, which comes where the result is `true`.  Where
`::write` fails nothing is taken off the buffer, though a part of it may have been transferred.
-/
def writeOut (results : List Written) (h : Handler T) : Handler T × Except Thrown Bool :=
  if h.writeBuffer.length = 0 then (h, .ok false)
  else
    match h.fd with
    | none => (h, .error .caught)
    | some _ =>
        match writeLoop results h.writeBuffer.length 0 with
        | .error thrown => (h, .error thrown)
        | .ok total => ({ h with writeBuffer := h.writeBuffer.drop total }, .ok true)

/-- The next message that the talker says. -/
def nextMessage (h : Handler T) : Option (Message × Handler T) :=
  h.talker.say.map fun said => (said.1, { h with talker := said.2 })

/-- Enough rounds for the loop of `Handler::process_write`: nothing in it adds a message. -/
def sayFuel (h : Handler T) : Nat := h.talker.pending.length + 1

/-- `Handler::send` up to the call of `write`: the message is put behind what is still to be
written. -/
def append (m : Message) (h : Handler T) : Handler T :=
  { h with writeBuffer := h.writeBuffer ++ m.toString }

/-! ## When a handler closes -/

/-- Saying what there is to say ends with a `Leave` or with `ECONNRESET`. -/
def givesUp : Nat → List WriteCall → Handler T → Bool
  | 0, _, _ => false
  | fuel + 1, calls, h =>
      match h.nextMessage with
      | none => false
      | some (m, h) =>
          if m.type = .leave then true
          else
            match (h.append m).writeOut (calls.headD {}).results with
            | (_, .error .connReset) => true
            | (_, .error .caught) => false
            | (h, .ok _) => givesUp fuel calls.tail h

/-- Reading ends with the end of the stream or with `ECONNRESET`, or what is to be said
behind it gives the connection up. -/
def closesOnRead (C : TalkerClass T) (received : Received) (calls : List WriteCall)
    (h : Handler T) : Bool :=
  match h.receive C received with
  | (_, .error .connReset) => true
  | (_, .error .caught) => false
  | (h, .ok _) => givesUp h.sayFuel calls h

/-! ## What stays -/

/-- What the poller and the manager know of a handler. -/
def link (h : Handler T) : Bool × Option Nat := (h.managed, h.fd)

@[simp] theorem link_append (m : Message) (h : Handler T) : (h.append m).link = h.link := rfl

theorem link_nextMessage {m : Message} {h h' : Handler T} (hnext : h.nextMessage = some (m, h')) :
    h'.link = h.link := by
  obtain ⟨said, -, heq⟩ := Option.map_eq_some_iff.mp hnext
  cases heq
  rfl

@[simp] theorem link_read (received : Received) (h : Handler T) :
    (h.read received).1.link = h.link := by
  unfold read
  split <;> rfl

@[simp] theorem link_listenAll (C : TalkerClass T) (fuel : Nat) (h : Handler T) :
    (h.listenAll C fuel).1.link = h.link := by
  induction fuel generalizing h with
  | zero => rfl
  | succ fuel ih =>
      unfold listenAll
      split
      · rfl
      · rfl
      · split
        · rfl
        · exact ih _

@[simp] theorem link_receive (C : TalkerClass T) (received : Received) (h : Handler T) :
    (h.receive C received).1.link = h.link := by
  unfold receive
  split
  · next h' hread =>
      rw [link_listenAll, ← link_read received h, hread]
  · next h' thrown hread =>
      rw [← link_read received h, hread]

@[simp] theorem link_writeOut (results : List Written) (h : Handler T) :
    (h.writeOut results).1.link = h.link := by
  unfold writeOut
  split
  · rfl
  · split
    · rfl
    · split <;> rfl

/-- The poll is only set up with a descriptor. -/
theorem fd_of_writeOut {results : List Written} {h h' : Handler T}
    (hout : h.writeOut results = (h', .ok true)) : ∃ fd, h.fd = some fd := by
  unfold writeOut at hout
  split at hout
  · cases hout
  · split at hout
    · cases hout
    · next fd hfd => exact ⟨fd, hfd⟩

end Handler

end BuildYourOwnRedis
