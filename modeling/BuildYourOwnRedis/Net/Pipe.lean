/-
  Net/Pipe.lean --- messages in a byte stream that a parser reads.

  One end writes the encodings of messages, the kernel carries bytes, the other end feeds
  them to a parser and asks it in the mode that its talker expects.  `Carries` says which
  messages have been written and not returned: their encodings are the bytes that the parser
  has not used and those on the way.  What a parser has absorbed of an incomplete message
  depends on the mode, so the mode stays the same from one message to the next.
-/
import BuildYourOwnRedis.Resp.Framing

set_option autoImplicit false

namespace BuildYourOwnRedis

open Foundation

/-! ## One message in a mode -/

/-- In front of any further bytes one call of `try_parse` in this mode returns the message
and leaves exactly these bytes. -/
def ReadsIn (mode : MessageType) (m : Message) : Prop :=
  ∀ rest, (MessageParser.fresh.feed (m.toString ++ rest)).tryParse mode =
    (.ok (some m), MessageParser.fresh.feed rest)

namespace MessageParser

/-- In this mode the two parsers answer alike, whatever is received.  They may hold the same
bytes in different places, in the buffer or as raw messages. -/
def AlikeIn (mode : MessageType) (p q : MessageParser) : Prop :=
  ∀ received, (p.feed received).tryParse mode = (q.feed received).tryParse mode

theorem AlikeIn.refl (mode : MessageType) (p : MessageParser) : p.AlikeIn mode p :=
  fun _ => rfl

theorem AlikeIn.tryParse_eq {mode : MessageType} {p q : MessageParser}
    (h : p.AlikeIn mode q) : p.tryParse mode = q.tryParse mode := by
  have hnil := h []
  simpa [feed] using hnil

theorem AlikeIn.feed {mode : MessageType} {p q : MessageParser} (h : p.AlikeIn mode q)
    (received : Bytes) : (p.feed received).AlikeIn mode (q.feed received) := by
  intro more
  rw [feed_feed, feed_feed]
  exact h _

/-- Asking in vain makes no difference. -/
theorem AlikeIn.idle {mode : MessageType} {p p' q : MessageParser} (h : p.AlikeIn mode q)
    (hp : p.tryParse mode = (.ok none, p')) : p'.AlikeIn mode q := by
  intro received
  rw [← h received, tryParse_feed mode p, hp]

end MessageParser

/-- A part of an encoding gives nothing yet. -/
theorem ReadsIn.part {mode : MessageType} {m : Message} (h : ReadsIn mode m)
    {unread missing : Bytes} (hsplit : unread ++ missing = m.toString) (hmissing : missing ≠ []) :
    ((MessageParser.fresh.feed unread).tryParse mode).1 = .ok none := by
  have hread := h []
  rw [List.append_nil, ← hsplit, ← MessageParser.feed_feed, MessageParser.tryParse_feed] at hread
  rcases hcall : (MessageParser.fresh.feed unread).tryParse mode with ⟨⟨e⟩ | ⟨_ | m'⟩, p'⟩
  · rw [hcall] at hread
    cases (Prod.mk.inj hread).1
  · rfl
  · rw [hcall] at hread
    have hbuffer := congrArg MessageParser.buffer (Prod.mk.inj hread).2
    simp [MessageParser.feed, MessageParser.fresh, hmissing] at hbuffer

/-! ## Pipes -/

/-- One direction of a connection: the bytes on the way, and the parser they come to.  How many
of them come at a time is left to the kernel. -/
structure Pipe where
  wire : Bytes := []
  parser : MessageParser := .fresh

namespace Pipe

/-- A message is written. -/
def write (m : Message) (p : Pipe) : Pipe := { p with wire := p.wire ++ m.toString }

/-- Bytes come. -/
def arrive (size : Nat) (p : Pipe) : Pipe where
  wire := p.wire.drop size
  parser := p.parser.feed (p.wire.take size)

/-- The parser is asked for a message. -/
def ask (mode : MessageType) (p : Pipe) : Except ParseError (Option Message) × Pipe :=
  ((p.parser.tryParse mode).1, { p with parser := (p.parser.tryParse mode).2 })

/-- These messages were written and not returned: the bytes that are unread in the parser, and
those on the way, make up their wire forms. -/
def Carries (mode : MessageType) (ms : List Message) (p : Pipe) : Prop :=
  ∃ unread, p.parser.AlikeIn mode (MessageParser.fresh.feed unread) ∧
    unread ++ p.wire = Message.toStringAll ms

variable {mode : MessageType} {m : Message} {ms : List Message} {p p' : Pipe}

theorem Carries.write (h : p.Carries mode ms) (m : Message) :
    (p.write m).Carries mode (ms ++ [m]) := by
  obtain ⟨unread, halike, hbytes⟩ := h
  refine ⟨unread, halike, ?_⟩
  rw [Pipe.write, ← List.append_assoc, hbytes]
  simp [Message.toStringAll_eq_flatMap]

theorem Carries.arrive (h : p.Carries mode ms) (size : Nat) :
    (p.arrive size).Carries mode ms := by
  obtain ⟨unread, halike, hbytes⟩ := h
  refine ⟨unread ++ p.wire.take size, ?_, ?_⟩
  · rw [← MessageParser.feed_feed]
    exact halike.feed _
  · rw [Pipe.arrive, List.append_assoc, List.take_append_drop, hbytes]

/-- A parser that holds no whole message is asked in vain, and then bytes are still on the
way; else it returns the message. -/
theorem Carries.ask_cons (h : p.Carries mode (m :: ms)) (hreads : ReadsIn mode m) :
    (p.wire ≠ [] ∧ ∃ p', p.ask mode = (.ok none, p') ∧ p'.Carries mode (m :: ms)) ∨
      ∃ p', p.ask mode = (.ok (some m), p') ∧ ∀ mode', p'.Carries mode' ms := by
  obtain ⟨unread, halike, hbytes⟩ := h
  rw [Message.toStringAll_cons] at hbytes
  have hcall := halike.tryParse_eq
  by_cases hwhole : m.toString <+: unread
  · obtain ⟨more, rfl⟩ := hwhole
    rw [hreads more] at hcall
    refine .inr ⟨{ p with parser := MessageParser.fresh.feed more }, by simp [ask, hcall],
      fun mode' => ⟨more, .refl _ _, ?_⟩⟩
    rw [List.append_assoc] at hbytes
    exact List.append_cancel_left hbytes
  · -- both are prefixes of the same bytes
    obtain ⟨missing, hmissing⟩ : unread <+: m.toString := by
      rcases List.prefix_or_prefix_of_prefix (List.prefix_append unread p.wire)
        (hbytes ▸ List.prefix_append m.toString (Message.toStringAll ms)) with hfront | hfront
      · exact hfront
      · exact absurd hfront hwhole
    have hne : missing ≠ [] := by
      rintro rfl
      rw [List.append_nil] at hmissing
      exact hwhole (hmissing ▸ List.prefix_refl _)
    have hnone := hreads.part hmissing hne
    rcases hresult : (MessageParser.fresh.feed unread).tryParse mode with ⟨answer, q⟩
    obtain rfl : answer = .ok none := by rw [← hnone, hresult]
    rw [hresult] at hcall
    refine .inl ⟨fun hempty => ?_, { p with parser := q }, by simp [ask, hcall], unread,
      halike.idle hcall, ?_⟩
    · rw [hempty, List.append_nil] at hbytes
      exact hwhole ⟨_, hbytes.symm⟩
    · rw [hbytes, Message.toStringAll_cons]

/-- Nothing comes of nothing. -/
theorem Carries.ask_nil (h : p.Carries mode []) :
    ∃ p', p.ask mode = (.ok none, p') ∧ p'.Carries mode [] := by
  obtain ⟨unread, halike, hbytes⟩ := h
  obtain ⟨rfl, hwire⟩ := List.append_eq_nil_iff.mp (hbytes.trans Message.toStringAll_nil)
  have hcall : p.parser.tryParse mode = (.ok none, MessageParser.fresh) :=
    halike.tryParse_eq.trans rfl
  refine ⟨{ p with parser := .fresh }, by simp [ask, hcall], [], .refl _ _, ?_⟩
  rw [hwire, Message.toStringAll_nil, List.append_nil]

end Pipe

end BuildYourOwnRedis
