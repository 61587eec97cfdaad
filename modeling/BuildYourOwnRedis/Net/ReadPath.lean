/-
  Net/ReadPath.lean --- the messages that are handled before the peer closes.

  `Handler::read` appends what it has read and reports the end of the stream by an exception.
  The exception leaves `process_read` before `try_parse` is called, so a message that the
  last bytes complete is dropped when the end comes in the same event as these bytes.
  `handled_iff` says that nothing else is lost, however the kernel groups the bytes.
-/
import BuildYourOwnRedis.Resp.Requests
import BuildYourOwnRedis.Net.Handler

set_option autoImplicit false

namespace BuildYourOwnRedis

open Foundation

/-! ## Streams -/

/-- The bytes of a stream of messages, each with its encoding. -/
def streamBytes (stream : List (Message × Bytes)) : Bytes := stream.flatMap (·.2)

/-- Every message stands there in its wire form, one behind the other.  The messages come with
their bytes, so that it can be told where each of them ends. -/
def WellFormed (stream : List (Message × Bytes)) : Prop :=
  ∀ x ∈ stream, ∃ frames, Encodes x.1 frames ∧ x.2 = frames.flatMap Frame.bytes

/-- The messages of the stream that are completely contained in these bytes, which are the
first ones of the stream. -/
def contained : List (Message × Bytes) → Bytes → List Message
  | [], _ => []
  | (m, encoding) :: stream, bytes =>
      if encoding <+: bytes then m :: contained stream (bytes.drop encoding.length) else []

/-- Requests, one after the other. -/
def requestStream (requests : List (List Bytes)) : List (Message × Bytes) :=
  requests.map fun arguments => (requestMessage arguments, encodeRequest arguments)

theorem wellFormed_requestStream {requests : List (List Bytes)}
    (h : ∀ arguments ∈ requests, RequestFits arguments) :
    WellFormed (requestStream requests) := by
  intro x hx
  obtain ⟨arguments, hmem, rfl⟩ := List.mem_map.mp hx
  exact ⟨_, encodes_request (h arguments hmem), (bytes_request arguments).symm⟩

theorem WellFormed.reads {stream : List (Message × Bytes)} (h : WellFormed stream)
    {x : Message × Bytes} (hx : x ∈ stream) : Reads x.1 x.2 := by
  obtain ⟨frames, hencodes, hbytes⟩ := h x hx
  rw [hbytes]
  exact reads_of_encodes hencodes

/-- The messages read so far are contained, and those of the rest. -/
theorem contained_append (before after : List (Message × Bytes)) (unread : Bytes) :
    contained (before ++ after) (streamBytes before ++ unread) =
      before.map (·.1) ++ contained after unread := by
  induction before with
  | nil => rfl
  | cons x before ih =>
      have hbytes : streamBytes (x :: before) ++ unread =
          x.2 ++ (streamBytes before ++ unread) := by
        simp [streamBytes]
      rw [hbytes, List.cons_append, contained, if_pos (List.prefix_append _ _),
        List.drop_left, ih]
      rfl

/-! ## One call on the bytes that are left -/

namespace MessageParser

/-- The two parsers are in no way different for `try_parse`, whatever is received.  They may
have cut more or less of the same bytes. -/
def Alike (p q : MessageParser) : Prop :=
  ∀ received, (p.feed received).tryParse .any = (q.feed received).tryParse .any

theorem Alike.tryParse_eq {p q : MessageParser} (h : p.Alike q) :
    p.tryParse .any = q.tryParse .any := by
  have hnil := h []
  simpa [feed] using hnil

theorem Alike.feed {p q : MessageParser} (h : p.Alike q) (received : Bytes) :
    (p.feed received).Alike (q.feed received) := by
  intro more
  rw [feed_feed, feed_feed]
  exact h _

/-- Asking too early makes no difference. -/
theorem alike_of_none {p p' : MessageParser} (h : p.tryParse .any = (.ok none, p')) :
    p'.Alike p := by
  intro received
  rw [tryParse_feed .any p, h]

/-- A part of an encoding gives nothing yet. -/
theorem tryParse_of_part {m : Message} {unread missing : Bytes}
    (h : Reads m (unread ++ missing)) (hmissing : missing ≠ []) :
    ((fresh.feed unread).tryParse .any).1 = .ok none := by
  have hread := h []
  have hfeed : (⟨unread ++ missing ++ [], [], none⟩ : MessageParser) =
      (fresh.feed unread).feed missing := by
    simp [MessageParser.feed, fresh]
  rw [hfeed, tryParse_feed] at hread
  rcases hcall : (fresh.feed unread).tryParse .any with ⟨⟨e⟩ | ⟨_ | m'⟩, p'⟩
  · rw [hcall] at hread
    cases (Prod.mk.inj hread).1
  · rfl
  · rw [hcall] at hread
    have hbuffer := congrArg MessageParser.buffer (Prod.mk.inj hread).2
    simp [MessageParser.feed, hmissing] at hbuffer

end MessageParser

/-- On the bytes that are left a fresh parser returns the next message of the stream, if it
is completely contained in them, and nothing else. -/
theorem tryParse_stream {stream : List (Message × Bytes)} (h : WellFormed stream)
    {unread : Bytes} (hfront : unread <+: streamBytes stream) :
    (((MessageParser.fresh.feed unread).tryParse .any).1 = .ok none ∧
        contained stream unread = []) ∨
      ∃ m encoding rest unread', stream = (m, encoding) :: rest ∧
        unread = encoding ++ unread' ∧
        (MessageParser.fresh.feed unread).tryParse .any =
          (.ok (some m), MessageParser.fresh.feed unread') := by
  cases stream with
  | nil =>
      obtain rfl : unread = [] := List.prefix_nil.mp hfront
      exact Or.inl ⟨rfl, rfl⟩
  | cons x rest =>
      have hreads := h.reads (x := x) (by simp)
      by_cases hwhole : x.2 <+: unread
      · obtain ⟨unread', rfl⟩ := hwhole
        refine Or.inr ⟨x.1, x.2, rest, unread', rfl, rfl, ?_⟩
        exact hreads unread'
      · -- two prefixes of the stream: the shorter one is a prefix of the other
        have hshort : unread <+: x.2 := by
          refine List.prefix_of_prefix_length_le hfront ?_ ?_
          · exact List.prefix_append _ _
          · by_contra hlong
            refine hwhole (List.prefix_of_prefix_length_le ?_ hfront (by omega))
            exact List.prefix_append _ _
        obtain ⟨missing, hmissing⟩ := hshort
        refine Or.inl ⟨MessageParser.tryParse_of_part (hmissing ▸ hreads) ?_, ?_⟩
        · rintro rfl
          rw [List.append_nil] at hmissing
          exact hwhole (hmissing ▸ List.prefix_refl _)
        · rw [contained, if_neg hwhole]

/-! ## The events of a connection -/

namespace Handler

/-- A talker that expects any message and remembers those passed to `listen`; whether
`listen` throws may depend on all of them. -/
def hearing (throws : List Message → Bool) : TalkerClass (List Message) where
  build := ⟨[], []⟩
  expected _ := .any
  listen m t := ({ t with state := t.state ++ [m] }, throws (t.state ++ [m]))
  interrupt t := t

/-- The messages passed to `Talker::listen`. -/
def heard (h : Handler (List Message)) : List Message := h.talker.state

/-- The handler after some events of `ReadyToRead`, each with the chunks read in it before
`EAGAIN`. -/
def afterEvents (throws : List Message → Bool) (fd : Nat) (events : List (List Bytes)) :
    Handler (List Message) :=
  events.foldl (fun h chunks => (h.receive (hearing throws) ⟨chunks, .again⟩).1)
    (.make true fd (hearing throws).build)

/-- The handler when the end of the stream has come, behind the chunks of the last event. -/
def afterEnd (throws : List Message → Bool) (fd : Nat) (events : List (List Bytes))
    (last : List Bytes) : Handler (List Message) :=
  ((afterEvents throws fd events).receive (hearing throws) ⟨last, .closed⟩).1

/-- `try_parse` has no message to return. -/
def nothingLeft (p : MessageParser) : Bool := (p.tryParse .any).1 = .ok none

/-! ## What was heard -/

/-- Of these bytes of the stream the handler has heard the first messages, and its parser is
in no way different from a fresh one on the bytes behind them. -/
def OnStream (stream : List (Message × Bytes)) (fd : Nat) (bytes : Bytes)
    (h : Handler (List Message)) : Prop :=
  h.fd = some fd ∧ ∃ before after unread, stream = before ++ after ∧
    bytes = streamBytes before ++ unread ∧ h.heard = before.map (·.1) ∧
      h.parser.Alike (MessageParser.fresh.feed unread)

variable {stream : List (Message × Bytes)} (throws : List Message → Bool) {fd : Nat}
  {bytes : Bytes} {h : Handler (List Message)}

/-- The bytes that are left are the first ones of the rest of the stream. -/
theorem front_of_append {before after : List (Message × Bytes)} {unread : Bytes}
    (hfront : streamBytes before ++ unread <+: streamBytes (before ++ after)) :
    unread <+: streamBytes after := by
  rw [streamBytes, streamBytes, List.flatMap_append] at hfront
  exact (List.prefix_append_right_inj _).mp hfront

/-- The loop of `process_read` hears one message of the stream after the other; without an
exception it stops when there is nothing left. -/
theorem OnStream.listenAll (hstream : WellFormed stream) (hfront : bytes <+: streamBytes stream)
    (fuel : Nat) (hon : OnStream stream fd bytes h) :
    OnStream stream fd bytes (h.listenAll (hearing throws) fuel).1 ∧
      ((∀ messages, throws messages = false) → h.parser.weight < fuel →
        nothingLeft (h.listenAll (hearing throws) fuel).1.parser = true) := by
  induction fuel generalizing h with
  | zero => exact ⟨hon, fun _ hfuel => absurd hfuel (Nat.not_lt_zero _)⟩
  | succ fuel ih =>
      obtain ⟨hfd, before, after, unread, hsplit, hbytes, hheard, halike⟩ := hon
      subst hsplit hbytes
      have hafter : WellFormed after := fun x hx => hstream x (by simp [hx])
      have hcall : h.parser.tryParse ((hearing throws).expected h.talker) =
          (MessageParser.fresh.feed unread).tryParse .any := halike.tryParse_eq
      have hself : h.parser.tryParse .any =
          (MessageParser.fresh.feed unread).tryParse .any := halike.tryParse_eq
      rw [Handler.listenAll]
      rcases tryParse_stream hafter (front_of_append hfront) with
        ⟨hnone, -⟩ | ⟨m, encoding, rest, unread', rfl, rfl, hsome⟩
      · rcases hresult : (MessageParser.fresh.feed unread).tryParse .any with ⟨r, p'⟩
        obtain rfl : r = .ok none := by rw [← hnone, hresult]
        rw [hcall, hresult]
        rw [hresult] at hself
        have hsame := MessageParser.alike_of_none hself
        refine ⟨⟨hfd, before, after, unread, rfl, rfl, hheard, ?_⟩, fun _ _ => ?_⟩
        · exact fun received => (hsame received).trans (halike received)
        · rw [nothingLeft, hsame.tryParse_eq, hself]
          rfl
      · rw [hcall, hsome]
        rw [hsome] at hself
        have hlt := MessageParser.weight_tryParse hself
        have hnext : OnStream (before ++ (m, encoding) :: rest) fd
            (streamBytes before ++ (encoding ++ unread'))
            { h with
              parser := MessageParser.fresh.feed unread'
              talker := { h.talker with state := h.talker.state ++ [m] } } := by
          refine ⟨hfd, before ++ [(m, encoding)], rest, unread', by simp, ?_, ?_,
            fun received => rfl⟩
          · simp [streamBytes]
          · simp only [heard, List.map_append, List.map_cons, List.map_nil]
            rw [← hheard, heard]
        simp only [hearing]
        cases hthrows : throws (h.talker.state ++ [m]) with
        | true => exact ⟨hnext, fun hquiet => absurd hthrows (by simp [hquiet])⟩
        | false =>
            obtain ⟨hkept, hleft⟩ := ih hnext
            refine ⟨hkept, fun hquiet hfuel => hleft hquiet ?_⟩
            exact Nat.lt_of_lt_of_le hlt (Nat.le_of_lt_succ hfuel)

/-- One event that ends with `EAGAIN`. -/
theorem OnStream.receive {chunks : List Bytes} (hstream : WellFormed stream)
    (hfront : bytes ++ chunks.flatten <+: streamBytes stream)
    (hon : OnStream stream fd bytes h) :
    OnStream stream fd (bytes ++ chunks.flatten)
        (h.receive (hearing throws) ⟨chunks, .again⟩).1 ∧
      ((∀ messages, throws messages = false) →
        nothingLeft (h.receive (hearing throws) ⟨chunks, .again⟩).1.parser = true) := by
  obtain ⟨hfd, before, after, unread, hsplit, hbytes, hheard, halike⟩ := hon
  have hread : h.read ⟨chunks, .again⟩ =
      ({ h with parser := h.parser.feed chunks.flatten }, .ok ()) := by
    simp only [read, hfd]
  have hfed : OnStream stream fd (bytes ++ chunks.flatten)
      { h with parser := h.parser.feed chunks.flatten } := by
    refine ⟨hfd, before, after, unread ++ chunks.flatten, hsplit, ?_, hheard, ?_⟩
    · rw [hbytes, List.append_assoc]
    · rw [← MessageParser.feed_feed]
      exact halike.feed _
  rw [Handler.receive, hread]
  obtain ⟨hkept, hleft⟩ := hfed.listenAll throws hstream hfront _
  exact ⟨hkept, fun hquiet => hleft hquiet (Nat.lt_succ_self _)⟩

/-- The events before the last one. -/
theorem OnStream.events (hstream : WellFormed stream) (events : List (List Bytes))
    (hfront : bytes ++ events.flatten.flatten <+: streamBytes stream)
    (hon : OnStream stream fd bytes h)
    (hleft : (∀ messages, throws messages = false) → nothingLeft h.parser = true) :
    let h' := events.foldl (fun h chunks => (h.receive (hearing throws) ⟨chunks, .again⟩).1) h
    OnStream stream fd (bytes ++ events.flatten.flatten) h' ∧
      ((∀ messages, throws messages = false) → nothingLeft h'.parser = true) := by
  induction events generalizing bytes h with
  | nil => exact ⟨by simpa using hon, hleft⟩
  | cons chunks events ih =>
      have hshape : bytes ++ (chunks :: events).flatten.flatten =
          bytes ++ chunks.flatten ++ events.flatten.flatten := by simp
      rw [hshape] at hfront ⊢
      have hfirst : bytes ++ chunks.flatten <+: streamBytes stream :=
        (List.prefix_append _ _).trans hfront
      obtain ⟨hkept, hquietly⟩ := hon.receive throws hstream hfirst
      exact ih hfront hkept hquietly

theorem onStream_make (stream : List (Message × Bytes)) (fd : Nat) :
    OnStream stream fd [] (.make true fd (hearing throws).build) :=
  ⟨rfl, [], stream, [], rfl, rfl, rfl, fun _ => rfl⟩

theorem onStream_afterEvents (hstream : WellFormed stream) (fd : Nat)
    (events : List (List Bytes)) (hfront : events.flatten.flatten <+: streamBytes stream) :
    OnStream stream fd events.flatten.flatten (afterEvents throws fd events) ∧
      ((∀ messages, throws messages = false) →
        nothingLeft (afterEvents throws fd events).parser = true) := by
  have hstart := (onStream_make throws stream fd).events throws hstream events
    (by simpa using hfront) (fun _ => rfl)
  simpa [afterEvents] using hstart

/-- The end of the stream is noticed before anything is parsed. -/
theorem afterEnd_eq {events : List (List Bytes)}
    (hfd : (afterEvents throws fd events).fd = some fd) (last : List Bytes) :
    afterEnd throws fd events last =
      { afterEvents throws fd events with
        parser := (afterEvents throws fd events).parser.feed last.flatten } := by
  rw [afterEnd, Handler.receive]
  simp only [read, hfd]

/-- Nothing is left of a part of a stream exactly if it contains no message completely.  The
parser need not be a fresh one, but must answer like one on these bytes. -/
theorem nothingLeft_iff {after : List (Message × Bytes)} (hafter : WellFormed after)
    {unread : Bytes} (hfront : unread <+: streamBytes after) {p : MessageParser}
    (halike : p.Alike (MessageParser.fresh.feed unread)) :
    nothingLeft p = true ↔ contained after unread = [] := by
  rw [nothingLeft, halike.tryParse_eq]
  rcases tryParse_stream hafter hfront with
    ⟨hnone, hcontained⟩ | ⟨m, encoding, rest, unread', rfl, rfl, hsome⟩
  · simp [hnone, hcontained]
  · simp [hsome, contained]

/-- What is contained in more bytes than the handler has heard of: it has heard all of it
exactly if `try_parse` would find no message in what it has not been asked about. -/
theorem OnStream.contained_iff (hstream : WellFormed stream) (more : Bytes)
    (hfront : bytes ++ more <+: streamBytes stream) (hon : OnStream stream fd bytes h) :
    h.heard = contained stream (bytes ++ more) ↔
      nothingLeft (h.parser.feed more) = true := by
  obtain ⟨-, before, after, unread, rfl, rfl, hheard, halike⟩ := hon
  have hafter : WellFormed after := fun x hx => hstream x (by simp [hx])
  rw [List.append_assoc] at hfront ⊢
  have hfed : (h.parser.feed more).Alike (MessageParser.fresh.feed (unread ++ more)) := by
    rw [← MessageParser.feed_feed]
    exact halike.feed more
  rw [nothingLeft_iff hafter (front_of_append hfront) hfed, contained_append, hheard]
  simp

/-- **Before the end.**  The messages handled when the end of a well-formed stream has come
are all those completely contained in the bytes read, exactly if `try_parse` had no message
to return for the bytes in the buffer then. -/
theorem handled_iff (hstream : WellFormed stream) (fd : Nat)
    (events : List (List Bytes)) (last : List Bytes)
    (hfront : events.flatten.flatten ++ last.flatten <+: streamBytes stream) :
    (afterEnd throws fd events last).heard =
        contained stream (events.flatten.flatten ++ last.flatten) ↔
      nothingLeft ((afterEvents throws fd events).parser.feed last.flatten) = true := by
  have hbefore : events.flatten.flatten <+: streamBytes stream :=
    (List.prefix_append _ _).trans hfront
  have hon := (onStream_afterEvents throws hstream fd events hbefore).1
  rw [afterEnd_eq throws hon.1 last]
  exact hon.contained_iff hstream _ hfront

/-- When no `listen` throws, that is the case exactly if the bytes read in the event of the
end complete no message. -/
theorem nothingLeft_iff_of_quiet (hstream : WellFormed stream)
    (hquiet : ∀ messages, throws messages = false) (fd : Nat) (events : List (List Bytes))
    (last : List Bytes)
    (hfront : events.flatten.flatten ++ last.flatten <+: streamBytes stream) :
    nothingLeft ((afterEvents throws fd events).parser.feed last.flatten) = true ↔
      contained stream events.flatten.flatten =
        contained stream (events.flatten.flatten ++ last.flatten) := by
  have hbefore : events.flatten.flatten <+: streamBytes stream :=
    (List.prefix_append _ _).trans hfront
  obtain ⟨hon, hleft⟩ := onStream_afterEvents throws hstream fd events hbefore
  have hheard : (afterEvents throws fd events).heard =
      contained stream events.flatten.flatten := by
    have hall := (hon.contained_iff hstream [] (by simpa using hbefore)).mpr
    rw [List.append_nil] at hall
    apply hall
    simpa [MessageParser.feed] using hleft hquiet
  rw [← hon.contained_iff hstream _ hfront, hheard]

/-- Two requests of one argument. -/
def pings : List (Message × Bytes) := requestStream [[ascii "PING"], [ascii "PING"]]

theorem wellFormed_pings : WellFormed pings := by
  apply wellFormed_requestStream
  have hfits : ∀ arguments ∈ [[ascii "PING"], [ascii "PING"]],
      arguments.length < 2 ∧ ∀ argument ∈ arguments, argument.length < 5 := by decide
  intro arguments hmem
  obtain ⟨hcount, hsize⟩ := hfits arguments hmem
  exact ⟨by omega, fun argument ha => by have := hsize argument ha; omega⟩

/-- One and a half requests, and the end in the event of half a line. -/
theorem handled_iff_ping :
    (afterEnd (fun _ => false) 7 [[ascii "*1\r\n$4\r\nPI", ascii "NG\r\n"], [ascii "*1\r"]]
        [ascii "\n$4\r"]).heard =
      contained pings ([[ascii "*1\r\n$4\r\nPI", ascii "NG\r\n"], [ascii "*1\r"]].flatten.flatten ++
        [ascii "\n$4\r"].flatten) ↔
    nothingLeft ((afterEvents (fun _ => false) 7
      [[ascii "*1\r\n$4\r\nPI", ascii "NG\r\n"], [ascii "*1\r"]]).parser.feed
        [ascii "\n$4\r"].flatten) = true :=
  handled_iff (fun _ => false) wellFormed_pings 7 _ _ (by decide +kernel)

/-- A client sends a request and hangs up at once, and both come in one event: the end of the
stream is thrown before the request is parsed. -/
theorem not_handled :
    ¬ ∀ stream, WellFormed stream → ∀ throws fd events last,
      events.flatten.flatten ++ last.flatten <+: streamBytes stream →
        (afterEnd throws fd events last).heard =
          contained stream (events.flatten.flatten ++ last.flatten) := by
  intro h
  have hall := h pings wellFormed_pings (fun _ => false) 7 [] [ascii "*1\r\n$4\r\nPING\r\n"]
    (by decide +kernel)
  have hlength := congrArg List.length hall
  exact absurd hlength (by decide +kernel)

end Handler

end BuildYourOwnRedis
