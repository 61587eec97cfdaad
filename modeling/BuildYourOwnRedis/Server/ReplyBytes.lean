/-
  Server/ReplyBytes.lean --- what a client makes of the bytes it gets.

  The error texts of `try_parse` repeat arguments, and they are written as lines.  Where no
  argument holds a delimiter and nothing is dumped, every message of a connection can be told
  from the bytes: they can be read as delimited messages in one way only, whatever has been
  cut off at the end.
-/
import BuildYourOwnRedis.Server.Connections

set_option autoImplicit false

namespace BuildYourOwnRedis

open Foundation

/-! ## Delimited messages in a row -/

namespace Message

theorem toStringAll_append (ms ms' : List Message) :
    toStringAll (ms ++ ms') = toStringAll ms ++ toStringAll ms' := by
  simp only [toStringAll_eq_flatMap, List.flatMap_append]

/-- Messages that start a text of messages are the first of these. -/
theorem prefix_of_toStringAll {ms ms' : List Message} {x : Bytes}
    (h : ∀ m ∈ ms, m.Delimited) (h' : ∀ m ∈ ms', m.Delimited)
    (heq : toStringAll ms ++ x = toStringAll ms') : ms <+: ms' := by
  induction hsize : (toStringAll ms).length using Nat.strong_induction_on
    generalizing ms ms' with
  | _ size ih =>
      subst hsize
      cases ms with
      | nil => exact List.nil_prefix
      | cons m ms =>
          have hm := h m List.mem_cons_self
          have hms := fun x hx => h x (List.mem_cons_of_mem m hx)
          -- the line is longer than nothing, so what stands behind it is shorter than all
          have hlonger : m.behindLine.length + (toStringAll ms).length <
              (toStringAll (m :: ms)).length := by
            rw [toStringAll_cons, toString_eq_line hm]
            simp only [List.length_append, List.length_cons]
            omega
          cases ms' with
          | nil =>
              rw [toStringAll_cons, toString_eq_line hm, toStringAll_nil] at heq
              cases heq
          | cons m' ms' =>
              have hm' := h' m' List.mem_cons_self
              have hms' := fun x hx => h' x (List.mem_cons_of_mem m' hx)
              rw [toStringAll_cons, toStringAll_cons, toString_eq_line hm, toString_eq_line hm',
                List.append_assoc, List.append_assoc _ m.behindLine,
                List.append_assoc _ m'.behindLine] at heq
              obtain ⟨hline, hbehind⟩ := line_unique (not_crlf_line hm) (not_crlf_line hm') heq
              obtain ⟨hbyte, htext⟩ := List.cons.inj hline
              rcases cases_of_line hm hm' (type_of_typeByte hm hm' hbyte) htext with
                ⟨rfl, -, -⟩ | ⟨data, data', rfl, rfl, hlength⟩ |
                ⟨elements, elements', rfl, rfl, hlength⟩
              · have hrest := ih _ (by omega) hms hms' (List.append_cancel_left hbehind) rfl
                exact List.cons_prefix_cons.mpr ⟨rfl, hrest⟩
              · obtain ⟨rfl, -⟩ := payload_unique hlength hbehind
                have hbehind := List.append_cancel_left hbehind
                have hrest := ih _ (by omega) hms hms' hbehind rfl
                exact List.cons_prefix_cons.mpr ⟨rfl, hrest⟩
              · -- the elements stand in front of the other messages
                rw [behindLine, behindLine, ← List.append_assoc, ← toStringAll_append,
                  ← toStringAll_append] at hbehind
                have hall : ∀ x ∈ elements ++ ms, x.Delimited := fun x hx =>
                  (List.mem_append.mp hx).elim ((delimitedAll_iff _).mp hm x) (hms x)
                have hall' : ∀ x ∈ elements' ++ ms', x.Delimited := fun x hx =>
                  (List.mem_append.mp hx).elim ((delimitedAll_iff _).mp hm' x) (hms' x)
                have hsmall : (toStringAll (elements ++ ms)).length <
                    (toStringAll (array elements :: ms)).length := by
                  rw [toStringAll_append, List.length_append]
                  exact hlonger
                obtain ⟨rest, hrest⟩ := ih _ hsmall hall hall' hbehind rfl
                rw [List.append_assoc] at hrest
                obtain ⟨rfl, htail⟩ := List.append_inj hrest hlength
                exact List.cons_prefix_cons.mpr ⟨rfl, rest, htail⟩

end Message

/-! ## What is sent -/

/-- These bytes left the talker or stand in the write buffer: they start what was queued,
and while the connection is open the talker has the rest. -/
structure Sent (out : Bytes) (isOpen : Bool) (t : ServerTalker) : Prop where
  sent : out <+: Message.toStringAll (t.queued.map Prod.snd)
  rest : isOpen → out ++ Message.toStringAll t.pending =
    Message.toStringAll (t.queued.map Prod.snd)

namespace Sent

variable {out : Bytes} {isOpen : Bool} {t t' : ServerTalker}

theorem more (h : Sent out isOpen t) {more : List (Option Nat × Message)}
    (hpending : t'.pending = t.pending ++ more.map Prod.snd)
    (hqueued : t'.queued = t.queued ++ more) : Sent out isOpen t' := by
  refine ⟨?_, fun hopen => ?_⟩
  · rw [hqueued, List.map_append, Message.toStringAll_append]
    exact h.sent.trans (List.prefix_append _ _)
  · rw [hqueued, hpending, List.map_append, Message.toStringAll_append,
      Message.toStringAll_append, ← h.rest hopen, List.append_assoc]

theorem same (h : Sent out isOpen t) (hpending : t'.pending = t.pending)
    (hqueued : t'.queued = t.queued) : Sent out isOpen t' :=
  ⟨hqueued ▸ h.sent, fun hopen => by rw [hpending, hqueued, h.rest hopen]⟩

theorem closed (h : Sent out isOpen t) (hqueued : t'.queued = t.queued) :
    Sent out false t' :=
  ⟨hqueued ▸ h.sent, fun hopen => by cases hopen⟩

theorem say (h : Sent out true t) {m : Message} {pending : List Message}
    (hpending : t.pending = m :: pending) (hpending' : t'.pending = pending)
    (hqueued : t'.queued = t.queued) : Sent (out ++ m.toString) true t' := by
  have hrest : out ++ m.toString ++ Message.toStringAll t'.pending =
      Message.toStringAll (t'.queued.map Prod.snd) := by
    rw [hqueued, ← h.rest rfl, hpending, hpending', Message.toStringAll_cons, List.append_assoc]
  exact ⟨⟨_, hrest⟩, fun _ => hrest⟩

end Sent

namespace Connections

/-- What was taken or stands in the write buffer. -/
def out (c : Nat) (s : Connections) : Bytes := s.taken c ++ (s.handlers c).writeBuffer

/-- What the kernel took of a connection, in order, is a beginning of the wire forms of all
that was queued for it; the rest is in the write buffer or pending. -/
def Sends (c : Nat) (s : Connections) : Prop :=
  Sent (s.out c) (s.handlers c).fd.isSome (s.server.talkers c)

theorem Sends.of_server {c : Nat} {s : Connections} (h : s.Sends c) {server : Server}
    (hsaid : ∃ more : List (Option Nat × Message),
      (server.talkers c).pending = (s.server.talkers c).pending ++ more.map Prod.snd ∧
        (server.talkers c).queued = (s.server.talkers c).queued ++ more) :
    ({ s with server := server } : Connections).Sends c := by
  obtain ⟨more, hpending, hqueued⟩ := hsaid
  exact h.more hpending hqueued

/-- A disconnected talker says nothing more. -/
theorem disconnect_said (conn c : Nat) (s : Server) :
    ((s.disconnect conn).talkers c).pending = (s.talkers c).pending ∧
      ((s.disconnect conn).talkers c).queued = (s.talkers c).queued := by
  unfold Server.disconnect
  simp only [Server.modifyTalker_talkers]
  cases (s.talkers conn).replicaId <;> simp only <;> split <;> exact ⟨rfl, rfl⟩

/-- Nothing follows on a connection that is closed, whatever its talker has. -/
theorem Sends.closeWith {c conn : Nat} {s : Connections} {server : Server} (h : s.Sends c)
    (hqueued : (server.talkers c).queued = (s.server.talkers c).queued)
    (hpending : conn ≠ c → (server.talkers c).pending = (s.server.talkers c).pending) :
    (({ s with server := server } : Connections).close conn).Sends c := by
  obtain ⟨hsame, hsame'⟩ := disconnect_said conn c server
  unfold Sends out Connections.close setHandler
  by_cases hconn : conn = c
  · subst hconn
    simp only [Function.update_self]
    exact h.closed (hsame'.trans hqueued)
  · simp only [Function.update_of_ne (Ne.symm hconn)]
    exact h.same (hsame.trans (hpending hconn)) (hsame'.trans hqueued)

theorem Sends.close {c : Nat} {s : Connections} (h : s.Sends c) (conn : Nat) :
    (s.close conn).Sends c :=
  h.closeWith rfl fun _ => rfl

theorem Sends.of_same {c : Nat} {s s' : Connections} (h : s.Sends c) (hout : s'.out c = s.out c)
    (hfd : (s'.handlers c).fd = (s.handlers c).fd) (hserver : s'.server = s.server) :
    s'.Sends c := by
  unfold Sends
  rw [hout, hfd, hserver]
  exact h

/-- A careful flush moves bytes from the buffer to the kernel. -/
theorem out_writeOut {conn : Nat} {results : List Written} {s : Connections}
    (hopen : (s.handlers conn).fd.isSome)
    (hcareful : Handler.failsMidway results (s.handlers conn).writeBuffer.length 0 = false)
    (c : Nat) : (s.writeOut conn results).1.out c = s.out c := by
  obtain ⟨fd, hfd⟩ := Option.isSome_iff_exists.mp hopen
  unfold out Connections.writeOut setHandler
  by_cases hconn : c = conn
  · subst hconn
    have htaken := (Handler.taken_append_iff hfd results).mpr hcareful
    simp only [Function.update_self, List.append_assoc, htaken]
  · simp only [Function.update_of_ne hconn]

theorem fd_writeOut (conn c : Nat) (results : List Written) (s : Connections) :
    ((s.writeOut conn results).1.handlers c).fd = (s.handlers c).fd := by
  unfold Connections.writeOut setHandler
  by_cases hconn : c = conn
  · subst hconn
    simp only [Function.update_self]
    exact congrArg Prod.snd (Handler.link_writeOut results (s.handlers c))
  · simp only [Function.update_of_ne hconn]

/-- What comes in goes to the parser. -/
theorem Sends.readIn {c : Nat} {s : Connections} (h : s.Sends c) (conn : Nat) (bytes : Bytes)
    (p : MessageParser) : (s.readIn conn bytes { s.handlers conn with parser := p }).Sends c := by
  refine h.of_same ?_ ?_ rfl
  all_goals
    unfold Connections.readIn setHandler
    by_cases hconn : c = conn
    · subst hconn
      simp [out]
    · simp [out, Function.update_of_ne hconn]

/-- A message that comes may be answered on any connection. -/
theorem receive_said {now : Timepoint} {conn : Nat} {m : Message} {s s' : Server}
    (h : s.receive now conn m = some s') (c : Nat) : ∃ more : List (Option Nat × Message),
      (s'.talkers c).pending = (s.talkers c).pending ++ more.map Prod.snd ∧
        (s'.talkers c).queued = (s.talkers c).queued ++ more := by
  have hspoken : Server.Says (fun _ _ => True) _ s' := Server.says_listen (fun _ _ _ => trivial)
    (fun _ _ _ => trivial) (fun _ _ => trivial) (Server.listen_of_receive h).2
  obtain ⟨more, hpending, hqueued, -⟩ := hspoken.said c
  refine ⟨more, ?_, ?_⟩
  · rw [hpending, Server.recordRequest, Server.modifyTalker_talkers]
    split <;> rfl
  · rw [hqueued, Server.recordRequest, Server.modifyTalker_talkers]
    split <;> rfl

theorem Sends.listenAll {c conn fuel : Nat} {clock : Nat → Timepoint} {p : MessageParser}
    {s : Connections} {after : MessageParser × Server} (h : s.Sends c)
    (hloop : Connections.listenAll conn fuel clock p s.server = some after) :
    ({ s with server := after.2 } : Connections).Sends c := by
  refine listenAll_keeps
    (I := fun _ server => ({ s with server := server } : Connections).Sends c)
    (fun _ _ _ _ _ _ hI => hI) ?_ hloop h
  intro p server m p' now server' _ hreceive hI
  exact Sends.of_server (s := { s with server := server }) hI (receive_said hreceive c)

/-- One message goes from the talker to the buffer. -/
theorem Sends.append {c conn : Nat} {m : Message} {s : Connections} {server : Server}
    (h : s.Sends c) (hopen : (s.handlers conn).fd.isSome)
    (hsay : s.server.say conn = some (m, server)) :
    ({ s.setHandler conn ((s.handlers conn).append m) with
      server := server } : Connections).Sends c := by
  obtain ⟨pending, hpending, rfl⟩ := Server.say_cases hsay
  unfold Sends out setHandler
  rw [Server.modifyTalker_talkers]
  by_cases hconn : conn = c
  · subst hconn
    simp only [Function.update_self, if_true, Handler.append, ← List.append_assoc]
    unfold Sends at h
    rw [hopen] at h ⊢
    exact h.say hpending rfl rfl
  · simp only [Function.update_of_ne (Ne.symm hconn), if_neg hconn]
    exact h

theorem Sends.step {c : Nat} {s s' : Connections} (h : s.Sends c) {a : ConnectionsAction}
    (hcareful : s.Careful a) (hstep : s.step a = some s') : s'.Sends c := by
  have hspoken : ∀ {server : Server}, Server.Says (fun _ _ => True) s.server server →
      ({ s with server := server } : Connections).Sends c := by
    intro server hspoken
    obtain ⟨more, hpending, hqueued, -⟩ := hspoken.said c
    exact h.of_server ⟨more, hpending, hqueued⟩
  cases a with
  | read clock conn received =>
      obtain ⟨hopen, hread⟩ := Option.ite_none_right_eq_some.mp hstep
      rcases processRead_cases hopen hread with rfl | rfl | ⟨fuel, after, hloop, rfl⟩
      · exact (h.readIn conn _ _).close conn
      · exact h.readIn conn _ _
      · exact (h.readIn conn received.chunks.flatten after.1).listenAll hloop
  | say conn results =>
      obtain ⟨hopen, hsayOne⟩ := Option.ite_none_right_eq_some.mp hstep
      obtain ⟨message, server, hsay, hcases⟩ := sayOne_cases hsayOne
      have happend := h.append hopen hsay
      simp only [Careful, hsay] at hcareful
      have hout : (Connections.writeOut conn results
          { s.setHandler conn ((s.handlers conn).append message) with
            server := server }).1.Sends c := by
        refine happend.of_same (out_writeOut ?_ ?_ c) (fd_writeOut ..) rfl
        · simpa [setHandler, Handler.append] using hopen
        · simpa [setHandler] using hcareful
      rcases hcases with rfl | rfl | rfl
      · obtain ⟨pending, -, rfl⟩ := Server.say_cases hsay
        refine h.closeWith ?_ fun hconn => ?_
        all_goals rw [Server.modifyTalker_talkers]
        · split <;> rfl
        · rw [if_neg hconn]
      · exact hout
      · exact hout.close conn
  | write conn results =>
      obtain ⟨hopen, hwrite⟩ := Option.ite_none_right_eq_some.mp hstep
      split at hwrite
      · cases hwrite
      · next s₁ answer _ heq =>
          obtain rfl := (congrArg Prod.fst heq).symm
          obtain rfl := Option.some.inj hwrite
          exact h.of_same (out_writeOut hopen hcareful c) (fd_writeOut ..) rfl
  | hangUp conn =>
      obtain ⟨hopen, hclose⟩ := Option.ite_none_right_eq_some.mp hstep
      exact Option.some.inj hclose ▸ h.close conn
  | runJob =>
      obtain ⟨server, hrun, rfl⟩ := Option.map_eq_some_iff.mp hstep
      exact hspoken (Server.says_runJob (fun _ _ _ => trivial) hrun)
  | fireRead i =>
      obtain ⟨server, hfire, rfl⟩ := Option.map_eq_some_iff.mp hstep
      exact hspoken (Server.says_fireRead (fun _ _ _ => trivial) hfire)
  | fireWait i =>
      obtain ⟨server, hfire, rfl⟩ := Option.map_eq_some_iff.mp hstep
      exact hspoken (Server.says_fireWait (fun _ _ _ => trivial) hfire)

end Connections

/-! ## Replies that can be told apart -/

/-- No argument of the message holds a delimiter, and it asks for no dump.  No reply to such a
request holds a text that would end too early. -/
structure IsTame (m : Message) : Prop where
  inline : Command.InlineRequest m
  noDump : ∀ args, Command.tryParse m ≠ .ok (.psync args)

namespace Server

/-- To a client that sends such messages only, nothing else than delimited messages is
said. -/
def Framed (c : Nat) (s : Server) : Prop :=
  (∀ m ∈ (s.talkers c).requests, IsTame m) → ∀ q ∈ (s.talkers c).queued, q.2.Delimited

theorem Framed.more {c : Nat} {s s' : Server} (h : s.Framed c)
    (hspoken : Says (fun conn m => conn = c → m.Delimited) s s') : s'.Framed c := by
  intro htame q hq
  rw [hspoken.requests] at htame
  obtain ⟨more, -, hqueued, hmore⟩ := hspoken.said c
  rw [hqueued] at hq
  rcases List.mem_append.mp hq with hq | hq
  · exact h htame q hq
  · exact hmore q hq rfl

theorem Framed.receive {c : Nat} {s s' : Server} (h : s.Framed c) {now : Timepoint}
    {conn : Nat} {m : Message} (hreceive : s.receive now conn m = some s') : s'.Framed c := by
  intro htame
  have hrequests := requests_receive hreceive c
  have htame' : ∀ x ∈ (s.talkers c).requests, IsTame x := by
    intro x hx
    refine htame x ?_
    rw [hrequests]
    split
    · exact List.mem_append_left _ hx
    · exact hx
  have hm : conn = c → IsTame m := by
    intro hconn
    refine htame m ?_
    rw [hrequests, if_pos hconn]
    exact List.mem_append_right _ (List.mem_singleton_self m)
  have hrecord : (s.recordRequest conn m).Framed c := by
    intro _ q hq
    refine h htame' q ?_
    rw [recordRequest, modifyTalker_talkers] at hq
    split at hq <;> exact hq
  refine hrecord.more (says_listen (fun _ _ hd _ => hd) ?_ ?_ (listen_of_receive hreceive).2)
    htame
  · exact fun args hparse x hconn => absurd hparse ((hm hconn).noDump args)
  · exact fun what hparse hconn =>
      delimited_simpleError (Command.clean_tryParse (hm hconn).inline what hparse)

theorem Framed.step {c : Nat} {s s' : Server} (h : s.Framed c) {a : ServerAction}
    (hstep : s.step a = some s') : s'.Framed c := by
  cases a with
  | receive now conn message => exact h.receive hstep
  | say conn =>
      obtain ⟨⟨message, s₁⟩, hsay, rfl⟩ := Option.map_eq_some_iff.mp hstep
      obtain ⟨pending, -, rfl⟩ := say_cases hsay
      unfold Framed
      rw [modifyTalker_talkers]
      split <;> exact h
  | disconnect conn =>
      exact h.more (Option.some.inj hstep ▸ says_disconnect conn s)
  | runJob => exact h.more (says_runJob (fun _ _ hd _ => hd) hstep)
  | fireRead i => exact h.more (says_fireRead (fun _ _ hd _ => hd) hstep)
  | fireWait i => exact h.more (says_fireWait (fun _ _ hd _ => hd) hstep)

end Server

namespace Connections

/-- **From messages to bytes.**  Where no `::write` fails behind one of the same flush that
transferred something: what the kernel took of a connection is the start of all that was
queued there, and while it is open, what was taken, the write buffer and `_pending` are all
of it.  When no message of the client held a delimiter in an argument or asked for a dump,
the delimited messages that it can read in the bytes it got are the first replies. -/
theorem replies_in_bytes {clock : Nat → Timepoint} {info : ServerInfo} {dbFile : Option Bytes}
    {server : Server} {s : Connections} (hstart : Server.start clock info dbFile = some server)
    (h : (machine server).Reachable Careful s) (c : Nat) :
    let queued := (s.server.talkers c).queued.map Prod.snd
    s.taken c <+: Message.toStringAll queued ∧
      ((s.handlers c).fd.isSome →
        s.taken c ++ (s.handlers c).writeBuffer ++
          Message.toStringAll (s.server.talkers c).pending = Message.toStringAll queued) ∧
      ((∀ m ∈ (s.server.talkers c).requests, IsTame m) →
        ∀ ms : List Message, (∀ m ∈ ms, m.Delimited) →
          Message.toStringAll ms <+: s.taken c → ms <+: queued) := by
  obtain ⟨values, rfl⟩ := Server.start_eq hstart
  have hsends : s.Sends c := by
    refine h.invariant (I := fun s => s.Sends c) ⟨List.prefix_rfl, fun _ => rfl⟩ ?_
    exact fun _ _ _ _ hs hcareful htaken => hs.step hcareful htaken
  have hframed : s.server.Framed c := by
    refine ((refines _).reachable (h.mono fun _ _ _ => trivial)).invariant
      (I := fun s => s.Framed c) ?_ fun _ _ _ _ hs _ htaken => hs.step htaken
    exact fun _ q hq => by cases hq
  have htaken := (List.prefix_append _ _).trans hsends.sent
  refine ⟨htaken, hsends.rest, fun htame ms hms hread => ?_⟩
  obtain ⟨rest, hrest⟩ := hread.trans htaken
  exact Message.prefix_of_toStringAll hms
    (List.forall_mem_map.mpr (hframed htame)) hrest

/-- Two requests in one read; the answers leave in pieces. -/
def answered : List ConnectionsAction :=
  [.read (fun _ => 0) 3 ⟨[ascii "*2\r\n$3\r\nGET\r\n$1\r\nk\r\n*1\r\n$4\r\nPING\r\n"], .again⟩,
    .say 3 [.transferred 3, .again], .say 3 [.transferred 100]]

theorem replies_in_bytes_answered :
    ∃ s : Connections, (machine { info := { masterReplid := [] } }).run Careful
        { server := { info := { masterReplid := [] } } } answered = some s ∧
      s.taken 3 = ascii "$-1\r\n+PONG\r\n" ∧
      [.bulkString [], .simpleString (ascii "PONG")] <+:
        (s.server.talkers 3).queued.map Prod.snd := by
  obtain ⟨s, hrun, hs⟩ := Option.map_eq_some_iff.mp
    (by decide +kernel : ((machine { info := { masterReplid := [] } }).run Careful
      { server := { info := { masterReplid := [] } } } answered).map
        (fun s => ((s.server.talkers 3).requests, s.taken 3)) =
          some ([(Command.get (ascii "k")).construct, Command.ping.construct],
            ascii "$-1\r\n+PONG\r\n"))
  obtain ⟨hrequests, htaken⟩ := Prod.mk.inj hs
  have hreplies := (@replies_in_bytes (fun _ => 0) { masterReplid := [] } none _ s rfl
    (Machine.Reachable.run .init hrun) 3).2.2
  refine ⟨s, hrun, htaken, hreplies ?_ _ ?_ ⟨[], ?_⟩⟩
  · rw [hrequests]
    intro m hm
    rcases List.mem_pair.mp hm with rfl | rfl
    · have hparse : Command.tryParse (Command.get (ascii "k")).construct =
          .ok (.get (ascii "k")) := by decide +kernel
      refine ⟨fun x hx => ?_, fun args heq => by rw [hparse] at heq; cases heq⟩
      rcases List.mem_pair.mp hx with rfl | rfl
      · exact not_crlf_ascii rfl
      · exact not_crlf_ascii rfl
    · have hparse : Command.tryParse Command.ping.construct = .ok .ping := by decide +kernel
      refine ⟨fun x hx => ?_, fun args heq => by rw [hparse] at heq; cases heq⟩
      obtain rfl := List.mem_singleton.mp hx
      exact not_crlf_ascii rfl
  · intro m hm
    rcases List.mem_pair.mp hm with rfl | rfl
    · exact delimited_bulkString _
    · exact delimited_simpleString (not_crlf_ascii rfl)
  · rw [htaken]
    decide +kernel

/-- With a delimiter in an argument, a client reads an answer that was never given. -/
theorem not_replies_in_bytes : ∃ (s : Connections) (ms : List Message),
    (machine { info := { masterReplid := [] } }).Reachable Careful s ∧
      (∀ m ∈ ms, m.Delimited) ∧ Message.toStringAll ms <+: s.taken 3 ∧
      ¬ ms <+: (s.server.talkers 3).queued.map Prod.snd := by
  obtain ⟨s, hrun, hs⟩ := Option.map_eq_some_iff.mp
    (by decide +kernel : ((machine { info := { masterReplid := [] } }).run Careful
      { server := { info := { masterReplid := [] } } }
      [.read (fun _ => 0) 3 ⟨[(Message.array [.bulkString (ascii "SET"), .bulkString (ascii "k"),
          .bulkString (ascii "v"), .bulkString (ascii "\r\n+ok")]).toString], .again⟩,
        .say 3 [.transferred 100]]).map
        (fun s => ((s.server.talkers 3).queued.map Prod.snd, s.taken 3)) =
          some ([.simpleError (ascii "unknown param \"\r\n+ok\"")],
            ascii "-unknown param \"\r\n+ok\"\r\n"))
  obtain ⟨hqueued, htaken⟩ := Prod.mk.inj hs
  refine ⟨s, [.simpleError (ascii "unknown param \""), .simpleString (ascii "ok\"")],
    Machine.Reachable.run .init hrun, ?_, ⟨[], ?_⟩, ?_⟩
  · intro m hm
    rcases List.mem_pair.mp hm with rfl | rfl
    · exact delimited_simpleError (not_crlf_ascii rfl)
    · exact delimited_simpleString (not_crlf_ascii rfl)
  · rw [htaken]
    decide +kernel
  · rw [hqueued]
    decide +kernel

end Connections

end BuildYourOwnRedis
