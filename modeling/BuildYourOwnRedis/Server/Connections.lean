/-
  Server/Connections.lean --- a server behind its sockets.

  The handlers of the connections read bytes, ask their parsers for messages, and write what
  the talkers say.  How the kernel cuts the bytes is input, and so is the order in which the
  connections and the timers have their turns.  A step is a part of a turn: reading and the
  loop of `listen`, one message that is said, one `write`; so the runs are all that the event
  loop can do, and more.

  What a closed handler does before it is destroyed is left out: it has no descriptor, and
  nothing that its talker says goes anywhere.
-/
import BuildYourOwnRedis.Foundation.Refinement
import BuildYourOwnRedis.Net.WritePath
import BuildYourOwnRedis.Resp.Reader
import BuildYourOwnRedis.Server.Says

set_option autoImplicit false

namespace BuildYourOwnRedis

open Foundation

/-- A server and the handlers of its connections; their talkers are in the server.  The
number of a connection stands for its descriptor. -/
structure Connections where
  server : Server
  handlers : Nat → Handler Unit := fun conn => .make true conn ⟨(), []⟩
  /-- Recorded: the bytes that were read. -/
  received : Nat → Bytes := fun _ => []
  /-- Recorded: the bytes that the kernel took. -/
  taken : Nat → Bytes := fun _ => []

/-- What can happen to a server and its handlers, down to what the kernel gives and takes in
each call. -/
inductive ConnectionsAction where
  /-- `ReadyToRead`: what `::read` gives, and what the clock shows at each message -/
  | read (clock : Nat → Timepoint) (conn : Nat) (received : Received)
  /-- one round of the loop of `process_write`, and what `::write` gives -/
  | say (conn : Nat) (results : List Written)
  /-- `ReadyToWrite` -/
  | write (conn : Nat) (results : List Written)
  /-- `HangUp` -/
  | hangUp (conn : Nat)
  | runJob
  | fireRead (i : Nat)
  | fireWait (i : Nat)

/-- PSYNC from a connection that has no replica leaves `listen` by an exception. -/
def Server.throws (conn : Nat) (message : Message) (s : Server) : Bool :=
  match Command.tryParse message with
  | .ok (.psync _) => (s.talkers conn).replicaId.isNone
  | _ => false

theorem Handler.read_of_open {T : Type} {h : Handler T} (hopen : h.fd.isSome)
    (received : Received) : h.read received =
      ({ h with parser := h.parser.feed received.chunks.flatten },
        match received.ending with
        | .again => .ok ()
        | .closed => .error .connReset
        | .reset => .error .connReset
        | .failed => .error .caught) := by
  unfold Handler.read
  split
  · next hclosed => simp [hclosed] at hopen
  · rfl

namespace Connections

/-- Change one handler. -/
def setHandler (conn : Nat) (h : Handler Unit) (s : Connections) : Connections :=
  { s with handlers := Function.update s.handlers conn h }

/-- `Handler::close`. -/
def close (conn : Nat) (s : Connections) : Connections :=
  { s.setHandler conn { s.handlers conn with fd := none } with
    server := s.server.disconnect conn }

/-- `Handler::write`. -/
def writeOut (conn : Nat) (results : List Written) (s : Connections) :
    Connections × Except Thrown Bool :=
  let (h, result) := (s.handlers conn).writeOut results
  ({ s.setHandler conn h with
      taken := Function.update s.taken conn (s.taken conn ++ (s.handlers conn).taken results) },
    result)

/-- The loop of `process_read`; an exception of the parser or of `listen` ends it. -/
def listenAll (conn : Nat) :
    Nat → (Nat → Timepoint) → MessageParser → Server → Option (MessageParser × Server)
  | 0, _, p, server => some (p, server)
  | fuel + 1, clock, p, server =>
      match p.tryParse .any with
      | (.error _, p) => some (p, server)
      | (.ok none, p) => some (p, server)
      | (.ok (some m), p) =>
          match server.receive (clock 0) conn m with
          | none => none
          | some server' =>
              if server.throws conn m then some (p, server')
              else listenAll conn fuel (fun i => clock (i + 1)) p server'

/-- `Handler::read`: the bytes are in the buffer of the parser. -/
def readIn (conn : Nat) (bytes : Bytes) (h : Handler Unit) (s : Connections) : Connections :=
  { s.setHandler conn h with
    received := Function.update s.received conn (s.received conn ++ bytes) }

/-- `Handler::process_read`, without the `process_write` behind it. -/
def processRead (clock : Nat → Timepoint) (conn : Nat) (received : Received)
    (s : Connections) : Option Connections :=
  match (s.handlers conn).read received with
  | (h, .error .connReset) => some ((s.readIn conn received.chunks.flatten h).close conn)
  | (h, .error .caught) => some (s.readIn conn received.chunks.flatten h)
  | (h, .ok ()) =>
      (listenAll conn (h.parser.weight + 1) clock h.parser s.server).map fun after =>
        { s.readIn conn received.chunks.flatten { h with parser := after.1 } with
          server := after.2 }

/-- One round of the loop of `Handler::process_write`. -/
def sayOne (conn : Nat) (results : List Written) (s : Connections) : Option Connections :=
  (s.server.say conn).map fun (message, server) =>
    let s := { s with server := server }
    if message.type = .leave then s.close conn
    else
      match (s.setHandler conn ((s.handlers conn).append message)).writeOut conn results with
      | (s, .error .connReset) => s.close conn
      | (s, _) => s

/-- One step.  Nothing catches `ConnReset` where the poller calls `write`. -/
def step (s : Connections) : ConnectionsAction → Option Connections
  | .read clock conn received =>
      if (s.handlers conn).fd.isSome then s.processRead clock conn received else none
  | .say conn results => if (s.handlers conn).fd.isSome then s.sayOne conn results else none
  | .write conn results =>
      if (s.handlers conn).fd.isSome then
        match s.writeOut conn results with
        | (_, .error .connReset) => none
        | (s, _) => some s
      else none
  | .hangUp conn => if (s.handlers conn).fd.isSome then some (s.close conn) else none
  | .runJob => s.server.runJob.map fun server => { s with server := server }
  | .fireRead i => (s.server.fireRead i).map fun server => { s with server := server }
  | .fireWait i => (s.server.fireWait i).map fun server => { s with server := server }

/-- A server that has just started. -/
def machine (server : Server) : Machine Connections ConnectionsAction where
  init := { server := server }
  step := step

/-- No `::write` fails behind one of the same flush that transferred something.  After such a
failure the buffer still begins with bytes that the kernel has taken. -/
def Careful (s : Connections) : ConnectionsAction → Prop
  | .say conn results =>
      match s.server.say conn with
      | none => True
      | some (message, _) =>
          Handler.failsMidway results ((s.handlers conn).append message).writeBuffer.length 0 =
            false
  | .write conn results =>
      Handler.failsMidway results (s.handlers conn).writeBuffer.length 0 = false
  | _ => True

instance (s : Connections) (a : ConnectionsAction) : Decidable (s.Careful a) := by
  unfold Careful
  split
  · split <;> infer_instance
  · infer_instance
  · infer_instance

/-! ## The loop of `process_read` -/

/-- What every round keeps, the loop keeps. -/
theorem listenAll_keeps {conn : Nat} {I : MessageParser → Server → Prop}
    (hstop : ∀ p s answer p', p.tryParse .any = (answer, p') → (∀ m, answer ≠ .ok (some m)) →
      I p s → I p' s)
    (hitem : ∀ p s m p' now s', p.tryParse .any = (.ok (some m), p') →
      s.receive now conn m = some s' → I p s → I p' s')
    {fuel : Nat} {clock : Nat → Timepoint} {p : MessageParser} {s : Server}
    {after : MessageParser × Server} (h : listenAll conn fuel clock p s = some after)
    (hI : I p s) : I after.1 after.2 := by
  fun_induction listenAll conn fuel clock p s with
  | case1 clock p s => exact Option.some.inj h ▸ hI
  | case2 fuel clock p s e p' hp =>
      exact Option.some.inj h ▸ hstop _ _ _ _ hp (fun m heq => by cases heq) hI
  | case3 fuel clock p s p' hp =>
      exact Option.some.inj h ▸ hstop _ _ _ _ hp (fun m heq => by cases heq) hI
  | case4 => cases h
  | case5 fuel clock p s m p' hp s' hreceive hthrows =>
      exact Option.some.inj h ▸ hitem _ _ _ _ _ _ hp hreceive hI
  | case6 fuel clock p s m p' hp s' hreceive hthrows ih =>
      exact ih h (hitem _ _ _ _ _ _ hp hreceive hI)

/-- All that reading can do.  Where it ends with `EAGAIN` the messages are listened to one
after the other; otherwise the connection is closed, or the error is thrown and nothing is
listened to. -/
theorem processRead_cases {clock : Nat → Timepoint} {conn : Nat} {received : Received}
    {s s' : Connections} (hopen : (s.handlers conn).fd.isSome)
    (h : s.processRead clock conn received = some s') :
    let h₁ : Handler Unit := { s.handlers conn with
      parser := (s.handlers conn).parser.feed received.chunks.flatten }
    s' = (s.readIn conn received.chunks.flatten h₁).close conn ∨
    s' = s.readIn conn received.chunks.flatten h₁ ∨
    ∃ fuel after, listenAll conn fuel clock h₁.parser s.server = some after ∧
      s' = { s.readIn conn received.chunks.flatten { h₁ with parser := after.1 } with
        server := after.2 } := by
  rw [processRead, Handler.read_of_open hopen] at h
  cases hending : received.ending with
  | again =>
      simp only [hending] at h
      obtain ⟨after, hloop, rfl⟩ := Option.map_eq_some_iff.mp h
      exact .inr (.inr ⟨_, after, hloop, rfl⟩)
  | closed =>
      simp only [hending] at h
      exact .inl (Option.some.inj h).symm
  | reset =>
      simp only [hending] at h
      exact .inl (Option.some.inj h).symm
  | failed =>
      simp only [hending] at h
      exact .inr (.inl (Option.some.inj h).symm)

/-! ## The server behind the sockets -/

/-- A step of the server alone is a run of one step. -/
theorem leads_server {server : Server} {a : ServerAction} {s s' : Server}
    (h : s.step a = some s') : (Server.machine server).Leads Anything s s' :=
  .one trivial h

theorem leads_step {server : Server} {s s' : Connections} {a : ConnectionsAction}
    (h : s.step a = some s') :
    (Server.machine server).Leads Anything s.server s'.server := by
  have hclose : ∀ conn (s : Connections),
      (Server.machine server).Leads Anything s.server (s.close conn).server :=
    fun conn s => leads_server (a := .disconnect conn) rfl
  cases a with
  | read clock conn received =>
      obtain ⟨hopen, h⟩ := Option.ite_none_right_eq_some.mp h
      rcases processRead_cases hopen h with rfl | rfl | ⟨fuel, after, hloop, rfl⟩
      · exact hclose conn (s.readIn conn _ _)
      · exact .refl
      · refine listenAll_keeps
          (I := fun _ after => (Server.machine server).Leads Anything s.server after)
          (fun _ _ _ _ _ _ hI => hI) ?_ hloop .refl
        intro p s₁ m p' now s₂ _ hreceive hI
        exact hI.trans (leads_server (a := .receive now conn m) hreceive)
  | say conn results =>
      obtain ⟨hopen, h⟩ := Option.ite_none_right_eq_some.mp h
      obtain ⟨⟨message, server'⟩, hsay, rfl⟩ := Option.map_eq_some_iff.mp h
      have hsaid : (Server.machine server).Leads Anything s.server server' :=
        leads_server (a := .say conn) (by simp [Server.step, hsay])
      simp only
      split
      · exact hsaid.trans (hclose conn { s with server := server' })
      · split
        · next s₁ heq =>
            obtain rfl := (congrArg Prod.fst heq).symm
            exact hsaid.trans (leads_server (a := .disconnect conn) rfl)
        · next s₁ answer _ heq =>
            obtain rfl := (congrArg Prod.fst heq).symm
            exact hsaid
  | write conn results =>
      obtain ⟨hopen, h⟩ := Option.ite_none_right_eq_some.mp h
      split at h
      · cases h
      · next s₁ answer _ heq =>
          obtain rfl := (congrArg Prod.fst heq).symm
          obtain rfl := Option.some.inj h
          exact .refl
  | hangUp conn =>
      obtain ⟨hopen, h⟩ := Option.ite_none_right_eq_some.mp h
      exact Option.some.inj h ▸ hclose conn s
  | runJob =>
      obtain ⟨server', hrun, rfl⟩ := Option.map_eq_some_iff.mp h
      exact leads_server (a := .runJob) hrun
  | fireRead i =>
      obtain ⟨server', hfire, rfl⟩ := Option.map_eq_some_iff.mp h
      exact leads_server (a := .fireRead i) hfire
  | fireWait i =>
      obtain ⟨server', hfire, rfl⟩ := Option.map_eq_some_iff.mp h
      exact leads_server (a := .fireWait i) hfire

/-- **A server behind its sockets is a server.**  A turn of a handler is a run of the server,
of as many steps as there were messages to listen to or to say. -/
theorem refines (server : Server) :
    Machine.Refines (machine server) Anything (Server.machine server) Anything
      Connections.server :=
  ⟨rfl, fun _ _ _ _ _ h => leads_step h⟩

/-! ## The bytes that come -/

/-- What all the bytes of a connection give, when they come at once. -/
def stream (received : Bytes) : ReadResult := readAtOnce (fun _ => .any) received

/-- The messages that were listened to are the first ones in the bytes, and the parser has
the others; behind a fault there may be more messages. -/
def Follows (received : Bytes) (p : MessageParser) (requests : List Message) : Prop :=
  messagePuller.drain (fun _ => .any) requests p = stream received ∨
    (∃ e, (stream received).ending = .error e) ∧ (stream received).items <+: requests

theorem stream_append (received more : Bytes) : stream (received ++ more) =
    messagePuller.step (fun _ => .any) (stream received) more := by
  have hfeed := messagePuller.drain_feed (fun _ => .any) more _ []
    (messagePuller.feed .fresh received) (Nat.lt_succ_self _)
  rw [messagePuller.feed_feed] at hfeed
  exact hfeed

theorem follows_fresh : Follows [] .fresh [] := .inl rfl

theorem Follows.feed {received : Bytes} {p : MessageParser} {requests : List Message}
    (h : Follows received p requests) (more : Bytes) :
    Follows (received ++ more) (p.feed more) requests := by
  rcases h with h | ⟨⟨e, hfault⟩, hitems⟩
  · refine .inl ?_
    rw [stream_append, ← h]
    exact messagePuller.drain_feed _ more _ requests p (Nat.lt_succ_self _)
  · have hsame : stream (received ++ more) = stream received := by
      rw [stream_append, Puller.step, hfault]
    exact .inr ⟨⟨e, hsame ▸ hfault⟩, hsame ▸ hitems⟩

/-- Asking in vain: nothing is there, or a fault. -/
theorem Follows.stop {received : Bytes} {p p' : MessageParser} {requests : List Message}
    {answer : Except ParseError (Option Message)} (h : Follows received p requests)
    (hp : p.tryParse .any = (answer, p')) (hanswer : ∀ m, answer ≠ .ok (some m)) :
    Follows received p' requests := by
  rcases h with h | h
  · match answer, hp, hanswer with
    | .ok (some m), _, hanswer => exact absurd rfl (hanswer m)
    | .ok none, hp, _ =>
        have hidle := MessageParser.pull_eq_idle.mpr hp
        -- a parser that is asked again says the same
        have hagain : p'.pull .any = .idle p' := by
          have hfeed := messagePuller.idle_feed .any p p' [] hidle
          simpa [messagePuller, MessageParser.feed, hidle] using hfeed.symm
        refine .inl ?_
        rw [← h, messagePuller.drain_eq _ _ p, messagePuller.drain_eq _ _ p']
        simp only [messagePuller, hidle, hagain]
    | .error e, hp, _ =>
        have hfault : p.pull .any = .fault e := MessageParser.pull_eq_fault.mpr ⟨p', hp⟩
        rw [messagePuller.drain_eq] at h
        simp only [messagePuller, hfault] at h
        rw [Follows, ← h]
        exact .inr ⟨⟨e, rfl⟩, List.prefix_rfl⟩
  · exact .inr h

theorem Follows.item {received : Bytes} {p p' : MessageParser} {requests : List Message}
    {m : Message} (h : Follows received p requests)
    (hp : p.tryParse .any = (.ok (some m), p')) :
    Follows received p' (requests ++ [m]) := by
  rcases h with h | ⟨hfault, hitems⟩
  · have hitem : messagePuller.pull .any p = .item m p' := MessageParser.pull_eq_item.mpr hp
    refine .inl ?_
    rw [← h, messagePuller.drain_eq _ requests p, hitem]
  · exact .inr ⟨hfault, hitems.trans (List.prefix_append _ _)⟩

end Connections

namespace Server

/-- A message that comes is recorded, and then it is heard. -/
theorem requests_receive {now : Timepoint} {conn : Nat} {m : Message} {s s' : Server}
    (h : s.receive now conn m = some s') (c : Nat) : (s'.talkers c).requests =
      if conn = c then (s.talkers c).requests ++ [m] else (s.talkers c).requests := by
  have hspoken : Says (fun _ _ => True) _ s' := says_listen (fun _ _ _ => trivial)
    (fun _ _ _ => trivial) (fun _ _ => trivial) (listen_of_receive h).2
  rw [hspoken.requests, recordRequest, modifyTalker_talkers]
  split <;> rfl

end Server

namespace Connections

/-- What was read on the connection is what its talker and its parser have: the requests, then
the bytes that make no request yet. -/
def Reads (c : Nat) (s : Connections) : Prop :=
  Follows (s.received c) (s.handlers c).parser (s.server.talkers c).requests

theorem disconnect_requests (conn c : Nat) (s : Server) :
    ((s.disconnect conn).talkers c).requests = (s.talkers c).requests :=
  (Server.says_disconnect (P := fun _ _ => True) conn s).requests c

theorem Reads.close {c : Nat} {s : Connections} (h : s.Reads c) (conn : Nat) :
    (s.close conn).Reads c := by
  have hparser : ((s.close conn).handlers c).parser = (s.handlers c).parser := by
    unfold Connections.close setHandler
    by_cases hconn : c = conn
    · subst hconn
      simp
    · simp [Function.update_of_ne hconn]
  unfold Reads
  rw [hparser]
  exact (disconnect_requests conn c s.server).symm ▸ h

theorem Reads.readIn {c : Nat} {s : Connections} (h : s.Reads c) (conn : Nat) (bytes : Bytes) :
    (s.readIn conn bytes { s.handlers conn with
      parser := (s.handlers conn).parser.feed bytes }).Reads c := by
  unfold Reads Connections.readIn setHandler
  by_cases hconn : c = conn
  · subst hconn
    simpa using Follows.feed h bytes
  · simpa [Function.update_of_ne hconn, Reads] using h

theorem Reads.of_same {c : Nat} {s s' : Connections} (h : s.Reads c)
    (hreceived : s'.received = s.received)
    (hparser : (s'.handlers c).parser = (s.handlers c).parser)
    (hrequests : (s'.server.talkers c).requests = (s.server.talkers c).requests) :
    s'.Reads c := by
  unfold Reads
  rw [hreceived, hparser, hrequests]
  exact h

theorem Reads.listenAll {c conn fuel : Nat} {clock : Nat → Timepoint} {s : Connections}
    {after : MessageParser × Server} (h : s.Reads c)
    (hloop : listenAll conn fuel clock (s.handlers conn).parser s.server = some after) :
    ({ s.setHandler conn { s.handlers conn with parser := after.1 } with
      server := after.2 } : Connections).Reads c := by
  by_cases hconn : conn = c
  · subst hconn
    unfold Reads setHandler
    simp only [Function.update_self]
    refine listenAll_keeps
      (I := fun p server => Follows (s.received conn) p (server.talkers conn).requests)
      (fun p server answer p' hp hanswer hI => hI.stop hp hanswer) ?_ hloop h
    intro p server m p' now server' hp hreceive hI
    rw [Server.requests_receive hreceive, if_pos rfl]
    exact hI.item hp
  · refine h.of_same rfl ?_ ?_
    · simp [setHandler, Function.update_of_ne (Ne.symm hconn)]
    · refine listenAll_keeps
        (I := fun _ server => (server.talkers c).requests = (s.server.talkers c).requests)
        (fun _ _ _ _ _ _ hI => hI) ?_ hloop rfl
      intro p server m p' now server' hp hreceive hI
      rw [Server.requests_receive hreceive, if_neg hconn, hI]

theorem parser_writeOut (conn c : Nat) (results : List Written) (s : Connections) :
    ((s.writeOut conn results).1.handlers c).parser = (s.handlers c).parser := by
  unfold writeOut setHandler
  by_cases hconn : c = conn
  · subst hconn
    simp only [Function.update_self]
    unfold Handler.writeOut
    split
    · rfl
    · split
      · rfl
      · split <;> rfl
  · simp [Function.update_of_ne hconn]

/-- All that a round of `process_write` can do: a message is taken from the talker and put into
the buffer, and as much is written as the kernel takes. -/
theorem sayOne_cases {conn : Nat} {results : List Written} {s s' : Connections}
    (h : s.sayOne conn results = some s') : ∃ message server,
      s.server.say conn = some (message, server) ∧
      let s₁ : Connections :=
        { s.setHandler conn ((s.handlers conn).append message) with server := server }
      (s' = { s with server := server }.close conn ∨ s' = (s₁.writeOut conn results).1 ∨
        s' = (s₁.writeOut conn results).1.close conn) := by
  obtain ⟨⟨message, server⟩, hsay, rfl⟩ := Option.map_eq_some_iff.mp h
  refine ⟨message, server, hsay, ?_⟩
  simp only
  split
  · exact .inl rfl
  · split
    · next s₂ heq => exact .inr (.inr (congrArg (fun r => r.1.close conn) heq).symm)
    · next s₂ answer _ heq => exact .inr (.inl (congrArg Prod.fst heq).symm)

theorem say_requests {conn : Nat} {message : Message} {s s' : Server}
    (h : s.say conn = some (message, s')) (c : Nat) :
    (s'.talkers c).requests = (s.talkers c).requests := by
  obtain ⟨pending, -, rfl⟩ := Server.say_cases h
  rw [Server.modifyTalker_talkers]
  split <;> rfl

theorem Reads.step {c : Nat} {s s' : Connections} (h : s.Reads c) {a : ConnectionsAction}
    (hstep : s.step a = some s') : s'.Reads c := by
  have hsaid : ∀ {server : Server}, Server.Says (fun _ _ => True) s.server server →
      ({ s with server := server } : Connections).Reads c := fun hspoken =>
    h.of_same rfl rfl (hspoken.requests c)
  cases a with
  | read clock conn received =>
      obtain ⟨hopen, hread⟩ := Option.ite_none_right_eq_some.mp hstep
      have hin := h.readIn conn received.chunks.flatten
      rcases processRead_cases hopen hread with rfl | rfl | ⟨fuel, after, hloop, rfl⟩
      · exact hin.close conn
      · exact hin
      · have hafter := @Reads.listenAll c conn fuel clock _ after hin
          (by simpa [Connections.readIn, setHandler] using hloop)
        simpa [Connections.readIn, setHandler] using hafter
  | say conn results =>
      obtain ⟨hopen, hsayOne⟩ := Option.ite_none_right_eq_some.mp hstep
      obtain ⟨message, server, hsay, hcases⟩ := sayOne_cases hsayOne
      have hsay' := say_requests hsay c
      have hafter : ∀ s₁ : Connections, s₁.received = s.received → s₁.server = server →
          (s₁.handlers c).parser = (s.handlers c).parser → s₁.Reads c := by
        intro s₁ hreceived hserver hparser
        exact h.of_same hreceived hparser (hserver ▸ hsay')
      have happend : ((s.setHandler conn ((s.handlers conn).append message)).handlers c).parser =
          (s.handlers c).parser := by
        unfold setHandler
        by_cases hconn : c = conn
        · subst hconn
          simp [Handler.append]
        · simp [Function.update_of_ne hconn]
      have hout : (Connections.writeOut conn results
          { s.setHandler conn ((s.handlers conn).append message) with
            server := server }).1.Reads c :=
        hafter _ rfl rfl ((parser_writeOut ..).trans happend)
      rcases hcases with rfl | rfl | rfl
      · exact (hafter { s with server := server } rfl rfl rfl).close conn
      · exact hout
      · exact hout.close conn
  | write conn results =>
      obtain ⟨hopen, hwrite⟩ := Option.ite_none_right_eq_some.mp hstep
      split at hwrite
      · cases hwrite
      · next s₁ answer _ heq =>
          obtain rfl := (congrArg Prod.fst heq).symm
          obtain rfl := Option.some.inj hwrite
          exact h.of_same rfl (parser_writeOut ..) rfl
  | hangUp conn =>
      obtain ⟨hopen, hclose⟩ := Option.ite_none_right_eq_some.mp hstep
      exact Option.some.inj hclose ▸ h.close conn
  | runJob =>
      obtain ⟨server, hrun, rfl⟩ := Option.map_eq_some_iff.mp hstep
      exact hsaid (Server.says_runJob (fun _ _ _ => trivial) hrun)
  | fireRead i =>
      obtain ⟨server, hfire, rfl⟩ := Option.map_eq_some_iff.mp hstep
      exact hsaid (Server.says_fireRead (fun _ _ _ => trivial) hfire)
  | fireWait i =>
      obtain ⟨server, hfire, rfl⟩ := Option.map_eq_some_iff.mp hstep
      exact hsaid (Server.says_fireWait (fun _ _ _ => trivial) hfire)

/-- Without PSYNC the loop listens to all that the parser has. -/
theorem listenAll_items {conn fuel : Nat} {clock : Nat → Timepoint} {p : MessageParser}
    {server : Server} {after : MessageParser × Server} (hfuel : p.weight < fuel)
    (h : Connections.listenAll conn fuel clock p server = some after)
    (hpsync : ∀ m ∈ (after.2.talkers conn).requests,
      ∀ args, Command.tryParse m ≠ .ok (.psync args)) :
    (messagePuller.drain (fun _ => .any) (server.talkers conn).requests p).items =
      (after.2.talkers conn).requests := by
  fun_induction Connections.listenAll conn fuel clock p server with
  | case1 => omega
  | case2 fuel clock p server e p' hp =>
      have hfault : messagePuller.pull .any p = .fault e :=
        MessageParser.pull_eq_fault.mpr ⟨p', hp⟩
      rw [messagePuller.drain_eq, hfault, ← Option.some.inj h]
  | case3 fuel clock p server p' hp =>
      have hidle : messagePuller.pull .any p = .idle p' := MessageParser.pull_eq_idle.mpr hp
      rw [messagePuller.drain_eq, hidle, ← Option.some.inj h]
  | case4 => cases h
  | case5 fuel clock p server m p' hp server' hreceive hthrows =>
      obtain rfl := Option.some.inj h
      have hrecorded : m ∈ (server'.talkers conn).requests := by
        rw [Server.requests_receive hreceive, if_pos rfl]
        exact List.mem_append_right _ (List.mem_singleton_self m)
      unfold Server.throws at hthrows
      split at hthrows
      · next args hparse => exact absurd hparse (hpsync m hrecorded args)
      · cases hthrows
  | case6 fuel clock p server m p' hp server' hreceive hthrows ih =>
      have hitem : messagePuller.pull .any p = .item m p' := MessageParser.pull_eq_item.mpr hp
      have hlt : p'.weight < p.weight := messagePuller.weight_item _ _ _ _ hitem
      rw [messagePuller.drain_eq, hitem, ← ih (by omega) h,
        Server.requests_receive hreceive, if_pos rfl]

theorem Reads.listensToAll {c : Nat} {clock : Nat → Timepoint} {chunks : List Bytes}
    {s s' : Connections} (h : s.Reads c) (hstep : s.step (.read clock c ⟨chunks, .again⟩) = some s')
    (hpsync : ∀ m ∈ (s'.server.talkers c).requests,
      ∀ args, Command.tryParse m ≠ .ok (.psync args)) :
    (stream (s'.received c)).items <+: (s'.server.talkers c).requests := by
  obtain ⟨hopen, hread⟩ := Option.ite_none_right_eq_some.mp hstep
  rw [processRead, Handler.read_of_open hopen] at hread
  obtain ⟨after, hloop, rfl⟩ := Option.map_eq_some_iff.mp hread
  have hitems := listenAll_items (Nat.lt_succ_self _) hloop hpsync
  have hin := h.readIn c chunks.flatten
  simp only [Reads, Connections.readIn, setHandler, Function.update_self] at hin ⊢
  rcases hin with hin | hin
  · rw [← hin, hitems]
  · refine hin.2.trans ?_
    rw [← hitems]
    exact messagePuller.prefix_items_drain _ _ _

/-- **From bytes to messages.**  Whatever the sockets and the timers do, the server is in a
state that it reaches when whole messages come, and on every connection the messages that it
listened to are the first ones of the bytes that came there, however they were cut; only behind
bytes that are no message it may have listened to more.  After a read that ends with `EAGAIN`
it has listened to all of them, if none is PSYNC.  A read that ends otherwise is thrown before
anything is parsed. -/
theorem listens_to_bytes {clock : Nat → Timepoint} {info : ServerInfo} {dbFile : Option Bytes}
    {server : Server} {s : Connections} (hstart : Server.start clock info dbFile = some server)
    (h : (machine server).Reachable Anything s) :
    (Server.machine server).Reachable Anything s.server ∧
      (∀ c, (s.server.talkers c).requests <+: (stream (s.received c)).items ∨
        (∃ e, (stream (s.received c)).ending = .error e) ∧
          (stream (s.received c)).items <+: (s.server.talkers c).requests) ∧
      ∀ clock c chunks s', s.step (.read clock c ⟨chunks, .again⟩) = some s' →
        (∀ m ∈ (s'.server.talkers c).requests,
          ∀ args, Command.tryParse m ≠ .ok (.psync args)) →
        (stream (s'.received c)).items <+: (s'.server.talkers c).requests := by
  have hreads : ∀ c, s.Reads c := by
    intro c
    refine h.invariant (I := fun s => s.Reads c) ?_ fun _ _ _ _ hs _ htaken => hs.step htaken
    obtain ⟨values, rfl⟩ := Server.start_eq hstart
    exact follows_fresh
  refine ⟨(refines server).reachable h, fun c => ?_,
    fun clock c chunks s' hstep => (hreads c).listensToAll hstep⟩
  refine (hreads c).imp_left fun hsame => ?_
  rw [← hsame]
  exact messagePuller.prefix_items_drain _ _ _

/-- PING in two pieces, the second with a part of the next message; the answer leaves in two
pieces as well, and the client hangs up. -/
def inPieces : List ConnectionsAction :=
  [.read (fun _ => 0) 3 ⟨[ascii "*1\r\n$4\r", ascii "\nPI"], .again⟩,
    .read (fun _ => 0) 3 ⟨[ascii "NG\r\n*1\r\n"], .again⟩,
    .say 3 [.transferred 2, .again], .write 3 [.transferred 100], .hangUp 3]

theorem listens_to_bytes_inPieces :
    ∃ s : Connections, (machine { info := { masterReplid := [] } }).run Anything
        { server := { info := { masterReplid := [] } } } inPieces = some s ∧
      (s.server.talkers 3).requests = [Command.ping.construct] ∧
      s.taken 3 = ascii "+PONG\r\n" ∧
      (Server.machine { info := { masterReplid := [] } }).Reachable Anything s.server := by
  obtain ⟨s, hrun, hs⟩ := Option.map_eq_some_iff.mp
    (by decide +kernel : ((machine { info := { masterReplid := [] } }).run Anything
      { server := { info := { masterReplid := [] } } } inPieces).map
        (fun s => ((s.server.talkers 3).requests, s.taken 3)) =
          some ([Command.ping.construct], ascii "+PONG\r\n"))
  obtain ⟨hrequests, htaken⟩ := Prod.mk.inj hs
  exact ⟨s, hrun, hrequests, htaken,
    (@listens_to_bytes (fun _ => 0) { masterReplid := [] } none _ s rfl
      (Machine.Reachable.run .init hrun)).1⟩

end Connections

end BuildYourOwnRedis
