/-
  Server/Keyspace.lean --- all clients together see one map.

  Every connection has a `ServerTalker` of its own, and all of them work on one storage.
  `Keyspace` records beside the server what is asked about the keys on any connection, in the
  order in which it is executed, and what is answered.  The answers are those of the map with
  expiry that executes the same commands one after the other and nothing else: what waits,
  what replicates, what connects and what leaves changes no answer.

  The map does not have what has expired.  The storage still shows it to TYPE, XADD and KEYS
  until a GET erases it, so runs are followed in which they do not come upon it.
-/
import BuildYourOwnRedis.Replication.DataSet
import BuildYourOwnRedis.Server.ReplyBytes

set_option autoImplicit false

namespace BuildYourOwnRedis

open Foundation

/-! ## Questions -/

/-- What is asked about the keys, by commands that read or write values at once.  A blocking
XREAD is none of them. -/
inductive Question where
  | key (command : KeyCommand)
  | range (key : Bytes) (leftId rightId : BoundStreamId)
  | read (request : StreamsReadRequest)
  deriving DecidableEq

/-- A replica does not execute SET. -/
def Command.question (isReplica : Bool) : Command → Option Question
  | .set key value expireMs => if isReplica then none else some (.key (.set key value expireMs))
  | .get key => some (.key (.get key))
  | .type key => some (.key (.type key))
  | .keys _ => some (.key .keys)
  | .xadd key id values => some (.key (.xadd key id values))
  | .xrange key leftId rightId => some (.range key leftId rightId)
  | .xread request none => some (.read request)
  | _ => none

/-- An answer as it is said. -/
def KeyAnswer.message : KeyAnswer → Message
  | .done => .simpleString (ascii "OK")
  | .value data => .bulkString (data.getD [])
  | .added (.ok id) => .bulkString id.toString
  | .added (.error e) => .simpleError e.toString
  | .type t => .bulkString t.toString
  | .keys ks => .array (ks.map .bulkString)

theorem KeyAnswer.message_added (result : Except StreamErrorType StreamId) :
    (KeyAnswer.added result).message =
      match result with
      | .ok id => .bulkString id.toString
      | .error e => .simpleError e.toString := by
  cases result <;> rfl

namespace Reference

/-- What XRANGE finds at a key. -/
def rangeOf (leftId rightId : BoundStreamId) : Option Value → Option StreamRange
  | none => some []
  | some value => value.asStream?.bind fun stream => stream.xrange leftId rightId

/-- What XREAD finds: the streams that have entries behind an id. -/
def readStreams (now : Timepoint) (m : Reference) :
    StreamsReadRequest → Option StreamsReadResult
  | [] => some []
  | (key, id) :: request =>
      match m.live now key with
      | none => readStreams now m request
      | some value => do
          let stream ← value.asStream?
          let result ← readStreams now m request
          if stream.xread id = [] then return result
          else return (key, stream.xread id) :: result

/-- The messages that answer a question, by what is live in the map at the time.  What the map
leaves open, as the order of the keys, is left open here too. -/
def Answers (now : Timepoint) (m : Reference) : Question → Message → Prop
  | .key command, reply => ∃ answer, m.Allows now command answer ∧ reply = answer.message
  | .range key leftId rightId, reply =>
      ∃ entries, rangeOf leftId rightId (m.live now key) = some entries ∧
        reply = entriesMessage entries
  | .read request, reply =>
      ∃ result, m.readStreams now request = some result ∧ reply = streamsMessage result

/-- The map behind a question. -/
def asked (now : Timepoint) (m : Reference) : Question → Reference
  | .key command => m.perform now command
  | .range _ _ _ | .read _ => m

end Reference

/-! ## What a command does to the storage -/

/-- Of a storage only the values count. -/
theorem Storage.perform_of_values {κ κ' : Type} {s : Storage κ} {s' : Storage κ'}
    (h : s'.values = s.values) (now : Timepoint) (command : KeyCommand) :
    (s'.perform now command).1 = (s.perform now command).1 ∧
      (s'.perform now command).2.values = (s.perform now command).2.values := by
  cases command with
  | restore key value expireTime => exact ⟨rfl, congrArg (AList.insert key _) h⟩
  | set key value expireMs => exact ⟨rfl, congrArg (AList.insert key _) h⟩
  | get key =>
      refine ⟨by simp only [perform, Expiring.get_eq, h], ?_⟩
      simp only [perform, Storage.get, h]
      split
      · exact h
      · exact h
      · split
        · rfl
        · exact h
  | xadd key inId values =>
      have hs := Expiring.xadd_eq now key inId values s
      have hs' := Expiring.xadd_eq now key inId values s'
      rw [h] at hs'
      exact ⟨congrArg KeyAnswer.added (hs'.1.trans hs.1.symm), hs'.2.trans hs.2.symm⟩
  | type key => exact ⟨by simp only [perform, Storage.type, h], h⟩
  | keys => exact ⟨by simp only [perform, Storage.keys, h], h⟩

namespace Server

/-- The last thing that was said on the connection of a slot, and that it answers the request
of this slot. -/
def LastSaid (slot : Slot) (reply : Message) (s : Server) : Prop :=
  (s.talkers slot.conn).queued.getLast? = some (slot.request, reply)

theorem lastSaid_nextSay (slot : Slot) (reply : Message) (s : Server) :
    LastSaid slot reply (s.nextSay slot reply) := by
  rw [LastSaid, nextSay_talker, if_pos rfl]
  exact List.getLast?_concat

/-- What a command is answered, and what is stored then.  A message that asks nothing about the
keys changes nothing of what is stored. -/
def Responds (now : Timepoint) (slot : Slot) (s s' : Server) : Option Question → Prop
  | none => s'.values = s.values
  | some (.key command) =>
      s'.values = (s.middleware.storage.perform now command).2.values ∧
        LastSaid slot (s.middleware.storage.perform now command).1.message s'
  | some (.range key leftId rightId) => s'.values = s.values ∧
      ∃ entries, s.middleware.storage.xrange key leftId rightId = some entries ∧
        LastSaid slot (entriesMessage entries) s'
  | some (.read request) => s'.values = s.values ∧
      ∃ result, s.middleware.storage.readStreams request = some result ∧
        LastSaid slot (streamsMessage result) s'

theorem execute_responds {now : Timepoint} {slot : Slot} {command : Command} {s s' : Server}
    (hopen : (s.talkers slot.conn).isOpen) (h : s.execute now slot command = some s') :
    s'.info = s.info ∧ Responds now slot s s' (command.question s.info.isReplica) := by
  cases command with
  | ping => exact Option.some.inj h ▸ ⟨rfl, rfl⟩
  | echo data => exact Option.some.inj h ▸ ⟨rfl, rfl⟩
  | info args => exact Option.some.inj h ▸ ⟨rfl, rfl⟩
  | config action args => exact Option.some.inj h ▸ ⟨rfl, rfl⟩
  | keys arg => exact Option.some.inj h ▸ ⟨rfl, rfl, lastSaid_nextSay slot _ s⟩
  | type key => exact Option.some.inj h ▸ ⟨rfl, rfl, lastSaid_nextSay slot _ s⟩
  | get key =>
      obtain rfl := Option.some.inj h
      exact ⟨rfl, rfl, lastSaid_nextSay slot _ _⟩
  | xadd key id values =>
      obtain rfl := Option.some.inj h
      refine ⟨rfl, rfl, ?_⟩
      simp only [Storage.perform, KeyAnswer.message_added]
      exact lastSaid_nextSay slot _ _
  | xrange key leftId rightId =>
      obtain ⟨entries, hrange, rfl⟩ := Option.map_eq_some_iff.mp h
      exact ⟨rfl, rfl, entries, hrange, lastSaid_nextSay slot _ s⟩
  | psync args =>
      obtain ⟨hvalues, hinfo⟩ := s.listenPsync_values slot
      exact Option.some.inj h ▸ ⟨hinfo, hvalues⟩
  | replConf args =>
      obtain ⟨hvalues, hinfo⟩ := listenReplConf_values h
      exact ⟨hinfo, hvalues⟩
  | wait replicas timeoutMs =>
      obtain ⟨hmiddleware, hinfo⟩ := update_middleware h
      refine ⟨hinfo, ?_⟩
      simp only [Command.question, Responds, values, hmiddleware, StorageMiddleware.waitFor_storage]
  | set key value expireMs =>
      simp only [execute] at h
      split at h
      · next hreplica =>
          simp only [Command.question, hreplica, if_true]
          exact Option.some.inj h ▸ ⟨rfl, rfl⟩
      · next hmaster =>
          obtain ⟨s₁, hset, h⟩ := Option.bind_eq_some_iff.mp h
          obtain rfl := Option.some.inj h
          obtain ⟨hmiddleware, hinfo⟩ := update_middleware hset
          simp only [Command.question, hmaster, Bool.false_eq_true, if_false]
          refine ⟨hinfo, ?_, lastSaid_nextSay slot _ s₁⟩
          change s₁.middleware.storage.values = _
          rw [hmiddleware]
          rfl
  | xread request blockMs =>
      obtain ⟨⟨storage, calls⟩, hread, hanswer⟩ := Option.bind_eq_some_iff.mp h
      obtain ⟨hvalues, hinfo⟩ := updateStorage_values hanswer
      have hsame : s'.values = s.values := hvalues.trans (Storage.xread_values hread)
      cases blockMs with
      | some ms => exact ⟨hinfo, hsame⟩
      | none =>
          obtain ⟨result, hresult, ⟨rfl, rfl⟩ | ⟨ms, hms, -⟩⟩ := Storage.xread_cases hread
          · have hthere : ((s.setStorage s.middleware.storage).talkers slot.conn).isOpen := hopen
            simp only [updateStorage, answerAll, hthere, if_true] at hanswer
            obtain rfl := Option.some.inj hanswer
            exact ⟨rfl, rfl, result, hresult, lastSaid_nextSay slot _ _⟩
          · cases hms

/-- What a message asks. -/
def question (message : Message) (s : Server) : Option Question :=
  match Command.tryParse message with
  | .ok command => command.question s.info.isReplica
  | .error _ => none

theorem receive_responds {now : Timepoint} {conn : Nat} {message : Message} {s s' : Server}
    (h : s.receive now conn message = some s') :
    s'.info = s.info ∧ Responds now ⟨conn, some (s.talkers conn).requests.length⟩ s s'
      (s.question message) := by
  obtain ⟨hopen, hlisten⟩ := listen_of_receive h
  have hopen' : ((s.recordRequest conn message).talkers conn).isOpen := by
    rw [recordRequest, modifyTalker_talkers, if_pos rfl]
    exact hopen
  unfold question
  obtain ⟨command, hparse, hexecute⟩ | ⟨what, hparse, rfl⟩ := listen_cases hlisten
  · rw [hparse]
    exact execute_responds (s := s.recordRequest conn message) hopen' hexecute
  · rw [hparse]
    exact ⟨rfl, rfl⟩

/-- What else happens adds to what is queued, and no request, so no question is asked and no
answer disappears. -/
theorem step_grows {a : ServerAction} (ha : ∀ now conn message, a ≠ .receive now conn message)
    {s s' : Server} (h : s.step a = some s') (c : Nat) :
    (s.talkers c).queued <+: (s'.talkers c).queued ∧
      (s'.talkers c).requests = (s.talkers c).requests := by
  have hsays : Says (fun _ _ => True) s s' →
      (s.talkers c).queued <+: (s'.talkers c).queued ∧
        (s'.talkers c).requests = (s.talkers c).requests := by
    intro hsays
    obtain ⟨more, -, hqueued, -⟩ := hsays.said c
    exact ⟨hqueued ▸ List.prefix_append _ _, hsays.requests c⟩
  cases a with
  | receive now conn message => exact absurd rfl (ha now conn message)
  | say conn =>
      obtain ⟨⟨message, s₁⟩, hsay, rfl⟩ := Option.map_eq_some_iff.mp h
      obtain ⟨pending, -, rfl⟩ := say_cases hsay
      rw [modifyTalker_talkers]
      split <;> exact ⟨List.prefix_rfl, rfl⟩
  | disconnect conn => exact hsays (Option.some.inj h ▸ says_disconnect conn s)
  | runJob => exact hsays (says_runJob (fun _ _ _ => trivial) h)
  | fireRead i => exact hsays (says_fireRead (fun _ _ _ => trivial) h)
  | fireWait i => exact hsays (says_fireWait (fun _ _ _ => trivial) h)

end Server

/-! ## The storage and the map -/

namespace Expiring

/-- Of a storage only the values count. -/
theorem Follows.congr {s : Expiring} (hs : s.Follows) {storage : Storage Unit}
    (hvalues : storage.values = s.storage.values) : Follows { s with storage := storage } := by
  intro key later hlater
  rw [hvalues]
  exact hs key later hlater

end Expiring

namespace Reference

variable {now : Timepoint} {m : Reference}

/-- A stream does not expire, and XRANGE of a string is not defined. -/
theorem rangeOf_live {κ : Type} {s : Storage κ} {key : Bytes} {leftId rightId : BoundStreamId}
    {entries : StreamRange} (hlive : m.live now key = liveAt now (s.values.lookup key))
    (h : s.xrange key leftId rightId = some entries) :
    rangeOf leftId rightId (m.live now key) = some entries := by
  rw [hlive]
  unfold Storage.xrange at h
  cases hlookup : s.values.lookup key with
  | none =>
      rw [hlookup] at h
      exact h
  | some value =>
      rw [hlookup] at h
      cases value with
      | string str => cases h
      | stream stream => exact h

/-- So it is with XREAD. -/
theorem readStreams_live {κ : Type} {s : Storage κ}
    (hlive : ∀ key, m.live now key = liveAt now (s.values.lookup key))
    {request : StreamsReadRequest} {result : StreamsReadResult}
    (h : s.readStreams request = some result) : m.readStreams now request = some result := by
  induction request generalizing result with
  | nil => exact h
  | cons asked request ih =>
      obtain ⟨key, id⟩ := asked
      simp only [Storage.readStreams] at h
      simp only [readStreams, hlive]
      cases hlookup : s.values.lookup key with
      | none =>
          rw [hlookup] at h
          exact ih h
      | some value =>
          rw [hlookup] at h
          cases value with
          | string str => cases h
          | stream stream =>
              obtain ⟨stream', hstream, h⟩ := Option.bind_eq_some_iff.mp h
              obtain rfl : stream = stream' := Option.some.inj hstream
              obtain ⟨rest, hrest, h⟩ := Option.bind_eq_some_iff.mp h
              rw [liveAt_eq_self (by rfl)]
              simp only [Value.asStream?, ih hrest]
              exact h

end Reference

/-! ## The record -/

/-- A question that was answered: where and when it was asked, and the reply that was queued
for it. -/
structure Exchange where
  conn : Nat
  request : Nat
  now : Timepoint
  question : Question
  reply : Message

namespace Reference

/-- The map behind the questions of a record. -/
def askedAll (history : List Exchange) (m : Reference) : Reference :=
  history.foldl (fun m e => m.asked e.now e.question) m

/-- What is in the file that the server starts with. -/
def loaded (clock : Nat → Timepoint) : Option Bytes → Reference
  | none => fun _ => none
  | some file => (rdbParse clock file).1.foldl
      (fun m r => m.store r.key (.string { data := r.value, expireTime := r.expireTime }))
      fun _ => none

theorem of_restored {κ : Type} (restored : List Restored) (s : Storage κ) :
    of (restored.foldl (fun s r => s.restore r.key r.value r.expireTime) s).values =
      restored.foldl (fun m r => m.store r.key (.string
        { data := r.value, expireTime := r.expireTime })) (of s.values) := by
  induction restored generalizing s with
  | nil => rfl
  | cons r restored ih =>
      rw [List.foldl_cons, ih, List.foldl_cons, Storage.restore, of_insert]

theorem loaded_of_start {clock : Nat → Timepoint} {info : ServerInfo} {dbFile : Option Bytes}
    {server : Server} (h : Server.start clock info dbFile = some server) :
    of server.values = loaded clock dbFile := by
  unfold Server.start at h
  cases dbFile with
  | none =>
      obtain rfl := Option.some.inj h
      rfl
  | some file =>
      rcases hparse : rdbParse clock file with ⟨restored, _ | _⟩
      · simp [hparse] at h
      · simp only [hparse, Option.some.injEq] at h
        subst h
        rw [loaded, hparse]
        exact of_restored restored {}

end Reference

/-- A server, the questions that were answered, and the last reading of the clock.  The history
is that of all connections, in the order in which the server took the requests. -/
structure Keyspace where
  server : Server
  /-- what is stored when the server starts -/
  start : Reference
  clock : Timepoint
  history : List Exchange := []

namespace Keyspace

/-- What is recorded of a message: the question, and what is said last. -/
def exchange (now : Timepoint) (conn : Nat) (message : Message) (s : Keyspace)
    (server : Server) : List Exchange :=
  match s.server.question message, (server.talkers conn).queued.getLast? with
  | some question, some said =>
      [⟨conn, (s.server.talkers conn).requests.length, now, question, said.2⟩]
  | _, _ => []

/-- One step. -/
def step (s : Keyspace) : ServerAction → Option Keyspace
  | .receive now conn message =>
      (s.server.receive now conn message).map fun server => { s with
        server := server
        clock := now
        history := s.history ++ s.exchange now conn message server }
  | a => (s.server.step a).map fun server => { s with server := server }

/-- A server that has just started. -/
def machine (server : Server) (start : Reference) (clock : Timepoint) :
    Machine Keyspace ServerAction where
  init := { server := server, start := start, clock := clock }
  step := step

/-- The values and the map. -/
def expiring (s : Keyspace) : Expiring where
  storage := { values := s.server.values }
  reference := s.start.askedAll s.history
  clock := s.clock

/-- TYPE, XADD and KEYS do not come upon a string that has expired and is still stored.  These
look at what is stored and not at its deadline. -/
def FreshAt (s : Keyspace) (now : Timepoint) : Option Question → Prop
  | some (.key command) => s.expiring.Fresh ⟨now, command⟩
  | _ => True

instance (s : Keyspace) (now : Timepoint) :
    (question : Option Question) → Decidable (s.FreshAt now question)
  | some (.key command) => inferInstanceAs (Decidable (s.expiring.Fresh ⟨now, command⟩))
  | some (.range _ _ _) => .isTrue trivial
  | some (.read _) => .isTrue trivial
  | none => .isTrue trivial

/-- The clock does not go back, and what is asked finds the strings fresh. -/
def Careful (s : Keyspace) : ServerAction → Prop
  | .receive now _ message => s.clock ≤ now ∧ s.FreshAt now (s.server.question message)
  | _ => True

instance (s : Keyspace) : (a : ServerAction) → Decidable (s.Careful a)
  | .receive now _ message =>
      inferInstanceAs (Decidable (s.clock ≤ now ∧ s.FreshAt now (s.server.question message)))
  | .say _ => .isTrue trivial
  | .disconnect _ => .isTrue trivial
  | .runJob => .isTrue trivial
  | .fireRead _ => .isTrue trivial
  | .fireWait _ => .isTrue trivial

/-! ## What holds along a run -/

variable {s : Keyspace} {now : Timepoint} {conn : Nat} {message : Message} {server : Server}

/-- The reply to a question is right, and the storage goes on as the map does. -/
theorem reply_right (hs : s.expiring.Follows) (hclock : s.clock ≤ now) {question : Question}
    (hfresh : ∀ command, question = .key command → s.expiring.Fresh ⟨now, command⟩) {slot : Slot}
    (h : s.server.Responds now slot server (some question)) :
    ∃ reply, server.LastSaid slot reply ∧ s.expiring.reference.Answers now question reply ∧
      Expiring.Follows ⟨{ values := server.values }, s.expiring.reference.asked now question,
        now⟩ := by
  have hlive : ∀ key, s.expiring.reference.live now key =
      liveAt now (s.server.middleware.storage.values.lookup key) :=
    fun key => (hs key now hclock).symm
  cases question with
  | key command =>
      obtain ⟨hvalues, hsaid⟩ := h
      have hsame : s.server.middleware.storage.values = s.expiring.storage.values := rfl
      have hperform := Storage.perform_of_values hsame now command
      refine ⟨_, hsaid, ⟨_, ?_, rfl⟩, ?_⟩
      · rw [hperform.1]
        exact (Expiring.agrees_iff (a := ⟨now, command⟩) hs hclock).mpr (hfresh command rfl)
      · exact (hs.step (a := ⟨now, command⟩) ⟨hclock, hfresh command rfl⟩ rfl).congr
          (hvalues.trans hperform.2)
  | range key leftId rightId =>
      obtain ⟨hvalues, entries, hrange, hsaid⟩ := h
      refine ⟨_, hsaid, ⟨entries, ?_, rfl⟩, (hs.later hclock).congr hvalues⟩
      exact Reference.rangeOf_live (hlive key) hrange
  | read request =>
      obtain ⟨hvalues, result, hread, hsaid⟩ := h
      refine ⟨_, hsaid, ⟨result, ?_, rfl⟩, (hs.later hclock).congr hvalues⟩
      exact Reference.readStreams_live hlive hread

/-- The record is that of the connections: every exchange was said where it says, and every
request that asks a question has its exchange. -/
structure Recorded (s : Keyspace) : Prop where
  said : ∀ e ∈ s.history, (some e.request, e.reply) ∈ (s.server.talkers e.conn).queued ∧
    ∃ message, (s.server.talkers e.conn).requests[e.request]? = some message ∧
      s.server.question message = some e.question
  all : ∀ conn request message question,
    (s.server.talkers conn).requests[request]? = some message →
    s.server.question message = some question →
    ∃ e ∈ s.history, e.conn = conn ∧ e.request = request ∧ e.question = question

/-- Every reply is right for the map behind the questions before it.  So all clients together
see one map, which changes at one point in each exchange. -/
def Answered (start : Reference) (history : List Exchange) : Prop :=
  ∀ before e after, history = before ++ e :: after →
    (start.askedAll before).Answers e.now e.question e.reply

theorem Answered.concat {start : Reference} {history : List Exchange} {e : Exchange}
    (h : Answered start history)
    (hreply : (start.askedAll history).Answers e.now e.question e.reply) :
    Answered start (history ++ [e]) := by
  intro before e' after heq
  rcases List.eq_nil_or_concat after with rfl | ⟨after, last, rfl⟩
  · obtain ⟨rfl, hlast⟩ := List.append_inj' heq rfl
    obtain rfl := List.singleton_inj.mp hlast
    exact hreply
  · rw [List.concat_eq_append, ← List.cons_append, ← List.append_assoc] at heq
    exact h before e' after (List.append_inj' heq rfl).1

/-- The invariant: the record is complete, the storage still follows the map behind all
questions, and all replies were right. -/
structure Right (start : Reference) (s : Keyspace) : Prop extends s.Recorded where
  start_eq : s.start = start
  follows : s.expiring.Follows
  answered : Answered start s.history

/-- What is asked depends on the mode of the server only. -/
theorem question_of_info {server' : Server} (h : server'.info = server.info) :
    server'.question message = server.question message := by
  unfold Server.question
  rw [h]

theorem Recorded.grow {server' : Server} (h : s.Recorded) (hinfo : server'.info = s.server.info)
    (hgrows : ∀ c, (s.server.talkers c).queued <+: (server'.talkers c).queued ∧
      (server'.talkers c).requests = (s.server.talkers c).requests) :
    Recorded { s with server := server' } := by
  refine ⟨fun e he => ?_, fun conn request message question hrequest hquestion => ?_⟩
  · obtain ⟨hqueued, message, hrequest, hquestion⟩ := h.said e he
    refine ⟨(hgrows e.conn).1.subset hqueued, message, ?_, ?_⟩
    · rw [(hgrows e.conn).2]
      exact hrequest
    · exact (question_of_info hinfo).trans hquestion
  · rw [(hgrows conn).2] at hrequest
    exact h.all conn request message question hrequest
      ((question_of_info hinfo).symm.trans hquestion)

/-- A message is recorded with its answer. -/
theorem Recorded.receive (h : s.Recorded) (hinfo : server.info = s.server.info)
    (hreceive : s.server.receive now conn message = some server) {history : List Exchange}
    (hnew : ∀ e ∈ history, e.conn = conn ∧ e.request = (s.server.talkers conn).requests.length ∧
      s.server.question message = some e.question ∧
      (some e.request, e.reply) ∈ (server.talkers conn).queued)
    (hall : ∀ question, s.server.question message = some question → ∃ e, e ∈ history) :
    Recorded ⟨server, s.start, now, s.history ++ history⟩ := by
  have hrequests := fun c => Server.requests_receive hreceive c
  refine ⟨fun e he => ?_, fun c request message' question hrequest hquestion => ?_⟩
  · rcases List.mem_append.mp he with hold | hlast
    · obtain ⟨hqueued, message', hrequest, hquestion⟩ := h.said e hold
      have hkept : (some e.request, e.reply) ∈ (server.talkers e.conn).queued := by
        obtain ⟨more, -, hmore⟩ := Connections.receive_said hreceive e.conn
        rw [hmore]
        exact List.mem_append_left _ hqueued
      refine ⟨hkept, message', ?_, (question_of_info hinfo).trans hquestion⟩
      rw [hrequests]
      split
      · rw [List.getElem?_append_left (List.getElem?_eq_some_iff.mp hrequest).1, hrequest]
      · exact hrequest
    · obtain ⟨rfl, hrequest, hquestion, hqueued⟩ := hnew e hlast
      refine ⟨hqueued, message, ?_, (question_of_info hinfo).trans hquestion⟩
      rw [hrequests, if_pos rfl, hrequest, List.getElem?_concat_length]
  · rw [question_of_info hinfo] at hquestion
    have hold : (s.server.talkers c).requests[request]? = some message' →
        ∃ e ∈ s.history ++ history, e.conn = c ∧ e.request = request ∧ e.question = question := by
      intro hrequest
      obtain ⟨e, he, heq⟩ := h.all c request message' question hrequest hquestion
      exact ⟨e, List.mem_append_left _ he, heq⟩
    rw [hrequests] at hrequest
    split at hrequest
    · next hconn =>
        subst hconn
        rcases Nat.lt_or_ge request (s.server.talkers conn).requests.length with hlt | hge
        · rw [List.getElem?_append_left hlt] at hrequest
          exact hold hrequest
        · obtain rfl : request = (s.server.talkers conn).requests.length := by
            have hlt := (List.getElem?_eq_some_iff.mp hrequest).1
            rw [List.length_append, List.length_singleton] at hlt
            omega
          rw [List.getElem?_concat_length] at hrequest
          obtain rfl := Option.some.inj hrequest
          obtain ⟨e, he⟩ := hall question hquestion
          obtain ⟨hc, hr, hq, -⟩ := hnew e he
          exact ⟨e, List.mem_append_right _ he, hc, hr, Option.some.inj (hq.symm.trans hquestion)⟩
    · exact hold hrequest

/-- **A message.**  If it asks a question, the storage answers as the map does and goes on
following it; otherwise the values stay, and the record with them. -/
theorem Right.receive {start : Reference} (h : Right start s)
    (hcareful : s.Careful (.receive now conn message))
    (hreceive : s.server.receive now conn message = some server) :
    Right start ⟨server, s.start, now, s.history ++ s.exchange now conn message server⟩ := by
  obtain ⟨hclock, hfresh⟩ := hcareful
  obtain ⟨hinfo, hresponds⟩ := Server.receive_responds hreceive
  cases hquestion : s.server.question message with
  | none =>
      rw [hquestion] at hresponds
      have hnone : s.exchange now conn message server = [] := by simp [exchange, hquestion]
      rw [hnone]
      refine ⟨h.toRecorded.receive hinfo hreceive (by simp) (by simp [hquestion]), h.start_eq,
        ?_, ?_⟩
      · rw [List.append_nil]
        exact (h.follows.later hclock).congr hresponds
      · rw [List.append_nil]
        exact h.answered
  | some question =>
      rw [hquestion] at hresponds hfresh
      obtain ⟨reply, hsaid, hanswers, hfollows⟩ := reply_right h.follows hclock
        (fun command heq => by subst heq; exact hfresh) hresponds
      have hone : s.exchange now conn message server =
          [⟨conn, (s.server.talkers conn).requests.length, now, question, reply⟩] := by
        rw [exchange, hquestion, hsaid]
      rw [hone]
      refine ⟨h.toRecorded.receive hinfo hreceive ?_ (by simp), h.start_eq, ?_, ?_⟩
      · intro e he
        obtain rfl := List.mem_singleton.mp he
        exact ⟨rfl, rfl, hquestion, List.mem_of_getLast? hsaid⟩
      · have hasked : s.start.askedAll (s.history ++
              [⟨conn, (s.server.talkers conn).requests.length, now, question, reply⟩]) =
            s.expiring.reference.asked now question := by
          rw [Reference.askedAll, List.foldl_append]
          rfl
        rw [expiring, hasked]
        exact hfollows
      · exact h.answered.concat (h.start_eq ▸ hanswers)

/-- **One step.**  Only messages ask; jobs and timeouts answer blocked readers and waits, which
no exchange is about, and change no value. -/
theorem Right.step {start : Reference} {s' : Keyspace} (h : Right start s) {a : ServerAction}
    (hcareful : s.Careful a) (hstep : s.step a = some s') : Right start s' := by
  have hother : (∀ now conn message, a ≠ .receive now conn message) →
      (s.server.step a).map (fun server => { s with server := server }) = some s' →
      Right start s' := by
    intro ha hstep
    obtain ⟨server, htaken, rfl⟩ := Option.map_eq_some_iff.mp hstep
    obtain ⟨hvalues, hinfo⟩ := Server.step_values ha htaken
    exact ⟨h.toRecorded.grow hinfo (Server.step_grows ha htaken), h.start_eq,
      h.follows.congr hvalues, h.answered⟩
  cases a with
  | receive now conn message =>
      obtain ⟨server, hreceive, rfl⟩ := Option.map_eq_some_iff.mp hstep
      exact h.receive hcareful hreceive
  | say conn => exact hother (by simp) hstep
  | disconnect conn => exact hother (by simp) hstep
  | runJob => exact hother (by simp) hstep
  | fireRead i => exact hother (by simp) hstep
  | fireWait i => exact hother (by simp) hstep

/-- **All clients see one map.**  What is asked about the keys on all connections is executed
in one order, and every reply is what the map that starts with the file answers behind the
questions before it; every question has such a reply on its connection. -/
theorem answers_as_one_map {times : Nat → Timepoint} {info : ServerInfo} {dbFile : Option Bytes}
    {server : Server} (hstart : Server.start times info dbFile = some server)
    {clock : Timepoint} {s : Keyspace}
    (hs : (machine server (.loaded times dbFile) clock).Reachable Careful s) :
    Answered (.loaded times dbFile) s.history ∧ s.Recorded := by
  have hright : Right (.loaded times dbFile) s := by
    refine hs.invariant ⟨⟨by simp [machine], ?_⟩, rfl, ?_, ?_⟩
      fun _ _ _ _ h hcareful hstep => h.step hcareful hstep
    · intro conn request message question hrequest
      obtain ⟨values, rfl⟩ := Server.start_eq hstart
      simp [machine] at hrequest
    · intro key later _
      rw [← Reference.loaded_of_start hstart]
      rfl
    · intro before e after heq
      simp [machine] at heq
  exact ⟨hright.answered, hright.toRecorded⟩

/-- A string that one client sets and another one gets, in time and too late; its key is free
then. -/
def shared : List ServerAction :=
  [.receive 0 0 (Command.set (ascii "k") (ascii "v") (some 1)).construct,
    .receive 5 1 (Command.get (ascii "k")).construct,
    .receive (10 ^ 6) 1 (Command.get (ascii "k")).construct,
    .receive (10 ^ 6) 0 (Command.xadd (ascii "k") { ms := 1, id := 1 }
      [(ascii "f", ascii "w")]).construct,
    .receive (10 ^ 6) 1 (Command.type (ascii "k")).construct]

theorem answers_as_one_map_shared :
    ∃ s : Keyspace, (machine { info := { masterReplid := [] } } (.loaded (fun _ => 0) none) 0).run
        Careful (machine { info := { masterReplid := [] } } (.loaded (fun _ => 0) none) 0).init
        shared = some s ∧
      s.history.map (fun e => (e.conn, e.reply)) =
        [(0, .simpleString (ascii "OK")), (1, .bulkString (ascii "v")), (1, .bulkString []),
          (0, .bulkString (ascii "1-1")), (1, .bulkString (ascii "stream"))] ∧
      Answered (.loaded (fun _ => 0) none) s.history ∧ s.Recorded := by
  obtain ⟨s, hrun, hs⟩ := Option.map_eq_some_iff.mp
    (by decide +kernel : ((machine { info := { masterReplid := [] } }
      (.loaded (fun _ => 0) none) 0).run Careful (machine { info := { masterReplid := [] } }
      (.loaded (fun _ => 0) none) 0).init shared).map
        (fun s => s.history.map (fun e => (e.conn, e.reply))) = some
          [(0, .simpleString (ascii "OK")), (1, .bulkString (ascii "v")), (1, .bulkString []),
            (0, .bulkString (ascii "1-1")), (1, .bulkString (ascii "stream"))])
  exact ⟨s, hrun, hs, @answers_as_one_map (fun _ => 0) { masterReplid := [] } none _ rfl 0 s
    (Machine.Reachable.run .init hrun)⟩

end Keyspace

end BuildYourOwnRedis
