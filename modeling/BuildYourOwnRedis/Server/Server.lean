/-
  Server/Server.lean --- a server: its talkers and what a `ServerTalker` does with the
  messages it gets.

  Connections are numbered and a number is used once.  A slot is the talker it calls; with
  it comes the request that is answered, which is recorded for the statements about the
  order of replies (what is pushed to a replica answers none).  A pending wait keeps the slot
  of its talker alive, so a wait that replies to a closed connection is undefined; the
  callback of a read holds the slot weakly and is dropped when nothing keeps it.

  `none` as a result means that a step is undefined or that there is nothing to do.
-/
import BuildYourOwnRedis.Rdb.RdbParser
import BuildYourOwnRedis.Server.Base64
import BuildYourOwnRedis.Server.ServerInfo
import BuildYourOwnRedis.Server.StorageMiddleware

set_option autoImplicit false

namespace BuildYourOwnRedis

open Foundation

/-- `SlotPtr<Message>` of a talker: its connection, and the number of the request it belongs
to.  A message that the master pushes belongs to no request. -/
structure Slot where
  conn : Nat
  request : Option Nat
  deriving DecidableEq, Repr

/-- `ServerTalker`.  `isOpen` says whether the object is still there; a talker that has been
destroyed is not written to. -/
structure ServerTalker where
  pending : List Message := []
  replicaId : Option Nat := none
  isOpen : Bool := true
  /-- Recorded: the messages it got. -/
  requests : List Message := []
  /-- Recorded: all messages that were queued, with the requests that they answer. -/
  queued : List (Option Nat × Message) := []

/-- A server: its configuration, its storage, and a talker for each connection.  The contents
of the file at `db_file_path()`, if there is one, are `dbFile`. -/
structure Server where
  info : ServerInfo
  dbFile : Option Bytes := none
  middleware : StorageMiddleware Slot := {}
  talkers : Nat → ServerTalker := fun _ => {}

/-! ## Replies -/

/-- The entries of a stream as a message. -/
def entriesMessage (entries : StreamRange) : Message :=
  .array (entries.map fun entry => .array
    [.bulkString entry.1.toString,
      .array (entry.2.flatMap fun pair => [.bulkString pair.1, .bulkString pair.2])])

/-- The answer to XREAD. -/
def streamsMessage (result : StreamsReadResult) : Message :=
  .array (result.map fun part => .array [.bulkString part.1, entriesMessage part.2])

/-- The parts that INFO asks for. -/
def infoParts (args : List Bytes) : List Bytes :=
  let defaultParts := [ascii "server", ascii "replication"]
  let infoParts := args.flatMap fun arg =>
    if arg = ascii "default" then defaultParts else [arg]
  if infoParts = [] then defaultParts else infoParts

/-- The answer to CONFIG. -/
def configMessage (info : ServerInfo) (action : Bytes) (args : List Bytes) : Message :=
  if toLowerCase action = ascii "get" then
    .array (args.flatMap fun key =>
      match info.getConfigValue key with
      | some value => [.bulkString key, .bulkString value]
      | none => [])
  else .simpleError (ascii "unknown action for config command")

namespace Server

/-- Change one talker. -/
def modifyTalker (conn : Nat) (f : ServerTalker → ServerTalker) (s : Server) : Server :=
  { s with talkers := Function.update s.talkers conn (f (s.talkers conn)) }

theorem modifyTalker_talkers (conn : Nat) (f : ServerTalker → ServerTalker) (s : Server)
    (c : Nat) : (s.modifyTalker conn f).talkers c =
      if conn = c then f (s.talkers c) else s.talkers c := by
  unfold modifyTalker
  split
  · next h =>
      subst h
      exact Function.update_self _ _ _
  · next h => exact Function.update_of_ne (Ne.symm h) _ _

/-- `Talker::next_say`: the message is queued, to be written when the handler asks for it.
Here it is also recorded which request it answers. -/
def nextSay (slot : Slot) (message : Message) (s : Server) : Server :=
  s.modifyTalker slot.conn fun t => { t with
    pending := t.pending ++ [message]
    queued := t.queued ++ [(slot.request, message)] }

/-- Call slots; a talker that is gone must not be called. -/
def callAll : List (Slot × Message) → Server → Option Server
  | [], s => some s
  | (slot, message) :: calls, s =>
      if (s.talkers slot.conn).isOpen then callAll calls (s.nextSay slot message) else none

/-- The slot of this talker is there: the talker has it, or a pending wait. -/
def keepsSlot (conn : Nat) (s : Server) : Bool :=
  (s.talkers conn).isOpen || s.middleware.waits.any fun w => w.slot.conn = conn

/-- Answer reads; where the slot is gone nothing is called. -/
def answerAll : List (Storage.Call Slot) → Server → Option Server
  | [], s => some s
  | (slot, result) :: calls, s =>
      if (s.talkers slot.conn).isOpen then
        answerAll calls (s.nextSay slot (streamsMessage result))
      else if s.keepsSlot slot.conn then none
      else answerAll calls s

/-- The middleware after an operation, and the slots that it called. -/
def update (result : StorageMiddleware Slot × List (Slot × Message)) (s : Server) :
    Option Server :=
  callAll result.2 { s with middleware := result.1 }

/-- The storage after an operation. -/
def setStorage (storage : Storage Slot) (s : Server) : Server :=
  { s with middleware := { s.middleware with storage := storage } }

/-- The storage after an operation, and the callbacks that it called. -/
def updateStorage (result : Storage Slot × List (Storage.Call Slot)) (s : Server) :
    Option Server :=
  answerAll result.2 (s.setStorage result.1)

/-! ## `ServerTalker::listen` -/

/-- The dump that PSYNC sends. -/
def dump (s : Server) : Bytes := s.dbFile.getD (Base64.decode emptyRdbFile)

/-- `FULLRESYNC`. -/
def fullResync (info : ServerInfo) : Bytes :=
  ascii "FULLRESYNC" ++ ascii " " ++ info.masterReplid ++ ascii " " ++
    decimalInt info.masterReplOffset

/-- The first REPLCONF registers the connection as a replica. -/
def register (conn : Nat) (s : Server) : Nat × Server :=
  match (s.talkers conn).replicaId with
  | some id => (id, s)
  | none =>
      let (id, m) := s.middleware.addReplica ⟨conn, none⟩
      (id, { s with middleware := m }.modifyTalker conn
        fun t => { t with replicaId := some id })

/-- The replica looks at the arguments of REPLCONF. -/
def processConf (id : Nat) (slot : Slot) (args : List Bytes) (s : Server) : Option Server :=
  match s.middleware.replicaProcessConf id args with
  | none => none
  | some (answered, result) => do
      let s ← s.update result
      return if answered then s.nextSay slot (.simpleString (ascii "OK")) else s

/-- REPLCONF. -/
def listenReplConf (slot : Slot) (args : List Bytes) (s : Server) : Option Server :=
  let (id, s) := s.register slot.conn
  s.processConf id slot args

/-- What REPLCONF does: the replica of the connection looks at the arguments, and `OK` may
be said behind that. -/
theorem listenReplConf_cases {slot : Slot} {args : List Bytes} {s s' : Server}
    (h : s.listenReplConf slot args = some s') : ∃ answered result s₁,
      (s.register slot.conn).2.middleware.replicaProcessConf (s.register slot.conn).1 args =
        some (answered, result) ∧
      (s.register slot.conn).2.update result = some s₁ ∧
      s' = if answered then s₁.nextSay slot (.simpleString (ascii "OK")) else s₁ := by
  simp only [listenReplConf, processConf] at h
  split at h
  · cases h
  · next answered result hconf =>
      obtain ⟨s₁, hupdate, h⟩ := Option.bind_eq_some_iff.mp h
      exact ⟨answered, result, s₁, hconf, hupdate, (Option.some.inj h).symm⟩

/-- PSYNC: without a replica the handler is left by an exception, behind the answer. -/
def listenPsync (slot : Slot) (s : Server) : Server :=
  let s := s.nextSay slot (.simpleString (fullResync s.info))
  let s := s.nextSay slot (.syncResponse s.dump)
  match (s.talkers slot.conn).replicaId with
  | none => s
  | some id => { s with middleware := s.middleware.replicaSetState id .write }

/-- The part of `ServerTalker::listen` behind `try_parse`. -/
def execute (now : Timepoint) (slot : Slot) (command : Command) (s : Server) :
    Option Server :=
  match command with
  | .ping => some (s.nextSay slot (.simpleString (ascii "PONG")))
  | .echo data => some (s.nextSay slot (.bulkString data))
  | .set key value expireMs =>
      if s.info.isReplica then
        some (s.nextSay slot (.simpleError (ascii "cannot write: replica mode")))
      else do
        let s ← s.update (s.middleware.set now key value expireMs)
        return s.nextSay slot (.simpleString (ascii "OK"))
  | .get key =>
      let (value, storage) := s.middleware.storage.get now key
      some ((s.setStorage storage).nextSay slot (.bulkString (value.getD [])))
  | .type key =>
      some (s.nextSay slot (.bulkString (s.middleware.storage.type key).toString))
  | .keys _ =>
      some (s.nextSay slot (.array (s.middleware.storage.keys.map .bulkString)))
  | .config action args => some (s.nextSay slot (configMessage s.info action args))
  | .info args => some (s.nextSay slot (.bulkString (s.info.toString (infoParts args))))
  | .replConf args => s.listenReplConf slot args
  | .psync _ => some (s.listenPsync slot)
  | .wait replicas _ => s.update (s.middleware.waitFor replicas slot)
  | .xadd key streamId values =>
      let (result, storage) := s.middleware.storage.xadd now key streamId values
      some ((s.setStorage storage).nextSay slot
        (match result with
        | .ok id => .bulkString id.toString
        | .error e => .simpleError e.toString))
  | .xrange key leftId rightId =>
      (s.middleware.storage.xrange key leftId rightId).map fun entries =>
        s.nextSay slot (entriesMessage entries)
  | .xread request blockMs =>
      (s.middleware.storage.xread request blockMs slot).bind s.updateStorage

/-- `ServerTalker::listen`.  A message that is no command is answered by the text of the error,
and an undefined read of `try_parse` is the only thing that ends it without a state. -/
def listen (now : Timepoint) (slot : Slot) (message : Message) (s : Server) :
    Option Server :=
  match Command.tryParse message with
  | .ok command => s.execute now slot command
  | .error (.parseError what) => some (s.nextSay slot (.simpleError what))
  | .error .undefinedBehaviour => none

/-- All that `listen` can do with a message, by what changes behind the talker.  One case
stands for all commands that only reply; whoever needs more of a command takes its equation. -/
inductive Heard (now : Timepoint) (slot : Slot) (message : Message) (s : Server) :
    Server → Prop where
  /-- a reply, and nothing else -/
  | reply (reply : Message) : Heard now slot message s (s.nextSay slot reply)
  /-- GET and XADD -/
  | values (values : AList fun _ : Bytes => Value) (jobs : List (List Nat))
      (reply : Message) : Heard now slot message s
        ((s.setStorage { s.middleware.storage with
          values := values, onetimeJobs := jobs }).nextSay slot reply)
  | set {key value : Bytes} {expireMs : Option Int} {s' : Server}
      (hparse : Command.tryParse message = .ok (.set key value expireMs))
      (hset : s.update (s.middleware.set now key value expireMs) = some s') :
      Heard now slot message s (s'.nextSay slot (.simpleString (ascii "OK")))
  | replConf {args : List Bytes} {s' : Server}
      (hparse : Command.tryParse message = .ok (.replConf args))
      (hconf : s.listenReplConf slot args = some s') : Heard now slot message s s'
  | psync {args : List Bytes} (hparse : Command.tryParse message = .ok (.psync args)) :
      Heard now slot message s (s.listenPsync slot)
  | wait {replicas timeoutMs : UInt64} {s' : Server}
      (hparse : Command.tryParse message = .ok (.wait replicas timeoutMs))
      (hwait : s.update (s.middleware.waitFor replicas slot) = some s') :
      Heard now slot message s s'
  | xread {request : StreamsReadRequest} {blockMs : Option UInt64} {storage : Storage Slot}
      {calls : List (Storage.Call Slot)} {s' : Server}
      (hparse : Command.tryParse message = .ok (.xread request blockMs))
      (hread : s.middleware.storage.xread request blockMs slot = some (storage, calls))
      (hanswer : s.updateStorage (storage, calls) = some s') : Heard now slot message s s'

theorem execute_heard {now : Timepoint} {slot : Slot} {message : Message} {command : Command}
    {s s' : Server} (hparse : Command.tryParse message = .ok command)
    (h : s.execute now slot command = some s') : Heard now slot message s s' := by
  cases command with
  | ping => exact Option.some.inj h ▸ .reply _
  | echo data => exact Option.some.inj h ▸ .reply _
  | info args => exact Option.some.inj h ▸ .reply _
  | keys arg => exact Option.some.inj h ▸ .reply _
  | config action args => exact Option.some.inj h ▸ .reply _
  | type key => exact Option.some.inj h ▸ .reply _
  | xrange key leftId rightId =>
      obtain ⟨entries, -, rfl⟩ := Option.map_eq_some_iff.mp h
      exact .reply _
  | set key value expireMs =>
      simp only [execute] at h
      split at h
      · exact Option.some.inj h ▸ .reply _
      · obtain ⟨s₁, hset, h⟩ := Option.bind_eq_some_iff.mp h
        exact Option.some.inj h ▸ .set hparse hset
  | get key =>
      obtain ⟨values, hget⟩ := s.middleware.storage.get_cases now key
      simp only [execute, hget] at h
      obtain rfl := Option.some.inj h
      exact .values values _ _
  | xadd key streamId values =>
      simp only [execute] at h
      obtain rfl := Option.some.inj h
      rcases s.middleware.storage.xadd_cases now key streamId values with
        ⟨e, hadd⟩ | ⟨added, stream, hadd⟩
      · rw [hadd]
        exact .values s.middleware.storage.values _ _
      · rw [hadd]
        exact .values _ _ _
  | psync args => exact Option.some.inj h ▸ .psync hparse
  | wait replicas timeoutMs => exact .wait hparse h
  | replConf args => exact .replConf hparse h
  | xread request blockMs =>
      obtain ⟨⟨storage, calls⟩, hread, hanswer⟩ := Option.bind_eq_some_iff.mp h
      exact .xread hparse hread hanswer

/-- A message is a command, or it is answered with an error.  A step that is possible has read
no element that is not there. -/
theorem listen_cases {now : Timepoint} {slot : Slot} {message : Message} {s s' : Server}
    (h : s.listen now slot message = some s') :
    (∃ command, Command.tryParse message = .ok command ∧
      s.execute now slot command = some s') ∨
    ∃ what, Command.tryParse message = .error (.parseError what) ∧
      s' = s.nextSay slot (.simpleError what) := by
  unfold listen at h
  cases hparse : Command.tryParse message with
  | ok command =>
      rw [hparse] at h
      exact .inl ⟨command, rfl, h⟩
  | error fault =>
      rw [hparse] at h
      cases fault with
      | parseError what => exact .inr ⟨what, rfl, (Option.some.inj h).symm⟩
      | undefinedBehaviour => cases h

theorem listen_heard {now : Timepoint} {slot : Slot} {message : Message} {s s' : Server}
    (h : s.listen now slot message = some s') : Heard now slot message s s' := by
  obtain ⟨command, hparse, h⟩ | ⟨what, -, rfl⟩ := listen_cases h
  · exact execute_heard hparse h
  · exact .reply _

/-! ## The steps of a server -/

/-- Recorded: a talker gets a message. -/
def recordRequest (conn : Nat) (message : Message) (s : Server) : Server :=
  s.modifyTalker conn fun t => { t with requests := t.requests ++ [message] }

/-- A message comes on a connection. -/
def receive (now : Timepoint) (conn : Nat) (message : Message) (s : Server) :
    Option Server :=
  if (s.talkers conn).isOpen then
    let request := (s.talkers conn).requests.length
    (s.recordRequest conn message).listen now ⟨conn, some request⟩ message
  else none

/-- A message comes on an open connection only, and is recorded. -/
theorem listen_of_receive {now : Timepoint} {conn : Nat} {message : Message} {s s' : Server}
    (h : s.receive now conn message = some s') : (s.talkers conn).isOpen ∧
      (s.recordRequest conn message).listen now ⟨conn, some (s.talkers conn).requests.length⟩
        message = some s' := by
  unfold receive at h
  split at h
  · next hopen => exact ⟨hopen, h⟩
  · cases h

/-- `Talker::say`. -/
def say (conn : Nat) (s : Server) : Option (Message × Server) :=
  if (s.talkers conn).isOpen then
    match (s.talkers conn).pending with
    | [] => none
    | message :: pending =>
        some (message, s.modifyTalker conn fun t => { t with pending := pending })
  else none

theorem say_cases {conn : Nat} {s s' : Server} {message : Message}
    (h : s.say conn = some (message, s')) : ∃ pending,
      (s.talkers conn).pending = message :: pending ∧
      s' = s.modifyTalker conn fun t => { t with pending := pending } := by
  unfold say at h
  split at h
  · cases hpending : (s.talkers conn).pending with
    | nil => simp [hpending] at h
    | cons m pending =>
        simp only [hpending, Option.some.injEq, Prod.mk.injEq] at h
        exact ⟨pending, by rw [h.1], h.2.symm⟩
  · cases h

/-- `ServerTalker::interrupt`, and the talker is destroyed.  A replica is removed from the
middleware; the waits and reads of the connection stay where they are. -/
def disconnect (conn : Nat) (s : Server) : Server :=
  let s := match (s.talkers conn).replicaId with
    | some id => { s with middleware := s.middleware.removeReplica id }
    | none => s
  s.modifyTalker conn fun t => { t with replicaId := none, isOpen := false }

/-- The event loop runs the next posted job. -/
def runJob (s : Server) : Option Server := s.middleware.storage.runJob.bind s.updateStorage

/-- A timeout of a read fires. -/
def fireRead (i : Nat) (s : Server) : Option Server :=
  (s.middleware.storage.fire i).bind s.updateStorage

/-- A timeout of a wait fires. -/
def fireWait (i : Nat) (s : Server) : Option Server :=
  (s.middleware.fireWait i).bind s.update

/-- `main`: the storage is loaded from the file, and nobody is connected yet.  A file that
cannot be read ends the program before it listens. -/
def start (clock : Nat → Timepoint) (info : ServerInfo) (dbFile : Option Bytes) :
    Option Server :=
  match dbFile with
  | none => some { info := info }
  | some file =>
      match rdbParse clock file with
      | (_, .error _) => none
      | (restored, .ok ()) =>
          some {
            info := info
            dbFile := some file
            middleware := {
              storage := restored.foldl (fun s r => s.restore r.key r.value r.expireTime) {} } }

theorem restored_eq (restored : List Restored) (storage : Storage Slot) :
    ∃ values, restored.foldl (fun s r => s.restore r.key r.value r.expireTime) storage =
      { storage with values := values } := by
  induction restored generalizing storage with
  | nil => exact ⟨storage.values, rfl⟩
  | cons r restored ih =>
      obtain ⟨values, heq⟩ := ih (storage.restore r.key r.value r.expireTime)
      exact ⟨values, heq⟩

/-- A server that has just started has values and nothing else. -/
theorem start_eq {clock : Nat → Timepoint} {info : ServerInfo} {dbFile : Option Bytes}
    {s : Server} (h : start clock info dbFile = some s) : ∃ values, s =
      { info := info, dbFile := dbFile, middleware := { storage := { values := values } } } := by
  unfold start at h
  cases dbFile with
  | none => exact ⟨∅, (Option.some.inj h).symm⟩
  | some file =>
      rcases hparse : rdbParse clock file with ⟨restored, _ | _⟩
      · simp [hparse] at h
      · obtain ⟨values, heq⟩ := restored_eq restored {}
        simp only [hparse, heq, Option.some.injEq] at h
        exact ⟨values, h.symm⟩

end Server

end BuildYourOwnRedis
