/-
  Replication/ReplicaTalker.lean --- `ReplicaTalker`: the replica's side of a replication
  connection.

  The storage of a replica is the `StorageMiddleware` of its own server; a replica that
  has no replicas of its own passes everything on to its `Storage`, which stands here.
-/
import BuildYourOwnRedis.Rdb.RdbParser
import BuildYourOwnRedis.Server.StorageMiddleware

set_option autoImplicit false

namespace BuildYourOwnRedis

open Foundation

/-- The states of a `ReplicaTalker`.  A talker starts in `waitFirstPong`, and a handshake
passes the states from there on in this order. -/
inductive ReplicaTalkerState where
  | init
  | undefined
  | waitFirstPong
  | waitOkForReplConfPort
  | waitOkForReplConfCapa
  | waitForPsyncAnswer
  | waitForRdbFileSync
  | waitServerCommands
  deriving DecidableEq, Repr

/-- `ReplicaTalker` and what it is connected to: the port of its server and its storage.  It
starts by saying PING, before anything has come from the master. -/
structure ReplicaTalker where
  tcpPort : Int
  storage : Storage Unit
  state : ReplicaTalkerState := .waitFirstPong
  pending : List Message := [Command.ping.construct]
  bytesIn : UInt64 := 0
  /-- Recorded: the messages that were processed. -/
  processed : List Message := []
  /-- Recorded: the SETs that were executed. -/
  applied : List SetRequest := []

/-- The text of a `SimpleString` in lower case. -/
def lowerSimpleString : Message → Option Bytes
  | .simpleString text => some (toLowerCase text)
  | _ => none

/-- `REPLCONF listening-port`. -/
def replConfPort (tcpPort : Int) : Command :=
  .replConf [ascii "listening-port", decimalInt tcpPort]

/-- `REPLCONF capa`. -/
def replConfCapa : Command := .replConf [ascii "capa", ascii "psync2"]

/-- `PSYNC`. -/
def psync : Command := .psync [ascii "?", ascii "-1"]

/-- `REPLCONF ACK`. -/
def replConfAck (bytesIn : UInt64) : Command :=
  .replConf [ascii "ACK", decimal bytesIn.toNat]

namespace ReplicaTalker

/-- `Talker::next_say`. -/
def nextSay (message : Message) (t : ReplicaTalker) : ReplicaTalker :=
  { t with pending := t.pending ++ [message] }

/-- A command of the master.  Arguments are read without a check that they exist. -/
def execute (now : Timepoint) (command : Command) (t : ReplicaTalker) :
    Option ReplicaTalker :=
  match command with
  | .set key value expireMs => some { t with
      storage := t.storage.set now key value expireMs
      applied := t.applied ++ [⟨key, value, expireMs⟩] }
  | .replConf [] => none
  | .replConf (name :: args) =>
      if toLowerCase name = ascii "getack" then
        match args with
        | [] => none
        | arg :: _ =>
            if arg = ascii "*" then some (t.nextSay (replConfAck t.bytesIn).construct)
            else some t
      else some t
  | _ => some t

/-- `ReplicaTalker::process`.  The size of the message is counted behind its execution, so an
acknowledgement does not count the request for it. -/
def process (now : Timepoint) (message : Message) (t : ReplicaTalker) :
    Option ReplicaTalker :=
  match Command.tryParse message with
  | .ok command => (t.execute now command).map fun t => { t with
      bytesIn := t.bytesIn + UInt64.ofNat message.size
      processed := t.processed ++ [message] }
  | .error (.parseError _) => some { t with processed := t.processed ++ [message] }
  | .error .undefinedBehaviour => none

/-- Load a dump.  The handler is left by an exception when it cannot be read. -/
def load (clock : Nat → Timepoint) (dump : Bytes) (t : ReplicaTalker) : ReplicaTalker :=
  let (restored, result) := rdbParse clock dump
  let t := { t with
    storage := restored.foldl (fun s r => s.restore r.key r.value r.expireTime) t.storage }
  match result with
  | .ok () => { t with state := .waitServerCommands }
  | .error _ => t

/-- `ReplicaTalker::listen`.  In the handshake a message that is not the one waited for is
ignored, and leaves the state as it is; behind the handshake every message is a command of the
master. -/
def listen (clock : Nat → Timepoint) (message : Message) (t : ReplicaTalker) :
    Option ReplicaTalker :=
  match t.state with
  | .waitFirstPong =>
      if lowerSimpleString message = some (ascii "pong") then
        some ({ t with state := .waitOkForReplConfPort }.nextSay
          (replConfPort t.tcpPort).construct)
      else some t
  | .waitOkForReplConfPort =>
      if lowerSimpleString message = some (ascii "ok") then
        some ({ t with state := .waitOkForReplConfCapa }.nextSay replConfCapa.construct)
      else some t
  | .waitOkForReplConfCapa =>
      if lowerSimpleString message = some (ascii "ok") then
        some ({ t with state := .waitForPsyncAnswer }.nextSay psync.construct)
      else some t
  | .waitForPsyncAnswer =>
      match message with
      | .simpleString _ => some { t with state := .waitForRdbFileSync }
      | _ => some t
  | .waitForRdbFileSync =>
      match message with
      | .syncResponse dump => some (t.load clock dump)
      | _ => some t
  | .waitServerCommands => t.process (clock 0) message
  | .undefined => some t
  | .init => some (t.nextSay .leave)

/-- `Talker::say`. -/
def say (t : ReplicaTalker) : Option (Message × ReplicaTalker) :=
  match t.pending with
  | [] => none
  | message :: pending => some (message, { t with pending := pending })

theorem say_cases {t t' : ReplicaTalker} {message : Message} (h : t.say = some (message, t')) :
    ∃ pending, t.pending = message :: pending ∧ t' = { t with pending := pending } := by
  unfold say at h
  split at h
  · cases h
  · next pending hpending =>
      obtain ⟨rfl, rfl⟩ := Prod.mk.inj (Option.some.inj h)
      exact ⟨pending, hpending, rfl⟩

end ReplicaTalker

end BuildYourOwnRedis
