/-
  Replication/Cluster.lean --- one master and its replicas.

  A connection is a queue of messages in each direction, so it delivers each message
  unchanged and in order.  What a talker has pending and what is on the wire behind it is
  in flight.  Which connections belong to replicas is fixed; a replica that has not come
  yet is one whose first message is still on the way.  The other connections belong to
  clients, which can send anything.
-/
import BuildYourOwnRedis.Foundation.Transition
import BuildYourOwnRedis.Replication.ReplicaTalker
import BuildYourOwnRedis.Server.Server

set_option autoImplicit false

namespace BuildYourOwnRedis

open Foundation

/-- What a replica starts with: the port of its server, and the storage of its server, which
may have been loaded from a file of its own. -/
structure ReplicaConfig where
  tcpPort : Int := 6379
  values : AList (fun _ : Bytes => Value) := ∅

/-- The talker of a replica that connects. -/
def ReplicaConfig.talker (config : ReplicaConfig) : ReplicaTalker where
  tcpPort := config.tcpPort
  storage := { values := config.values }

/-- A master, the talkers of its replicas, and what is on the wires to and from them.  A
connection delivers messages in order, each once, and holds any number of them. -/
structure Cluster where
  server : Server
  nodes : Nat → ReplicaTalker
  up : Nat → List Message
  down : Nat → List Message

/-- What can happen in a cluster.  Clients and replicas move independently of each other, so
any interleaving is a run. -/
inductive ClusterAction where
  /-- a message of a client comes -/
  | request (now : Timepoint) (conn : Nat) (message : Message)
  | runJob
  | fireRead (i : Nat)
  | fireWait (i : Nat)
  | disconnect (conn : Nat)
  /-- the server writes the next message of a connection -/
  | send (conn : Nat)
  /-- a replica gets a message -/
  | deliver (clock : Nat → Timepoint) (conn : Nat)
  /-- a replica writes its next message -/
  | answer (conn : Nat)
  /-- a message of a replica comes -/
  | receive (now : Timepoint) (conn : Nat)

namespace Cluster

/-- The replicas, by the numbers of their connections. -/
abbrev Replicas : Type := Nat → Option ReplicaConfig

/-- The messages of a replica that the master has not got. -/
def upstream (s : Cluster) (c : Nat) : List Message := s.up c ++ (s.nodes c).pending

/-- The messages of the master that a replica has not got. -/
def downstream (s : Cluster) (c : Nat) : List Message :=
  s.down c ++ (s.server.talkers c).pending

/-- The server after a step of its own. -/
def updateServer (s : Cluster) (server : Option Server) : Option Cluster :=
  server.map fun server => { s with server := server }

/-- One step. -/
def step (replicas : Replicas) (s : Cluster) : ClusterAction → Option Cluster
  | .request now conn message =>
      if (replicas conn).isSome then none
      else s.updateServer (s.server.receive now conn message)
  | .runJob => s.updateServer s.server.runJob
  | .fireRead i => s.updateServer (s.server.fireRead i)
  | .fireWait i => s.updateServer (s.server.fireWait i)
  | .disconnect conn => s.updateServer (some (s.server.disconnect conn))
  | .send conn => do
      let (message, server) ← s.server.say conn
      return { s with
        server := server
        down := Function.update s.down conn (s.down conn ++ [message]) }
  | .deliver clock conn =>
      if (replicas conn).isSome then
        match s.down conn with
        | [] => none
        | message :: down => do
            let node ← (s.nodes conn).listen clock message
            return { s with
              nodes := Function.update s.nodes conn node
              down := Function.update s.down conn down }
      else none
  | .answer conn =>
      if (replicas conn).isSome then do
        let (message, node) ← (s.nodes conn).say
        return { s with
          nodes := Function.update s.nodes conn node
          up := Function.update s.up conn (s.up conn ++ [message]) }
      else none
  | .receive now conn =>
      if (replicas conn).isSome then
        match s.up conn with
        | [] => none
        | message :: up =>
            ({ s with up := Function.update s.up conn up }).updateServer
              (s.server.receive now conn message)
      else none

/-! ## All that a step can do -/

section

variable {replicas : Replicas} {s s' : Cluster}

theorem request_cases {now : Timepoint} {conn : Nat} {message : Message}
    (h : s.step replicas (.request now conn message) = some s') :
    replicas conn = none ∧ ∃ server, s.server.receive now conn message = some server ∧
      s' = { s with server := server } := by
  simp only [step] at h
  split at h
  · cases h
  · next hconn =>
      obtain ⟨server, hreceive, rfl⟩ := Option.map_eq_some_iff.mp h
      exact ⟨Option.not_isSome_iff_eq_none.mp hconn, server, hreceive, rfl⟩

theorem send_cases {conn : Nat} (h : s.step replicas (.send conn) = some s') :
    ∃ message server, s.server.say conn = some (message, server) ∧ s' = { s with
      server := server
      down := Function.update s.down conn (s.down conn ++ [message]) } := by
  obtain ⟨⟨message, server⟩, hsay, h⟩ := Option.bind_eq_some_iff.mp h
  exact ⟨message, server, hsay, (Option.some.inj h).symm⟩

theorem deliver_cases {clock : Nat → Timepoint} {conn : Nat}
    (h : s.step replicas (.deliver clock conn) = some s') :
    (replicas conn).isSome ∧ ∃ message down node, s.down conn = message :: down ∧
      (s.nodes conn).listen clock message = some node ∧ s' = { s with
        nodes := Function.update s.nodes conn node
        down := Function.update s.down conn down } := by
  simp only [step] at h
  split at h
  · next hconn =>
      split at h
      · cases h
      · next message down hdown =>
          obtain ⟨node, hlisten, h⟩ := Option.bind_eq_some_iff.mp h
          exact ⟨hconn, message, down, node, hdown, hlisten, (Option.some.inj h).symm⟩
  · cases h

theorem answer_cases {conn : Nat} (h : s.step replicas (.answer conn) = some s') :
    (replicas conn).isSome ∧ ∃ message pending, (s.nodes conn).pending = message :: pending ∧
      s' = { s with
        nodes := Function.update s.nodes conn { s.nodes conn with pending := pending }
        up := Function.update s.up conn (s.up conn ++ [message]) } := by
  simp only [step] at h
  split at h
  · next hconn =>
      obtain ⟨⟨message, node⟩, hsay, h⟩ := Option.bind_eq_some_iff.mp h
      obtain ⟨pending, hpending, rfl⟩ := ReplicaTalker.say_cases hsay
      exact ⟨hconn, message, pending, hpending, (Option.some.inj h).symm⟩
  · cases h

theorem receive_cases {now : Timepoint} {conn : Nat}
    (h : s.step replicas (.receive now conn) = some s') :
    (replicas conn).isSome ∧ ∃ message up server, s.up conn = message :: up ∧
      s.server.receive now conn message = some server ∧ s' = { s with
        server := server
        up := Function.update s.up conn up } := by
  simp only [step] at h
  split at h
  · next hconn =>
      split at h
      · cases h
      · next message up hup =>
          obtain ⟨server, hreceive, rfl⟩ := Option.map_eq_some_iff.mp h
          exact ⟨hconn, message, up, server, hup, hreceive, rfl⟩
  · cases h

end

/-- A cluster before anything has happened. -/
def initial (server : Server) (replicas : Replicas) : Cluster where
  server := server
  nodes := fun conn => ((replicas conn).getD {}).talker
  up := fun _ => []
  down := fun _ => []

/-- A master with its replicas. -/
def machine (server : Server) (replicas : Replicas) : Machine Cluster ClusterAction where
  init := initial server replicas
  step := step replicas

end Cluster

end BuildYourOwnRedis
