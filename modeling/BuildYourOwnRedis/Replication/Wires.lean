/-
  Replication/Wires.lean --- a master and its replicas, joined by byte streams.

  In `Cluster` a connection is a queue of messages.  Here it is two pipes: a talker writes the
  encodings of its messages, the kernel cuts them anywhere, and the parser at the other end is
  asked in the mode that its talker expects.  The queues are kept as a record of what has been
  written and not been read; no step looks at them.

  A cluster of pipes refines one of queues while everything that is written can be read: the
  SETs of the clients have keys and values that are not empty and shorter than 2^31 bytes, the
  replication id of the master holds no delimiter, its file is shorter than 2^31 bytes, and the
  ports of the replicas are `int`s.  Then a replica never takes a part of one message for
  another one, the dump included, and nothing that was pushed is lost.
-/
import BuildYourOwnRedis.Replication.Legible

set_option autoImplicit false

namespace BuildYourOwnRedis

open Foundation

/-- A cluster with the pipes from the master to each replica and back.  The queues of the
cluster are recorded. -/
structure Wires where
  cluster : Cluster
  downPipe : Nat → Pipe := fun _ => {}
  upPipe : Nat → Pipe := fun _ => {}

/-- What can happen.  Where a message comes in one step of a cluster, here its bytes are
written, come in pieces, and are asked for. -/
inductive WiresAction where
  /-- something at the master that is no reading and no writing of a replica's connection -/
  | master (a : ClusterAction)
  /-- the server writes the next message of a connection -/
  | send (conn : Nat)
  /-- bytes come to a replica -/
  | arriveDown (conn : Nat) (size : Nat)
  /-- a replica asks its parser for a message -/
  | deliver (clock : Nat → Timepoint) (conn : Nat)
  /-- a replica writes its next message -/
  | answer (conn : Nat)
  /-- bytes of a replica come -/
  | arriveUp (conn : Nat) (size : Nat)
  /-- the parser for a replica is asked for a message -/
  | receive (now : Timepoint) (conn : Nat)

/-- The master neither writes nor reads on the connection of a replica. -/
def ClusterAction.isLocal : ClusterAction → Bool
  | .request _ _ _ | .runJob | .fireRead _ | .fireWait _ | .disconnect _ => true
  | .send _ | .deliver _ _ | .answer _ | .receive _ _ => false

namespace Wires

/-- The pipe to a replica changes. -/
def setDown (conn : Nat) (pipe : Pipe) (w : Wires) : Wires :=
  { w with downPipe := Function.update w.downPipe conn pipe }

/-- The pipe from a replica changes. -/
def setUp (conn : Nat) (pipe : Pipe) (w : Wires) : Wires :=
  { w with upPipe := Function.update w.upPipe conn pipe }

/-- One step.  Where a parser fails, the handler is left by an exception and the connection is
at its end. -/
def step (replicas : Cluster.Replicas) (w : Wires) : WiresAction → Option Wires
  | .master a =>
      if a.isLocal then
        (w.cluster.step replicas a).map fun cluster => { w with cluster := cluster }
      else none
  | .send conn =>
      (w.cluster.server.say conn).map fun (message, server) =>
        { w.setDown conn ((w.downPipe conn).write message) with
          cluster := { w.cluster with
            server := server
            down := Function.update w.cluster.down conn (w.cluster.down conn ++ [message]) } }
  | .arriveDown conn size => some (w.setDown conn ((w.downPipe conn).arrive size))
  | .deliver clock conn =>
      if (replicas conn).isSome then
        match (w.downPipe conn).ask (w.cluster.nodes conn).expected with
        | (.ok (some message), pipe) =>
            ((w.cluster.nodes conn).listen clock message).map fun node =>
              { w.setDown conn pipe with
                cluster := { w.cluster with
                  nodes := Function.update w.cluster.nodes conn node
                  down := Function.update w.cluster.down conn (w.cluster.down conn).tail } }
        | (.ok none, pipe) => some (w.setDown conn pipe)
        | (.error _, _) => none
      else none
  | .answer conn =>
      if (replicas conn).isSome then
        (w.cluster.nodes conn).say.map fun (message, node) =>
          { w.setUp conn ((w.upPipe conn).write message) with
            cluster := { w.cluster with
              nodes := Function.update w.cluster.nodes conn node
              up := Function.update w.cluster.up conn (w.cluster.up conn ++ [message]) } }
      else none
  | .arriveUp conn size => some (w.setUp conn ((w.upPipe conn).arrive size))
  | .receive now conn =>
      if (replicas conn).isSome && (w.cluster.server.talkers conn).isOpen then
        match (w.upPipe conn).ask .any with
        | (.ok (some message), pipe) =>
            (w.cluster.server.receive now conn message).map fun server =>
              { w.setUp conn pipe with
                cluster := { w.cluster with
                  server := server
                  up := Function.update w.cluster.up conn (w.cluster.up conn).tail } }
        | (.ok none, pipe) => some (w.setUp conn pipe)
        | (.error _, _) => none
      else none

/-- A master with its replicas. -/
def machine (server : Server) (replicas : Cluster.Replicas) : Machine Wires WiresAction where
  init := { cluster := Cluster.initial server replicas }
  step := step replicas

/-- The SETs that the master has accepted behind the step fit: their keys and values are not
empty and shorter than 2^31 bytes. -/
def Fitting (replicas : Cluster.Replicas) (w : Wires) (a : WiresAction) : Prop :=
  ∀ w' ∈ w.step replicas a, w'.cluster.SetsFit

instance (replicas : Cluster.Replicas) (w : Wires) (a : WiresAction) :
    Decidable (w.Fitting replicas a) :=
  inferInstanceAs (Decidable (∀ w' ∈ w.step replicas a, w'.cluster.SetsFit))

end Wires

theorem Server.isOpen_of_say {conn : Nat} {s s' : Server} {message : Message}
    (h : s.say conn = some (message, s')) : (s.talkers conn).isOpen = true := by
  unfold say at h
  split at h
  · next hopen => exact hopen
  · cases h

namespace Cluster

variable {replicas : Replicas} {c : Nat}

/-- What happens at the master alone moves nothing between it and its replicas. -/
theorem ends_of_local {s s' : Cluster} {a : ClusterAction} (ha : a.isLocal = true)
    (hstep : s.step replicas a = some s') :
    s'.nodes = s.nodes ∧ s'.up = s.up ∧ s'.down = s.down := by
  cases a with
  | request now conn message =>
      obtain ⟨-, server, -, rfl⟩ := request_cases hstep
      exact ⟨rfl, rfl, rfl⟩
  | runJob | fireRead i | fireWait i =>
      obtain ⟨server, -, rfl⟩ := Option.map_eq_some_iff.mp hstep
      exact ⟨rfl, rfl, rfl⟩
  | disconnect conn =>
      obtain rfl := Option.some.inj hstep
      exact ⟨rfl, rfl, rfl⟩
  | send conn | deliver clock conn | answer conn | receive now conn => cases ha

/-- A replica that is not connected reads on; nothing is written to it. -/
theorem legible_of_closed {s s' : Cluster} {a : ClusterAction}
    (hstep : s.step replicas a = some s') (hclosed : (s'.server.talkers c).isOpen = false)
    (h : Legible (s.down c) (s.nodes c).state) : Legible (s'.down c) (s'.nodes c).state := by
  cases a with
  | send conn =>
      obtain ⟨message, server, hsay, rfl⟩ := send_cases hstep
      have hother : c ≠ conn := by
        rintro rfl
        have hopen := Server.isOpen_of_say hsay
        obtain ⟨pending, -, rfl⟩ := Server.say_cases hsay
        simp [Server.modifyTalker_talkers, hopen] at hclosed
      simpa [hother] using h
  | deliver clock conn =>
      obtain ⟨-, message, down, node, hdown, hlisten, rfl⟩ := deliver_cases hstep
      by_cases hconn : c = conn
      · subst hconn
        rw [hdown] at h
        simpa using (h _ rfl).2 clock node hlisten
      · simpa [hconn] using h
  | answer conn =>
      obtain ⟨-, message, pending, hpending, rfl⟩ := answer_cases hstep
      by_cases hconn : c = conn
      · subst hconn
        simpa using h
      · simpa [hconn] using h
  | receive now conn =>
      obtain ⟨-, message, up, server, -, -, rfl⟩ := receive_cases hstep
      exact h
  | request now conn message | runJob | fireRead i | fireWait i | disconnect conn =>
      obtain ⟨hnodes, -, hdown⟩ := ends_of_local rfl hstep
      rwa [hnodes, hdown]

end Cluster

namespace Wires

variable {clock : Nat → Timepoint} {info : ServerInfo} {dbFile : Option Bytes} {server : Server}
  {replicas : Cluster.Replicas}

/-- The invariant: the state of the cluster is reached without the wires too, the pipes carry
what is recorded, and all of it can be read. -/
structure Faithful (server : Server) (replicas : Cluster.Replicas) (w : Wires) : Prop where
  reached : (Cluster.machine server replicas).Reachable Anything w.cluster
  legible : ∀ c, (replicas c).isSome →
    Legible (w.cluster.down c) (w.cluster.nodes c).state
  down : ∀ c, (replicas c).isSome →
    (w.downPipe c).Carries (w.cluster.nodes c).expected (w.cluster.down c)
  up : ∀ c, (replicas c).isSome → (w.upPipe c).Carries .any (w.cluster.up c)

variable (hstart : Server.start clock info dbFile = some server)
  (hreplid : ¬ crlf <:+: info.masterReplid) (hfile : ∀ file ∈ dbFile, file.length < 2 ^ 31)
  (hports : ∀ c, ∀ config ∈ replicas c, config.PortFits)

include hstart hfile in
/-- The dump is what the master has been started with. -/
theorem length_dump {s : Cluster}
    (hs : (Cluster.machine server replicas).Reachable Anything s) :
    s.server.dump.length < 2 ^ 31 := by
  have hsame : s.server.dump = server.dump :=
    hs.invariant (I := fun s => s.server.dump = server.dump) rfl
      fun _ _ _ _ h _ hstep => (Cluster.step_dump hstep).trans h
  obtain ⟨values, rfl⟩ := Server.start_eq hstart
  rw [hsame, Server.dump]
  cases dbFile with
  | none =>
      rw [Option.getD_none]
      decide +kernel
  | some file => exact hfile file rfl

include hports in
/-- All that a replica has said can be read: it says its handshake and offsets, which are
decimal numbers. -/
theorem spoken_reachable {s : Cluster}
    (hs : (Cluster.machine server replicas).Reachable Anything s) (c : Nat) :
    s.Spoken c :=
  hs.invariant (Cluster.spoken_initial server (hports c)) fun _ _ _ _ h _ hstep => h.step hstep

include hstart hreplid hfile in
/-- A step of the cluster leaves what is on the way legible. -/
theorem Faithful.took {w : Wires} (h : w.Faithful server replicas) {s' : Cluster}
    {a : ClusterAction} (hstep : w.cluster.step replicas a = some s') (hfits : s'.SetsFit) :
    (Cluster.machine server replicas).Reachable Anything s' ∧
      ∀ c, (replicas c).isSome → Legible (s'.down c) (s'.nodes c).state := by
  have hreached : (Cluster.machine server replicas).Reachable Anything s' :=
    .step h.reached trivial hstep
  refine ⟨hreached, fun c hc => ?_⟩
  cases hopen : (s'.server.talkers c).isOpen with
  | false => exact Cluster.legible_of_closed hstep hopen (h.legible c hc)
  | true =>
      have hlines : s'.Lines info c := hreached.invariant (Cluster.lines_initial hstart c)
        fun _ _ _ _ hl _ htaken => hl.step hreplid htaken
      exact ((Cluster.greets_reachable hstart hc hreached).legible hc hlines hfits
        (length_dump hstart hfile hreached) hopen).of_append

/-! ## Steps -/

/-- Bytes come to a replica, or its parser is asked in vain. -/
theorem Faithful.setDown {w : Wires} (h : w.Faithful server replicas) {conn : Nat} {pipe : Pipe}
    (hpipe : (replicas conn).isSome →
      pipe.Carries (w.cluster.nodes conn).expected (w.cluster.down conn)) :
    (w.setDown conn pipe).Faithful server replicas := by
  refine ⟨h.reached, h.legible, fun c hc => ?_, h.up⟩
  by_cases hconn : c = conn
  · subst hconn
    simpa [Wires.setDown] using hpipe hc
  · simpa [Wires.setDown, hconn] using h.down c hc

/-- The same at the master. -/
theorem Faithful.setUp {w : Wires} (h : w.Faithful server replicas) {conn : Nat} {pipe : Pipe}
    (hpipe : (replicas conn).isSome → pipe.Carries .any (w.cluster.up conn)) :
    (w.setUp conn pipe).Faithful server replicas := by
  refine ⟨h.reached, h.legible, h.down, fun c hc => ?_⟩
  by_cases hconn : c = conn
  · subst hconn
    simpa [Wires.setUp] using hpipe hc
  · simpa [Wires.setUp, hconn] using h.up c hc

section

include hstart hreplid hfile

theorem Faithful.master {w w' : Wires} (h : w.Faithful server replicas) {a : ClusterAction}
    (hfits : w'.cluster.SetsFit) (hstep : w.step replicas (.master a) = some w') :
    w'.Faithful server replicas := by
  simp only [step] at hstep
  split at hstep
  · next ha =>
      obtain ⟨cluster, htaken, rfl⟩ := Option.map_eq_some_iff.mp hstep
      obtain ⟨hnodes, hup, hdown⟩ := Cluster.ends_of_local ha htaken
      obtain ⟨hreached, hlegible⟩ := h.took hstart hreplid hfile htaken hfits
      refine ⟨hreached, hlegible, fun c hc => ?_, fun c hc => ?_⟩
      · simpa only [hnodes, hdown] using h.down c hc
      · simpa only [hup] using h.up c hc
  · cases hstep

theorem Faithful.send {w w' : Wires} (h : w.Faithful server replicas) {conn : Nat}
    (hfits : w'.cluster.SetsFit) (hstep : w.step replicas (.send conn) = some w') :
    w'.Faithful server replicas := by
  obtain ⟨⟨message, server'⟩, hsay, rfl⟩ := Option.map_eq_some_iff.mp hstep
  have htaken : w.cluster.step replicas (.send conn) = some { w.cluster with
      server := server'
      down := Function.update w.cluster.down conn (w.cluster.down conn ++ [message]) } := by
    simp [Cluster.step, hsay]
  obtain ⟨hreached, hlegible⟩ := h.took hstart hreplid hfile htaken hfits
  refine ⟨hreached, hlegible, fun c hc => ?_, h.up⟩
  by_cases hconn : c = conn
  · subst hconn
    simpa [Wires.setDown] using (h.down c hc).write message
  · simpa [Wires.setDown, hconn] using h.down c hc

theorem Faithful.answer {w w' : Wires} (h : w.Faithful server replicas) {conn : Nat}
    (hfits : w'.cluster.SetsFit) (hstep : w.step replicas (.answer conn) = some w') :
    w'.Faithful server replicas := by
  simp only [step] at hstep
  split at hstep
  · next hreplica =>
      obtain ⟨⟨message, node⟩, hsay, rfl⟩ := Option.map_eq_some_iff.mp hstep
      have htaken : w.cluster.step replicas (.answer conn) = some { w.cluster with
          nodes := Function.update w.cluster.nodes conn node
          up := Function.update w.cluster.up conn (w.cluster.up conn ++ [message]) } := by
        simp [Cluster.step, hreplica, hsay]
      obtain ⟨pending, -, rfl⟩ := ReplicaTalker.say_cases hsay
      obtain ⟨hreached, hlegible⟩ := h.took hstart hreplid hfile htaken hfits
      refine ⟨hreached, hlegible, fun c hc => ?_, fun c hc => ?_⟩
      · by_cases hconn : c = conn
        · subst hconn
          simpa [Wires.setUp, ReplicaTalker.expected] using h.down c hc
        · simpa [Wires.setUp, hconn] using h.down c hc
      · by_cases hconn : c = conn
        · subst hconn
          simpa [Wires.setUp] using (h.up c hc).write message
        · simpa [Wires.setUp, hconn] using h.up c hc
  · cases hstep

/-- The parser of a replica returns what its queue would have delivered. -/
theorem Faithful.deliver {w w' : Wires} (h : w.Faithful server replicas)
    {clocks : Nat → Timepoint} {conn : Nat} (hfits : w'.cluster.SetsFit)
    (hstep : w.step replicas (.deliver clocks conn) = some w') :
    w'.Faithful server replicas := by
  simp only [step] at hstep
  split at hstep
  · next hreplica =>
      have hcarries := h.down conn hreplica
      cases hdown : w.cluster.down conn with
      | nil =>
          rw [hdown] at hcarries
          obtain ⟨pipe, hask, hafter⟩ := hcarries.ask_nil
          rw [hask] at hstep
          obtain rfl := Option.some.inj hstep
          exact h.setDown fun _ => hdown.symm ▸ hafter
      | cons message down =>
          have hlegible := h.legible conn hreplica
          rw [hdown] at hcarries hlegible
          rcases hcarries.ask_cons (hlegible _ rfl).1 with
            ⟨-, pipe, hask, hafter⟩ | ⟨pipe, hask, hafter⟩
          · rw [hask] at hstep
            obtain rfl := Option.some.inj hstep
            exact h.setDown fun _ => hdown.symm ▸ hafter
          · rw [hask] at hstep
            obtain ⟨node, hlisten, rfl⟩ := Option.map_eq_some_iff.mp hstep
            rw [hdown, List.tail_cons] at hfits ⊢
            have htaken : w.cluster.step replicas (.deliver clocks conn) = some { w.cluster with
                nodes := Function.update w.cluster.nodes conn node
                down := Function.update w.cluster.down conn down } := by
              simp [Cluster.step, hreplica, hdown, hlisten]
            obtain ⟨hreached, hlegible⟩ := h.took hstart hreplid hfile htaken hfits
            refine ⟨hreached, hlegible, fun c hc => ?_, h.up⟩
            by_cases hconn : c = conn
            · subst hconn
              simpa [Wires.setDown] using hafter _
            · simpa [Wires.setDown, hconn] using h.down c hc
  · cases hstep

include hports

/-- So does the parser of the master. -/
theorem Faithful.receive {w w' : Wires} (h : w.Faithful server replicas) {now : Timepoint}
    {conn : Nat} (hfits : w'.cluster.SetsFit)
    (hstep : w.step replicas (.receive now conn) = some w') : w'.Faithful server replicas := by
  simp only [step] at hstep
  split at hstep
  · next hboth =>
      obtain ⟨hreplica, -⟩ := Bool.and_eq_true_iff.mp hboth
      have hcarries := h.up conn hreplica
      cases hup : w.cluster.up conn with
      | nil =>
          rw [hup] at hcarries
          obtain ⟨pipe, hask, hafter⟩ := hcarries.ask_nil
          rw [hask] at hstep
          obtain rfl := Option.some.inj hstep
          exact h.setUp fun _ => hup.symm ▸ hafter
      | cons message up =>
          have hreads := (spoken_reachable hports h.reached conn).up message
            (hup ▸ List.mem_cons_self)
          rw [hup] at hcarries
          rcases hcarries.ask_cons hreads with ⟨-, pipe, hask, hafter⟩ | ⟨pipe, hask, hafter⟩
          · rw [hask] at hstep
            obtain rfl := Option.some.inj hstep
            exact h.setUp fun _ => hup.symm ▸ hafter
          · rw [hask] at hstep
            obtain ⟨server', hreceive, rfl⟩ := Option.map_eq_some_iff.mp hstep
            rw [hup, List.tail_cons] at hfits ⊢
            have htaken : w.cluster.step replicas (.receive now conn) = some { w.cluster with
                server := server'
                up := Function.update w.cluster.up conn up } := by
              simp [Cluster.step, hreplica, hup, Cluster.updateServer, hreceive]
            obtain ⟨hreached, hlegible⟩ := h.took hstart hreplid hfile htaken hfits
            refine ⟨hreached, hlegible, h.down, fun c hc => ?_⟩
            by_cases hconn : c = conn
            · subst hconn
              simpa [Wires.setUp] using hafter _
            · simpa [Wires.setUp, hconn] using h.up c hc
  · cases hstep

theorem Faithful.step {w w' : Wires} (h : w.Faithful server replicas) {a : WiresAction}
    (hfits : w'.cluster.SetsFit) (hstep : w.step replicas a = some w') :
    w'.Faithful server replicas := by
  cases a with
  | master a => exact h.master hstart hreplid hfile hfits hstep
  | send conn => exact h.send hstart hreplid hfile hfits hstep
  | answer conn => exact h.answer hstart hreplid hfile hfits hstep
  | deliver clocks conn => exact h.deliver hstart hreplid hfile hfits hstep
  | receive now conn => exact h.receive hstart hreplid hfile hports hfits hstep
  | arriveDown conn size =>
      obtain rfl := Option.some.inj hstep
      exact h.setDown fun hc => (h.down conn hc).arrive size
  | arriveUp conn size =>
      obtain rfl := Option.some.inj hstep
      exact h.setUp fun hc => (h.up conn hc).arrive size

end

/-- The steps of a cluster with queues, where each message comes in two pieces and the parser
is asked behind both. -/
def inPieces : ClusterAction → List WiresAction
  | .send c => [.send c, .arriveDown c 3, .deliver (fun _ => 0) c]
  | .deliver clock c => [.arriveDown c 1000, .deliver clock c]
  | .answer c => [.answer c, .arriveUp c 3, .receive 0 c]
  | .receive now c => [.arriveUp c 1000, .receive now c]
  | a => [.master a]

/-- A replica connects, and a SET comes to it. -/
def setComes : List ClusterAction :=
  Cluster.handshake 1 ++
    [.request 0 2 (Command.set (ascii "key") (ascii "a\r\nb") none).construct, .send 1,
      .deliver (fun _ => 0) 1]

/-- The wires behind that. -/
def afterSet : Option Wires :=
  (machine Cluster.emptyMaster Cluster.oneReplica).run (Fitting Cluster.oneReplica)
    (machine Cluster.emptyMaster Cluster.oneReplica).init (setComes.flatMap inPieces)

theorem map_afterSet : afterSet.map (fun w => (w.cluster.nodes 1).applied.length) = some 1 := by
  decide +kernel

-- behind a SET with an empty value the parser of the replica leaves its buffer
example : ((machine Cluster.emptyMaster Cluster.oneReplica).run Anything
    (machine Cluster.emptyMaster Cluster.oneReplica).init
    ((Cluster.handshake 1).flatMap inPieces ++
      [.master (.request 0 2 (Command.set (ascii "key") [] none).construct),
        .master (.request 0 2 (Command.set (ascii "a") (ascii "b") none).construct),
        .send 1, .send 1, .arriveDown 1 1000, .deliver (fun _ => 0) 1])).map
      (fun w => match ((w.downPipe 1).ask .any).1 with
        | .error .outsideBuffer => true
        | _ => false) = some true := by
  decide +kernel

end Wires

end BuildYourOwnRedis
