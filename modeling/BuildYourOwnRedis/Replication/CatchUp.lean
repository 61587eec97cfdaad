/-
  Replication/CatchUp.lean --- a replica catches up with its master.

  On the connection of a replica every message is written and comes to the other side, and
  every command of the master may be answered with an offset.  So the connection has a bounded
  number of steps for the handshake and for every command that is pushed; and while something
  is left to do one of them is possible, unless an offset that comes satisfies a WAIT whose
  client has gone.  When nothing is left, the replica has executed what the master has accepted
  since the replica was attached.
-/
import BuildYourOwnRedis.Replication.Chain
import BuildYourOwnRedis.Replication.HandshakeEnd
import BuildYourOwnRedis.Server.Handling

set_option autoImplicit false

namespace BuildYourOwnRedis

open Foundation

/-! ## What is left -/

namespace Cluster

/-- The steps on the connection of a replica. -/
def moves (c : Nat) : ClusterAction → Bool
  | .send conn => conn = c
  | a => own c a

/-- The commands that the master has pushed to a replica. -/
def pushedTo (c : Nat) (s : Cluster) : List Message :=
  ((s.server.handle c).map ReplicaHandle.pushed).getD []

/-- The moves up to the end of the handshake, when nothing more is pushed, and those behind it
for what has been pushed.  A command makes two moves on its way and two for the offset that may
come back. -/
def movesLeft (c : Nat) (s : Cluster) : Nat :=
  2 * (s.nodes c).state.requestsLeft + (s.upstream c).length + (s.nodes c).pending.length +
    (s.downstream c).length + (s.server.talkers c).pending.length +
    2 * ((s.nodes c).state.answersLeft - (s.downstream c).length) +
    2 * ((s.downstream c).length - (s.nodes c).state.answersLeft)

/-- One of the moves is possible: a step of the server for this connection, or of the replica
at its other end. -/
def CanMove (replicas : Replicas) (c : Nat) (s : Cluster) : Prop :=
  ∃ a, moves c a = true ∧ (s.step replicas a).isSome

/-- The client of a pending WAIT has gone.  A reply to it would go to a talker that has been
destroyed, which ends the run. -/
def Orphaned (s : Cluster) : Prop :=
  ∃ w ∈ s.server.middleware.waits, (s.server.talkers w.slot.conn).isOpen = false

/-- Nothing is on the way, and the replica has executed what has been accepted since it was
attached. -/
structure CaughtUp (c : Nat) (s : Cluster) : Prop where
  settled : s.Settled c
  quiet : s.upstream c = []
  executed : ∃ r ∈ s.server.handle c,
    (s.nodes c).applied = s.server.middleware.accepted.drop r.attachedAt

end Cluster

/-! ## The balance of a phase -/

/-- Behind the answers of the handshake there is on the way what has been pushed and not been
processed; before the last one, nothing has been pushed. -/
theorem Phase.balance {dump : Bytes} {node : ReplicaTalker}
    {handle : Option (ReplicaHandle Slot)} {up down : List Message}
    (h : Phase dump node handle up down)
    (hnext : node.state = .waitForRdbFileSync → ∃ rest, down = .syncResponse dump :: rest)
    (hidle : ∀ r ∈ handle, r.state ≠ .write → r.pushed = []) :
    ((handle.map ReplicaHandle.pushed).getD [] = [] ∧ node.processed = [] ∧
        down.length ≤ node.state.answersLeft) ∨
      ((handle.map ReplicaHandle.pushed).getD []).length + node.state.answersLeft =
        node.processed.length + down.length := by
  cases h with
  | greeting hgreeting hnode hmet =>
      refine .inl ⟨?_, hnode.processed, ?_⟩
      · cases handle with
        | none => rfl
        | some r => exact hidle r rfl (by simp [(hmet r rfl).1])
      · generalize node.state = state at hgreeting
        generalize handle.isSome = known at hgreeting
        cases hgreeting <;> decide
  | answered hstate hnode =>
      right
      rw [hnode.processed, hstate]
      simp only [ReplicaTalkerState.answersLeft, Option.map_some, Option.getD_some,
        List.length_cons, List.length_nil]
      omega
  | dump hstate hnode =>
      right
      rw [hnode.processed, hstate]
      simp [ReplicaTalkerState.answersLeft]
  | stuck hstate _ _ _ hdown =>
      -- the dump would have to be a command
      obtain ⟨rest, rfl⟩ := hnext hstate
      obtain ⟨elements, heq⟩ := (hdown _ List.mem_cons_self).isArray
      cases heq
  | synced hstate _ hlog =>
      right
      rw [hstate]
      simp [hlog.pushed, ReplicaTalkerState.answersLeft]

/-- A command of the master is answered with one offset at most. -/
theorem Phase.processed_more {dump : Bytes} {node : ReplicaTalker}
    {handle : Option (ReplicaHandle Slot)} {up down : List Message} {m : Message}
    (h : Phase dump node handle up (m :: down)) (hstate : node.state = .waitServerCommands)
    (hpushable : ∀ r ∈ handle, ∀ x ∈ r.pushed, Pushable x) (clock : Nat → Timepoint) :
    ∃ node' more, node.listen clock m = some node' ∧ node'.pending = node.pending ++ more ∧
      more.length ≤ 1 ∧ node'.state = .waitServerCommands := by
  cases h with
  | synced _ _ hlog =>
      have hm : Pushable m := by
        refine hpushable _ rfl m ?_
        rw [hlog.pushed]
        simp
      obtain ⟨storage, more, hprocess, hmore⟩ := @Phase.process_pushable node (clock 0) m hm
      have hlisten : node.listen clock m = node.process (clock 0) m := by
        simp only [ReplicaTalker.listen, hstate]
      refine ⟨_, more, hlisten.trans hprocess, rfl, ?_, hstate⟩
      rcases hmore with rfl | rfl <;> simp
  | greeting hgreeting => rw [hstate] at hgreeting; cases hgreeting
  | answered hanswered => cases hstate.symm.trans hanswered
  | dump hdump => cases hstate.symm.trans hdump
  | stuck hstuck => cases hstate.symm.trans hstuck

namespace Cluster

variable {replicas : Replicas} {c : Nat}

/-! ## Moves are paid for -/

/-- What the replica has not moved leaves the wire to it as it is. -/
theorem down_of_elsewhere {s s' : Cluster} {a : ClusterAction} (ha : moves c a = false)
    (hstep : s.step replicas a = some s') : s'.down c = s.down c := by
  cases a with
  | request now conn message =>
      obtain ⟨-, server, -, rfl⟩ := request_cases hstep
      rfl
  | runJob | fireRead i | fireWait i =>
      obtain ⟨server, -, rfl⟩ := Option.map_eq_some_iff.mp hstep
      rfl
  | disconnect conn =>
      obtain rfl := Option.some.inj hstep
      rfl
  | send conn =>
      have hother : c ≠ conn := fun heq => by simp [moves, heq] at ha
      obtain ⟨message, server, -, rfl⟩ := send_cases hstep
      exact Function.update_of_ne hother _ _
  | deliver clock conn =>
      have hother : c ≠ conn := fun heq => by simp [moves, own, heq] at ha
      obtain ⟨-, message, down, node, -, -, rfl⟩ := deliver_cases hstep
      exact Function.update_of_ne hother _ _
  | answer conn =>
      obtain ⟨-, message, pending, -, rfl⟩ := answer_cases hstep
      rfl
  | receive now conn =>
      obtain ⟨-, message, up, server, -, -, rfl⟩ := receive_cases hstep
      rfl

/-- What is on the way to a replica, and what has been pushed. -/
theorem Greets.balance {s : Cluster} (h : s.Greets replicas c) (hc : (replicas c).isSome)
    (hopen : (s.server.talkers c).isOpen) :
    (s.pushedTo c = [] ∧ (s.nodes c).processed = [] ∧
        (s.downstream c).length ≤ (s.nodes c).state.answersLeft) ∨
      (s.pushedTo c).length + (s.nodes c).state.answersLeft =
        (s.nodes c).processed.length + (s.downstream c).length :=
  (h.sync.phases c hc hopen).balance (h.next hopen) fun r hr =>
    (h.sync.served.streams r (Server.mem_of_handle hr).1).idle

theorem length_downstream (s : Cluster) : (s.downstream c).length =
    (s.down c).length + (s.server.talkers c).pending.length :=
  List.length_append

/-- The moves between two states are paid for, by the moves that were left and by four for each
command that was pushed meanwhile. -/
def Paid (c : Nat) (moves : Nat) (s s' : Cluster) : Prop :=
  s'.movesLeft c + 4 * (s.pushedTo c).length + moves ≤ s.movesLeft c + 4 * (s'.pushedTo c).length

/-- What others do brings at most commands that are pushed. -/
theorem Greets.paid_elsewhere {s s' : Cluster} (h : s.Greets replicas c)
    (hc : (replicas c).isSome) {a : ClusterAction} (ha : moves c a = false)
    (hstep : s.step replicas a = some s') (hopen : (s'.server.talkers c).isOpen) :
    (s.server.talkers c).isOpen ∧ Paid c 0 s s' := by
  have hown : own c a = false := by cases a <;> first | exact ha | rfl
  have helse := h.sync.elsewhere hc hown hstep
  obtain ⟨hbefore, more, hmore, -⟩ := helse.down hopen
  obtain ⟨hnode, hup⟩ := ends_of_elsewhere hown hstep
  have hdown := down_of_elsewhere ha hstep
  have hbalance := h.balance hc hbefore
  have hbalance' := ((h.step hc hstep).1).balance hc hopen
  refine ⟨hbefore, ?_⟩
  have hlength := congrArg List.length hmore
  rw [List.length_append] at hlength
  have hwire := length_downstream (c := c) s
  have hwire' := length_downstream (c := c) s'
  rw [hdown] at hwire'
  simp only [hnode] at hbalance'
  simp only [Paid, movesLeft, upstream, hnode, hup]
  grind

/-- The master writes a message. -/
theorem Greets.paid_send {s s' : Cluster} (hstep : s.step replicas (.send c) = some s')
    (hopen : (s'.server.talkers c).isOpen) :
    (s.server.talkers c).isOpen ∧ Paid c 1 s s' := by
  obtain ⟨message, server, hsay, rfl⟩ := send_cases hstep
  obtain ⟨pending, hpending, rfl⟩ := Server.say_cases hsay
  refine ⟨by simpa [Server.modifyTalker_talkers] using hopen, ?_⟩
  have hhandle : (s.server.modifyTalker c fun t => { t with pending := pending }).handle c =
    s.server.handle c := rfl
  simp only [Paid, movesLeft, upstream, downstream, pushedTo, hhandle, hpending,
    Server.modifyTalker_talkers, if_true, Function.update_self, List.length_append,
    List.length_cons, List.length_nil]
  omega

/-- A message of the master comes. -/
theorem Greets.paid_deliver {s s' : Cluster} (h : s.Greets replicas c)
    {clock : Nat → Timepoint} (hstep : s.step replicas (.deliver clock c) = some s')
    (hopen : (s'.server.talkers c).isOpen) :
    (s.server.talkers c).isOpen ∧ Paid c 1 s s' := by
  obtain ⟨hc, message, down, node, hdown, hlisten, rfl⟩ := deliver_cases hstep
  refine ⟨hopen, ?_⟩
  have hahead : s.downstream c = message :: (down ++ (s.server.talkers c).pending) := by
    rw [downstream, hdown, List.cons_append]
  have hphase := h.sync.phases c hc hopen
  rw [hahead] at hphase
  simp only [Paid, movesLeft, upstream, downstream, pushedTo, hdown, Function.update_self,
    List.length_append, List.length_cons]
  by_cases hstate : (s.nodes c).state = .waitServerCommands
  · obtain ⟨node', more, hlisten', hpending, hmore, hfinished⟩ := hphase.processed_more hstate
      (fun r hr => (h.sync.served.streams r (Server.mem_of_handle hr).1).pushable) clock
    obtain rfl := Option.some.inj (hlisten'.symm.trans hlisten)
    rw [hpending, hfinished, hstate, List.length_append]
    simp only [ReplicaTalkerState.requestsLeft, ReplicaTalkerState.answersLeft]
    omega
  · have hfirst : (s.nodes c).state = .waitForRdbFileSync →
        message = .syncResponse s.server.dump := by
      intro hwaits
      obtain ⟨rest, hrest⟩ := h.next hopen hwaits
      exact (List.cons.inj (hahead.symm.trans hrest)).1
    obtain ⟨more, hpending, hrequests, hanswers, -⟩ :=
      hphase.greeted hstate hfirst (h.loads clock) hlisten
    rw [hpending, List.length_append]
    omega

/-- The replica writes a message. -/
theorem Greets.paid_answer {s s' : Cluster} (hstep : s.step replicas (.answer c) = some s')
    (hopen : (s'.server.talkers c).isOpen) :
    (s.server.talkers c).isOpen ∧ Paid c 1 s s' := by
  obtain ⟨-, message, pending, hpending, rfl⟩ := answer_cases hstep
  refine ⟨hopen, ?_⟩
  simp only [Paid, movesLeft, upstream, downstream, pushedTo, hpending, Function.update_self,
    List.length_append, List.length_cons, List.length_nil]
  omega

/-- A message of the replica comes to the master. -/
theorem Greets.paid_receive {s s' : Cluster} (h : s.Greets replicas c) {now : Timepoint}
    (hstep : s.step replicas (.receive now c) = some s')
    (hopen : (s'.server.talkers c).isOpen) :
    (s.server.talkers c).isOpen ∧ Paid c 1 s s' := by
  obtain ⟨hc, message, up, server, hup, hreceive, hs'⟩ := receive_cases hstep
  obtain ⟨-, more, hreplied, -⟩ := h.sync.received hc hup hreceive
  have hbalance' := ((h.step hc hstep).1).balance hc hopen
  subst hs'
  have hbefore := hreplied.isOpen ▸ hopen
  have hbalance := h.balance hc hbefore
  refine ⟨hbefore, ?_⟩
  simp only [downstream, hreplied.pending, List.length_append] at hbalance hbalance'
  simp only [Paid, movesLeft, upstream, downstream, hup, hreplied.pending, Function.update_self,
    List.length_append, List.length_cons]
  grind

/-- **One step** pays for itself. -/
theorem Greets.paid {s s' : Cluster} (h : s.Greets replicas c) (hc : (replicas c).isSome)
    {a : ClusterAction} (hstep : s.step replicas a = some s')
    (hopen : (s'.server.talkers c).isOpen) :
    (s.server.talkers c).isOpen ∧ Paid c (moves c a).toNat s s' := by
  by_cases ha : moves c a = true
  · rw [ha, Bool.toNat_true]
    cases a with
    | send conn =>
        obtain rfl := of_decide_eq_true ha
        exact paid_send hstep hopen
    | deliver clock conn =>
        obtain rfl := of_decide_eq_true ha
        exact h.paid_deliver hstep hopen
    | answer conn =>
        obtain rfl := of_decide_eq_true ha
        exact paid_answer hstep hopen
    | receive now conn =>
        obtain rfl := of_decide_eq_true ha
        exact h.paid_receive hstep hopen
    | request now conn message | runJob | fireRead i | fireWait i | disconnect conn => cases ha
  · rw [Bool.eq_false_iff.mpr ha, Bool.toNat_false]
    exact h.paid_elsewhere hc (Bool.eq_false_iff.mpr ha) hstep hopen

theorem amortized_moves {clock : Nat → Timepoint} {info : ServerInfo}
    {dbFile : Option Bytes} {server : Server}
    (h : Server.start clock info dbFile = some server) (hc : (replicas c).isSome) :
    (machine server replicas).Amortized Anything (fun s => (s.server.talkers c).isOpen)
      (movesLeft c) (fun s => 4 * (s.pushedTo c).length) (moves c) where
  step hs _ hstep hopen := (greets_reachable h hc hs).paid hc hstep hopen

theorem movesLeft_initial (server : Server) (c : Nat)
    (hpending : (server.talkers c).pending = []) : (initial server replicas).movesLeft c = 18 := by
  simp [movesLeft, upstream, downstream, initial, hpending, ReplicaConfig.talker,
    ReplicaTalkerState.requestsLeft, ReplicaTalkerState.answersLeft]

end Cluster

/-! ## A move is possible -/

/-- The master takes every offset, where no client of a pending WAIT has gone. -/
theorem Server.receive_replConfAck_isSome {replicas : Cluster.Replicas} {c : Nat} {s : Server}
    (hs : s.Served replicas) (hopen : (s.talkers c).isOpen) {r : ReplicaHandle Slot}
    (hr : s.handle c = some r)
    (hwaits : ∀ w ∈ s.middleware.waits, (s.talkers w.slot.conn).isOpen)
    (now : Timepoint) (k : UInt64) : (s.receive now c (replConfAck k).construct).isSome := by
  have hrecorded := hs.recordRequest c (replConfAck k).construct
  have hlisten := @listenReplConf_ack _ (s.recordRequest c (replConfAck k).construct) hrecorded
    ⟨c, some (s.talkers c).requests.length⟩ r hr k.toNat
  rw [receive, if_pos hopen]
  simp only [listen, tryParse_replConfAck, execute]
  rw [hlisten]
  split
  · rw [update_isSome_iff, calls_acknowledge_iff]
    intro w hw _
    exact (recordRequest_same c _ s w.slot.conn).2.2.trans (hwaits w hw)
  · rfl

/-- What comes from a replica that has finished the handshake is an offset. -/
theorem Phase.first_upstream {dump : Bytes} {node : ReplicaTalker}
    {handle : Option (ReplicaHandle Slot)} {up down : List Message} {m : Message}
    (h : Phase dump node handle (m :: up) down) :
    (∃ known, Greeting node.state known (m :: up) down) ∨
      handle.isSome ∧ ∃ k, m = (replConfAck k).construct := by
  cases h with
  | greeting hgreeting => exact .inl ⟨_, hgreeting⟩
  | @synced r _ _ offsets acked hstate hwrite hlog =>
      cases offsets with
      | nil => exact absurd hlog.up (by simp)
      | cons k offsets => exact .inr ⟨rfl, _, (List.cons.inj hlog.up).1⟩

namespace Cluster

variable {replicas : Replicas} {c : Nat}

/-- **Progress.**  What is on the way on the connection of a replica can move.  The first of
the four places that is not empty has a step: what the server has pending, what is on the wire
down, what the replica has pending, and what is on the wire up. -/
theorem Greets.canMove {s : Cluster} (h : s.Greets replicas c) (hc : (replicas c).isSome)
    (hopen : (s.server.talkers c).isOpen) (hwaits : ¬s.Orphaned)
    (hway : s.downstream c ≠ [] ∨ s.upstream c ≠ []) : s.CanMove replicas c := by
  have hphase := h.sync.phases c hc hopen
  cases hpending : (s.server.talkers c).pending with
  | cons message pending =>
      refine ⟨.send c, decide_eq_true rfl, ?_⟩
      simp [Cluster.step, Server.say, hopen, hpending]
  | nil =>
  cases hdown : s.down c with
  | cons message down =>
      refine ⟨.deliver (fun _ => 0) c, decide_eq_true rfl, ?_⟩
      have hahead : s.downstream c = message :: (down ++ (s.server.talkers c).pending) := by
        rw [downstream, hdown, List.cons_append]
      rw [hahead] at hphase
      have hlisten : ((s.nodes c).listen (fun _ => 0) message).isSome := by
        by_cases hstate : (s.nodes c).state = .waitServerCommands
        · obtain ⟨node', more, hlisten, -⟩ := hphase.processed_more hstate
            (fun r hr => (h.sync.served.streams r (Server.mem_of_handle hr).1).pushable)
            fun _ => 0
          rw [hlisten]
          rfl
        · exact ReplicaTalker.listen_isSome hstate _ _
      obtain ⟨node, hnode⟩ := Option.isSome_iff_exists.mp hlisten
      simp [Cluster.step, hc, hdown, hnode]
  | nil =>
  cases hsaid : (s.nodes c).pending with
  | cons message pending =>
      refine ⟨.answer c, decide_eq_true rfl, ?_⟩
      simp [Cluster.step, hc, ReplicaTalker.say, hsaid]
  | nil =>
  cases hup : s.up c with
  | cons message up =>
      refine ⟨.receive 0 c, decide_eq_true rfl, ?_⟩
      rw [upstream, hup, List.cons_append] at hphase
      have hreceive : (s.server.receive 0 c message).isSome := by
        rcases hphase.first_upstream with ⟨known, hgreeting⟩ | ⟨hhandle, k, rfl⟩
        · exact hgreeting.receive_isSome hopen 0
        · obtain ⟨r, hr⟩ := Option.isSome_iff_exists.mp hhandle
          refine Server.receive_replConfAck_isSome h.sync.served hopen hr (fun w hw => ?_) 0 k
          cases hgone : (s.server.talkers w.slot.conn).isOpen with
          | true => rfl
          | false => exact absurd ⟨w, hw, hgone⟩ hwaits
      obtain ⟨server, hserver⟩ := Option.isSome_iff_exists.mp hreceive
      simp [Cluster.step, hc, hup, updateServer, hserver]
  | nil =>
      simp [downstream, upstream, hpending, hdown, hsaid, hup] at hway

/-- When nothing is on the way, the replica has caught up. -/
theorem Greets.caughtUp {s : Cluster} (h : s.Greets replicas c) (hc : (replicas c).isSome)
    (hopen : (s.server.talkers c).isOpen) (hdown : s.downstream c = [])
    (hup : s.upstream c = []) : s.CaughtUp c := by
  have hfinished : (s.nodes c).state = .waitServerCommands := by
    by_contra hstate
    rcases (h.sync.phases c hc hopen).under_way hstate (h.next hopen) with
      hway | ⟨m, known, -, hway⟩
    · exact hway hdown
    · rw [hup] at hway
      cases hway
  obtain ⟨r, hr⟩ := h.sync.handle_of_finished hc hopen hfinished
  obtain ⟨hmem, rfl⟩ := Server.mem_of_handle hr
  obtain ⟨hwrite, -⟩ := h.sync.log hmem hc hfinished
  refine ⟨⟨hopen, hfinished, hdown⟩, hup, r, hr, ?_⟩
  cases h.sync.executes hc hr hwrite with
  | nothing hstate _ => exact absurd hfinished hstate
  | commands _ hsets =>
      rw [hsets, hdown, List.filterMap_nil, List.append_nil]

/-! ## The end -/

/-- **A replica catches up.**  In every run, the connection of a replica has made at most
eighteen moves and four for each command that was pushed to it; and one more is possible, or
the replica has executed what the master has accepted since it was attached, or the client of
a pending WAIT has gone. -/
theorem catches_up {clock : Nat → Timepoint} {info : ServerInfo} {dbFile : Option Bytes}
    {server : Server} (hstart : Server.start clock info dbFile = some server)
    (hc : (replicas c).isSome) {actions : List ClusterAction} {s : Cluster}
    (hrun : (machine server replicas).run Anything (initial server replicas) actions = some s)
    (hopen : (s.server.talkers c).isOpen) :
    actions.countP (moves c) ≤ 18 + 4 * (s.pushedTo c).length ∧
      (s.CanMove replicas c ∨ s.CaughtUp c ∨ s.Orphaned) := by
  constructor
  · obtain ⟨-, hpaid⟩ := (amortized_moves hstart hc).run .init hrun hopen
    have hnone : (server.talkers c).pending = [] := by
      obtain ⟨values, rfl⟩ := Server.start_eq hstart
      rfl
    have hleft : ((machine server replicas).init).movesLeft c = 18 :=
      movesLeft_initial server c hnone
    omega
  · have hgreets := greets_reachable hstart hc (Machine.Reachable.run .init hrun)
    by_cases hwaits : s.Orphaned
    · exact .inr (.inr hwaits)
    · by_cases hway : s.downstream c = [] ∧ s.upstream c = []
      · exact .inr (.inl (hgreets.caughtUp hc hopen hway.1 hway.2))
      · exact .inl (hgreets.canMove hc hopen hwaits (not_and_or.mp hway))

theorem catches_up_setAndWait :
    ∃ s, (machine emptyMaster oneReplica).run Anything (initial emptyMaster oneReplica)
        (handshake 1 ++ setAndWait) = some s ∧
      (handshake 1 ++ setAndWait).countP (moves 1) = 24 ∧ (s.pushedTo 1).length = 2 ∧
      s.Settled 1 ∧
      (handshake 1 ++ setAndWait).countP (moves 1) ≤ 18 + 4 * (s.pushedTo 1).length ∧
        (s.CanMove oneReplica 1 ∨ s.CaughtUp 1 ∨ s.Orphaned) := by
  obtain ⟨s, hrun, hs⟩ := Option.map_eq_some_iff.mp
    (by decide +kernel : ((machine emptyMaster oneReplica).run Anything
      (initial emptyMaster oneReplica) (handshake 1 ++ setAndWait)).map
        (fun s => ((s.pushedTo 1).length, decide (s.Settled 1))) = some (2, true))
  obtain ⟨hpushed, hsettled⟩ := Prod.mk.inj hs
  have hsettled := of_decide_eq_true hsettled
  exact ⟨s, hrun, by decide, hpushed, hsettled, @catches_up oneReplica 1 (fun _ => 0)
    { masterReplid := [] } none emptyMaster rfl rfl _ s hrun hsettled.1⟩

end Cluster

end BuildYourOwnRedis
