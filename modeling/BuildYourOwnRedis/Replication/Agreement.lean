/-
  Replication/Agreement.lean --- the master and its replicas agree on what was pushed.

  `Synchronized` puts the two invariants together: the master's own, and one phase for
  each replica that is still connected.  A step of the master on another connection offers
  messages to the replica; the steps on its own connection are those of its phase.
-/
import BuildYourOwnRedis.Replication.Log

set_option autoImplicit false

namespace BuildYourOwnRedis

open Foundation

namespace Cluster

variable {replicas : Replicas}

/-- The invariant of a cluster.  A replica whose talker is gone is not looked at: the
master has no handle for it. -/
structure Synchronized (replicas : Replicas) (s : Cluster) : Prop where
  served : s.server.Served replicas
  phases : ∀ c, (replicas c).isSome → (s.server.talkers c).isOpen →
    Phase s.server.dump (s.nodes c) (s.server.handle c) (s.upstream c) (s.downstream c)

/-- Nothing but the server has moved at this connection: neither the replica nor what is on the
wires. -/
structure SameEnds (c : Nat) (s s' : Cluster) : Prop where
  nodes : s'.nodes c = s.nodes c
  up : s'.up c = s.up c
  down : s'.down c = s.down c

/-- The master offers messages to a replica. -/
theorem Synchronized.touched {s s' : Cluster} (h : s.Synchronized replicas) {c : Nat}
    (hc : (replicas c).isSome) (hopen : (s'.server.talkers c).isOpen)
    {messages : List Message} (htouched : Server.Touched c messages s.server s'.server)
    (hsame : SameEnds c s s') (hfile : s'.server.dbFile = s.server.dbFile) :
    Phase s'.server.dump (s'.nodes c) (s'.server.handle c) (s'.upstream c)
      (s'.downstream c) := by
  have hphase := h.phases c hc (htouched.talker.isOpen ▸ hopen)
  have hoffered := hphase.offered htouched.pushable
  rw [upstream, downstream, hsame.nodes, hsame.up, hsame.down, htouched.handle,
    htouched.talker.pending, ← List.append_assoc, Server.dump_eq hfile]
  exact hoffered

/-- A step on one connection. -/
theorem Synchronized.serves {s s' : Cluster} (h : s.Synchronized replicas) {conn : Nat}
    (hserves : Server.Serves replicas conn s.server s'.server)
    (hfile : s'.server.dbFile = s.server.dbFile) (hothers : ∀ c, c ≠ conn → SameEnds c s s')
    (hconn : (replicas conn).isSome → (s'.server.talkers conn).isOpen →
      Phase s.server.dump (s'.nodes conn) (s'.server.handle conn) (s'.upstream conn)
        (s'.downstream conn)) : s'.Synchronized replicas := by
  refine ⟨hserves.served, fun c hc hopen => ?_⟩
  by_cases heq : c = conn
  · subst heq
    rw [Server.dump_eq hfile]
    exact hconn hc hopen
  · obtain ⟨messages, htouched⟩ := hserves.touched c hc heq
    exact h.touched hc hopen htouched (hothers c heq) hfile

/-- A step of the master that comes from no connection. -/
theorem Synchronized.silent {s : Cluster} (h : s.Synchronized replicas) {server : Server}
    (hserver : server.Served replicas ∧
      ∀ c, (replicas c).isSome → Server.Touched c [] s.server server)
    (hfile : server.dbFile = s.server.dbFile) :
    { s with server := server }.Synchronized replicas :=
  ⟨hserver.1, fun c hc hopen =>
    @Synchronized.touched _ s { s with server := server } h c hc hopen [] (hserver.2 c hc)
      ⟨rfl, rfl, rfl⟩ hfile⟩

/-! ## Steps -/

/-- The master writes a message. -/
theorem Synchronized.send {s s' : Cluster} (h : s.Synchronized replicas) {conn : Nat}
    (hstep : s.step replicas (.send conn) = some s') : s'.Synchronized replicas := by
  obtain ⟨message, server, hsay, rfl⟩ := send_cases hstep
  obtain ⟨pending, hpending, rfl⟩ := Server.say_cases hsay
  refine h.serves (Server.say_serves h.served hsay) rfl (fun c hother => ?_) fun hc hopen => ?_
  · exact ⟨rfl, rfl, Function.update_of_ne hother _ _⟩
  · simp only [Server.modifyTalker_talkers, if_true] at hopen
    have hphase := h.phases conn hc hopen
    rw [downstream, hpending] at hphase
    change Phase _ (s.nodes conn) (s.server.handle conn) _ _
    simpa [upstream, downstream, Server.modifyTalker_talkers] using hphase

/-- A replica gets a message. -/
theorem Synchronized.deliver {s s' : Cluster} (h : s.Synchronized replicas)
    {clock : Nat → Timepoint} {conn : Nat}
    (hstep : s.step replicas (.deliver clock conn) = some s') : s'.Synchronized replicas := by
  obtain ⟨hc, message, down, node, hdown, hlisten, rfl⟩ := deliver_cases hstep
  refine h.serves (h.served.refl conn) rfl (fun c hother => ?_) fun _ hopen => ?_
  · exact ⟨Function.update_of_ne hother _ _, rfl, Function.update_of_ne hother _ _⟩
  · have hphase := h.phases conn hc hopen
    rw [downstream, hdown, List.cons_append] at hphase
    obtain ⟨more, hpending, hphase⟩ := hphase.deliver (fun r hr =>
      (h.served.streams r (Server.mem_of_handle hr).1).pushable) hlisten
    simpa [upstream, downstream, hpending] using hphase

/-- A replica writes a message. -/
theorem Synchronized.answer {s s' : Cluster} (h : s.Synchronized replicas) {conn : Nat}
    (hstep : s.step replicas (.answer conn) = some s') : s'.Synchronized replicas := by
  obtain ⟨hc, message, pending, hpending, rfl⟩ := answer_cases hstep
  refine h.serves (h.served.refl conn) rfl (fun c hother => ?_) fun _ hopen => ?_
  · exact ⟨Function.update_of_ne hother _ _, Function.update_of_ne hother _ _, rfl⟩
  · have hphase := h.phases conn hc hopen
    rw [upstream, hpending] at hphase
    have hsaid : Phase _ { s.nodes conn with pending := pending } _ _ _ :=
      hphase.congr rfl rfl rfl rfl
    simpa [upstream, downstream] using hsaid

/-- What the master does with a message of a replica. -/
theorem Synchronized.received {s : Cluster} (h : s.Synchronized replicas) {now : Timepoint}
    {conn : Nat} (hc : (replicas conn).isSome) {message : Message} {up : List Message}
    (hup : s.up conn = message :: up) {server : Server}
    (hreceive : s.server.receive now conn message = some server) :
    Heeds (s.nodes conn) conn message (s.downstream conn) s.server server ∧
      ∃ more, Server.Replied replicas conn more s.server server ∧
        Phase s.server.dump (s.nodes conn) (server.handle conn) (up ++ (s.nodes conn).pending)
          (s.downstream conn ++ more) := by
  have hphase := h.phases conn hc (Server.listen_of_receive hreceive).1
  rw [upstream, hup, List.cons_append] at hphase
  exact hphase.receive h.served hc hreceive

/-- A message of a replica comes. -/
theorem Synchronized.receive {s s' : Cluster} (h : s.Synchronized replicas) {now : Timepoint}
    {conn : Nat} (hstep : s.step replicas (.receive now conn) = some s') :
    s'.Synchronized replicas := by
  obtain ⟨hc, message, up, server, hup, hreceive, rfl⟩ := receive_cases hstep
  obtain ⟨-, more, hreplied, hphase⟩ := h.received hc hup hreceive
  refine h.serves hreplied.serves (Server.receive_dbFile hreceive) (fun c hother => ?_)
    fun _ _ => ?_
  · exact ⟨rfl, Function.update_of_ne hother _ _, rfl⟩
  · simpa [upstream, downstream, hreplied.pending] using hphase

theorem Synchronized.step {s s' : Cluster} (h : s.Synchronized replicas) {a : ClusterAction}
    (hstep : s.step replicas a = some s') : s'.Synchronized replicas := by
  cases a with
  | request now conn message =>
      obtain ⟨hclient, server, hreceive, rfl⟩ := request_cases hstep
      refine h.serves (Server.receive_serves h.served hclient hreceive)
        (Server.receive_dbFile hreceive) (fun c _ => ⟨rfl, rfl, rfl⟩) fun hc => ?_
      simp [hclient] at hc
  | runJob =>
      obtain ⟨server, hrun, rfl⟩ := Option.map_eq_some_iff.mp hstep
      exact h.silent (Server.runJob_served h.served hrun) (Server.runJob_dbFile hrun)
  | fireRead i =>
      obtain ⟨server, hfire, rfl⟩ := Option.map_eq_some_iff.mp hstep
      exact h.silent (Server.fireRead_served h.served hfire) (Server.fireRead_dbFile hfire)
  | fireWait i =>
      obtain ⟨server, hfire, rfl⟩ := Option.map_eq_some_iff.mp hstep
      exact h.silent (Server.fireWait_served h.served hfire) (Server.fireWait_dbFile hfire)
  | disconnect conn =>
      obtain rfl := Option.some.inj hstep
      refine h.serves (Server.disconnect_serves h.served conn)
        (Server.disconnect_dbFile conn s.server) (fun c _ => ⟨rfl, rfl, rfl⟩) fun _ hopen => ?_
      simp [(Server.disconnect_eq conn s.server).1] at hopen
  | send conn => exact h.send hstep
  | deliver clock conn => exact h.deliver hstep
  | answer conn => exact h.answer hstep
  | receive now conn => exact h.receive hstep

/-- A cluster before anything has happened. -/
theorem synchronized_initial {clock : Nat → Timepoint} {info : ServerInfo}
    {dbFile : Option Bytes} {server : Server} (h : Server.start clock info dbFile = some server) :
    (initial server replicas).Synchronized replicas := by
  refine ⟨Server.served_start h, fun c _ _ => ?_⟩
  obtain ⟨values, rfl⟩ := Server.start_eq h
  exact .greeting .ping ⟨rfl, rfl, rfl⟩ (by simp [initial, Server.handle])

theorem synchronized_reachable {clock : Nat → Timepoint} {info : ServerInfo}
    {dbFile : Option Bytes} {server : Server} (h : Server.start clock info dbFile = some server)
    {allowed : Cluster → ClusterAction → Prop} {s : Cluster}
    (hs : (machine server replicas).Reachable allowed s) : s.Synchronized replicas :=
  hs.invariant (synchronized_initial h) fun _ _ _ _ hinv _ hstep => hinv.step hstep

/-! ## Agreement -/

/-- What is no longer than what was processed was processed. -/
theorem prefix_of_bytes_le {pushed front processed : List Message}
    (hpushable : ∀ m ∈ pushed, Pushable m) (hfront : front <+: pushed)
    (hprocessed : processed <+: pushed) (hle : bytes front ≤ bytes processed) :
    front <+: processed := by
  rcases List.prefix_or_prefix_of_prefix hfront hprocessed with h | ⟨rest, rfl⟩
  · exact h
  · cases rest with
    | nil => rw [List.append_nil]
    | cons m rest =>
        have hpos := (hpushable m (hfront.subset (by simp))).size_pos
        simp only [bytes_append, bytes_cons] at hle
        omega

/-- The two ends of the log of a replica: what was pushed is what it has processed and what is
on the way, and the three counters are numbers of bytes of beginnings of this log. -/
structure Agree (s : Cluster) (h : ReplicaHandle Slot) : Prop where
  inFlight : h.pushed = (s.nodes h.slot.conn).processed ++ s.downstream h.slot.conn
  sets : h.attachedAt ≤ s.server.middleware.accepted.length ∧
    h.pushed.filterMap setOf = s.server.middleware.accepted.drop h.attachedAt
  bytesPushed : h.bytesPushed.toNat = bytes h.pushed
  bytesIn : (s.nodes h.slot.conn).bytesIn.toNat = bytes (s.nodes h.slot.conn).processed
  bytesAck_le : h.bytesAck ≤ (s.nodes h.slot.conn).bytesIn
  bytesIn_le : (s.nodes h.slot.conn).bytesIn ≤ h.bytesPushed
  /-- what lies within acknowledged bytes has been processed, and its SETs applied -/
  applied : ∀ n ≤ h.bytesAck.toNat, ∀ front, front <+: h.pushed → bytes front ≤ n →
    front <+: (s.nodes h.slot.conn).processed ∧
      front.filterMap setOf <+: (s.nodes h.slot.conn).applied

/-- A replica that has finished the handshake. -/
theorem Synchronized.log {s : Cluster} (hs : s.Synchronized replicas) {h : ReplicaHandle Slot}
    (hh : h ∈ s.server.middleware.replicas) (hc : (replicas h.slot.conn).isSome)
    (hfinished : (s.nodes h.slot.conn).state = .waitServerCommands) :
    h.state = .write ∧ ∃ offsets acked, Log (s.nodes h.slot.conn) h
      (s.upstream h.slot.conn) (s.downstream h.slot.conn) offsets acked := by
  have hphase := hs.phases _ hc (hs.served.owner h hh).2
  rw [hs.served.handle_eq hh] at hphase
  generalize s.upstream h.slot.conn = up at hphase ⊢
  generalize s.downstream h.slot.conn = down at hphase ⊢
  cases hphase with
  | greeting hgreeting =>
      rw [hfinished] at hgreeting
      cases hgreeting
  | answered hstate => cases hfinished.symm.trans hstate
  | dump hstate => cases hfinished.symm.trans hstate
  | stuck hstate => cases hfinished.symm.trans hstate
  | synced hstate hwrite hlog => exact ⟨hwrite, _, _, hlog⟩

/-- **Agreement.**  In every run, whatever clients do and however the messages of the replicas
interleave, the two ends of the log of every replica that has finished the handshake agree.
Less than 2^64 bytes have been pushed to it, so that no counter has wrapped. -/
theorem agree {clock : Nat → Timepoint} {info : ServerInfo} {dbFile : Option Bytes}
    {server : Server} (hstart : Server.start clock info dbFile = some server) {s : Cluster}
    (hs : (machine server replicas).Reachable Anything s) {h : ReplicaHandle Slot}
    (hh : h ∈ s.server.middleware.replicas) (hc : (replicas h.slot.conn).isSome)
    (hfinished : (s.nodes h.slot.conn).state = .waitServerCommands)
    (hsize : bytes h.pushed < 2 ^ 64) : s.Agree h := by
  have hsync := synchronized_reachable hstart hs
  have hstream := hsync.served.streams h hh
  obtain ⟨hwrite, offsets, acked, hlog⟩ := hsync.log hh hc hfinished
  have hprefix : (s.nodes h.slot.conn).processed <+: h.pushed := by
    rw [hlog.pushed]
    exact List.prefix_append _ _
  have hle : bytes (s.nodes h.slot.conn).processed ≤ bytes h.pushed := by
    rw [hlog.pushed, bytes_append]
    exact Nat.le_add_right _ _
  have hpushed : h.bytesPushed.toNat = bytes h.pushed := by
    rw [hstream.bytesPushed, UInt64.toNat_ofNat_of_lt' hsize]
  have hin : (s.nodes h.slot.conn).bytesIn.toNat = bytes (s.nodes h.slot.conn).processed := by
    rw [hlog.bytesIn, UInt64.toNat_ofNat_of_lt' (Nat.lt_of_le_of_lt hle hsize)]
  have hack : h.bytesAck.toNat ≤ bytes (s.nodes h.slot.conn).processed :=
    hlog.bytesAck.trans (hlog.below acked List.mem_cons_self)
  refine ⟨hlog.pushed, hstream.attached hwrite, hpushed, hin, ?_, ?_, ?_⟩
  · rw [UInt64.le_iff_toNat_le, hin]
    exact hack
  · rw [UInt64.le_iff_toNat_le, hin, hpushed]
    exact hle
  · intro n hn front hfront hbytes
    have hprocessed := prefix_of_bytes_le hstream.pushable hfront hprefix
      (hbytes.trans (hn.trans hack))
    refine ⟨hprocessed, ?_⟩
    rw [hlog.applied]
    exact hprocessed.filterMap setOf

/-- A replica at connection 1; the others are clients. -/
def oneReplica : Replicas := fun c => if c = 1 then some {} else none

/-- A replica connects, and its handshake is over before anything else happens. -/
def handshake (c : Nat) : List ClusterAction :=
  (List.replicate 3 [.answer c, .receive 0 c, .send c, .deliver (fun _ => 0) c]).flatten ++
    [.answer c, .receive 0 c, .send c, .send c, .deliver (fun _ => 0) c,
      .deliver (fun _ => 0) c]

/-- A SET and a WAIT, whose GETACK is answered. -/
def setAndWait : List ClusterAction :=
  [.request 0 2 (Command.set (ascii "key") (ascii "value") none).construct,
    .request 0 3 (Command.wait 1 0).construct, .send 1, .send 1,
    .deliver (fun _ => 0) 1, .deliver (fun _ => 0) 1, .answer 1, .receive 0 1]

/-- The cluster after both. -/
def afterSetAndWait : Option Cluster :=
  let server : Server := { info := { masterReplid := [] } }
  (machine server oneReplica).run Anything (initial server oneReplica)
    (handshake 1 ++ setAndWait)

theorem map_afterSetAndWait : afterSetAndWait.map (fun s =>
    (s.server.middleware.replicas.length, decide (∀ h ∈ s.server.middleware.replicas,
      (oneReplica h.slot.conn).isSome ∧ (s.nodes h.slot.conn).state = .waitServerCommands ∧
        bytes h.pushed < 2 ^ 64))) = some (1, true) := by
  decide +kernel

theorem afterSetAndWait_isSome : afterSetAndWait.isSome := by
  rw [← Option.isSome_map, map_afterSetAndWait]
  rfl

theorem agree_setAndWait :
    (afterSetAndWait.get afterSetAndWait_isSome).server.middleware.replicas.length = 1 ∧
      ∀ h ∈ (afterSetAndWait.get afterSetAndWait_isSome).server.middleware.replicas,
        (afterSetAndWait.get afterSetAndWait_isSome).Agree h := by
  obtain ⟨s, hrun, hs⟩ := Option.map_eq_some_iff.mp map_afterSetAndWait
  obtain ⟨hlength, hpremises⟩ := Prod.mk.inj hs
  rw [Option.get_of_eq_some afterSetAndWait_isSome hrun]
  refine ⟨hlength, fun h hh => ?_⟩
  obtain ⟨hc, hfinished, hsize⟩ := of_decide_eq_true hpremises h hh
  exact @agree oneReplica (fun _ => 0) { masterReplid := [] } none _ rfl _
    (Machine.Reachable.run .init hrun) h hh hc hfinished hsize

end Cluster

end BuildYourOwnRedis
