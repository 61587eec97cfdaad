/-
  Replication/WaitSafety.lean --- what a WAIT replies.

  A wait counts replicas by their byte counters.  For a replica that was attached before
  the first SET these count every SET; then a counted replica has applied all that was
  accepted before the wait.  A replica that has only met the master has pushed nothing and
  is counted as well.
-/
import BuildYourOwnRedis.Replication.Moves

set_option autoImplicit false

namespace BuildYourOwnRedis

open Foundation

/-- Every SET of the first so many has been pushed to the replica, or there is none.  The
counter must not have wrapped, since it is compared with what is acknowledged. -/
def ReplicaHandle.Covers {κ : Type} (accepted : Nat) (r : ReplicaHandle κ) : Prop :=
  accepted = 0 ∨ (r.state = .write ∧ r.attachedAt = 0 ∧ bytes r.pushed < 2 ^ 64)

instance {κ : Type} (accepted : Nat) (r : ReplicaHandle κ) : Decidable (r.Covers accepted) :=
  inferInstanceAs (Decidable (_ ∨ _))

namespace Cluster

variable {replicas : Replicas} {s s' : Cluster} {w : WaitHandle Slot}

/-- The replica has applied the first so many SETs that the master has accepted, in their order
and with nothing before them. -/
def HasApplied (s : Cluster) (n : Nat) (r : ReplicaHandle Slot) : Prop :=
  s.server.middleware.accepted.take n <+: (s.nodes r.slot.conn).applied

instance (s : Cluster) (n : Nat) (r : ReplicaHandle Slot) : Decidable (s.HasApplied n r) :=
  inferInstanceAs (Decidable (_ <+: _))

/-- The step counts no replica that does not cover: neither at once, when a wait starts, nor
because of its offset.  Both parts speak of the state before the step only. -/
def CountsCovered (s : Cluster) (a : ClusterAction) : Prop :=
  (isWait a → ∀ r ∈ s.server.middleware.replicas, r.isReady →
      r.Covers s.server.middleware.accepted.length) ∧
    ∀ ack ∈ s.offsetComing a, ∀ w ∈ s.server.middleware.waits, ∀ r ∈ w.registered,
      r.slot.conn = ack.1 → (r.id, r.bytesPushed) ∈ w.replicaAckWaitlist →
        r.bytesPushed ≤ ack.2 → r.Covers w.acceptedBefore

instance (s : Cluster) (a : ClusterAction) : Decidable (s.CountsCovered a) :=
  inferInstanceAs (Decidable (_ ∧ _))

/-- Clients do not pretend to be replicas, and replicas that are counted cover. -/
def Covering (s : Cluster) (a : ClusterAction) : Prop := s.Honest a ∧ s.CountsCovered a

instance (s : Cluster) (a : ClusterAction) : Decidable (s.Covering a) :=
  inferInstanceAs (Decidable (_ ∧ _))

/-! ## What replicas have applied -/

theorem execute_applied {node node' : ReplicaTalker} {now : Timepoint} {command : Command}
    (h : node.execute now command = some node') : node.applied <+: node'.applied := by
  unfold ReplicaTalker.execute at h
  split at h
  · obtain rfl := Option.some.inj h
    exact List.prefix_append _ _
  · cases h
  · split at h
    · split at h
      · cases h
      · split at h <;> exact Option.some.inj h ▸ List.prefix_rfl
    · exact Option.some.inj h ▸ List.prefix_rfl
  · exact Option.some.inj h ▸ List.prefix_rfl

theorem process_applied {node node' : ReplicaTalker} {now : Timepoint} {m : Message}
    (h : node.process now m = some node') : node.applied <+: node'.applied := by
  unfold ReplicaTalker.process at h
  split at h
  · obtain ⟨executed, hexecute, rfl⟩ := Option.map_eq_some_iff.mp h
    have happlied := execute_applied hexecute
    exact happlied
  · exact Option.some.inj h ▸ List.prefix_rfl
  · cases h

theorem listen_applied {node node' : ReplicaTalker} {clock : Nat → Timepoint} {m : Message}
    (h : node.listen clock m = some node') : node.applied <+: node'.applied := by
  have hload : ∀ dump, (node.load clock dump).applied = node.applied := by
    intro dump
    obtain ⟨storage, hload | hload⟩ := Phase.load_cases clock dump node <;> rw [hload]
  unfold ReplicaTalker.listen at h
  cases hstate : node.state with
  | waitServerCommands =>
      rw [hstate] at h
      exact process_applied h
  | waitForRdbFileSync =>
      rw [hstate] at h
      cases m with
      | syncResponse dump => exact Option.some.inj h ▸ hload dump ▸ List.prefix_rfl
      | _ => exact Option.some.inj h ▸ List.prefix_rfl
  | waitForPsyncAnswer =>
      rw [hstate] at h
      cases m <;> exact Option.some.inj h ▸ List.prefix_rfl
  | init =>
      rw [hstate] at h
      exact Option.some.inj h ▸ List.prefix_rfl
  | undefined =>
      rw [hstate] at h
      exact Option.some.inj h ▸ List.prefix_rfl
  | _ =>
      rw [hstate] at h
      simp only at h
      split at h <;> exact Option.some.inj h ▸ List.prefix_rfl

theorem applied_update {conn : Nat} {node : ReplicaTalker}
    (h : (s.nodes conn).applied <+: node.applied) (c : Nat) :
    (s.nodes c).applied <+: (Function.update s.nodes conn node c).applied := by
  by_cases heq : c = conn
  · subst heq
    rwa [Function.update_self]
  · rw [Function.update_of_ne heq]

/-- What has been applied stays applied: a step adds SETs to what a replica has executed and
takes none away. -/
theorem applied_step {a : ClusterAction} (h : s.step replicas a = some s') (c : Nat) :
    (s.nodes c).applied <+: (s'.nodes c).applied := by
  have hserver : ∀ {server : Option Server},
      s.updateServer server = some s' → s'.nodes = s.nodes := by
    intro server hupdate
    obtain ⟨server, -, rfl⟩ := Option.map_eq_some_iff.mp hupdate
    rfl
  cases a with
  | request now conn message =>
      obtain ⟨-, server, -, rfl⟩ := request_cases h
      exact List.prefix_rfl
  | runJob => rw [hserver h]
  | fireRead i => rw [hserver h]
  | fireWait i => rw [hserver h]
  | disconnect conn => rw [hserver h]
  | send conn =>
      obtain ⟨message, server, -, rfl⟩ := send_cases h
      exact List.prefix_rfl
  | deliver clock conn =>
      obtain ⟨-, message, down, node, -, hlisten, rfl⟩ := deliver_cases h
      exact applied_update (listen_applied hlisten) c
  | answer conn =>
      obtain ⟨-, message, pending, -, rfl⟩ := answer_cases h
      refine applied_update ?_ c
      exact List.prefix_rfl
  | receive now conn =>
      obtain ⟨-, message, up, server, -, -, rfl⟩ := receive_cases h
      exact List.prefix_rfl

theorem HasApplied.mono {n : Nat} {r : ReplicaHandle Slot} (h : s.HasApplied n r)
    (hn : n ≤ s.server.middleware.accepted.length)
    (haccepted : s.server.middleware.accepted <+: s'.server.middleware.accepted)
    (happlied : (s.nodes r.slot.conn).applied <+: (s'.nodes r.slot.conn).applied) :
    s'.HasApplied n r := by
  obtain ⟨more, hmore⟩ := haccepted
  rw [HasApplied, ← hmore, List.take_append_of_le_length hn]
  exact h.trans happlied

/-- What the master knows of a replica that has a handle. -/
theorem Synchronized.acked (h : s.Synchronized replicas) {r : ReplicaHandle Slot}
    (hr : r ∈ s.server.middleware.replicas) (hc : (replicas r.slot.conn).isSome) :
    (s.nodes r.slot.conn).processed <+: r.pushed ∧
      (s.nodes r.slot.conn).applied = (s.nodes r.slot.conn).processed.filterMap setOf ∧
      r.bytesAck.toNat ≤ bytes (s.nodes r.slot.conn).processed := by
  have hunsynced : ∀ {node : ReplicaTalker}, node.Unsynced → r.Unheard →
      node.processed <+: r.pushed ∧ node.applied = node.processed.filterMap setOf ∧
        r.bytesAck.toNat ≤ bytes node.processed := by
    intro node hnode hunheard
    rw [hnode.processed, hnode.applied, hunheard.bytesAck]
    exact ⟨List.nil_prefix, rfl, Nat.zero_le _⟩
  have hphase := h.phases _ hc (h.served.owner r hr).2
  rw [h.served.handle_eq hr] at hphase
  generalize s.upstream r.slot.conn = up at hphase
  generalize s.downstream r.slot.conn = down at hphase
  cases hphase with
  | greeting _ hnode hmet => exact hunsynced hnode (hmet r rfl).2
  | answered _ hnode _ hunheard => exact hunsynced hnode hunheard
  | dump _ hnode _ hunheard => exact hunsynced hnode hunheard
  | stuck _ hnode _ hunheard => exact hunsynced hnode hunheard
  | synced _ _ hlog =>
      refine ⟨?_, hlog.applied, hlog.bytesAck.trans (hlog.below _ List.mem_cons_self)⟩
      rw [hlog.pushed]
      exact List.prefix_append _ _

/-- A replica that covers has applied what it was sent when it has processed that much. -/
theorem hasApplied_of_covers {n : Nat} {r r' : ReplicaHandle Slot}
    (hstream : r.Stream (s.server.middleware.accepted.take n)) (hcovers : r.Covers n)
    (hpushable : ∀ m ∈ r'.pushed, Pushable m) (hpushed : r.pushed <+: r'.pushed)
    (hprocessed : (s.nodes r.slot.conn).processed <+: r'.pushed)
    (happlied : (s.nodes r.slot.conn).applied =
      (s.nodes r.slot.conn).processed.filterMap setOf)
    (hle : r.bytesPushed.toNat ≤ bytes (s.nodes r.slot.conn).processed) :
    s.HasApplied n r := by
  rcases hcovers with rfl | ⟨hwrite, hattached, hsize⟩
  · exact List.nil_prefix
  · rw [hstream.bytesPushed, UInt64.toNat_ofNat_of_lt' hsize] at hle
    have hsets := (hstream.attached hwrite).2
    rw [hattached, List.drop_zero] at hsets
    rw [HasApplied, happlied, ← hsets]
    exact (prefix_of_bytes_le hpushable hpushed hprocessed hle).filterMap setOf

/-! ## Waits -/

/-- Every replica that a wait has counted has applied what had been accepted before.  Those
that are still in its wait list are not counted yet. -/
structure WaitSafe (s : Cluster) (w : WaitHandle Slot) : Prop where
  tracks : w.Tracks s.server.middleware
  before : w.acceptedBefore ≤ s.server.middleware.accepted.length
  streams : ∀ r ∈ w.registered, r.Stream (s.server.middleware.accepted.take w.acceptedBefore)
  ready : w.replicasReady ≤ w.registered.countP fun r =>
    decide (s.HasApplied w.acceptedBefore r ∧ (r.id, r.bytesPushed) ∉ w.replicaAckWaitlist)

/-- The invariant: all waits are safe, and the replies that were given still are, since what a
replica has applied only grows. -/
structure Safe (replicas : Replicas) (s : Cluster) : Prop extends Genuine replicas s where
  waits : ∀ w ∈ s.server.middleware.waits, s.WaitSafe w
  replies : ∀ reply ∈ s.server.middleware.waitReplies,
    reply.acceptedBefore ≤ s.server.middleware.accepted.length ∧
      reply.count ≤ reply.registered.countP fun r => s.HasApplied reply.acceptedBefore r

theorem WaitSafe.mono (h : s.WaitSafe w) {New : ReplicaHandle Slot → Prop}
    (hgrows : s.server.middleware.Grows New s'.server.middleware)
    (happlied : ∀ c, (s.nodes c).applied <+: (s'.nodes c).applied) : s'.WaitSafe w := by
  refine ⟨h.tracks.grows hgrows, h.before.trans hgrows.accepted.length_le, fun r hr => ?_, ?_⟩
  · obtain ⟨more, hmore⟩ := hgrows.accepted
    rw [← hmore, List.take_append_of_le_length h.before]
    exact h.streams r hr
  · refine h.ready.trans (List.countP_mono_left fun r _ hcounted => ?_)
    obtain ⟨hhas, hentry⟩ := of_decide_eq_true hcounted
    exact decide_eq_true ⟨hhas.mono h.before hgrows.accepted (happlied _), hentry⟩

/-- A wait that starts. -/
theorem Safe.started (h : s.Safe replicas) {count : UInt64} {slot : Slot}
    (hcovers : ∀ r ∈ s.server.middleware.replicas, r.isReady →
      r.Covers s.server.middleware.accepted.length) :
    s.WaitSafe (s.server.middleware.newWait count slot) := by
  have hserved := h.synchronized.served
  have htake : s.server.middleware.accepted.take s.server.middleware.accepted.length =
      s.server.middleware.accepted := List.take_length
  have htracks := WaitHandle.tracks_newWait count slot hserved.distinct hserved.below
  refine ⟨htracks, le_rfl, fun r hr => htake.symm ▸ hserved.streams r hr, ?_⟩
  refine List.countP_mono_left fun r hr hready => decide_eq_true ⟨?_, fun hentry => ?_⟩
  · obtain ⟨hprocessed, happlied, hacked⟩ := h.synchronized.acked hr (h.genuine r hr)
    refine hasApplied_of_covers (htake.symm ▸ hserved.streams r hr) (hcovers r hr hready)
      (hserved.streams r hr).pushable List.prefix_rfl hprocessed happlied ?_
    exact (UInt64.le_iff_toNat_le.mp (of_decide_eq_true hready)).trans hacked
  · obtain ⟨r', hr', heq⟩ := List.mem_map.mp hentry
    obtain ⟨hmem, hunready⟩ := List.mem_filter.mp hr'
    obtain rfl := List.inj_on_of_nodup_map hserved.distinct hmem hr (Prod.mk.inj heq).1
    simp [hready] at hunready

/-- An offset that is enough for a wait shows that the replica has applied what it must. -/
theorem Safe.hasApplied_told (h : s.Safe replicas) (hw : s.WaitSafe w) {c k acked : Nat}
    {r : ReplicaHandle Slot} {up : List Message} {offsets : List Nat}
    (hr : s.server.handle c = some r)
    (hlog : Log (s.nodes c) r up (s.downstream c) (k :: offsets) acked)
    {r₀ : ReplicaHandle Slot} (hr₀ : r₀ ∈ w.registered) (hid : r.id = r₀.id)
    (hle : r₀.bytesPushed ≤ UInt64.ofNat k) (hcovers : r₀.Covers w.acceptedBefore) :
    s.HasApplied w.acceptedBefore r₀ := by
  obtain ⟨hmem, rfl⟩ := Server.mem_of_handle hr
  obtain ⟨hslot, hpushed⟩ := hw.tracks.kept r₀ hr₀ r hmem hid
  rw [hslot] at hlog
  refine hasApplied_of_covers (hw.streams r₀ hr₀) hcovers
    (h.synchronized.served.streams r hmem).pushable hpushed ?_ hlog.applied ?_
  · rw [hlog.pushed]
    exact List.prefix_append _ _
  · calc r₀.bytesPushed.toNat ≤ (UInt64.ofNat k).toNat := UInt64.le_iff_toNat_le.mp hle
      _ ≤ k := by rw [UInt64.toNat_ofNat']; exact Nat.mod_le _ _
      _ ≤ _ := hlog.below k (by simp)

/-- A wait is told of an offset. -/
theorem Safe.told (h : s.Safe replicas) (hw : s.WaitSafe w) {c k acked : Nat}
    {r : ReplicaHandle Slot} {up : List Message} {offsets : List Nat}
    (hr : s.server.handle c = some r)
    (hlog : Log (s.nodes c) r up (s.downstream c) (k :: offsets) acked)
    (hcovers : ∀ r₀ ∈ w.registered, r₀.slot.conn = c →
      (r₀.id, r₀.bytesPushed) ∈ w.replicaAckWaitlist → r₀.bytesPushed ≤ UInt64.ofNat k →
        r₀.Covers w.acceptedBefore) :
    s.WaitSafe (w.updateReplicaAck r.id (UInt64.ofNat k)).1 := by
  have htracks := hw.tracks.updateReplicaAck r.id (UInt64.ofNat k)
  rcases w.updateReplicaAck_cases r.id (UInt64.ofNat k) with ⟨-, hsame⟩ | ⟨expected, hentry,
    w', hwaitlist, hregistered, hbefore, hcases⟩
  · rw [hsame]
    exact hw
  have hfewer : ∀ entry ∈ w'.replicaAckWaitlist, entry ∈ w.replicaAckWaitlist := by
    rw [hwaitlist]
    exact fun entry => List.mem_of_mem_filter
  have hstreams : ∀ r ∈ w'.registered,
      r.Stream (s.server.middleware.accepted.take w'.acceptedBefore) := by
    rw [hregistered, hbefore]
    exact hw.streams
  rcases hcases with ⟨-, hready, hresult⟩ | ⟨henough, hready, hresult⟩
  all_goals
    rw [hresult] at htracks ⊢
    refine ⟨htracks, hbefore ▸ hw.before, hstreams, ?_⟩
    rw [hready, hregistered, hbefore]
  · refine hw.ready.trans (List.countP_mono_left fun r _ hcounted => ?_)
    obtain ⟨hhas, hnone⟩ := of_decide_eq_true hcounted
    exact decide_eq_true ⟨hhas, fun hmem => hnone (hfewer _ hmem)⟩
  · obtain ⟨r₀, hr₀, heq⟩ := hw.tracks.entries _ hentry
    obtain ⟨hid, rfl⟩ := Prod.mk.inj heq
    obtain ⟨hmem, rfl⟩ := Server.mem_of_handle hr
    have hconn := congrArg Slot.conn (hw.tracks.kept r₀ hr₀ r hmem hid).1
    have happlied := h.hasApplied_told hw hr hlog hr₀ hid henough
      (hcovers r₀ hr₀ hconn.symm (hid ▸ hentry) henough)
    have hone := countP_insert hw.tracks.distinct hr₀ (p := fun r =>
      decide (s.HasApplied w.acceptedBefore r ∧
        (r.id, r.bytesPushed) ∉ w.replicaAckWaitlist)) (by simp [hid ▸ hentry])
    refine (Nat.succ_le_succ hw.ready).trans (hone.symm.trans_le ?_)
    refine List.countP_mono_left fun y hy hcounted => decide_eq_true ?_
    rcases Bool.or_eq_true_iff.mp hcounted with hcounted | hsame
    · obtain ⟨hhas, hnone⟩ := of_decide_eq_true hcounted
      exact ⟨hhas, fun hmem => hnone (hfewer _ hmem)⟩
    · obtain rfl := List.inj_on_of_nodup_map hw.tracks.distinct hy hr₀ (of_decide_eq_true hsame)
      refine ⟨happlied, ?_⟩
      simp [hwaitlist, hid]

theorem Safe.waitFrom (h : s.Safe replicas) {a : ClusterAction} (hcounts : s.CountsCovered a)
    (hw : WaitFrom s a w) : s.WaitSafe w := by
  cases hw with
  | kept hw => exact h.waits w hw
  | started ha => exact h.started (hcounts.1 ha)
  | told hw ha hr hlog => exact h.told (h.waits _ hw) hr hlog (hcounts.2 _ ha _ hw)

theorem bmod_le_self (n m : Nat) : Int.bmod n m ≤ n := by
  have hmod : (n : Int) % m ≤ n := by
    exact_mod_cast Nat.mod_le n m
  rw [Int.bmod_def]
  split <;> omega

theorem toInt_le (n : Nat) : toInt n ≤ n :=
  bmod_le_self n (2 ^ 32)

/-- A wait that is safe replies no more than it may. -/
theorem WaitSafe.reply (h : s.WaitSafe w) :
    (replyOf w).acceptedBefore ≤ s.server.middleware.accepted.length ∧
      (replyOf w).count ≤ (replyOf w).registered.countP fun r =>
        s.HasApplied (replyOf w).acceptedBefore r := by
  refine ⟨h.before, ?_⟩
  simp only [replyOf]
  refine (toInt_le _).trans (Int.ofNat_le.mpr (h.ready.trans ?_))
  exact List.countP_mono_left fun r _ hcounted => decide_eq_true (of_decide_eq_true hcounted).1

theorem Safe.step (h : s.Safe replicas) {a : ClusterAction} (ha : s.Covering a)
    (hstep : s.step replicas a = some s') : s'.Safe replicas := by
  have hmoves := h.synchronized.moves ha.1 hstep
  have hgrows := hmoves.grows
  have happlied := applied_step hstep
  obtain ⟨hwaits, hreplies⟩ := hmoves.waitsFrom h.synchronized.served.numbered.distinct
  have hsafe : ∀ {w}, WaitFrom s a w → s'.WaitSafe w := fun hw =>
    (h.waitFrom ha.2 hw).mono hgrows happlied
  refine ⟨h.toGenuine.step ha.1 hstep, fun w hw => hsafe (hwaits w hw), fun reply hreply => ?_⟩
  rcases hreplies reply hreply with hold | ⟨w, hw, rfl⟩
  · obtain ⟨hbefore, hcount⟩ := h.replies reply hold
    refine ⟨hbefore.trans hgrows.accepted.length_le, hcount.trans (Int.ofNat_le.mpr ?_)⟩
    refine List.countP_mono_left fun r _ hhas => decide_eq_true ?_
    exact (of_decide_eq_true hhas).mono hbefore hgrows.accepted (happlied _)
  · exact (hsafe hw).reply

/-- **Safety of WAIT.**  When only replicas that cover are counted, at least as many of the
registered replicas as a WAIT replies have applied every SET accepted before it.  This holds of
every reply that was given, whatever has happened since. -/
theorem waits_safe {clock : Nat → Timepoint} {info : ServerInfo} {dbFile : Option Bytes}
    {server : Server} (hstart : Server.start clock info dbFile = some server) {s : Cluster}
    (hs : (machine server replicas).Reachable Covering s) :
    ∀ reply ∈ s.server.middleware.waitReplies, reply.count ≤
      reply.registered.countP fun r => s.HasApplied reply.acceptedBefore r := by
  have hsafe : s.Safe replicas := by
    refine hs.invariant ⟨genuine_initial hstart, ?_, ?_⟩
      fun _ _ _ _ hsafe ha hstep => hsafe.step ha hstep
    all_goals
      obtain ⟨values, rfl⟩ := Server.start_eq hstart
      simp [machine, initial]
  exact fun reply hreply => (hsafe.replies reply hreply).2

/-- A replica that was attached first is counted for what it has applied. -/
theorem waits_safe_setAndWait :
    let server : Server := { info := { masterReplid := [] } }
    let run := (machine server oneReplica).run Covering (initial server oneReplica)
      (handshake 1 ++ setAndWait)
    ∃ h : run.isSome, ∀ reply ∈ (run.get h).server.middleware.waitReplies, reply.count ≤
      reply.registered.countP fun r => (run.get h).HasApplied reply.acceptedBefore r :=
  ⟨by decide +kernel, @waits_safe oneReplica (fun _ => 0) { masterReplid := [] } none _ rfl _
    (Machine.reachable_of_run (by decide +kernel))⟩

/-- A replica that has only met the master. -/
def metReplica : List ClusterAction :=
  [.answer 1, .receive 0 1, .send 1, .deliver (fun _ => 0) 1, .answer 1, .receive 0 1]

/-- A replica that has only met the master is counted, since nothing was pushed to it, and it
has applied nothing. -/
theorem not_waits_safe : ¬∀ (replicas : Replicas) (clock : Nat → Timepoint) (info : ServerInfo)
    (dbFile : Option Bytes) (server : Server) (s : Cluster),
    Server.start clock info dbFile = some server →
    (machine server replicas).Reachable Honest s →
    ∀ reply ∈ s.server.middleware.waitReplies, reply.count ≤
      reply.registered.countP fun r => s.HasApplied reply.acceptedBefore r := by
  intro hclaim
  obtain ⟨s, hrun, hcounts⟩ := Option.map_eq_some_iff.mp
    (by decide +kernel : ((machine { info := { masterReplid := [] } } oneReplica).run Honest
      (initial { info := { masterReplid := [] } } oneReplica) (metReplica ++
        [.request 0 2 (Command.set (ascii "key") (ascii "value") none).construct,
          .request 0 3 (Command.wait 1 0).construct])).map
        (fun s => decide (∀ reply ∈ s.server.middleware.waitReplies, reply.count ≤
          reply.registered.countP fun r => s.HasApplied reply.acceptedBefore r)) =
      some false)
  exact of_decide_eq_false hcounts (hclaim oneReplica (fun _ => 0) { masterReplid := [] } none _ s
    rfl (Machine.Reachable.run .init hrun))

end Cluster

end BuildYourOwnRedis
