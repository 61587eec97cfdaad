/-
  Replication/Convergence.lean --- what a replica holds, and what its master holds.

  A replica holds what its dump held and, on top of it, the SETs that it has executed.  The
  master holds the same with the SETs that it has pushed, if the dump was current when PSYNC
  came and no entry has been added to a stream since: the dump is the file that
  the server was started with, and XADD is pushed to nobody.
-/
import BuildYourOwnRedis.Replication.DataSet

set_option autoImplicit false

namespace BuildYourOwnRedis

open Foundation

/-! ## Both sides -/

/-- What a value holds, less its deadline. -/
def Value.contents : Value → Bytes ⊕ StreamRange
  | .string value => .inl value.data
  | .stream value => .inr value.data.entries

/-- The same keys with the same strings and the same entries.  Deadlines are left out, since
the time at which a SET is executed is part of them. -/
def SameContents (values values' : Values) : Prop :=
  ∀ key, (values.lookup key).map Value.contents = (values'.lookup key).map Value.contents

/-- The replica at a connection gets what is pushed. -/
def Server.isAttached (c : Nat) (s : Server) : Bool :=
  (s.handle c).any fun r => r.state = .write

/-- The dump, and the SETs since a replica has been attached, make up what is held.  A SET that
came between the start and the attachment is in neither of them. -/
def Server.Covers (c : Nat) (s : Server) : Prop :=
  ∀ r ∈ s.handle c, r.state = .write →
    s.data = (Reference.of (snapshot s.dump)).setAll (s.middleware.accepted.drop r.attachedAt)

/-- What a replica holds, by its state: nothing before the dump, and behind it the dump with
the SETs that it has applied. -/
inductive ReplicaTalker.Holds (dump : Bytes) (node : ReplicaTalker) (down : List Message) :
    Prop where
  | nothing (hstate : node.state ≠ .waitServerCommands) (h : node.storage.values = ∅)
  /-- the dump could not be loaded -/
  | stuck (hstate : node.state = .waitForRdbFileSync) (hdown : ∀ m ∈ down, Pushable m)
  | synced (hstate : node.state = .waitServerCommands)
      (h : Reference.of node.storage.values =
        (Reference.of (snapshot dump)).setAll node.applied)

namespace ReplicaTalker

variable {dump : Bytes} {node node' : ReplicaTalker} {m : Message} {down : List Message}

/-- Only the state, the values and the SETs count. -/
theorem Holds.congr (h : node.Holds dump down) (hstate : node'.state = node.state)
    (hvalues : node'.storage.values = node.storage.values)
    (happlied : node'.applied = node.applied) : node'.Holds dump down := by
  cases h with
  | nothing hs h => exact .nothing (hstate ▸ hs) (hvalues.trans h)
  | stuck hs hdown => exact .stuck (hstate.trans hs) hdown
  | synced hs h =>
      refine .synced (hstate.trans hs) ?_
      rw [hvalues, happlied]
      exact h

/-- More is pushed. -/
theorem Holds.pushed (h : node.Holds dump down) {more : List Message}
    (hmore : ∀ m ∈ more, Pushable m) : node.Holds dump (down ++ more) := by
  cases h with
  | nothing hs h => exact .nothing hs h
  | stuck hs hdown =>
      refine .stuck hs fun m hm => ?_
      rcases List.mem_append.mp hm with hm | hm
      · exact hdown m hm
      · exact hmore m hm
  | synced hs h => exact .synced hs h

/-- Before the dump nothing is stored. -/
theorem listen_early {clock : Nat → Timepoint} (hrdb : node.state ≠ .waitForRdbFileSync)
    (hcommands : node.state ≠ .waitServerCommands)
    (h : node.listen clock m = some node') :
    node'.state ≠ .waitServerCommands ∧ node'.storage = node.storage := by
  unfold listen nextSay at h
  grind

/-- The SET of the master is stored. -/
theorem process_data {now : Timepoint} (hm : Pushable m)
    (hplain : ∀ r ∈ setOf m, r.expireMs = none) (h : node.process now m = some node') :
    Reference.of node'.storage.values =
        (Reference.of node.storage.values).setAll (setOf m).toList ∧
      node'.applied = node.applied ++ (setOf m).toList ∧ node'.state = node.state := by
  cases hm with
  | getAck =>
      have hget : toLowerCase (ascii "GETACK") = ascii "getack" := by decide
      simp only [process, tryParse_getAck, execute, hget, if_true, Option.map_some,
        Option.some.injEq] at h
      subst h
      simp [nextSay]
  | @set key value expireMs hfits =>
      have hset := setOf_set key value hfits
      obtain rfl : expireMs = none := hplain _ hset
      simp only [process, Command.tryParse_construct_set key value hfits, execute,
        Option.map_some, Option.some.injEq] at h
      subst h
      rw [hset]
      exact ⟨Reference.of_insert _ _ _, rfl, rfl⟩

end ReplicaTalker

namespace Cluster

variable {replicas : Replicas} {c : Nat}

/-! ## Runs -/

/-- What a client asks for in a step. -/
def requested : ClusterAction → Option (Timepoint × Message)
  | .request now _ message => some (now, message)
  | _ => none

/-- The PSYNC of a replica comes. -/
def syncs (c : Nat) (s : Cluster) : ClusterAction → Bool
  | .receive _ conn => conn = c && (s.up c).head? = some psync.construct
  | _ => false

/-- The SETs of clients have no expiry.  With one, master and replica would compute two
deadlines from two clocks. -/
def NoExpiry (_ : Cluster) (a : ClusterAction) : Prop :=
  ∀ q ∈ requested a, ∀ r ∈ setOf q.2, r.expireMs = none

/-- The PSYNC of a replica comes while the dump is current, and behind it no entry is added
to a stream. -/
structure Covered (c : Nat) (s : Cluster) (a : ClusterAction) : Prop where
  noExpiry : s.NoExpiry a
  current : s.syncs c a → s.server.Current
  pushed : s.server.isAttached c → ∀ q ∈ requested a, ¬ s.server.Adds q.1 q.2

instance (s : Cluster) (a : ClusterAction) : Decidable (s.NoExpiry a) :=
  inferInstanceAs (Decidable (∀ q ∈ requested a, _))

instance (s : Cluster) (a : ClusterAction) : Decidable (s.Covered c a) :=
  decidable_of_iff (s.NoExpiry a ∧ (s.syncs c a → s.server.Current) ∧
    (s.server.isAttached c → ∀ q ∈ requested a, ¬ s.server.Adds q.1 q.2))
    ⟨fun h => ⟨h.1, h.2.1, h.2.2⟩, fun h => ⟨h.1, h.2, h.3⟩⟩

/-- A replica that is connected has finished the handshake, and gets nothing more: nothing is
on the way to it or pending for it. -/
def Settled (c : Nat) (s : Cluster) : Prop :=
  (s.server.talkers c).isOpen ∧ (s.nodes c).state = .waitServerCommands ∧ s.downstream c = []

instance (s : Cluster) : Decidable (s.Settled c) := inferInstanceAs (Decidable (_ ∧ _))

/-! ## Steps that are not the replica's own -/

/-- What happens to a replica when nothing is done by it or for it alone: it may be pushed
messages or be disconnected. -/
structure Elsewhere (c : Nat) (s s' : Cluster) : Prop where
  handle : ∀ r' ∈ s'.server.handle c, ∃ r ∈ s.server.handle c,
    r'.state = r.state ∧ r'.attachedAt = r.attachedAt
  node : s'.nodes c = s.nodes c
  down : (s'.server.talkers c).isOpen → (s.server.talkers c).isOpen ∧
    ∃ more, s'.downstream c = s.downstream c ++ more ∧ ∀ m ∈ more, Pushable m

theorem elsewhere_of_touched {s s' : Cluster} {messages : List Message}
    (h : Server.Touched c messages s.server s'.server) (hsame : SameEnds c s s') :
    Elsewhere c s s' := by
  let more := ((s.server.handle c).map fun r => r.offered messages).getD []
  refine ⟨fun r' hr' => ?_, hsame.nodes, fun hopen => ⟨h.talker.isOpen ▸ hopen, more, ?_, ?_⟩⟩
  · rw [h.handle] at hr'
    obtain ⟨r, hr, rfl⟩ := Option.map_eq_some_iff.mp hr'
    refine ⟨r, hr, r.pushAll_state messages, ?_⟩
    unfold ReplicaHandle.pushAll
    split <;> rfl
  · rw [downstream, hsame.down, h.talker.pending, ← List.append_assoc, downstream]
  · intro m hm
    obtain ⟨r, -, hr⟩ : ∃ r, s.server.handle c = some r ∧ m ∈ r.offered messages := by
      cases hhandle : s.server.handle c with
      | none => simp [more, hhandle] at hm
      | some r => exact ⟨r, rfl, by simpa [more, hhandle] using hm⟩
    unfold ReplicaHandle.offered at hr
    split at hr
    · exact h.pushable m hr
    · cases hr

theorem elsewhere_of_same {s s' : Cluster} (hserver : s'.server.middleware = s.server.middleware)
    (hopen : (s'.server.talkers c).isOpen = (s.server.talkers c).isOpen)
    (hnode : s'.nodes c = s.nodes c) (hdown : s'.downstream c = s.downstream c) :
    Elsewhere c s s' := by
  refine ⟨fun r hr => ⟨r, ?_, rfl, rfl⟩, hnode, fun h => ⟨hopen ▸ h, [], ?_, by simp⟩⟩
  · rwa [Server.handle, hserver] at hr
  · rw [hdown, List.append_nil]

/-- A step that the replica does, or that its own message makes the master do. -/
def own (c : Nat) : ClusterAction → Bool
  | .deliver _ conn => conn = c
  | .answer conn => conn = c
  | .receive _ conn => conn = c
  | _ => false

theorem Synchronized.elsewhere {s s' : Cluster} (h : s.Synchronized replicas)
    (hc : (replicas c).isSome) {a : ClusterAction} (ha : own c a = false)
    (hstep : s.step replicas a = some s') : Elsewhere c s s' := by
  cases a with
  | request now conn message =>
      obtain ⟨hclient, server, hreceive, rfl⟩ := request_cases hstep
      have hother : c ≠ conn := by
        rintro rfl
        simp [hclient] at hc
      obtain ⟨messages, htouched⟩ :=
        (Server.receive_serves h.served hclient hreceive).touched c hc hother
      exact elsewhere_of_touched htouched ⟨rfl, rfl, rfl⟩
  | runJob =>
      obtain ⟨server, hrun, rfl⟩ := Option.map_eq_some_iff.mp hstep
      exact elsewhere_of_touched ((Server.runJob_served h.served hrun).2 c hc) ⟨rfl, rfl, rfl⟩
  | fireRead i =>
      obtain ⟨server, hfire, rfl⟩ := Option.map_eq_some_iff.mp hstep
      exact elsewhere_of_touched ((Server.fireRead_served h.served hfire).2 c hc) ⟨rfl, rfl, rfl⟩
  | fireWait i =>
      obtain ⟨server, hfire, rfl⟩ := Option.map_eq_some_iff.mp hstep
      exact elsewhere_of_touched ((Server.fireWait_served h.served hfire).2 c hc) ⟨rfl, rfl, rfl⟩
  | disconnect conn =>
      obtain rfl := Option.some.inj hstep
      by_cases hconn : c = conn
      · -- the handle of the replica is gone
        subst hconn
        refine ⟨fun r hr => ?_, rfl, fun hopen => ?_⟩
        · obtain ⟨hmem, hslot⟩ := Server.mem_of_handle hr
          rw [h.served.disconnect_replicas] at hmem
          exact absurd hslot (of_decide_eq_true (List.mem_filter.mp hmem).2)
        · simp [(Server.disconnect_eq c s.server).1] at hopen
      · obtain ⟨messages, htouched⟩ :=
          (Server.disconnect_serves h.served conn).touched c hc hconn
        exact elsewhere_of_touched htouched ⟨rfl, rfl, rfl⟩
  | send conn =>
      obtain ⟨message, server, hsay, rfl⟩ := send_cases hstep
      obtain ⟨pending, hpending, rfl⟩ := Server.say_cases hsay
      refine elsewhere_of_same rfl ?_ rfl ?_
      · rw [Server.modifyTalker_talkers]
        split <;> rfl
      · by_cases hconn : conn = c
        · subst hconn
          simp [downstream, Server.modifyTalker_talkers, hpending]
        · simp [downstream, Server.modifyTalker_talkers, hconn, Ne.symm hconn]
  | deliver clock conn =>
      have hother : c ≠ conn := fun heq => by simp [own, heq] at ha
      obtain ⟨-, message, down, node, -, -, rfl⟩ := deliver_cases hstep
      exact elsewhere_of_same rfl rfl (Function.update_of_ne hother _ _)
        (by simp [downstream, hother])
  | answer conn =>
      have hother : c ≠ conn := fun heq => by simp [own, heq] at ha
      obtain ⟨-, message, pending, -, rfl⟩ := answer_cases hstep
      exact elsewhere_of_same rfl rfl (Function.update_of_ne hother _ _) rfl
  | receive now conn =>
      have hother : c ≠ conn := fun heq => by simp [own, heq] at ha
      obtain ⟨hconn, message, up, server, hup, hreceive, rfl⟩ := receive_cases hstep
      obtain ⟨-, more, hreplied, -⟩ := h.received hconn hup hreceive
      obtain ⟨messages, htouched⟩ := hreplied.serves.touched c hc hother
      exact elsewhere_of_touched htouched ⟨rfl, Function.update_of_ne hother _ _, rfl⟩

/-! ## The master -/

/-- What the master does in a step. -/
def masterAction (s : Cluster) : ClusterAction → Option ServerAction
  | .request now conn message => some (.receive now conn message)
  | .runJob => some .runJob
  | .fireRead i => some (.fireRead i)
  | .fireWait i => some (.fireWait i)
  | .disconnect conn => some (.disconnect conn)
  | .send conn => some (.say conn)
  | .deliver _ _ => none
  | .answer _ => none
  | .receive now conn => (s.up conn).head?.map (.receive now conn)

theorem step_master {s s' : Cluster} {a : ClusterAction} (h : s.step replicas a = some s') :
    (s.masterAction a = none ∧ s'.server = s.server) ∨
      ∃ b, s.masterAction a = some b ∧ s.server.step b = some s'.server := by
  cases a with
  | request now conn message =>
      obtain ⟨-, server, hreceive, rfl⟩ := request_cases h
      exact .inr ⟨_, rfl, hreceive⟩
  | runJob =>
      obtain ⟨server, hrun, rfl⟩ := Option.map_eq_some_iff.mp h
      exact .inr ⟨_, rfl, hrun⟩
  | fireRead i =>
      obtain ⟨server, hfire, rfl⟩ := Option.map_eq_some_iff.mp h
      exact .inr ⟨_, rfl, hfire⟩
  | fireWait i =>
      obtain ⟨server, hfire, rfl⟩ := Option.map_eq_some_iff.mp h
      exact .inr ⟨_, rfl, hfire⟩
  | disconnect conn =>
      obtain rfl := Option.some.inj h
      exact .inr ⟨_, rfl, rfl⟩
  | send conn =>
      obtain ⟨message, server, hsay, rfl⟩ := send_cases h
      exact .inr ⟨_, rfl, Option.map_eq_some_iff.mpr ⟨_, hsay, rfl⟩⟩
  | deliver clock conn =>
      obtain ⟨-, message, down, node, -, -, rfl⟩ := deliver_cases h
      exact .inl ⟨rfl, rfl⟩
  | answer conn =>
      obtain ⟨-, message, pending, -, rfl⟩ := answer_cases h
      exact .inl ⟨rfl, rfl⟩
  | receive now conn =>
      obtain ⟨-, message, up, server, hup, hreceive, rfl⟩ := receive_cases h
      refine .inr ⟨.receive now conn message, ?_, hreceive⟩
      simp [masterAction, hup]

theorem step_dump {s s' : Cluster} {a : ClusterAction} (h : s.step replicas a = some s') :
    s'.server.dump = s.server.dump := by
  rcases step_master h with ⟨-, hsame⟩ | ⟨b, -, hstep⟩
  · rw [hsame]
  · exact Server.step_dump hstep

/-- A message of a replica neither changes the data nor is a SET. -/
theorem heeds_accepts {s s' : Server} {node : ReplicaTalker} {m : Message}
    {down : List Message} (hs : s.data.Undated) (h : Heeds node c m down s s') :
    Server.Accepts [] s s' ∧ s'.data = s.data := by
  have hsame : s'.values = s.values ∧ s'.middleware.accepted = s.middleware.accepted := by
    cases h with
    | same _ hmiddleware =>
        rw [Server.values, hmiddleware]
        exact ⟨rfl, rfl⟩
    | met _ hmiddleware =>
        rw [Server.values, hmiddleware]
        exact ⟨rfl, rfl⟩
    | attached _ _ hmiddleware =>
        rw [Server.values, hmiddleware]
        exact ⟨rfl, rfl⟩
    | acknowledged _ _ _ hmiddleware =>
        rw [Server.values, hmiddleware, StorageMiddleware.acknowledge_eq,
          StorageMiddleware.replyAll_storage, StorageMiddleware.replyAll_accepted]
        exact ⟨rfl, rfl⟩
  exact ⟨Server.accepts_nothing hs hsame.1 hsame.2, congrArg Reference.of hsame.1⟩

/-- What a step makes of the data of the master. -/
theorem Synchronized.accepts {s s' : Cluster} (h : s.Synchronized replicas)
    (hs : s.server.data.Undated) {a : ClusterAction} (hplain : s.NoExpiry a)
    (hstep : s.step replicas a = some s') :
    ∃ sets, Server.Accepts sets s.server s'.server ∧
      ((∀ q ∈ requested a, ¬ s.server.Adds q.1 q.2) →
        s'.server.data = s.server.data.setAll sets) := by
  have hnothing : Server.Accepts [] s.server s'.server ∧ s'.server.data = s.server.data →
      ∃ sets, Server.Accepts sets s.server s'.server ∧
        ((∀ q ∈ requested a, ¬ s.server.Adds q.1 q.2) →
          s'.server.data = s.server.data.setAll sets) :=
    fun ⟨haccepts, hdata⟩ => ⟨[], haccepts, fun _ => hdata⟩
  rcases step_master hstep with ⟨-, hsame⟩ | ⟨b, hb, hserver⟩
  · rw [hsame]
    exact ⟨[], Server.accepts_nothing hs rfl rfl, fun _ => rfl⟩
  · cases a with
    | request now conn message =>
        obtain rfl := Option.some.inj hb
        obtain ⟨sets, haccepts, hdata⟩ :=
          Server.receive_accepts hs (hplain (now, message) rfl) hserver
        exact ⟨sets, haccepts, fun hadds => hdata (hadds (now, message) rfl)⟩
    | receive now conn =>
        obtain ⟨hconn, message, up, server, hup, hreceive, rfl⟩ := receive_cases hstep
        obtain ⟨hheeds, -⟩ := h.received hconn hup hreceive
        exact hnothing (heeds_accepts hs hheeds)
    | runJob | fireRead i | fireWait i | disconnect conn | send conn =>
        obtain rfl := Option.some.inj hb
        exact hnothing (Server.step_accepts (by simp) hs hserver)
    | deliver clock conn | answer conn => cases hb

/-- The master goes on holding the dump and what is pushed. -/
theorem covers_grow {s s' : Server} (h : s.Covers c) (hs : s.Served replicas)
    {sets : List SetRequest}
    (haccepted : s'.middleware.accepted = s.middleware.accepted ++ sets)
    (hdata : s.isAttached c → s'.data = s.data.setAll sets) (hdump : s'.dump = s.dump)
    {r r' : ReplicaHandle Slot} (hr : s.handle c = some r) (hwrite : r.state = .write)
    (hat : r'.attachedAt = r.attachedAt) :
    s'.data = (Reference.of (snapshot s'.dump)).setAll
      (s'.middleware.accepted.drop r'.attachedAt) := by
  have hattached : s.isAttached c := by simp [Server.isAttached, hr, hwrite]
  obtain ⟨hle, -⟩ := (hs.streams r (Server.mem_of_handle hr).1).attached hwrite
  rw [hdata hattached, h r hr hwrite, hdump, haccepted, hat,
    List.drop_append_of_le_length hle, Reference.setAll_append]

/-! ## The replica's own steps -/

/-- A replica that is attached has sent its PSYNC. -/
theorem sent_of_write {dump : Bytes} {node : ReplicaTalker} {r : ReplicaHandle Slot}
    {up down : List Message} (h : Phase dump node (some r) up down) (hwrite : r.state = .write) :
    node.state ≠ .waitOkForReplConfPort ∧ node.state ≠ .waitOkForReplConfCapa := by
  cases h with
  | greeting _ _ hmet => simp [(hmet r rfl).1] at hwrite
  | answered hstate => simp [hstate]
  | dump hstate => simp [hstate]
  | stuck hstate => simp [hstate]
  | synced hstate => simp [hstate]

/-- The message of a replica that is not attached, and is about to be. -/
theorem psync_of_greeting {dump : Bytes} {node : ReplicaTalker} {r : ReplicaHandle Slot}
    {m : Message} {up down : List Message} (h : Phase dump node (some r) (m :: up) down)
    (hwrite : r.state ≠ .write)
    (hsent : node.state ≠ .waitOkForReplConfPort ∧ node.state ≠ .waitOkForReplConfCapa) :
    m = psync.construct := by
  cases h with
  | greeting hgreeting _ _ =>
      generalize node.state = state at hgreeting hsent
      cases hgreeting with
      | capa => exact absurd rfl hsent.2
      | psync => rfl
  | synced _ hw _ => exact absurd hw hwrite

/-- PSYNC attaches a replica; other messages leave it attached or not. -/
theorem Synchronized.attaches {s : Cluster} (h : s.Synchronized replicas)
    (hc : (replicas c).isSome) {now : Timepoint} {m : Message} {up : List Message}
    (hup : s.up c = m :: up) {server : Server}
    (hreceive : s.server.receive now c m = some server) {r' : ReplicaHandle Slot}
    (hr' : server.handle c = some r') (hwrite' : r'.state = .write) :
    (∃ r, s.server.handle c = some r ∧ r.state = .write ∧ r'.attachedAt = r.attachedAt) ∨
      (m = psync.construct ∧ r'.attachedAt = s.server.middleware.accepted.length) := by
  obtain ⟨hheeds, more, -, hafter⟩ := h.received hc hup hreceive
  have hphase := h.phases c hc (Server.listen_of_receive hreceive).1
  rw [upstream, hup, List.cons_append] at hphase
  rw [hr'] at hafter
  cases hheeds with
  | same _ hmiddleware =>
      rw [Server.handle, hmiddleware] at hr'
      exact .inl ⟨r', hr', hwrite', rfl⟩
  | met _ hmiddleware =>
      rw [Server.handle, hmiddleware] at hr'
      simp only [StorageMiddleware.addReplica, List.find?_append, Option.or_eq_some_iff] at hr'
      rcases hr' with hr' | ⟨-, hnew⟩
      · exact .inl ⟨r', hr', hwrite', rfl⟩
      · have hmem := List.mem_singleton.mp (List.mem_of_find?_eq_some hnew)
        rw [hmem] at hwrite'
        cases hwrite'
  | @acknowledged r _ k _ _ _ hr _ hmiddleware =>
      have hmap := @Server.handle_map c s.server server
        (fun x => if x.id = r.id then x.acknowledge (UInt64.ofNat k) else x)
        (fun x => by split <;> rfl)
        (by rw [hmiddleware, StorageMiddleware.acknowledge_replicas])
      rw [hmap, hr, Option.map_some, if_pos rfl, Option.some.injEq] at hr'
      subst hr'
      exact .inl ⟨r, hr, hwrite', rfl⟩
  | @attached r _ hr hmiddleware =>
      have hmap := @Server.handle_map c s.server server
        (fun x => if x.id = r.id then
          x.setState .write s.server.middleware.accepted.length else x)
        (fun x => by split <;> rfl) (by rw [hmiddleware]; rfl)
      rw [hmap, hr, Option.map_some, if_pos rfl, Option.some.injEq] at hr'
      subst hr'
      by_cases hwrite : r.state = .write
      · exact .inl ⟨r, hr, hwrite, if_pos hwrite⟩
      · rw [hr] at hphase
        exact .inr ⟨psync_of_greeting hphase hwrite (sent_of_write hafter hwrite'),
          if_neg hwrite⟩

/-- What the replica makes of the next message of the master. -/
theorem holds_deliver {dump : Bytes} (hlasting : Lasting dump) {node node' : ReplicaTalker}
    {r : Option (ReplicaHandle Slot)} {m : Message} {up down : List Message}
    (hphase : Phase dump node r up (m :: down))
    (hpushable : ∀ h ∈ r, ∀ x ∈ h.pushed, Pushable x)
    (hplain : ∀ h ∈ r, ∀ x ∈ h.pushed, ∀ request ∈ setOf x, request.expireMs = none)
    (hholds : node.Holds dump (m :: down)) {clock : Nat → Timepoint}
    (h : node.listen clock m = some node') : node'.Holds dump down := by
  cases hholds with
  | stuck hstate hdown =>
      obtain ⟨elements, rfl⟩ := (hdown m List.mem_cons_self).isArray
      simp only [ReplicaTalker.listen, hstate, Option.some.injEq] at h
      subst h
      exact .stuck hstate fun x hx => hdown x (List.mem_cons_of_mem _ hx)
  | synced hstate hvalues =>
      simp only [ReplicaTalker.listen, hstate] at h
      cases hphase with
      | greeting hgreeting =>
          rw [hstate] at hgreeting
          cases hgreeting
      | answered hs => cases hstate.symm.trans hs
      | dump hs => cases hstate.symm.trans hs
      | stuck hs => cases hstate.symm.trans hs
      | @synced r _ _ _ _ _ _ hlog =>
          have hmem : m ∈ r.pushed := by simp [hlog.pushed]
          obtain ⟨hdata, happlied, hsame⟩ := ReplicaTalker.process_data
            (hpushable _ rfl m hmem) (hplain _ rfl m hmem) h
          refine .synced (hsame.trans hstate) ?_
          rw [hdata, hvalues, happlied, Reference.setAll_append]
  | nothing hstate hvalues =>
      by_cases hrdb : node.state = .waitForRdbFileSync
      · simp only [ReplicaTalker.listen, hrdb] at h
        cases hphase with
        | greeting hgreeting =>
            rw [hrdb] at hgreeting
            cases hgreeting
        | answered hs => cases hrdb.symm.trans hs
        | synced hs => cases hrdb.symm.trans hs
        | stuck _ _ _ _ hdown =>
            obtain ⟨elements, rfl⟩ := (hdown m List.mem_cons_self).isArray
            obtain rfl := Option.some.inj h
            exact .nothing hstate hvalues
        | dump _ hnode _ _ =>
            obtain rfl := Option.some.inj h
            have hloaded := hlasting.load_values clock hvalues
            obtain ⟨storage, hload | hload⟩ := Phase.load_cases clock dump node
            · rw [hload]
              exact .stuck hrdb (hpushable _ rfl)
            · rw [hload] at hloaded ⊢
              refine .synced rfl ?_
              rw [hloaded, hnode.applied, Reference.setAll_nil]
      · obtain ⟨hearly, hstorage⟩ := ReplicaTalker.listen_early hrdb hstate h
        exact .nothing hearly (hstorage ▸ hvalues)

/-- A replica whose message comes is not stuck in the dump, whatever it is answered. -/
theorem holds_answered {dump : Bytes} {node : ReplicaTalker}
    {r : Option (ReplicaHandle Slot)} {m : Message} {up down : List Message}
    (hphase : Phase dump node r (m :: up) down) (h : node.Holds dump down)
    (more : List Message) : node.Holds dump (down ++ more) := by
  cases h with
  | nothing hstate hvalues => exact .nothing hstate hvalues
  | synced hstate hvalues => exact .synced hstate hvalues
  | stuck hstate hdown =>
      cases hphase with
      | greeting hgreeting =>
          rw [hstate] at hgreeting
          cases hgreeting
      | synced hs => cases hstate.symm.trans hs

/-! ## The invariant -/

/-- The invariant of a run in which everything is covered.  In a settled state it says that the
replica holds what the master holds. -/
structure Converging (replicas : Replicas) (c : Nat) (s : Cluster) : Prop where
  sync : s.Synchronized replicas
  lasting : Lasting s.server.dump
  undated : s.server.data.Undated
  expireMs : ∀ r ∈ s.server.middleware.accepted, r.expireMs = none
  covers : s.server.Covers c
  holds : (s.server.talkers c).isOpen →
    (s.nodes c).Holds s.server.dump (s.downstream c)

/-- Nothing that is pushed has an expiry. -/
theorem Converging.pushed {s : Cluster} (h : Converging replicas c s) {r : ReplicaHandle Slot}
    (hr : s.server.handle c = some r) {x : Message} (hx : x ∈ r.pushed)
    {request : SetRequest} (hrequest : request ∈ setOf x) : request.expireMs = none := by
  have hstream := h.sync.served.streams r (Server.mem_of_handle hr).1
  by_cases hwrite : r.state = .write
  · have hmem : request ∈ r.pushed.filterMap setOf := List.mem_filterMap.mpr ⟨x, hx, hrequest⟩
    rw [(hstream.attached hwrite).2] at hmem
    exact h.expireMs request (List.mem_of_mem_drop hmem)
  · rw [hstream.idle hwrite] at hx
    cases hx

/-- The parts of the invariant that the master alone decides. -/
theorem Converging.next {s s' : Cluster} (h : Converging replicas c s) {a : ClusterAction}
    (hcovered : s.Covered c a) (hstep : s.step replicas a = some s')
    (hhandle : ∀ r', s'.server.handle c = some r' → r'.state = .write →
      (∃ r, s.server.handle c = some r ∧ r.state = .write ∧ r'.attachedAt = r.attachedAt) ∨
        (s.syncs c a ∧ r'.attachedAt = s'.server.middleware.accepted.length ∧
          s'.server.data = s.server.data))
    (hholds : (s'.server.talkers c).isOpen →
      (s'.nodes c).Holds s.server.dump (s'.downstream c)) :
    Converging replicas c s' := by
  obtain ⟨sets, haccepts, hdata⟩ := h.sync.accepts h.undated hcovered.noExpiry hstep
  have hdump := step_dump hstep
  refine ⟨h.sync.step hstep, hdump ▸ h.lasting, haccepts.undated, ?_, ?_, hdump ▸ hholds⟩
  · intro r hr
    rw [haccepts.accepted] at hr
    rcases List.mem_append.mp hr with hr | hr
    · exact h.expireMs r hr
    · exact haccepts.expireMs r hr
  · intro r' hr' hwrite'
    rcases hhandle r' hr' hwrite' with ⟨r, hr, hwrite, hat⟩ | ⟨hsyncs, hat, hsame⟩
    · exact covers_grow h.covers h.sync.served haccepts.accepted
        (fun hattached => hdata (hcovered.pushed hattached)) hdump hr hwrite hat
    · rw [hat, List.drop_length, Reference.setAll_nil, hsame, hdump]
      exact hcovered.current hsyncs

/-- A replica gets a message. -/
theorem Converging.deliver {s s' : Cluster} (h : Converging replicas c s)
    (hc : (replicas c).isSome) {clock : Nat → Timepoint}
    (hcovered : s.Covered c (.deliver clock c))
    (hstep : s.step replicas (.deliver clock c) = some s') : Converging replicas c s' := by
  have hall := hstep
  obtain ⟨-, message, down, node, hdown, hlisten, rfl⟩ := deliver_cases hstep
  refine h.next hcovered hall (fun r hr hwrite => .inl ⟨r, hr, hwrite, rfl⟩) fun hopen => ?_
  have hphase := h.sync.phases c hc hopen
  have hholds := h.holds hopen
  rw [downstream, hdown, List.cons_append] at hphase hholds
  have hnext := holds_deliver h.lasting hphase
    (fun r hr => (h.sync.served.streams r (Server.mem_of_handle hr).1).pushable)
    (fun r hr x hx request hrequest => h.pushed hr hx hrequest) hholds hlisten
  simpa [downstream] using hnext

/-- A replica writes a message. -/
theorem Converging.answer {s s' : Cluster} (h : Converging replicas c s)
    (hcovered : s.Covered c (.answer c))
    (hstep : s.step replicas (.answer c) = some s') : Converging replicas c s' := by
  have hall := hstep
  obtain ⟨-, message, pending, -, rfl⟩ := answer_cases hstep
  refine h.next hcovered hall (fun r hr hwrite => .inl ⟨r, hr, hwrite, rfl⟩) fun hopen => ?_
  have hsaid : ReplicaTalker.Holds _ { s.nodes c with pending := pending } _ :=
    (h.holds hopen).congr rfl rfl rfl
  simpa [downstream] using hsaid

/-- A message of the replica comes. -/
theorem Converging.receive {s s' : Cluster} (h : Converging replicas c s)
    (hc : (replicas c).isSome) {now : Timepoint} (hcovered : s.Covered c (.receive now c))
    (hstep : s.step replicas (.receive now c) = some s') : Converging replicas c s' := by
  have hall := hstep
  obtain ⟨-, message, up, server, hup, hreceive, rfl⟩ := receive_cases hstep
  obtain ⟨hheeds, more, hreplied, -⟩ := h.sync.received hc hup hreceive
  obtain ⟨haccepts, hdata⟩ := heeds_accepts h.undated hheeds
  refine h.next hcovered hall (fun r' hr' hwrite' => ?_) fun hopen => ?_
  · rcases h.sync.attaches hc hup hreceive hr' hwrite' with hr | ⟨rfl, hat⟩
    · exact .inl hr
    · refine .inr ⟨by simp [syncs, hup], ?_, hdata⟩
      rw [hat, haccepts.accepted, List.append_nil]
  · have hbefore : (s.server.talkers c).isOpen := hreplied.isOpen ▸ hopen
    have hphase := h.sync.phases c hc hbefore
    rw [upstream, hup, List.cons_append] at hphase
    have hholds := holds_answered hphase (h.holds hbefore) more
    simpa [downstream, hreplied.pending] using hholds

theorem Converging.step {s s' : Cluster} (h : Converging replicas c s)
    (hc : (replicas c).isSome) {a : ClusterAction} (hcovered : s.Covered c a)
    (hstep : s.step replicas a = some s') : Converging replicas c s' := by
  cases hown : own c a with
  | false =>
      have helsewhere := h.sync.elsewhere hc hown hstep
      refine h.next hcovered hstep (fun r' hr' hwrite' => .inl ?_) fun hopen => ?_
      · obtain ⟨r, hr, hstate, hat⟩ := helsewhere.handle r' hr'
        exact ⟨r, hr, hstate ▸ hwrite', hat⟩
      · obtain ⟨hbefore, more, hdown, hmore⟩ := helsewhere.down hopen
        rw [helsewhere.node, hdown]
        exact (h.holds hbefore).pushed hmore
  | true =>
      cases a with
      | deliver clock conn =>
          obtain rfl := of_decide_eq_true hown
          exact h.deliver hc hcovered hstep
      | answer conn =>
          obtain rfl := of_decide_eq_true hown
          exact h.answer hcovered hstep
      | receive now conn =>
          obtain rfl := of_decide_eq_true hown
          exact h.receive hc hcovered hstep
      | _ => cases hown

/-- A cluster before anything has happened, with a replica whose storage is empty. -/
theorem converging_initial {clock : Nat → Timepoint} {info : ServerInfo}
    {dbFile : Option Bytes} {server : Server} (h : Server.start clock info dbFile = some server)
    (hlasting : Lasting server.dump) {config : ReplicaConfig} (hc : replicas c = some config)
    (hempty : config.values = ∅) : Converging replicas c (initial server replicas) := by
  obtain ⟨values, hserver⟩ := Server.start_eq h
  refine ⟨synchronized_initial h, hlasting, Server.start_undated h hlasting, ?_, ?_, fun _ => ?_⟩
  · subst hserver
    simp [initial]
  · subst hserver
    simp [Server.Covers, initial, Server.handle]
  · refine .nothing ?_ ?_
    · simp [initial, ReplicaConfig.talker]
    · simp [initial, hc, ReplicaConfig.talker, hempty]

theorem converging_reachable {clock : Nat → Timepoint} {info : ServerInfo}
    {dbFile : Option Bytes} {server : Server} (h : Server.start clock info dbFile = some server)
    (hlasting : Lasting server.dump) {config : ReplicaConfig} (hc : replicas c = some config)
    (hempty : config.values = ∅) {s : Cluster}
    (hs : (machine server replicas).Reachable (Covered c) s) : Converging replicas c s := by
  have hsome : (replicas c).isSome := by simp [hc]
  exact hs.invariant (converging_initial h hlasting hc hempty)
    fun _ _ _ _ hinv hcovered hstep => hinv.step hsome hcovered hstep

/-! ## Convergence -/

theorem Synchronized.handle_of_finished {s : Cluster} (h : s.Synchronized replicas)
    (hc : (replicas c).isSome) (hopen : (s.server.talkers c).isOpen)
    (hfinished : (s.nodes c).state = .waitServerCommands) : ∃ r, s.server.handle c = some r := by
  have hphase := h.phases c hc hopen
  refine Option.isSome_iff_exists.mp ?_
  generalize s.server.handle c = handle at hphase
  generalize s.upstream c = up at hphase
  generalize s.downstream c = down at hphase
  cases hphase with
  | greeting hgreeting =>
      rw [hfinished] at hgreeting
      cases hgreeting
  | _ => rfl

/-- **Convergence.**  In every run in which PSYNC comes while the dump is current and no
entry is added to a stream behind it, a replica that has finished the handshake holds what
its master holds whenever no message is in flight to it. -/
theorem converged {clock : Nat → Timepoint} {info : ServerInfo} {dbFile : Option Bytes}
    {server : Server} (hstart : Server.start clock info dbFile = some server)
    (hlasting : Lasting server.dump) {config : ReplicaConfig} (hc : replicas c = some config)
    (hempty : config.values = ∅) {s : Cluster}
    (hs : (machine server replicas).Reachable (Covered c) s) (hsettled : s.Settled c) :
    SameContents (s.nodes c).storage.values s.server.middleware.storage.values := by
  obtain ⟨hopen, hfinished, hquiet⟩ := hsettled
  have hinv := converging_reachable hstart hlasting hc hempty hs
  obtain ⟨r, hr⟩ := hinv.sync.handle_of_finished (by simp [hc]) hopen hfinished
  obtain ⟨hmem, rfl⟩ := Server.mem_of_handle hr
  obtain ⟨hwrite, offsets, acked, hlog⟩ := hinv.sync.log hmem (by simp [hc]) hfinished
  have hpushed : r.pushed = (s.nodes r.slot.conn).processed := by
    rw [hlog.pushed, hquiet, List.append_nil]
  have happlied : (s.nodes r.slot.conn).applied =
      s.server.middleware.accepted.drop r.attachedAt := by
    rw [hlog.applied, ← hpushed, ((hinv.sync.served.streams r hmem).attached hwrite).2]
  have hmaster := hinv.covers r hr hwrite
  cases hinv.holds hopen with
  | nothing hstate => exact absurd hfinished hstate
  | stuck hstate => cases hfinished.symm.trans hstate
  | synced _ hvalues =>
      rw [happlied, ← hmaster] at hvalues
      intro key
      exact congrArg (Option.map Value.contents) (congrFun hvalues key)

/-- A server without a file. -/
def emptyMaster : Server := { info := { masterReplid := [] } }

theorem lasting_emptyMaster : Lasting emptyMaster.dump :=
  lasting_of_met_eq_zero (by decide +kernel)

/-- The handshake is over, a client sends a SET, and it comes to the replica. -/
def afterSet : Option Cluster :=
  (machine emptyMaster oneReplica).run (Covered 1) (initial emptyMaster oneReplica)
    (handshake 1 ++ [.request 0 2 (Command.set (ascii "key") (ascii "value") none).construct,
      .send 1, .deliver (fun _ => 0) 1])

theorem map_afterSet : afterSet.map (fun s =>
    ((s.nodes 1).storage.values.keys, decide (s.Settled 1))) = some ([ascii "key"], true) := by
  decide +kernel

theorem afterSet_isSome : afterSet.isSome := by
  rw [← Option.isSome_map, map_afterSet]
  rfl

theorem converged_afterSet :
    ((afterSet.get afterSet_isSome).nodes 1).storage.values.keys = [ascii "key"] ∧
      SameContents ((afterSet.get afterSet_isSome).nodes 1).storage.values
        (afterSet.get afterSet_isSome).server.middleware.storage.values := by
  obtain ⟨s, hrun, hs⟩ := Option.map_eq_some_iff.mp map_afterSet
  obtain ⟨hkeys, hsettled⟩ := Prod.mk.inj hs
  rw [Option.get_of_eq_some afterSet_isSome hrun]
  exact ⟨hkeys, @converged oneReplica 1 (fun _ => 0) { masterReplid := [] } none emptyMaster rfl
    lasting_emptyMaster {} rfl rfl _ (Machine.Reachable.run .init hrun)
    (of_decide_eq_true hsettled)⟩

/-- The handshake is over, and a client adds an entry to a stream. -/
def afterXadd : Option Cluster :=
  (machine emptyMaster oneReplica).run NoExpiry (initial emptyMaster oneReplica)
    (handshake 1 ++ [.request 0 2 (.array ([ascii "XADD", ascii "key", ascii "1-1",
      ascii "field", ascii "value"].map .bulkString))])

/-- The master adds an entry to a stream behind PSYNC.  The entry is not on its way to the
replica, and nothing else is on its way to or from it. -/
theorem not_converged :
    ¬ ∀ (clock : Nat → Timepoint) (info : ServerInfo) (dbFile : Option Bytes)
      (server : Server) (replicas : Replicas) (c : Nat) (config : ReplicaConfig) (s : Cluster),
      Server.start clock info dbFile = some server → Lasting server.dump →
      replicas c = some config → config.values = ∅ →
      (machine server replicas).Reachable NoExpiry s → s.Settled c → s.upstream c = [] →
      SameContents (s.nodes c).storage.values s.server.middleware.storage.values := by
  intro h
  obtain ⟨s, hrun, hs⟩ := Option.map_eq_some_iff.mp (by decide +kernel :
    afterXadd.map (fun s => (decide (s.Settled 1), (s.upstream 1).length,
      ((s.nodes 1).storage.values.lookup (ascii "key")).isSome,
      (s.server.middleware.storage.values.lookup (ascii "key")).isSome)) =
        some (true, 0, false, true))
  obtain ⟨hsettled, hquiet, hreplica, hmaster⟩ := by simpa only [Prod.mk.injEq] using hs
  have hsame := h (fun _ => 0) { masterReplid := [] } none emptyMaster oneReplica 1 {} s rfl
    lasting_emptyMaster rfl rfl (Machine.Reachable.run .init hrun) (of_decide_eq_true hsettled)
    (List.length_eq_zero_iff.mp hquiet) (ascii "key")
  have hboth := congrArg Option.isSome hsame
  rw [Option.isSome_map, Option.isSome_map, hreplica, hmaster] at hboth
  cases hboth

end Cluster

end BuildYourOwnRedis
