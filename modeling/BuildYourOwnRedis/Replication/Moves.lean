/-
  Replication/Moves.lean --- all that a step of a cluster can do with the replicas and the
  waits of the master, when its clients do not pretend to be replicas.

  `Moves` is one operation of the middleware for each step.  The storage and the timeouts
  are left out of it: no wait depends on them.
-/
import BuildYourOwnRedis.Replication.Agreement
import BuildYourOwnRedis.Server.WaitOnce

set_option autoImplicit false

namespace BuildYourOwnRedis

open Foundation

/-! ## Operations on the replicas and the waits -/

namespace StorageMiddleware

variable {κ : Type}

/-- Equal but for the storage and the timeouts, on which nothing that is said about waits
depends. -/
structure SameWaits (m m' : StorageMiddleware κ) : Prop where
  replicas : m'.replicas = m.replicas
  waits : m'.waits = m.waits
  waitReplies : m'.waitReplies = m.waitReplies
  accepted : m'.accepted = m.accepted
  nextReplicaId : m'.nextReplicaId = m.nextReplicaId

theorem SameWaits.of_eq {m m' : StorageMiddleware κ} (h : m' = m) : m.SameWaits m' := by
  subst h
  exact ⟨rfl, rfl, rfl, rfl, rfl⟩

/-- A timeout of a wait replies, or it has been invalidated. -/
theorem fireWait_moves {m : StorageMiddleware κ} {i : Nat}
    {result : StorageMiddleware κ × List (κ × Message)} (h : m.fireWait i = some result) :
    m.SameWaits result.1 ∨ ∃ w ∈ m.waits, (m.reply w).1.SameWaits result.1 := by
  unfold fireWait at h
  split at h
  · cases h
  · next job hjob =>
      simp only at h
      split at h
      · split at h
        · cases h
        · next w hw =>
            obtain rfl := Option.some.inj h
            exact .inr ⟨w, List.mem_of_find?_eq_some hw, rfl, rfl, rfl, rfl, rfl⟩
      · obtain rfl := Option.some.inj h
        exact .inl ⟨rfl, rfl, rfl, rfl, rfl⟩

end StorageMiddleware

namespace Server

open StorageMiddleware

theorem updateStorage_moves {result : Storage Slot × List (Storage.Call Slot)} {s s' : Server}
    (h : s.updateStorage result = some s') : s.middleware.SameWaits s'.middleware := by
  rw [(answerAll_talkers h 0).1]
  exact ⟨rfl, rfl, rfl, rfl, rfl⟩

theorem runJob_moves {s s' : Server} (h : s.runJob = some s') :
    s.middleware.SameWaits s'.middleware := by
  obtain ⟨result, -, hanswer⟩ := Option.bind_eq_some_iff.mp h
  exact updateStorage_moves hanswer

theorem fireRead_moves {s s' : Server} {i : Nat} (h : s.fireRead i = some s') :
    s.middleware.SameWaits s'.middleware := by
  obtain ⟨result, -, hanswer⟩ := Option.bind_eq_some_iff.mp h
  exact updateStorage_moves hanswer

end Server

namespace Cluster

variable {replicas : Replicas}

/-- REPLCONF and PSYNC, which only replicas send. -/
def fromReplica (message : Message) : Bool :=
  match Command.tryParse message with
  | .ok (.replConf _) => true
  | .ok (.psync _) => true
  | _ => false

/-- A client pretends to be a replica. -/
def pretends : ClusterAction → Bool
  | .request _ _ message => fromReplica message
  | _ => false

/-- Those that send REPLCONF and PSYNC are replicas.  A client that sends them would get a
handle that nobody answers for. -/
def Honest (_ : Cluster) (a : ClusterAction) : Prop := pretends a = false

instance (s : Cluster) (a : ClusterAction) : Decidable (s.Honest a) :=
  inferInstanceAs (Decidable (pretends a = false))

/-- The offset that comes in a step, and from where. -/
def offsetComing (s : Cluster) : ClusterAction → Option (Nat × UInt64)
  | .receive _ c => ((s.up c).head?.bind offsetOf).map fun offset => (c, offset)
  | _ => none

/-- The middleware after a step, as far as waits are concerned.  Each case is one operation of
the middleware, up to what waits do not depend on. -/
inductive Moves (replicas : Replicas) (s : Cluster) (m : StorageMiddleware Slot) :
    ClusterAction → Prop where
  | same {a : ClusterAction} (ha : s.offsetComing a = none)
      (h : s.server.middleware.SameWaits m) : Moves replicas s m a
  | set {now now' : Timepoint} {conn : Nat} {message : Message} {key value : Bytes}
      {expireMs : Option Int}
      (h : (s.server.middleware.set now key value expireMs).1.SameWaits m) :
      Moves replicas s m (.request now' conn message)
  | wait {now : Timepoint} {conn : Nat} {message : Message} {count timeoutMs : UInt64}
      {slot : Slot} (hparse : Command.tryParse message = .ok (.wait count timeoutMs))
      (h : (s.server.middleware.waitFor count slot).1.SameWaits m) :
      Moves replicas s m (.request now conn message)
  | reply {i : Nat} {w : WaitHandle Slot} (hw : w ∈ s.server.middleware.waits)
      (h : (s.server.middleware.reply w).1.SameWaits m) : Moves replicas s m (.fireWait i)
  | removed {conn id : Nat} (hid : (s.server.talkers conn).replicaId = some id)
      (h : (s.server.middleware.removeReplica id).SameWaits m) :
      Moves replicas s m (.disconnect conn)
  | met {now : Timepoint} {c : Nat} (hc : (replicas c).isSome)
      (ha : s.offsetComing (.receive now c) = none)
      (h : (s.server.middleware.addReplica ⟨c, none⟩).2.SameWaits m) :
      Moves replicas s m (.receive now c)
  | attached {now : Timepoint} {c : Nat} {r : ReplicaHandle Slot}
      (ha : s.offsetComing (.receive now c) = none) (hr : s.server.handle c = some r)
      (h : (s.server.middleware.replicaSetState r.id .write).SameWaits m) :
      Moves replicas s m (.receive now c)
  | acknowledged {now : Timepoint} {c : Nat} {r : ReplicaHandle Slot} {up : List Message}
      {k : Nat} {offsets : List Nat} {acked : Nat}
      (ha : s.offsetComing (.receive now c) = some (c, UInt64.ofNat k))
      (hr : s.server.handle c = some r)
      (hlog : Log (s.nodes c) r up (s.downstream c) (k :: offsets) acked)
      (h : (s.server.middleware.acknowledge r.id (UInt64.ofNat k)).1.SameWaits m) :
      Moves replicas s m (.receive now c)

/-- A message of a client. -/
theorem moves_request {s : Cluster} {server : Server} {now : Timepoint} {conn : Nat}
    {message : Message} (hhonest : fromReplica message = false)
    (hreceive : s.server.receive now conn message = some server) :
    Moves replicas s server.middleware (.request now conn message) := by
  unfold Server.receive at hreceive
  split at hreceive
  · cases Server.listen_heard hreceive with
    | reply reply => exact .same rfl ⟨rfl, rfl, rfl, rfl, rfl⟩
    | values values jobs reply => exact .same rfl ⟨rfl, rfl, rfl, rfl, rfl⟩
    | @set key value expireMs s₁ hparse hset =>
        refine @Moves.set replicas s _ now now conn message key value expireMs ?_
        exact .of_eq (Server.update_talkers hset 0).2
    | replConf hparse => simp [fromReplica, hparse] at hhonest
    | psync hparse => simp [fromReplica, hparse] at hhonest
    | wait hparse hwait =>
        exact .wait hparse (.of_eq (Server.update_talkers hwait 0).2)
    | xread hparse hread hanswer =>
        have hsame := Server.updateStorage_moves hanswer
        exact .same rfl ⟨hsame.replicas, hsame.waits, hsame.waitReplies, hsame.accepted,
          hsame.nextReplicaId⟩
  · cases hreceive

theorem Synchronized.moves {s s' : Cluster} (h : s.Synchronized replicas) {a : ClusterAction}
    (hhonest : s.Honest a) (hstep : s.step replicas a = some s') :
    Moves replicas s s'.server.middleware a := by
  cases a with
  | request now conn message =>
      obtain ⟨-, server, hreceive, rfl⟩ := request_cases hstep
      exact moves_request hhonest hreceive
  | runJob =>
      obtain ⟨server, hrun, rfl⟩ := Option.map_eq_some_iff.mp hstep
      exact .same rfl (Server.runJob_moves hrun)
  | fireRead i =>
      obtain ⟨server, hfire, rfl⟩ := Option.map_eq_some_iff.mp hstep
      exact .same rfl (Server.fireRead_moves hfire)
  | fireWait i =>
      obtain ⟨server, hfire, rfl⟩ := Option.map_eq_some_iff.mp hstep
      obtain ⟨result, hresult, hupdate⟩ := Option.bind_eq_some_iff.mp hfire
      have hmiddleware := (Server.update_talkers hupdate 0).2
      rcases StorageMiddleware.fireWait_moves hresult with hsame | ⟨w, hw, hreply⟩
      · exact .same rfl (hmiddleware ▸ hsame)
      · exact .reply hw (hmiddleware ▸ hreply)
  | disconnect conn =>
      obtain rfl := Option.some.inj hstep
      have hmiddleware := (Server.disconnect_eq conn s.server).2
      cases hid : (s.server.talkers conn).replicaId with
      | none =>
          rw [hid] at hmiddleware
          exact .same rfl (.of_eq hmiddleware)
      | some id =>
          rw [hid] at hmiddleware
          exact .removed hid (.of_eq hmiddleware)
  | send conn =>
      obtain ⟨message, server, hsay, rfl⟩ := send_cases hstep
      obtain ⟨pending, -, rfl⟩ := Server.say_cases hsay
      exact .same rfl (.of_eq rfl)
  | deliver clock conn =>
      obtain ⟨-, message, down, node, -, -, rfl⟩ := deliver_cases hstep
      exact .same rfl (.of_eq rfl)
  | answer conn =>
      obtain ⟨-, message, pending, -, rfl⟩ := answer_cases hstep
      exact .same rfl (.of_eq rfl)
  | receive now conn =>
      obtain ⟨hc, message, up, server, hup, hreceive, rfl⟩ := receive_cases hstep
      have hcoming : s.offsetComing (.receive now conn) =
          (offsetOf message).map fun offset => (conn, offset) := by
        simp [offsetComing, hup]
      obtain ⟨hheeds, -⟩ := h.received hc hup hreceive
      cases hheeds with
      | same hm hsame => exact .same (by rw [hcoming, hm]; rfl) (.of_eq hsame)
      | met hm hmet => exact .met hc (by rw [hcoming, hm]; rfl) (.of_eq hmet)
      | attached hm hr hattached =>
          exact .attached (by rw [hcoming, hm]; rfl) hr (.of_eq hattached)
      | acknowledged hm hr hlog hacked =>
          exact .acknowledged (by rw [hcoming, hm]; rfl) hr hlog (.of_eq hacked)

end Cluster

/-! ## What a wait remembers of its replicas -/

/-- Handles keep their slots, and what was pushed stays pushed.  New handles are those that
`New` is true of. -/
structure StorageMiddleware.Grows {κ : Type} (New : ReplicaHandle κ → Prop)
    (m m' : StorageMiddleware κ) : Prop where
  next : m.nextReplicaId ≤ m'.nextReplicaId
  replicas : ∀ r' ∈ m'.replicas, (m.nextReplicaId ≤ r'.id ∧ New r') ∨
    ∃ r ∈ m.replicas, r'.id = r.id ∧ r'.slot = r.slot ∧ r.pushed <+: r'.pushed
  accepted : m.accepted <+: m'.accepted

namespace StorageMiddleware

variable {κ : Type} {m m' : StorageMiddleware κ} {New : ReplicaHandle κ → Prop}

theorem grows_of_map {f : ReplicaHandle κ → ReplicaHandle κ}
    (hf : ∀ r, (f r).id = r.id ∧ (f r).slot = r.slot ∧ r.pushed <+: (f r).pushed)
    (hnext : m'.nextReplicaId = m.nextReplicaId)
    (hreplicas : m'.replicas = m.replicas.map f) (haccepted : m.accepted <+: m'.accepted) :
    m.Grows New m' := by
  refine ⟨hnext.ge, fun r' hr' => .inr ?_, haccepted⟩
  rw [hreplicas] at hr'
  obtain ⟨r, hr, rfl⟩ := List.mem_map.mp hr'
  exact ⟨r, hr, hf r⟩

theorem grows_refl (m : StorageMiddleware κ) : m.Grows New m :=
  grows_of_map (f := fun r => r) (fun _ => ⟨rfl, rfl, List.prefix_rfl⟩) rfl (by simp)
    List.prefix_rfl

theorem grows_reply (w : WaitHandle κ) (m : StorageMiddleware κ) : m.Grows New (m.reply w).1 :=
  ⟨le_rfl, (grows_refl m).replicas, List.prefix_rfl⟩

theorem Grows.same {m'' : StorageMiddleware κ} (h : m.Grows New m') (hsame : m'.SameWaits m'') :
    m.Grows New m'' := by
  refine ⟨hsame.nextReplicaId ▸ h.next, fun r hr => h.replicas r (hsame.replicas ▸ hr), ?_⟩
  rw [hsame.accepted]
  exact h.accepted

theorem pushed_pushAll (messages : List Message) (r : ReplicaHandle κ) :
    r.pushed <+: (r.pushAll messages).pushed := by
  unfold ReplicaHandle.pushAll
  split
  · exact List.prefix_append _ _
  · exact List.prefix_rfl

theorem grows_set (now : Timepoint) (key value : Bytes) (expireMs : Option Int)
    (m : StorageMiddleware κ) : m.Grows New (m.set now key value expireMs).1 :=
  grows_of_map (fun r => ⟨r.pushAll_id _, r.pushAll_slot _, pushed_pushAll _ r⟩) rfl
    (push_replicas _ _) (List.prefix_append _ _)

theorem grows_waitFor (count : UInt64) (slot : κ) (m : StorageMiddleware κ) :
    m.Grows New (m.waitFor count slot).1 := by
  refine grows_of_map (fun r => ⟨r.pushAll_id _, r.pushAll_slot _, pushed_pushAll _ r⟩) ?_
    (m.waitFor_replicas count slot) ?_
  all_goals
    simp only [waitFor]
    split
  · rfl
  · rfl
  · exact List.prefix_rfl
  · exact List.prefix_rfl

theorem grows_modifyReplica (id : Nat) {f : ReplicaHandle κ → ReplicaHandle κ}
    (hf : ∀ r, (f r).id = r.id ∧ (f r).slot = r.slot ∧ (f r).pushed = r.pushed)
    (m : StorageMiddleware κ) : m.Grows New (m.modifyReplica id f) := by
  refine grows_of_map (fun r => ?_) rfl rfl List.prefix_rfl
  split
  · exact ⟨(hf r).1, (hf r).2.1, (hf r).2.2 ▸ List.prefix_rfl⟩
  · exact ⟨rfl, rfl, List.prefix_rfl⟩

theorem grows_replicaSetState (id : Nat) (state : ReplState) (m : StorageMiddleware κ) :
    m.Grows New (m.replicaSetState id state) :=
  m.grows_modifyReplica id (f := (·.setState state m.accepted.length)) fun _ => ⟨rfl, rfl, rfl⟩

theorem grows_acknowledge (id : Nat) (bytesAck : UInt64) (m : StorageMiddleware κ) :
    m.Grows New (m.acknowledge id bytesAck).1 := by
  have h := @grows_modifyReplica κ New id (·.acknowledge bytesAck)
    (fun _ => ⟨rfl, rfl, rfl⟩) m
  rw [acknowledge_eq]
  refine ⟨?_, ?_, ?_⟩
  · rw [replyAll_nextReplicaId]
    exact h.next
  · rw [replyAll_replicas]
    exact h.replicas
  · rw [replyAll_accepted]
    exact h.accepted

theorem grows_addReplica {slot : κ} (hnew : ∀ r : ReplicaHandle κ, r.slot = slot → New r)
    (m : StorageMiddleware κ) : m.Grows New (m.addReplica slot).2 := by
  refine ⟨Nat.le_succ _, fun r hr => ?_, List.prefix_rfl⟩
  rcases List.mem_append.mp hr with hr | hr
  · exact .inr ⟨r, hr, rfl, rfl, List.prefix_rfl⟩
  · obtain rfl := List.mem_singleton.mp hr
    exact .inl ⟨le_rfl, hnew _ rfl⟩

theorem grows_removeReplica (id : Nat) (m : StorageMiddleware κ) :
    m.Grows New (m.removeReplica id) :=
  ⟨le_rfl, fun r hr => .inr ⟨r, List.mem_of_mem_filter hr, rfl, rfl, List.prefix_rfl⟩,
    List.prefix_rfl⟩

end StorageMiddleware

/-- A step never takes back what was pushed. -/
theorem Cluster.Moves.grows {replicas : Cluster.Replicas} {s : Cluster}
    {m : StorageMiddleware Slot} {a : ClusterAction} (h : Moves replicas s m a) :
    s.server.middleware.Grows (fun r => (replicas r.slot.conn).isSome) m := by
  open StorageMiddleware in
  cases h with
  | same _ h => exact (grows_refl _).same h
  | set h => exact (grows_set _ _ _ _ _).same h
  | wait _ h => exact (grows_waitFor _ _ _).same h
  | reply _ h => exact (grows_reply _ _).same h
  | removed _ h => exact (grows_removeReplica _ _).same h
  | met hc _ h => exact (grows_addReplica (fun r hr => by rwa [hr]) _).same h
  | attached _ _ h => exact (grows_replicaSetState _ _ _).same h
  | acknowledged _ _ _ h => exact (grows_acknowledge _ _ _).same h

/-- One more element of a list is counted. -/
theorem countP_insert {α β : Type} [DecidableEq β] {f : α → β} {l : List α}
    (hnodup : (l.map f).Nodup) {p : α → Bool} {x : α} (hx : x ∈ l) (hp : p x = false) :
    l.countP (fun y => p y || decide (f y = f x)) = l.countP p + 1 := by
  induction l with
  | nil => cases hx
  | cons y l ih =>
      obtain ⟨hy, hnodup⟩ := List.nodup_cons.mp hnodup
      rcases List.mem_cons.mp hx with rfl | hx
      · have hrest : l.countP (fun y => p y || decide (f y = f x)) = l.countP p := by
          refine List.countP_congr fun z hz => ?_
          have hne : f z ≠ f x := fun heq => hy (heq ▸ List.mem_map_of_mem hz)
          simp [hne]
        simp [hrest, hp]
      · have hne : f y ≠ f x := fun heq => hy (heq ▸ List.mem_map_of_mem hx)
        rw [List.countP_cons, List.countP_cons, ih hnodup hx]
        simp only [hne, decide_false, Bool.or_false]
        omega

namespace WaitHandle

variable {κ : Type}

/-- The replicas that a wait has registered are told apart, and the handles that are still
there have grown from them. -/
structure Tracks (w : WaitHandle κ) (m : StorageMiddleware κ) : Prop where
  distinct : (w.registered.map ReplicaHandle.id).Nodup
  below : ∀ r ∈ w.registered, r.id < m.nextReplicaId
  kept : ∀ r ∈ w.registered, ∀ r' ∈ m.replicas, r'.id = r.id →
    r'.slot = r.slot ∧ r.pushed <+: r'.pushed
  entries : ∀ entry ∈ w.replicaAckWaitlist, ∃ r ∈ w.registered, entry = (r.id, r.bytesPushed)

theorem Tracks.grows {w : WaitHandle κ} {m m' : StorageMiddleware κ}
    {New : ReplicaHandle κ → Prop} (h : w.Tracks m) (hgrows : m.Grows New m') : w.Tracks m' := by
  refine ⟨h.distinct, fun r hr => (h.below r hr).trans_le hgrows.next, fun r hr r' hr' hid => ?_,
    h.entries⟩
  rcases hgrows.replicas r' hr' with ⟨hnew, -⟩ | ⟨r₁, hr₁, hid₁, hslot₁, hpushed₁⟩
  · exact absurd (h.below r hr) (by omega)
  · obtain ⟨hslot, hpushed⟩ := h.kept r hr r₁ hr₁ (hid₁.symm.trans hid)
    exact ⟨hslot₁.trans hslot, hpushed.trans hpushed₁⟩

/-- A wait that starts. -/
theorem tracks_newWait {m : StorageMiddleware κ} (count : UInt64) (slot : κ)
    (hdistinct : (m.replicas.map ReplicaHandle.id).Nodup)
    (hbelow : ∀ r ∈ m.replicas, r.id < m.nextReplicaId) : (m.newWait count slot).Tracks m := by
  refine ⟨hdistinct, hbelow, fun r hr r' hr' hid => ?_, fun entry hentry => ?_⟩
  · obtain rfl := List.inj_on_of_nodup_map hdistinct hr' hr hid
    exact ⟨rfl, List.prefix_rfl⟩
  · obtain ⟨r, hr, rfl⟩ := List.mem_map.mp hentry
    exact ⟨r, List.mem_of_mem_filter hr, rfl⟩

/-- The entry of a registered replica is the only one with its number. -/
theorem Tracks.entry_iff {w : WaitHandle κ} {m : StorageMiddleware κ} (h : w.Tracks m)
    {r : ReplicaHandle κ} (hr : r ∈ w.registered) :
    (∃ entry ∈ w.replicaAckWaitlist, entry.1 = r.id) ↔
      (r.id, r.bytesPushed) ∈ w.replicaAckWaitlist := by
  constructor
  · rintro ⟨entry, hentry, hid⟩
    obtain ⟨r', hr', rfl⟩ := h.entries entry hentry
    obtain rfl := List.inj_on_of_nodup_map h.distinct hr' hr hid
    exact hentry
  · exact fun hentry => ⟨_, hentry, rfl⟩

/-- What an offset does to a wait: nothing without an entry; an entry is taken out, and the
replica is counted when the offset is enough. -/
theorem updateReplicaAck_cases (id : Nat) (bytesAck : UInt64) (w : WaitHandle κ) :
    ((∀ entry ∈ w.replicaAckWaitlist, entry.1 ≠ id) ∧
        w.updateReplicaAck id bytesAck = (w, false)) ∨
      ∃ expected, (id, expected) ∈ w.replicaAckWaitlist ∧
        ∃ w', w'.replicaAckWaitlist =
            (w.replicaAckWaitlist.filter fun entry => entry.1 ≠ id) ∧
          w'.registered = w.registered ∧ w'.acceptedBefore = w.acceptedBefore ∧
          ((bytesAck < expected ∧ w'.replicasReady = w.replicasReady ∧
              w.updateReplicaAck id bytesAck = (w', false)) ∨
            (expected ≤ bytesAck ∧ w'.replicasReady = w.replicasReady + 1 ∧
              (w.updateReplicaAck id bytesAck).1 = w')) := by
  unfold updateReplicaAck
  split
  · next hnone =>
      refine .inl ⟨fun entry hentry => ?_, rfl⟩
      simpa using List.find?_eq_none.mp hnone entry hentry
  · next id' expected hfound =>
      obtain rfl : id' = id := by simpa using List.find?_some hfound
      refine .inr ⟨expected, List.mem_of_find?_eq_some hfound, ?_⟩
      let waitlist := w.replicaAckWaitlist.filter fun entry => entry.1 ≠ id'
      by_cases hless : bytesAck < expected
      · refine ⟨{ w with replicaAckWaitlist := waitlist }, rfl, rfl, rfl, .inl ⟨hless, rfl, ?_⟩⟩
        simp only [hless, if_true, waitlist]
      · refine ⟨{ w with
          replicaAckWaitlist := waitlist
          replicasReady := w.replicasReady + 1 }, rfl, rfl, rfl,
          .inr ⟨UInt64.not_lt.mp hless, rfl, ?_⟩⟩
        simp only [hless, if_false, waitlist]

theorem Tracks.updateReplicaAck {w : WaitHandle κ} {m : StorageMiddleware κ} (h : w.Tracks m)
    (id : Nat) (bytesAck : UInt64) : (w.updateReplicaAck id bytesAck).1.Tracks m := by
  have hsub : ∀ entry ∈ (w.updateReplicaAck id bytesAck).1.replicaAckWaitlist,
      entry ∈ w.replicaAckWaitlist := by
    unfold WaitHandle.updateReplicaAck
    grind
  have hsame : (w.updateReplicaAck id bytesAck).1.registered = w.registered := by
    unfold WaitHandle.updateReplicaAck
    grind
  refine ⟨hsame ▸ h.distinct, hsame ▸ h.below, hsame ▸ h.kept, fun entry hentry => ?_⟩
  rw [hsame]
  exact h.entries entry (hsub entry hentry)

end WaitHandle

namespace Cluster

/-- A WAIT of a client. -/
def isWait : ClusterAction → Bool
  | .request _ _ message =>
      match Command.tryParse message with
      | .ok (.wait _ _) => true
      | _ => false
  | _ => false

/-- The waits that are there after a step, or that reply in it: kept, started, or told of an
offset that a replica has acknowledged. -/
inductive WaitFrom (s : Cluster) (a : ClusterAction) : WaitHandle Slot → Prop where
  | kept {w : WaitHandle Slot} (hw : w ∈ s.server.middleware.waits)
      (ha : s.offsetComing a = none) : WaitFrom s a w
  | started {count : UInt64} {slot : Slot} (ha : isWait a) :
      WaitFrom s a (s.server.middleware.newWait count slot)
  | told {w : WaitHandle Slot} {c : Nat} {r : ReplicaHandle Slot} {up : List Message} {k : Nat}
      {offsets : List Nat} {acked : Nat} (hw : w ∈ s.server.middleware.waits)
      (ha : s.offsetComing a = some (c, UInt64.ofNat k)) (hr : s.server.handle c = some r)
      (hlog : Log (s.nodes c) r up (s.downstream c) (k :: offsets) acked) :
      WaitFrom s a (w.updateReplicaAck r.id (UInt64.ofNat k)).1

/-- What a wait replies. -/
def replyOf (w : WaitHandle Slot) : WaitReply Slot :=
  ⟨w.registered, w.acceptedBefore, toInt w.replicasReady⟩

/-- The waits and the replies after a step.  Nothing replies but a wait of this kind, and each
with its count. -/
structure WaitsFrom (s : Cluster) (a : ClusterAction) (m : StorageMiddleware Slot) : Prop where
  waits : ∀ w ∈ m.waits, WaitFrom s a w
  replies : ∀ reply ∈ m.waitReplies, reply ∈ s.server.middleware.waitReplies ∨
    ∃ w, WaitFrom s a w ∧ reply = replyOf w

theorem WaitsFrom.same {s : Cluster} {a : ClusterAction} {m m' : StorageMiddleware Slot}
    (h : WaitsFrom s a m) (hsame : m.SameWaits m') : WaitsFrom s a m' :=
  ⟨fun w hw => h.waits w (hsame.waits ▸ hw),
    fun reply hreply => h.replies reply (hsame.waitReplies ▸ hreply)⟩

theorem waitsFrom_of_eq {s : Cluster} {a : ClusterAction} {m : StorageMiddleware Slot}
    (ha : s.offsetComing a = none) (hwaits : m.waits = s.server.middleware.waits)
    (hreplies : m.waitReplies = s.server.middleware.waitReplies) : WaitsFrom s a m :=
  ⟨fun _ hw => .kept (hwaits ▸ hw) ha, fun _ hreply => .inl (hreplies ▸ hreply)⟩

/-- A wait replies. -/
theorem WaitsFrom.reply {s : Cluster} {a : ClusterAction} {m : StorageMiddleware Slot}
    (h : WaitsFrom s a m) {w : WaitHandle Slot} (hw : WaitFrom s a w) :
    WaitsFrom s a (m.reply w).1 := by
  refine ⟨fun x hx => h.waits x (List.mem_of_mem_filter hx), fun reply hreply => ?_⟩
  rcases List.mem_append.mp hreply with hreply | hreply
  · exact h.replies reply hreply
  · exact .inr ⟨w, hw, List.mem_singleton.mp hreply⟩

theorem waitsFrom_waitFor {s : Cluster} {a : ClusterAction} (ha : s.offsetComing a = none)
    (hwait : isWait a) (count : UInt64) (slot : Slot) :
    WaitsFrom s a (s.server.middleware.waitFor count slot).1 := by
  have hadded : WaitsFrom s a { s.server.middleware with
      nextWaitId := s.server.middleware.nextWaitId + 1
      waits := s.server.middleware.waits ++ [s.server.middleware.newWait count slot] } := by
    refine ⟨fun w hw => ?_, fun reply hreply => .inl hreply⟩
    rcases List.mem_append.mp hw with hw | hw
    · exact .kept hw ha
    · exact List.mem_singleton.mp hw ▸ .started hwait
  simp only [StorageMiddleware.waitFor]
  split
  · exact hadded.reply (.started hwait)
  · exact ⟨hadded.waits, hadded.replies⟩

theorem waitsFrom_acknowledge {s : Cluster} {a : ClusterAction} {c : Nat}
    {r : ReplicaHandle Slot} {up : List Message} {k : Nat} {offsets : List Nat} {acked : Nat}
    (hids : (s.server.middleware.waits.map WaitHandle.id).Nodup)
    (ha : s.offsetComing a = some (c, UInt64.ofNat k)) (hr : s.server.handle c = some r)
    (hlog : Log (s.nodes c) r up (s.downstream c) (k :: offsets) acked) :
    WaitsFrom s a (s.server.middleware.acknowledge r.id (UInt64.ofNat k)).1 := by
  rw [StorageMiddleware.acknowledge_eq_settle _ _ hids]
  refine ⟨fun x hx => ?_, fun reply hreply => ?_⟩
  · obtain ⟨p, hp, rfl⟩ := List.mem_map.mp hx
    obtain ⟨w, hw, rfl⟩ := List.mem_map.mp (List.mem_of_mem_filter hp)
    exact .told hw ha hr hlog
  · rcases List.mem_append.mp hreply with hreply | hreply
    · exact .inl hreply
    · obtain ⟨x, hx, rfl⟩ := List.mem_map.mp hreply
      obtain ⟨p, hp, rfl⟩ := List.mem_map.mp hx
      obtain ⟨w, hw, rfl⟩ := List.mem_map.mp (List.mem_of_mem_filter hp)
      exact .inr ⟨_, .told hw ha hr hlog, rfl⟩

theorem Moves.waitsFrom {replicas : Replicas} {s : Cluster} {m : StorageMiddleware Slot}
    {a : ClusterAction} (h : Moves replicas s m a)
    (hids : (s.server.middleware.waits.map WaitHandle.id).Nodup) : WaitsFrom s a m := by
  cases h with
  | same ha h => exact waitsFrom_of_eq ha h.waits h.waitReplies
  | set h => exact waitsFrom_of_eq rfl h.waits h.waitReplies
  | wait hparse h => exact (waitsFrom_waitFor rfl (by simp [isWait, hparse]) _ _).same h
  | reply hw h => exact ((waitsFrom_of_eq rfl rfl rfl).reply (.kept hw rfl)).same h
  | removed _ h => exact waitsFrom_of_eq rfl h.waits h.waitReplies
  | met _ ha h => exact waitsFrom_of_eq ha h.waits h.waitReplies
  | attached ha _ h => exact waitsFrom_of_eq ha h.waits h.waitReplies
  | acknowledged ha hr hlog h => exact (waitsFrom_acknowledge hids ha hr hlog).same h

/-! ## Handles of replicas only -/

/-- The master has handles of replicas only.  This is what honest clients make sure of, and it
holds together with the agreement of the logs. -/
structure Genuine (replicas : Replicas) (s : Cluster) : Prop where
  synchronized : s.Synchronized replicas
  genuine : ∀ r ∈ s.server.middleware.replicas, (replicas r.slot.conn).isSome

theorem Genuine.step {replicas : Replicas} {s s' : Cluster} (h : s.Genuine replicas)
    {a : ClusterAction} (ha : s.Honest a) (hstep : s.step replicas a = some s') :
    s'.Genuine replicas := by
  refine ⟨h.synchronized.step hstep, fun r hr => ?_⟩
  rcases (h.synchronized.moves ha hstep).grows.replicas r hr with
    ⟨-, hnew⟩ | ⟨r₀, hr₀, -, hslot, -⟩
  · exact hnew
  · exact hslot ▸ h.genuine r₀ hr₀

theorem genuine_initial {replicas : Replicas} {clock : Nat → Timepoint} {info : ServerInfo}
    {dbFile : Option Bytes} {server : Server} (h : Server.start clock info dbFile = some server) :
    (initial server replicas).Genuine replicas := by
  refine ⟨synchronized_initial h, ?_⟩
  obtain ⟨values, rfl⟩ := Server.start_eq h
  simp [initial]

end Cluster

end BuildYourOwnRedis
