/-
  Replication/Served.lean --- every step of the master keeps what it knows of its
  replicas.

  What comes on one connection does nothing to the replica at another, other than to offer
  it messages.  The steps on a replica's own connection are in `Replication/Log.lean`.
-/
import BuildYourOwnRedis.Replication.Registry

set_option autoImplicit false

namespace BuildYourOwnRedis

open Foundation

namespace Server

variable {replicas : Cluster.Replicas}

/-! ## One operation after the other -/

theorem offered_append (xs ys : List Message) (r : ReplicaHandle Slot) :
    r.offered (xs ++ ys) = r.offered xs ++ (r.pushAll xs).offered ys := by
  simp only [ReplicaHandle.offered, ReplicaHandle.pushAll_state]
  split <;> simp

theorem Touched.trans {c : Nat} {xs ys : List Message} {s s' s'' : Server}
    (h : Touched c xs s s') (h' : Touched c ys s' s'') : Touched c (xs ++ ys) s s'' := by
  refine ⟨?_, ?_, ?_, ?_⟩
  · rw [h'.handle, h.handle, Option.map_map]
    congr 1
    funext r
    exact (r.pushAll_append xs ys).symm
  · have hall := h.talker.trans h'.talker
    rw [h.handle] at hall
    cases hhandle : s.handle c with
    | none => simpa [hhandle] using hall
    | some r => simpa [hhandle, offered_append] using hall
  · rw [h'.accepted, h.accepted, List.filterMap_append, List.append_assoc]
  · intro message hmessage
    rcases List.mem_append.mp hmessage with hmessage | hmessage
    · exact h.pushable message hmessage
    · exact h'.pushable message hmessage

/-- What a step does that has to do with one connection only: the invariant is kept, and every
other replica is at most offered messages. -/
structure Serves (replicas : Cluster.Replicas) (conn : Nat) (s s' : Server) : Prop where
  served : s'.Served replicas
  touched : ∀ c, (replicas c).isSome → c ≠ conn → ∃ messages, Touched c messages s s'

theorem Served.refl {s : Server} (hs : s.Served replicas) (conn : Nat) :
    Serves replicas conn s s :=
  ⟨hs, fun c _ _ => ⟨[], Touched.refl c s⟩⟩

theorem Serves.trans {conn : Nat} {s s' s'' : Server} (h : Serves replicas conn s s')
    (h' : Serves replicas conn s' s'') : Serves replicas conn s s'' := by
  refine ⟨h'.served, fun c hc hother => ?_⟩
  obtain ⟨xs, hxs⟩ := h.touched c hc hother
  obtain ⟨ys, hys⟩ := h'.touched c hc hother
  exact ⟨xs ++ ys, hxs.trans hys⟩

theorem Served.serves_nextSay {s : Server} (hs : s.Served replicas) (slot : Slot)
    (message : Message) : Serves replicas slot.conn s (s.nextSay slot message) :=
  ⟨hs.nextSay slot message, fun c _ hother =>
    ⟨[], (Touched.refl c s).nextSay (Ne.symm hother) message⟩⟩

/-- What leaves the handles, and who is connected, as they are. -/
theorem Served.congr {s s' : Server} (hs : s.Served replicas)
    (hmiddleware : s'.middleware = s.middleware)
    (htalkers : ∀ c, (s'.talkers c).replicaId = (s.talkers c).replicaId ∧
      (s'.talkers c).isOpen = (s.talkers c).isOpen) : s'.Served replicas := by
  refine @Served.map replicas s s' hs htalkers ?_ ?_ (fun r => r) (fun _ => rfl)
    (fun _ => rfl) ?_ ?_ ?_
  · rw [hmiddleware]
    exact hs.numbered
  · rw [hmiddleware]
    exact hs.clients
  · rw [hmiddleware, List.map_id']
  · rw [hmiddleware]
  · rw [hmiddleware]
    exact hs.streams

theorem Served.recordRequest {s : Server} (hs : s.Served replicas) (conn : Nat)
    (message : Message) : (s.recordRequest conn message).Served replicas :=
  hs.congr rfl fun c =>
    ⟨(sameTalker_record c conn message s).replicaId, (sameTalker_record c conn message s).isOpen⟩

theorem touched_recordRequest (c conn : Nat) (message : Message) (s : Server) :
    Touched c [] s (s.recordRequest conn message) :=
  touched_of_same rfl (sameTalker_record c conn message s) rfl

theorem say_serves {s s' : Server} (hs : s.Served replicas) {conn : Nat} {message : Message}
    (h : s.say conn = some (message, s')) : Serves replicas conn s s' := by
  obtain ⟨pending, -, rfl⟩ := say_cases h
  refine ⟨hs.congr rfl fun c => ?_, fun c _ hother => ⟨[], ?_⟩⟩
  · rw [modifyTalker_talkers]
    split <;> exact ⟨rfl, rfl⟩
  · refine touched_of_same rfl (sameTalker_of_eq ?_) rfl
    rw [modifyTalker_talkers, if_neg (Ne.symm hother)]

theorem disconnect_eq (conn : Nat) (s : Server) :
    (s.disconnect conn).talkers = (fun c => if conn = c then
        { s.talkers c with replicaId := none, isOpen := false } else s.talkers c) ∧
      (s.disconnect conn).middleware = match (s.talkers conn).replicaId with
        | some id => s.middleware.removeReplica id
        | none => s.middleware := by
  unfold disconnect
  cases (s.talkers conn).replicaId with
  | none => exact ⟨funext fun c => modifyTalker_talkers conn _ s c, rfl⟩
  | some id => exact ⟨funext fun c => modifyTalker_talkers conn _ _ c, rfl⟩

/-- The replicas that are left are those of other connections. -/
theorem Served.disconnect_replicas {s : Server} (hs : s.Served replicas) (conn : Nat) :
    (s.disconnect conn).middleware.replicas =
      s.middleware.replicas.filter fun r => r.slot.conn ≠ conn := by
  have hid : ∀ r ∈ s.middleware.replicas,
      r.slot.conn = conn ↔ (s.talkers conn).replicaId = some r.id := by
    intro r hr
    constructor
    · rintro rfl
      exact (hs.owner r hr).1
    · intro hown
      obtain ⟨r', hr', hid, hconn⟩ := hs.registered conn r.id hown
      rwa [List.inj_on_of_nodup_map hs.distinct hr hr' hid.symm]
  rw [(disconnect_eq conn s).2]
  cases hown : (s.talkers conn).replicaId with
  | none =>
      have hall : ∀ r ∈ s.middleware.replicas, r.slot.conn ≠ conn := by
        intro r hr hconn
        rw [hid r hr, hown] at hconn
        cases hconn
      exact (List.filter_eq_self.mpr fun r hr => decide_eq_true (hall r hr)).symm
  | some id =>
      refine List.filter_congr fun r hr => decide_eq_decide.mpr (not_congr ?_)
      rw [hid r hr, hown]
      exact ⟨fun h => by rw [h], fun h => (Option.some.inj h).symm⟩

theorem disconnect_serves {s : Server} (hs : s.Served replicas) (conn : Nat) :
    Serves replicas conn s (s.disconnect conn) := by
  obtain ⟨htalkers, hmiddleware⟩ := disconnect_eq conn s
  have hreplicas := hs.disconnect_replicas conn
  have hrest : (s.disconnect conn).middleware.waits = s.middleware.waits ∧
      (s.disconnect conn).middleware.storage = s.middleware.storage ∧
      (s.disconnect conn).middleware.accepted = s.middleware.accepted ∧
      (s.disconnect conn).middleware.nextWaitId = s.middleware.nextWaitId ∧
      (s.disconnect conn).middleware.nextReplicaId = s.middleware.nextReplicaId := by
    rw [hmiddleware]
    split <;> exact ⟨rfl, rfl, rfl, rfl, rfl⟩
  obtain ⟨hwaits, hstorage, haccepted, hnextWait, hnextReplica⟩ := hrest
  have hmem : ∀ r ∈ (s.disconnect conn).middleware.replicas,
      r ∈ s.middleware.replicas ∧ r.slot.conn ≠ conn := by
    intro r hr
    rw [hreplicas] at hr
    exact ⟨List.mem_of_mem_filter hr, of_decide_eq_true (List.mem_filter.mp hr).2⟩
  refine ⟨⟨?_, ?_, ?_, ?_, ?_, ?_, ?_⟩, fun c _ hother => ⟨[], touched_of_same ?_ ?_ haccepted⟩⟩
  · exact hs.numbered.congr (by rw [hwaits]) hnextWait (by rw [hstorage]; exact hs.numbered.storage)
  · rw [StorageMiddleware.waiting, hwaits, hstorage]
    exact hs.clients
  · rw [hreplicas]
    exact hs.distinct.sublist (List.filter_sublist.map _)
  · intro r hr
    rw [hnextReplica]
    exact hs.below r (hmem r hr).1
  · intro r hr
    simp only [htalkers, if_neg (Ne.symm (hmem r hr).2)]
    exact hs.owner r (hmem r hr).1
  · intro c id hc
    simp only [htalkers] at hc
    split at hc
    · cases hc
    · next hne =>
        obtain ⟨r, hr, hid, rfl⟩ := hs.registered c id hc
        refine ⟨r, ?_, hid, rfl⟩
        rw [hreplicas]
        exact List.mem_filter.mpr ⟨hr, decide_eq_true (Ne.symm hne)⟩
  · intro r hr
    rw [haccepted]
    exact hs.streams r (hmem r hr).1
  · rw [handle, hreplicas, List.find?_filter, handle]
    congr 1
    funext r
    by_cases hconn : r.slot.conn = c
    · simp [hconn, hother]
    · simp [hconn]
  · refine sameTalker_of_eq ?_
    simp only [htalkers, if_neg (Ne.symm hother)]

/-! ## What comes on a connection -/

theorem register_serves {s : Server} (hs : s.Served replicas) {conn : Nat}
    (hopen : (s.talkers conn).isOpen) : Serves replicas conn s (s.register conn).2 := by
  cases hnone : (s.talkers conn).replicaId with
  | some id =>
      have hsame : (s.register conn).2 = s := by simp [register, hnone]
      rw [hsame]
      exact hs.refl conn
  | none =>
      obtain ⟨hserved, -, -, -, -, -, htouched⟩ := register_served hs hopen hnone
      exact ⟨hserved, fun c _ hother => ⟨[], htouched c hother⟩⟩

/-- The number that REPLCONF passes on is the one of its connection. -/
theorem register_own {s : Server} (hs : s.Served replicas) {conn : Nat}
    (hopen : (s.talkers conn).isOpen) :
    ((s.register conn).2.talkers conn).replicaId = some (s.register conn).1 ∧
      ((s.register conn).2.talkers conn).isOpen := by
  cases hnone : (s.talkers conn).replicaId with
  | some id => simp [register, hnone, hopen]
  | none =>
      obtain ⟨-, -, -, hisOpen, hid, -⟩ := register_served hs hopen hnone
      exact ⟨hid, hisOpen⟩

theorem acknowledge_serves {s s' : Server} (hs : s.Served replicas) {conn id : Nat}
    (hid : (s.talkers conn).replicaId = some id) {bytesAck : UInt64}
    (h : s.update (s.middleware.acknowledge id bytesAck) = some s') :
    Serves replicas conn s s' := by
  obtain ⟨hserved, haccepted, hothers⟩ := acknowledge_served hs h
  refine ⟨hserved, fun c hc hother => ⟨[], ?_⟩⟩
  obtain ⟨hsame, hhandle⟩ := hothers c hc
  refine touched_of_same ?_ hsame haccepted
  rw [hhandle]
  cases hr : s.handle c with
  | none => rfl
  | some r => simp [hs.id_ne hid hother hr]

theorem listenReplConf_serves {s s' : Server} (hs : s.Served replicas) {slot : Slot}
    (hopen : (s.talkers slot.conn).isOpen) {args : List Bytes}
    (h : s.listenReplConf slot args = some s') : Serves replicas slot.conn s s' := by
  obtain ⟨answered, result, s₂, hconf, hupdate, rfl⟩ := listenReplConf_cases h
  have hregister := register_serves hs hopen
  have hid := (register_own hs hopen).1
  generalize (s.register slot.conn).2 = s₁ at hconf hupdate hregister hid
  have hprocess : Serves replicas slot.conn s₁ s₂ := by
    rcases StorageMiddleware.replicaProcessConf_cases hconf with rfl | ⟨bytesAck, rfl⟩
    · exact Option.some.inj hupdate ▸ hregister.served.refl slot.conn
    · exact acknowledge_serves hregister.served hid hupdate
  split
  · exact (hregister.trans hprocess).trans (hprocess.served.serves_nextSay slot _)
  · exact hregister.trans hprocess

theorem listenPsync_serves {s : Server} (hs : s.Served replicas) (slot : Slot) :
    Serves replicas slot.conn s (s.listenPsync slot) := by
  unfold listenPsync
  have hfirst := hs.serves_nextSay slot (.simpleString (fullResync s.info))
  have hsecond := hfirst.served.serves_nextSay slot (.syncResponse (s.nextSay slot
    (.simpleString (fullResync s.info))).dump)
  have hboth := hfirst.trans hsecond
  simp only
  split
  · exact hboth
  · next id hid =>
      obtain ⟨hserved, -, htouched⟩ := attach_served hsecond.served hid _ rfl
      exact hboth.trans ⟨hserved, fun c _ hother => ⟨[], htouched c hother⟩⟩

theorem noneArrived : ∀ slot ∈ ([] : List Slot), replicas slot.conn = none := by
  simp

/-- A read is answered at once, or it blocks; one that names nothing is dropped. -/
theorem xread_served {s s' : Server} (hs : s.Served replicas) {slot : Slot}
    (hslot : replicas slot.conn = none) {request : StreamsReadRequest}
    {blockMs : Option UInt64} {storage : Storage Slot} {calls : List (Storage.Call Slot)}
    (h : s.middleware.storage.xread request blockMs slot = some (storage, calls))
    (hanswer : s.updateStorage (storage, calls) = some s') :
    s'.Served replicas ∧ ∀ c, (replicas c).isSome → Touched c [] s s' := by
  have harrived : ∀ x ∈ [slot], replicas x.conn = none := by simpa using hslot
  obtain ⟨result, -, ⟨rfl, rfl⟩ | ⟨ms, -, -, rfl, hblock⟩⟩ := Storage.xread_cases h
  · exact storage_served hs hanswer hs.numbered.storage harrived (List.Perm.refl _)
  · obtain ⟨resolved, -, hhandles, -⟩ := hs.numbered.storage.block hblock
    have hnumbered := hs.numbered.storage.numbered_block hblock
    rcases hhandles with ⟨-, hhandles⟩ | ⟨-, hhandles⟩
    · refine storage_served hs hanswer hnumbered harrived ?_
      have hwaiting : storage.waiting = s.middleware.storage.waiting ++ [slot] := by
        simp [Storage.waiting, hhandles, Storage.blocked]
      rw [hwaiting]
      exact List.perm_append_singleton slot s.middleware.storage.waiting
    · refine storage_served hs hanswer hnumbered noneArrived ?_
      simp [Storage.waiting, hhandles]

/-- A message of a client. -/
theorem heard_serves {s s' : Server} (hs : s.Served replicas) {now : Timepoint} {slot : Slot}
    (hslot : replicas slot.conn = none) (hopen : (s.talkers slot.conn).isOpen)
    {message : Message} (h : Heard now slot message s s') :
    Serves replicas slot.conn s s' := by
  cases h with
  | reply reply => exact hs.serves_nextSay slot reply
  | values values jobs reply =>
      have hstorage := @storage_served replicas s _ hs ({ s.middleware.storage with
        values := values, onetimeJobs := jobs }, []) rfl (hs.numbered.storage.congr rfl rfl rfl)
        [] noneArrived (List.Perm.refl _)
      have hserves : Serves replicas slot.conn s (s.setStorage { s.middleware.storage with
          values := values, onetimeJobs := jobs }) :=
        ⟨hstorage.1, fun c hc _ => ⟨[], hstorage.2 c hc⟩⟩
      exact hserves.trans (hserves.served.serves_nextSay slot reply)
  | set hparse hset =>
      obtain ⟨hserved, -, htouched⟩ :=
        set_served hs (Command.tryParse_set_fits hparse) hset
      have hserves : Serves replicas slot.conn s _ :=
        ⟨hserved, fun c _ _ => ⟨_, htouched c⟩⟩
      exact hserves.trans (hserved.serves_nextSay slot _)
  | replConf hparse hconf => exact listenReplConf_serves hs hopen hconf
  | psync hparse => exact listenPsync_serves hs slot
  | wait hparse hwait =>
      obtain ⟨hserved, -, htouched⟩ := wait_served hs hslot hwait
      exact ⟨hserved, fun c hc _ => htouched c hc⟩
  | xread hparse hread hanswer =>
      obtain ⟨hserved, htouched⟩ := xread_served hs hslot hread hanswer
      exact ⟨hserved, fun c hc _ => ⟨[], htouched c hc⟩⟩

theorem receive_serves {s s' : Server} (hs : s.Served replicas) {now : Timepoint}
    {conn : Nat} (hconn : replicas conn = none) {message : Message}
    (h : s.receive now conn message = some s') : Serves replicas conn s s' := by
  obtain ⟨hopen, h⟩ := listen_of_receive h
  have hrecord : Serves replicas conn s (s.recordRequest conn message) :=
    ⟨hs.recordRequest conn message, fun c _ _ =>
      ⟨[], touched_recordRequest c conn message s⟩⟩
  refine hrecord.trans ?_
  have hstill : ((s.recordRequest conn message).talkers conn).isOpen := by
    rw [(sameTalker_record conn conn message s).isOpen]
    exact hopen
  exact @heard_serves replicas _ _ hrecord.served now ⟨conn, some _⟩ hconn hstill message
    (listen_heard h)

/-! ## Jobs and timeouts -/

/-- Replies of blocked readers. -/
theorem wake_served {s s' : Server} (hs : s.Served replicas) {storage : Storage Slot}
    {handles : List Nat} {storage' : Storage Slot} {calls : List (Storage.Call Slot)}
    (hhandles : storage.handles = s.middleware.storage.handles)
    (hnext : storage.nextHandle = s.middleware.storage.nextHandle)
    (hnodes : storage.nodes = s.middleware.storage.nodes)
    (h : storage.wake handles = some (storage', calls))
    (hanswer : s.updateStorage (storage', calls) = some s') :
    s'.Served replicas ∧ ∀ c, (replicas c).isSome → Touched c [] s s' := by
  have hnumbered := hs.numbered.storage.congr hhandles hnext hnodes
  have hreplies := Storage.wake_replies h
  refine storage_served hs hanswer (hreplies.numbered hnumbered) noneArrived ?_
  have hperm := hreplies.waiting_perm hnumbered
  simpa [Storage.waiting, hhandles] using hperm

theorem runJob_served {s s' : Server} (hs : s.Served replicas) (h : s.runJob = some s') :
    s'.Served replicas ∧ ∀ c, (replicas c).isSome → Touched c [] s s' := by
  obtain ⟨⟨storage, calls⟩, hrun, hanswer⟩ := Option.bind_eq_some_iff.mp h
  obtain ⟨job, jobs, -, hwake⟩ := Storage.runJob_replies hrun
  refine wake_served hs ?_ ?_ ?_ hwake hanswer <;> rfl

theorem fireRead_served {s s' : Server} (hs : s.Served replicas) {i : Nat}
    (h : s.fireRead i = some s') :
    s'.Served replicas ∧ ∀ c, (replicas c).isSome → Touched c [] s s' := by
  obtain ⟨⟨storage, calls⟩, hfire, hanswer⟩ := Option.bind_eq_some_iff.mp h
  obtain ⟨handles, hwake⟩ := Storage.fire_replies hfire
  refine wake_served hs ?_ ?_ ?_ hwake hanswer <;> rfl

/-! ## The file -/

theorem callAll_dbFile {calls : List (Slot × Message)} {s s' : Server}
    (h : s.callAll calls = some s') : s'.dbFile = s.dbFile := by
  induction calls generalizing s with
  | nil =>
      obtain rfl := Option.some.inj h
      rfl
  | cons call calls ih =>
      rw [callAll] at h
      split at h
      · exact (ih h).trans rfl
      · cases h

theorem update_dbFile {result : StorageMiddleware Slot × List (Slot × Message)}
    {s s' : Server} (h : s.update result = some s') : s'.dbFile = s.dbFile :=
  (callAll_dbFile h).trans rfl

theorem answerAll_dbFile {calls : List (Storage.Call Slot)} {s s' : Server}
    (h : s.answerAll calls = some s') : s'.dbFile = s.dbFile := by
  induction calls generalizing s with
  | nil =>
      obtain rfl := Option.some.inj h
      rfl
  | cons call calls ih =>
      rw [answerAll] at h
      split at h
      · exact (ih h).trans rfl
      · split at h
        · cases h
        · exact ih h

theorem updateStorage_dbFile {result : Storage Slot × List (Storage.Call Slot)}
    {s s' : Server} (h : s.updateStorage result = some s') : s'.dbFile = s.dbFile :=
  (answerAll_dbFile h).trans rfl

theorem register_dbFile (conn : Nat) (s : Server) : (s.register conn).2.dbFile = s.dbFile := by
  unfold register
  split <;> rfl

theorem listenReplConf_dbFile {s s' : Server} {slot : Slot} {args : List Bytes}
    (h : s.listenReplConf slot args = some s') : s'.dbFile = s.dbFile := by
  obtain ⟨answered, result, s₁, -, hupdate, rfl⟩ := listenReplConf_cases h
  rw [← register_dbFile slot.conn s, ← update_dbFile hupdate]
  split <;> rfl

theorem listenPsync_dbFile (slot : Slot) (s : Server) :
    (s.listenPsync slot).dbFile = s.dbFile := by
  simp only [listenPsync]
  split <;> rfl

/-- No message changes the file. -/
theorem receive_dbFile {s s' : Server} {now : Timepoint} {conn : Nat} {message : Message}
    (h : s.receive now conn message = some s') : s'.dbFile = s.dbFile := by
  cases listen_heard (listen_of_receive h).2 with
  | reply reply => rfl
  | values values jobs reply => rfl
  | set _ hset => exact (update_dbFile hset).trans rfl
  | replConf _ hconf => exact (listenReplConf_dbFile hconf).trans rfl
  | psync => exact listenPsync_dbFile _ _
  | wait _ hwait => exact (update_dbFile hwait).trans rfl
  | xread _ _ hanswer => exact (updateStorage_dbFile hanswer).trans rfl

theorem runJob_dbFile {s s' : Server} (h : s.runJob = some s') : s'.dbFile = s.dbFile := by
  obtain ⟨result, -, hanswer⟩ := Option.bind_eq_some_iff.mp h
  exact updateStorage_dbFile hanswer

theorem fireRead_dbFile {s s' : Server} {i : Nat} (h : s.fireRead i = some s') :
    s'.dbFile = s.dbFile := by
  obtain ⟨result, -, hanswer⟩ := Option.bind_eq_some_iff.mp h
  exact updateStorage_dbFile hanswer

theorem fireWait_dbFile {s s' : Server} {i : Nat} (h : s.fireWait i = some s') :
    s'.dbFile = s.dbFile := by
  obtain ⟨result, -, hupdate⟩ := Option.bind_eq_some_iff.mp h
  exact update_dbFile hupdate

theorem disconnect_dbFile (conn : Nat) (s : Server) : (s.disconnect conn).dbFile = s.dbFile := by
  unfold disconnect
  cases (s.talkers conn).replicaId <;> rfl

theorem dump_eq {s s' : Server} (h : s'.dbFile = s.dbFile) : s'.dump = s.dump := by
  rw [dump, h, dump]

/-- A server that has just started knows no replicas. -/
theorem served_start {clock : Nat → Timepoint} {info : ServerInfo} {dbFile : Option Bytes}
    {s : Server} (h : start clock info dbFile = some s) : s.Served replicas := by
  obtain ⟨values, rfl⟩ := start_eq h
  refine ⟨⟨by simp, by simp, ⟨by simp, by simp, by simp⟩⟩, ?_, by simp, by simp, by simp, ?_,
    by simp⟩
  · simp [StorageMiddleware.waiting, Storage.waiting]
  · intro c id hc
    cases hc

end Server

end BuildYourOwnRedis
