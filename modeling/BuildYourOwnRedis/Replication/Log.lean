/-
  Replication/Log.lean --- the log of a replica: what the master has pushed to it, what it
  has processed, and what is on the way.

  `Phase` says how far the handshake of a connected replica has come, from both ends and
  the wires at once.  From PSYNC on, what the master pushes is what the replica has
  processed and what is still in flight.  Both sides count its bytes, the master when it
  pushes a message and the replica when it has processed it; a GETACK is answered with the
  count before it.
-/
import BuildYourOwnRedis.Replication.Served
import BuildYourOwnRedis.Resp.Framing

set_option autoImplicit false

namespace BuildYourOwnRedis

open Foundation

/-! ## Phases -/

/-- The talker has processed nothing.  So it is until the dump is loaded, whatever has come
before. -/
structure ReplicaTalker.Unsynced (node : ReplicaTalker) : Prop where
  processed : node.processed = []
  applied : node.applied = []
  bytesIn : node.bytesIn = 0

/-- Nothing has been acknowledged.  A handle is so until the handshake of its replica is over.
-/
structure ReplicaHandle.Unheard {κ : Type} (h : ReplicaHandle κ) : Prop where
  bytesAck : h.bytesAck = 0
  acks : h.acks = []

/-- The handshake up to PSYNC: the state of the talker, whether the master has a handle, and
what is on the way to the master and from it. -/
inductive Greeting : ReplicaTalkerState → Bool → List Message → List Message → Prop where
  | ping : Greeting .waitFirstPong false [Command.ping.construct] []
  | pong : Greeting .waitFirstPong false [] [.simpleString (ascii "PONG")]
  | port (tcpPort : Int) :
      Greeting .waitOkForReplConfPort false [(replConfPort tcpPort).construct] []
  | portOk : Greeting .waitOkForReplConfPort true [] [.simpleString (ascii "OK")]
  | capa : Greeting .waitOkForReplConfCapa true [replConfCapa.construct] []
  | capaOk : Greeting .waitOkForReplConfCapa true [] [.simpleString (ascii "OK")]
  | psync : Greeting .waitForPsyncAnswer true [psync.construct] []

/-- A replica that gets commands.  `offsets` are those on the way to the master, `acked` is
the last that has come. -/
structure Log (node : ReplicaTalker) (h : ReplicaHandle Slot) (up down : List Message)
    (offsets : List Nat) (acked : Nat) : Prop where
  pushed : h.pushed = node.processed ++ down
  applied : node.applied = node.processed.filterMap setOf
  bytesIn : node.bytesIn = UInt64.ofNat (bytes node.processed)
  up : up = offsets.map fun k => (replConfAck (UInt64.ofNat k)).construct
  /-- offsets do not go back -/
  sorted : (acked :: offsets).Pairwise (· ≤ ·)
  below : ∀ k ∈ acked :: offsets, k ≤ bytes node.processed
  bytesAck : h.bytesAck.toNat ≤ acked
  acks : ∀ a ∈ h.acks, a.toNat ≤ acked
  /-- an offset that does not fit an `int` is lost -/
  exact : bytes h.pushed < 2 ^ 31 → h.bytesAck.toNat = acked

/-- The replica has processed the next message of its log; `more` is its answer. -/
theorem Log.process {node node' : ReplicaTalker} {h : ReplicaHandle Slot} {m : Message}
    {up down : List Message} {offsets : List Nat} {acked : Nat}
    (hlog : Log node h up (m :: down) offsets acked)
    (hprocessed : node'.processed = node.processed ++ [m])
    (happlied : node'.applied = node.applied ++ (setOf m).toList)
    (hbytesIn : node'.bytesIn = node.bytesIn + UInt64.ofNat m.size)
    {more : List Message} {asked : List Nat}
    (hmore : (more = [] ∧ asked = []) ∨ (more = [(replConfAck node.bytesIn).construct] ∧
      asked = [bytes node.processed])) :
    Log node' h (up ++ more) down (offsets ++ asked) acked := by
  have hbytes : bytes node'.processed = bytes node.processed + m.size := by
    rw [hprocessed]
    simp
  have hasked : ∀ k ∈ asked, k = bytes node.processed := by
    rcases hmore with ⟨-, rfl⟩ | ⟨-, rfl⟩ <;> simp
  refine ⟨?_, ?_, ?_, ?_, ?_, ?_, hlog.bytesAck, hlog.acks, hlog.exact⟩
  · rw [hprocessed, hlog.pushed, List.append_assoc]
    rfl
  · rw [happlied, hprocessed, hlog.applied, List.filterMap_append]
    cases hset : setOf m <;> simp [hset]
  · rw [hbytesIn, hbytes, hlog.bytesIn, UInt64.ofNat_add]
  · rw [hlog.up, List.map_append]
    rcases hmore with ⟨rfl, rfl⟩ | ⟨rfl, rfl⟩
    · rfl
    · rw [hlog.bytesIn]
      rfl
  · rw [← List.cons_append, List.pairwise_append]
    refine ⟨hlog.sorted, ?_, fun a ha b hb => hasked b hb ▸ hlog.below a ha⟩
    rcases hmore with ⟨-, rfl⟩ | ⟨-, rfl⟩ <;> simp
  · intro k hk
    rw [hbytes]
    rw [← List.cons_append] at hk
    rcases List.mem_append.mp hk with hk | hk
    · exact Nat.le_add_right_of_le (hlog.below k hk)
    · rw [hasked k hk]
      exact Nat.le_add_right _ _

/-- How far a replica that is connected has come, and what is on the way to and from it then.
`dump` is what PSYNC sends; behind it comes what has been pushed meanwhile. -/
inductive Phase (dump : Bytes) (node : ReplicaTalker) :
    Option (ReplicaHandle Slot) → List Message → List Message → Prop where
  | greeting {handle : Option (ReplicaHandle Slot)} {up down : List Message}
      (hgreeting : Greeting node.state handle.isSome up down) (hnode : node.Unsynced)
      (hmet : ∀ h ∈ handle, h.state = .met ∧ h.Unheard) : Phase dump node handle up down
  | answered {h : ReplicaHandle Slot} {text : Bytes}
      (hstate : node.state = .waitForPsyncAnswer) (hnode : node.Unsynced)
      (hwrite : h.state = .write) (hunheard : h.Unheard) :
      Phase dump node (some h) [] (.simpleString text :: .syncResponse dump :: h.pushed)
  | dump {h : ReplicaHandle Slot} (hstate : node.state = .waitForRdbFileSync)
      (hnode : node.Unsynced) (hwrite : h.state = .write) (hunheard : h.Unheard) :
      Phase dump node (some h) [] (.syncResponse dump :: h.pushed)
  /-- the dump could not be loaded; what comes behind it is dropped -/
  | stuck {h : ReplicaHandle Slot} {down : List Message}
      (hstate : node.state = .waitForRdbFileSync) (hnode : node.Unsynced)
      (hwrite : h.state = .write) (hunheard : h.Unheard)
      (hdown : ∀ m ∈ down, Pushable m) : Phase dump node (some h) [] down
  | synced {h : ReplicaHandle Slot} {up down : List Message} {offsets : List Nat} {acked : Nat}
      (hstate : node.state = .waitServerCommands) (hwrite : h.state = .write)
      (hlog : Log node h up down offsets acked) : Phase dump node (some h) up down

namespace Phase

variable {dump : Bytes} {node node' : ReplicaTalker} {handle : Option (ReplicaHandle Slot)}
  {up down : List Message}

/-! ## Steps of others -/

theorem pushAll_of_write {h : ReplicaHandle Slot} (hwrite : h.state = .write)
    (messages : List Message) :
    (h.pushAll messages).pushed = h.pushed ++ messages ∧ h.offered messages = messages ∧
      (h.pushAll messages).state = .write ∧ (h.pushAll messages).bytesAck = h.bytesAck ∧
      (h.pushAll messages).acks = h.acks := by
  simp [ReplicaHandle.pushAll, ReplicaHandle.offered, hwrite]

/-- Only what the talker has processed counts. -/
theorem congr (h : Phase dump node handle up down) (hstate : node'.state = node.state)
    (hprocessed : node'.processed = node.processed) (happlied : node'.applied = node.applied)
    (hbytesIn : node'.bytesIn = node.bytesIn) : Phase dump node' handle up down := by
  have hunsynced : node.Unsynced → node'.Unsynced := fun hnode =>
    ⟨hprocessed.trans hnode.processed, happlied.trans hnode.applied,
      hbytesIn.trans hnode.bytesIn⟩
  cases h with
  | greeting hgreeting hnode hmet =>
      exact .greeting (hstate ▸ hgreeting) (hunsynced hnode) hmet
  | answered hs hnode hwrite hunheard =>
      exact .answered (hstate.trans hs) (hunsynced hnode) hwrite hunheard
  | dump hs hnode hwrite hunheard =>
      exact .dump (hstate.trans hs) (hunsynced hnode) hwrite hunheard
  | stuck hs hnode hwrite hunheard hdown =>
      exact .stuck (hstate.trans hs) (hunsynced hnode) hwrite hunheard hdown
  | synced hs hwrite hlog =>
      refine .synced (hstate.trans hs) hwrite ⟨?_, ?_, ?_, hlog.up, hlog.sorted, ?_,
        hlog.bytesAck, hlog.acks, hlog.exact⟩
      · rw [hprocessed]
        exact hlog.pushed
      · rw [hprocessed, happlied]
        exact hlog.applied
      · rw [hprocessed, hbytesIn]
        exact hlog.bytesIn
      · rw [hprocessed]
        exact hlog.below

/-- Messages are offered to the replica. -/
theorem offered (h : Phase dump node handle up down) {messages : List Message}
    (hpushable : ∀ m ∈ messages, Pushable m) :
    Phase dump node (handle.map fun r => r.pushAll messages) up
      (down ++ (handle.map fun r => r.offered messages).getD []) := by
  cases h with
  | greeting hgreeting hnode hmet =>
      have hsame : (handle.map fun r => r.pushAll messages) = handle := by
        cases handle with
        | none => rfl
        | some r => simp [ReplicaHandle.pushAll, (hmet r rfl).1]
      have hnothing : (handle.map fun r => r.offered messages).getD [] = [] := by
        cases handle with
        | none => rfl
        | some r => simp [ReplicaHandle.offered, (hmet r rfl).1]
      rw [hsame, hnothing, List.append_nil]
      exact .greeting hgreeting hnode hmet
  | @answered h _ hstate hnode hwrite hunheard =>
      obtain ⟨hpushed, hoffered, hwrite', hsame, hacks⟩ := pushAll_of_write hwrite messages
      simp only [Option.map_some, Option.getD_some, hoffered, List.cons_append, ← hpushed]
      exact .answered hstate hnode hwrite' ⟨hsame.trans hunheard.bytesAck,
        hacks.trans hunheard.acks⟩
  | @dump h hstate hnode hwrite hunheard =>
      obtain ⟨hpushed, hoffered, hwrite', hsame, hacks⟩ := pushAll_of_write hwrite messages
      simp only [Option.map_some, Option.getD_some, hoffered, List.cons_append, ← hpushed]
      exact .dump hstate hnode hwrite' ⟨hsame.trans hunheard.bytesAck,
        hacks.trans hunheard.acks⟩
  | @stuck h _ hstate hnode hwrite hunheard hdown =>
      obtain ⟨-, hoffered, hwrite', hsame, hacks⟩ := pushAll_of_write hwrite messages
      simp only [Option.map_some, Option.getD_some, hoffered]
      refine .stuck hstate hnode hwrite' ⟨hsame.trans hunheard.bytesAck,
        hacks.trans hunheard.acks⟩ fun m hm => ?_
      rcases List.mem_append.mp hm with hm | hm
      · exact hdown m hm
      · exact hpushable m hm
  | @synced h _ _ _ _ hstate hwrite hlog =>
      obtain ⟨hpushed, hoffered, hwrite', hsame, hacks⟩ := pushAll_of_write hwrite messages
      simp only [Option.map_some, Option.getD_some, hoffered]
      refine .synced hstate hwrite' ⟨?_, hlog.applied, hlog.bytesIn, hlog.up, hlog.sorted,
        hlog.below, ?_, ?_, ?_⟩
      · rw [hpushed, hlog.pushed, List.append_assoc]
      · rw [hsame]
        exact hlog.bytesAck
      · rw [hacks]
        exact hlog.acks
      · intro hfits
        rw [hsame]
        rw [hpushed, bytes_append] at hfits
        exact hlog.exact (Nat.lt_of_le_of_lt (Nat.le_add_right _ _) hfits)

/-! ## Steps of the replica -/

theorem pong_lower : lowerSimpleString (.simpleString (ascii "PONG")) = some (ascii "pong") := by
  decide

theorem ok_lower : lowerSimpleString (.simpleString (ascii "OK")) = some (ascii "ok") := by
  decide

/-- A dump that is loaded changes the storage and at most the state, so the counters and what
has been processed stay as they are. -/
theorem load_cases (clock : Nat → Timepoint) (bytes : Bytes) (node : ReplicaTalker) :
    ∃ storage, node.load clock bytes = { node with storage := storage } ∨
      node.load clock bytes = { node with storage := storage, state := .waitServerCommands } := by
  unfold ReplicaTalker.load
  rcases rdbParse clock bytes with ⟨restored, e | ⟨⟩⟩
  · exact ⟨_, .inl rfl⟩
  · exact ⟨_, .inr rfl⟩

/-- What a replica does with a command of the master. -/
theorem process_pushable {now : Timepoint} {m : Message} (hm : Pushable m) :
    ∃ storage more, node.process now m = some { node with
        storage := storage
        pending := node.pending ++ more
        bytesIn := node.bytesIn + UInt64.ofNat m.size
        processed := node.processed ++ [m]
        applied := node.applied ++ (setOf m).toList } ∧
      (more = [] ∨ more = [(replConfAck node.bytesIn).construct]) := by
  cases hm with
  | getAck =>
      have hget : toLowerCase (ascii "GETACK") = ascii "getack" := by decide
      refine ⟨node.storage, [(replConfAck node.bytesIn).construct], ?_, .inr rfl⟩
      simp [ReplicaTalker.process, tryParse_getAck, ReplicaTalker.execute, hget,
        ReplicaTalker.nextSay]
  | @set key value expireMs hfits =>
      refine ⟨node.storage.set now key value expireMs, [], ?_, .inl rfl⟩
      rw [setOf_set key value hfits]
      simp only [ReplicaTalker.process, Command.tryParse_construct_set key value hfits,
        ReplicaTalker.execute, Option.map_some, List.append_nil, Option.toList_some]

/-- A message of the master comes to the replica. -/
theorem deliver {m : Message} (h : Phase dump node handle up (m :: down))
    (hpushable : ∀ r ∈ handle, ∀ x ∈ r.pushed, Pushable x) {clock : Nat → Timepoint}
    (hlisten : node.listen clock m = some node') :
    ∃ more, node'.pending = node.pending ++ more ∧ Phase dump node' handle (up ++ more) down := by
  cases h with
  | greeting hgreeting hnode hmet =>
      generalize hstate : node.state = state at hgreeting
      generalize hknown : handle.isSome = known at hgreeting
      unfold ReplicaTalker.listen at hlisten
      rw [hstate] at hlisten
      cases hgreeting with
      | pong =>
          simp only [pong_lower, if_true, Option.some.injEq] at hlisten
          subst hlisten
          exact ⟨_, rfl, .greeting (hknown ▸ .port _)
            ⟨hnode.processed, hnode.applied, hnode.bytesIn⟩ hmet⟩
      | portOk =>
          simp only [ok_lower, if_true, Option.some.injEq] at hlisten
          subst hlisten
          exact ⟨_, rfl, .greeting (hknown ▸ .capa)
            ⟨hnode.processed, hnode.applied, hnode.bytesIn⟩ hmet⟩
      | capaOk =>
          simp only [ok_lower, if_true, Option.some.injEq] at hlisten
          subst hlisten
          exact ⟨_, rfl, .greeting (hknown ▸ .psync)
            ⟨hnode.processed, hnode.applied, hnode.bytesIn⟩ hmet⟩
  | answered hstate hnode hwrite hunheard =>
      simp only [ReplicaTalker.listen, hstate, Option.some.injEq] at hlisten
      subst hlisten
      exact ⟨[], (List.append_nil _).symm, .dump rfl
        ⟨hnode.processed, hnode.applied, hnode.bytesIn⟩ hwrite hunheard⟩
  | dump hstate hnode hwrite hunheard =>
      simp only [ReplicaTalker.listen, hstate, Option.some.injEq] at hlisten
      subst hlisten
      obtain ⟨storage, hload | hload⟩ := load_cases clock _ node
      all_goals
        rw [hload]
        refine ⟨[], (List.append_nil _).symm, ?_⟩
      · exact .stuck hstate ⟨hnode.processed, hnode.applied, hnode.bytesIn⟩ hwrite hunheard
          (hpushable _ rfl)
      · refine @Phase.synced _ _ _ _ _ [] 0 rfl hwrite ⟨?_, ?_, ?_, rfl, by simp, by simp, ?_, ?_,
          fun _ => ?_⟩
        · simp [hnode.processed]
        · simp [hnode.processed, hnode.applied]
        · simp [hnode.processed, hnode.bytesIn]
        · simp [hunheard.bytesAck]
        · simp [hunheard.acks]
        · simp [hunheard.bytesAck]
  | stuck hstate hnode hwrite hunheard hdown =>
      obtain ⟨elements, rfl⟩ := (hdown m List.mem_cons_self).isArray
      simp only [ReplicaTalker.listen, hstate, Option.some.injEq] at hlisten
      subst hlisten
      exact ⟨[], (List.append_nil _).symm, .stuck hstate hnode hwrite hunheard
        fun x hx => hdown x (List.mem_cons_of_mem _ hx)⟩
  | synced hstate hwrite hlog =>
      simp only [ReplicaTalker.listen, hstate] at hlisten
      have hm : Pushable m := by
        refine hpushable _ rfl m ?_
        rw [hlog.pushed]
        simp
      obtain ⟨storage, more, hprocess, hmore⟩ := @process_pushable node (clock 0) m hm
      obtain rfl := Option.some.inj (hprocess.symm.trans hlisten)
      refine ⟨more, rfl, ?_⟩
      rcases hmore with rfl | rfl
      · exact .synced hstate hwrite (hlog.process rfl rfl rfl (.inl ⟨rfl, rfl⟩))
      · exact .synced hstate hwrite (hlog.process rfl rfl rfl (.inr ⟨rfl, rfl⟩))

end Phase

/-! ## Steps of the master -/

namespace Server

variable {replicas : Cluster.Replicas} {c : Nat}

/-- What comes from a replica: `more` is queued for it, and no SET is accepted. -/
structure Replied (replicas : Cluster.Replicas) (c : Nat) (more : List Message)
    (s s' : Server) : Prop where
  serves : Serves replicas c s s'
  pending : (s'.talkers c).pending = (s.talkers c).pending ++ more
  isOpen : (s'.talkers c).isOpen = (s.talkers c).isOpen
  accepted : s'.middleware.accepted = s.middleware.accepted

theorem Replied.trans {more more' : List Message} {s s' s'' : Server}
    (h : Replied replicas c more s s') (h' : Replied replicas c more' s' s'') :
    Replied replicas c (more ++ more') s s'' :=
  ⟨h.serves.trans h'.serves, by rw [h'.pending, h.pending, List.append_assoc],
    h'.isOpen.trans h.isOpen, h'.accepted.trans h.accepted⟩

theorem replied_nextSay {s : Server} (hs : s.Served replicas) {slot : Slot}
    (hslot : slot.conn = c) (message : Message) :
    Replied replicas c [message] s (s.nextSay slot message) := by
  have hsame := sameTalker_nextSay c slot message s
  rw [show callsTo c [(slot, message)] = [message] by simp [callsTo, hslot]] at hsame
  exact ⟨hslot ▸ hs.serves_nextSay slot message, hsame.pending, hsame.isOpen, rfl⟩

theorem replied_recordRequest {s : Server} (hs : s.Served replicas) (message : Message) :
    Replied replicas c [] s (s.recordRequest c message) := by
  have hsame := sameTalker_record c c message s
  exact ⟨⟨hs.recordRequest c message, fun c' _ _ =>
    ⟨[], touched_recordRequest c' c message s⟩⟩, hsame.pending, hsame.isOpen, rfl⟩

/-- REPLCONF of a connection that has no handle. -/
theorem replied_register {s : Server} (hs : s.Served replicas)
    (hopen : (s.talkers c).isOpen) (hnone : s.handle c = none) :
    Replied replicas c [] s (s.register c).2 ∧
      (s.register c).2.handle c = some
        { id := (s.register c).1, state := .met, slot := ⟨c, none⟩ } ∧
      (s.register c).2.middleware = (s.middleware.addReplica ⟨c, none⟩).2 := by
  have hid : (s.talkers c).replicaId = none := by
    refine Option.not_isSome_iff_eq_none.mp fun hsome => ?_
    obtain ⟨id, hid⟩ := Option.isSome_iff_exists.mp hsome
    obtain ⟨r, hr, -⟩ := hs.own hid
    rw [hnone] at hr
    cases hr
  obtain ⟨-, haccepted, hpending, hisOpen, -, hhandle, -⟩ := register_served hs hopen hid
  refine ⟨⟨register_serves hs hopen, by rw [hpending, List.append_nil],
    hisOpen.trans hopen.symm, haccepted⟩, hhandle, ?_⟩
  simp [register, hid, modifyTalker]

/-- REPLCONF of a connection that has one. -/
theorem register_handle {s : Server} (hs : s.Served replicas) {r : ReplicaHandle Slot}
    (hr : s.handle c = some r) : s.register c = (r.id, s) := by
  obtain ⟨hmem, rfl⟩ := mem_of_handle hr
  simp [register, (hs.owner r hmem).1]

/-- The handle of a connection looks at its REPLCONF. -/
theorem replicaProcessConf_handle {s : Server} {r : ReplicaHandle Slot}
    (hr : s.handle c = some r) (args : List Bytes) :
    s.middleware.replicaProcessConf r.id args = s.middleware.processConf r.id args :=
  if_pos (List.any_eq_true.mpr ⟨r, (mem_of_handle hr).1, decide_eq_true rfl⟩)

/-- What a message does when it can be parsed. -/
theorem receive_command {now : Timepoint} {message : Message} {command : Command}
    {s s' : Server} (hparse : Command.tryParse message = .ok command)
    (h : s.receive now c message = some s') :
    (s.talkers c).isOpen ∧ ∃ slot : Slot, slot.conn = c ∧
      (s.recordRequest c message).execute now slot command = some s' := by
  unfold receive listen at h
  split at h
  · next hopen =>
      simp only [hparse] at h
      exact ⟨hopen, _, rfl, h⟩
  · cases h

/-- REPLCONF that is no offset is answered, behind registering. -/
theorem listenReplConf_name {s : Server} {slot : Slot} {r : ReplicaHandle Slot} {id : Nat}
    {s₁ : Server} (hregister : s.register slot.conn = (id, s₁))
    (hr : s₁.handle slot.conn = some r) (hid : r.id = id) {name : Bytes}
    (hname : toLowerCase name ≠ ascii "ack") (args : List Bytes) :
    s.listenReplConf slot (name :: args) =
      some (s₁.nextSay slot (.simpleString (ascii "OK"))) := by
  subst hid
  simp [listenReplConf, processConf, hregister, replicaProcessConf_handle hr,
    StorageMiddleware.processConf, hname, Server.update, callAll]

/-- An offset is taken, unless it does not fit an `int`. -/
theorem listenReplConf_ack {s : Server} (hs : s.Served replicas) {slot : Slot}
    {r : ReplicaHandle Slot} (hr : s.handle slot.conn = some r) (n : Nat) :
    s.listenReplConf slot [ascii "ACK", decimal n] =
      if n < 2 ^ 31 then s.update (s.middleware.acknowledge r.id (toSizeT n)) else some s := by
  have hname : toLowerCase (ascii "ACK") = ascii "ack" := by decide
  simp only [listenReplConf, processConf, register_handle hs hr, replicaProcessConf_handle hr,
    StorageMiddleware.processConf, hname, if_true]
  by_cases hfits : n < 2 ^ 31
  · rw [if_pos hfits]
    simp [parseInt_decimal hfits]
  · rw [if_neg hfits]
    simp [parseInt_decimal_eq_none (Nat.le_of_not_lt hfits), Server.update, callAll]

theorem replied_acknowledge {s s' : Server} (hs : s.Served replicas) (hc : (replicas c).isSome)
    {r : ReplicaHandle Slot} (hr : s.handle c = some r) {bytesAck : UInt64}
    (h : s.update (s.middleware.acknowledge r.id bytesAck) = some s') :
    Replied replicas c [] s s' ∧ s'.handle c = some (r.acknowledge bytesAck) := by
  obtain ⟨hmem, rfl⟩ := mem_of_handle hr
  obtain ⟨-, haccepted, hothers⟩ := acknowledge_served hs h
  obtain ⟨hsame, hhandle⟩ := hothers _ hc
  refine ⟨⟨acknowledge_serves hs (hs.owner r hmem).1 h, hsame.pending, hsame.isOpen,
    haccepted⟩, ?_⟩
  rw [hhandle, hr]
  simp

/-- PSYNC of a connection that has a handle. -/
theorem replied_psync {s : Server} (hs : s.Served replicas) {slot : Slot} (hslot : slot.conn = c)
    {r : ReplicaHandle Slot} (hr : s.handle c = some r) :
    ∃ text, Replied replicas c [.simpleString text, .syncResponse s.dump] s
        (s.listenPsync slot) ∧
      (s.listenPsync slot).handle c = some (r.setState .write s.middleware.accepted.length) ∧
      (s.listenPsync slot).middleware = s.middleware.replicaSetState r.id .write := by
  subst hslot
  have hfirst := @replied_nextSay replicas slot.conn s hs slot rfl
    (.simpleString (fullResync s.info))
  have hsecond := @replied_nextSay replicas slot.conn _ hfirst.serves.served slot rfl
    (.syncResponse (s.nextSay slot (.simpleString (fullResync s.info))).dump)
  have hboth := hfirst.trans hsecond
  have hid : (((s.nextSay slot (.simpleString (fullResync s.info))).nextSay slot
      (.syncResponse (s.nextSay slot (.simpleString (fullResync s.info))).dump)).talkers
      slot.conn).replicaId = some r.id := by
    obtain ⟨hmem, hconn⟩ := mem_of_handle hr
    have hown := (hs.owner r hmem).1
    rw [hconn] at hown
    rw [(sameTalker_nextSay _ _ _ _).replicaId, (sameTalker_nextSay _ _ _ _).replicaId, hown]
  obtain ⟨hserved, hhandle, htouched⟩ := attach_served hsecond.serves.served hid _ rfl
  refine ⟨fullResync s.info, ?_, ?_, ?_⟩
  · simp only [listenPsync, hid]
    exact ⟨hboth.serves.trans ⟨hserved, fun c' _ hother => ⟨[], htouched c' hother⟩⟩,
      hboth.pending, hboth.isOpen, hboth.accepted⟩
  · simp only [listenPsync, hid]
    rw [hhandle]
    exact congrArg (Option.map _) hr
  · simp only [listenPsync, hid]
    rfl

end Server

/-! ## What the master gets from a replica -/

/-- An offset has come. -/
theorem Log.acknowledge {node : ReplicaTalker} {h h' : ReplicaHandle Slot}
    {up down : List Message} {k : Nat} {offsets : List Nat} {acked : Nat}
    (hlog : Log node h up down (k :: offsets) acked)
    (hh' : h' = if (UInt64.ofNat k).toNat < 2 ^ 31 then
      h.acknowledge (toSizeT (UInt64.ofNat k).toNat) else h) :
    Log node h' (offsets.map fun k => (replConfAck (UInt64.ofNat k)).construct) down offsets
      k := by
  have hmod : (UInt64.ofNat k).toNat ≤ k := by
    rw [UInt64.toNat_ofNat']
    exact Nat.mod_le _ _
  obtain ⟨hacked, hsorted⟩ := List.pairwise_cons.mp hlog.sorted
  have hk : acked ≤ k := hacked k List.mem_cons_self
  have hpushed : h'.pushed = h.pushed := by
    rw [hh']
    split <;> rfl
  refine ⟨hpushed.trans hlog.pushed, hlog.applied, hlog.bytesIn, rfl, hsorted,
    fun j hj => hlog.below j (List.mem_cons_of_mem _ hj), ?_, ?_, ?_⟩
  · rw [hh']
    split
    · next hfits =>
        simp only [ReplicaHandle.acknowledge, toNat_toSizeT (Nat.lt_trans hfits (by decide))]
        exact hmod
    · exact hlog.bytesAck.trans hk
  · intro a ha
    rw [hh'] at ha
    split at ha
    · next hfits =>
        simp only [ReplicaHandle.acknowledge, List.mem_append, List.mem_singleton] at ha
        rcases ha with ha | rfl
        · exact (hlog.acks a ha).trans hk
        · rw [toNat_toSizeT (Nat.lt_trans hfits (by decide))]
          exact hmod
    · exact (hlog.acks a ha).trans hk
  · intro hfits
    rw [hpushed] at hfits
    have hbelow := hlog.below k (by simp)
    have htotal : bytes node.processed ≤ bytes h.pushed := by
      rw [hlog.pushed, bytes_append]
      exact Nat.le_add_right _ _
    have hexact : (UInt64.ofNat k).toNat = k := by
      rw [UInt64.toNat_ofNat']
      exact Nat.mod_eq_of_lt (by omega)
    have hlt : (UInt64.ofNat k).toNat < 2 ^ 31 := by omega
    rw [hh', if_pos hlt]
    exact (toNat_toSizeT (Nat.lt_trans hlt (by decide))).trans hexact

theorem tryParse_replConfAck (k : UInt64) : Command.tryParse (replConfAck k).construct =
    .ok (.replConf [ascii "ACK", decimal k.toNat]) :=
  Command.tryParse_construct_replConf _

/-- The offset that a message acknowledges. -/
def offsetOf (message : Message) : Option UInt64 :=
  match Command.tryParse message with
  | .ok (.replConf (name :: value :: _)) =>
      if toLowerCase name = ascii "ack" then (parseInt value).map toSizeT else none
  | _ => none

theorem offsetOf_replConf (name value : Bytes) :
    offsetOf (Command.replConf [name, value]).construct =
      if toLowerCase name = ascii "ack" then (parseInt value).map toSizeT else none := by
  rw [offsetOf, Command.tryParse_construct_replConf]

theorem offsetOf_replConfAck (k : UInt64) : offsetOf (replConfAck k).construct =
    if k.toNat < 2 ^ 31 then some k else none := by
  have hname : toLowerCase (ascii "ACK") = ascii "ack" := by decide
  rw [replConfAck, offsetOf_replConf, if_pos hname]
  by_cases hfits : k.toNat < 2 ^ 31
  · rw [if_pos hfits, parseInt_decimal hfits, Option.map_some,
      UInt64.toNat_inj.mp (toNat_toSizeT (Nat.lt_trans hfits (by decide)))]
  · rw [if_neg hfits, parseInt_decimal_eq_none (Nat.le_of_not_lt hfits), Option.map_none]

/-- What the master does with its replicas when a message of a replica comes.  An offset
is the next of the log. -/
inductive Heeds (node : ReplicaTalker) (c : Nat) (m : Message) (down : List Message)
    (s s' : Server) : Prop where
  | same (hm : offsetOf m = none) (h : s'.middleware = s.middleware)
  | met (hm : offsetOf m = none) (h : s'.middleware = (s.middleware.addReplica ⟨c, none⟩).2)
  | attached {r : ReplicaHandle Slot} (hm : offsetOf m = none) (hr : s.handle c = some r)
      (h : s'.middleware = s.middleware.replicaSetState r.id .write)
  | acknowledged {r : ReplicaHandle Slot} {up : List Message} {k : Nat} {offsets : List Nat}
      {acked : Nat} (hm : offsetOf m = some (UInt64.ofNat k)) (hr : s.handle c = some r)
      (hlog : Log node r up down (k :: offsets) acked)
      (h : s'.middleware = (s.middleware.acknowledge r.id (UInt64.ofNat k)).1)

/-- A message of the replica comes. -/
theorem Phase.receive {replicas : Cluster.Replicas} {c : Nat} {node : ReplicaTalker}
    {s s' : Server} {now : Timepoint} {m : Message} {up down : List Message}
    (hs : s.Served replicas) (hc : (replicas c).isSome)
    (h : Phase s.dump node (s.handle c) (m :: up) down)
    (hreceive : s.receive now c m = some s') :
    Heeds node c m down s s' ∧ ∃ more, Server.Replied replicas c more s s' ∧
      Phase s.dump node (s'.handle c) up (down ++ more) := by
  have hrecorded := Server.replied_recordRequest (c := c) hs m
  have hserved := hrecorded.serves.served
  have hsame : (s.recordRequest c m).handle c = s.handle c := rfl
  generalize hhandle : s.handle c = handle at h
  rw [hhandle] at hsame
  cases h with
  | greeting hgreeting hnode hmet =>
      generalize hstate : node.state = state at hgreeting
      generalize hknown : handle.isSome = known at hgreeting
      cases hgreeting with
      | ping =>
          obtain ⟨-, slot, hslot, hexecute⟩ := Server.receive_command rfl hreceive
          obtain rfl := Option.some.inj hexecute
          refine ⟨.same rfl rfl, _, hrecorded.trans (Server.replied_nextSay hserved hslot _), ?_⟩
          refine hsame.symm ▸ .greeting ?_ hnode hmet
          rw [hstate, hknown]
          exact .pong
      | port tcpPort =>
          obtain ⟨hopen, slot, rfl, hexecute⟩ := Server.receive_command
            (Command.tryParse_construct_replConf _) hreceive
          obtain rfl := Option.not_isSome_iff_eq_none.mp (Bool.eq_false_iff.mp hknown)
          have hname : toLowerCase (ascii "listening-port") ≠ ascii "ack" := by decide
          obtain ⟨hregistered, hmade, hmiddleware⟩ := Server.replied_register hserved
            (hrecorded.isOpen ▸ hopen) hsame
          obtain rfl := Option.some.inj ((Server.listenReplConf_name rfl hmade rfl hname
            _).symm.trans hexecute)
          refine ⟨.met ((offsetOf_replConf _ _).trans (if_neg hname)) hmiddleware, _,
            (hrecorded.trans hregistered).trans
              (Server.replied_nextSay hregistered.serves.served rfl _), ?_⟩
          refine hmade.symm ▸ .greeting ?_ hnode ?_
          · rw [hstate]
            exact .portOk
          · rintro _ ⟨⟩
            exact ⟨rfl, rfl, rfl⟩
      | capa =>
          obtain ⟨-, slot, rfl, hexecute⟩ := Server.receive_command
            (Command.tryParse_construct_replConf _) hreceive
          obtain ⟨r, rfl⟩ := Option.isSome_iff_exists.mp hknown
          have hname : toLowerCase (ascii "capa") ≠ ascii "ack" := by decide
          obtain rfl := Option.some.inj ((Server.listenReplConf_name
            (Server.register_handle hserved hsame) hsame rfl hname _).symm.trans hexecute)
          refine ⟨.same ((offsetOf_replConf _ _).trans (if_neg hname)) rfl, _,
            hrecorded.trans (Server.replied_nextSay hserved rfl _), ?_⟩
          refine hsame.symm ▸ .greeting ?_ hnode hmet
          rw [hstate]
          exact .capaOk
      | psync =>
          obtain ⟨-, slot, hslot, hexecute⟩ := Server.receive_command rfl hreceive
          obtain ⟨r, rfl⟩ := Option.isSome_iff_exists.mp hknown
          obtain ⟨text, hattached, hwrite, hmiddleware⟩ :=
            Server.replied_psync hserved hslot hsame
          obtain rfl := Option.some.inj hexecute
          obtain ⟨hmetState, hunheard⟩ := hmet r rfl
          have hidle : r.pushed = [] :=
            (hserved.streams r (Server.mem_of_handle hsame).1).idle (by simp [hmetState])
          refine ⟨.attached rfl hhandle hmiddleware, _, hrecorded.trans hattached,
            hwrite.symm ▸ ?_⟩
          have hphase := @Phase.answered s.dump node (r.setState .write
            (s.recordRequest c psync.construct).middleware.accepted.length) text hstate hnode
            rfl ⟨hunheard.bytesAck, hunheard.acks⟩
          rw [show (r.setState .write (s.recordRequest c
            psync.construct).middleware.accepted.length).pushed = [] from hidle] at hphase
          exact hphase
  | @synced r _ _ offsets acked hstate hwrite hlog =>
      cases offsets with
      | nil => exact absurd hlog.up (by simp)
      | cons k offsets =>
          obtain ⟨rfl, rfl⟩ := List.cons.inj hlog.up
          obtain ⟨-, slot, rfl, hexecute⟩ := Server.receive_command
            (tryParse_replConfAck _) hreceive
          rw [Server.execute, Server.listenReplConf_ack hserved hsame] at hexecute
          have hoffset := offsetOf_replConfAck (UInt64.ofNat k)
          by_cases hfits : (UInt64.ofNat k).toNat < 2 ^ 31
          · rw [if_pos hfits] at hexecute hoffset
            obtain ⟨hacknowledged, hacked⟩ := Server.replied_acknowledge hserved hc hsame hexecute
            have hmiddleware := (Server.update_talkers hexecute 0).2
            rw [UInt64.toNat_inj.mp (toNat_toSizeT (Nat.lt_trans hfits (by decide)))] at hmiddleware
            refine ⟨.acknowledged hoffset hhandle hlog hmiddleware, _,
              hrecorded.trans hacknowledged, hacked.symm ▸ ?_⟩
            rw [List.append_nil, List.append_nil]
            exact .synced hstate hwrite (hlog.acknowledge (if_pos hfits).symm)
          · rw [if_neg hfits] at hexecute hoffset
            obtain rfl := Option.some.inj hexecute
            refine ⟨.same hoffset rfl, _, hrecorded, hsame.symm ▸ ?_⟩
            rw [List.append_nil]
            exact .synced hstate hwrite (hlog.acknowledge (if_neg hfits).symm)

end BuildYourOwnRedis
