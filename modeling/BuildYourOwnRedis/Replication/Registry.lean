/-
  Replication/Registry.lean --- the replicas that a server knows, and the messages it
  pushes to them.

  `Served` is the invariant of the master alone: each replica has one handle, whose slot is
  the talker that registered it, and the bytes that are counted are those of the messages
  that were pushed.  `Touched` is all that a step can do to the replica at a connection on
  which nothing came: messages are offered to it, and it gets them if it is in WRITE.
-/
import BuildYourOwnRedis.Replication.Cluster
import BuildYourOwnRedis.Server.Waits

set_option autoImplicit false

namespace BuildYourOwnRedis

open Foundation

/-! ## Messages that are pushed -/

/-- The arguments of a message that is a SET. -/
def setOf (message : Message) : Option SetRequest :=
  match Command.tryParse message with
  | .ok (.set key value expireMs) => some ⟨key, value, expireMs⟩
  | _ => none

/-- The size of several messages. -/
def bytes (messages : List Message) : Nat := (messages.map Message.size).sum

@[simp] theorem bytes_nil : bytes [] = 0 := rfl

@[simp] theorem bytes_append (xs ys : List Message) : bytes (xs ++ ys) = bytes xs + bytes ys := by
  simp [bytes]

@[simp] theorem bytes_cons (x : Message) (xs : List Message) :
    bytes (x :: xs) = x.size + bytes xs := by
  simp [bytes]

/-- What the master pushes: `REPLCONF GETACK *`, and SET with an expiry that SET accepts.  Both
are constructed by the master itself, so a replica reads them back. -/
inductive Pushable : Message → Prop where
  | getAck : Pushable StorageMiddleware.getAck
  | set (key value : Bytes) {expireMs : Option Int} (hfits : Command.ExpiryFits expireMs) :
      Pushable (Command.set key value expireMs).construct

theorem tryParse_getAck : Command.tryParse StorageMiddleware.getAck =
    .ok (.replConf [ascii "GETACK", ascii "*"]) :=
  Command.tryParse_construct_replConf _

@[simp] theorem setOf_getAck : setOf StorageMiddleware.getAck = none := by
  rw [setOf, tryParse_getAck]

theorem setOf_set (key value : Bytes) {expireMs : Option Int}
    (hfits : Command.ExpiryFits expireMs) :
    setOf (Command.set key value expireMs).construct = some ⟨key, value, expireMs⟩ := by
  rw [setOf, Command.tryParse_construct_set key value hfits]

/-- A message that is pushed is an array, and so it has a size. -/
theorem Pushable.isArray {message : Message} (h : Pushable message) :
    ∃ elements, message = .array elements := by
  cases h with
  | getAck => exact ⟨_, rfl⟩
  | set key value hfits => exact ⟨_, rfl⟩

theorem Pushable.size_pos {message : Message} (h : Pushable message) : 0 < message.size := by
  obtain ⟨elements, rfl⟩ := h.isArray
  cases elements with
  | nil => decide
  | cons m ms => simp [Message.size, Message.toString]

/-- The messages that a handle has pushed: their bytes are counted, and their SETs are those
accepted since the replica was attached. -/
structure ReplicaHandle.Stream {κ : Type} (h : ReplicaHandle κ) (accepted : List SetRequest) :
    Prop where
  pushable : ∀ message ∈ h.pushed, Pushable message
  bytesPushed : h.bytesPushed = UInt64.ofNat (bytes h.pushed)
  idle : h.state ≠ .write → h.pushed = []
  attached : h.state = .write → h.attachedAt ≤ accepted.length ∧
    h.pushed.filterMap setOf = accepted.drop h.attachedAt

namespace ReplicaHandle

variable {κ : Type}

/-- Several messages are pushed; only a replica in WRITE gets them. -/
def pushAll (messages : List Message) (h : ReplicaHandle κ) : ReplicaHandle κ :=
  if h.state = .write then
    { h with
      bytesPushed := h.bytesPushed + UInt64.ofNat (bytes messages)
      pushed := h.pushed ++ messages }
  else h

@[simp] theorem pushAll_id (messages : List Message) (h : ReplicaHandle κ) :
    (h.pushAll messages).id = h.id := by
  unfold pushAll
  split <;> rfl

@[simp] theorem pushAll_slot (messages : List Message) (h : ReplicaHandle κ) :
    (h.pushAll messages).slot = h.slot := by
  unfold pushAll
  split <;> rfl

@[simp] theorem pushAll_state (messages : List Message) (h : ReplicaHandle κ) :
    (h.pushAll messages).state = h.state := by
  unfold pushAll
  split <;> rfl

theorem push_eq_pushAll (message : Message) (h : ReplicaHandle κ) :
    h.push message = h.pushAll [message] := by
  simp [push, pushAll]

@[simp] theorem pushAll_nil (h : ReplicaHandle κ) : h.pushAll [] = h := by
  simp [pushAll]

theorem pushAll_append (xs ys : List Message) (h : ReplicaHandle κ) :
    h.pushAll (xs ++ ys) = (h.pushAll xs).pushAll ys := by
  unfold pushAll
  split
  · simp [*, UInt64.add_assoc]
  · simp [*]

/-- What is in flight to a replica when messages are offered to it. -/
def offered (messages : List Message) (h : ReplicaHandle κ) : List Message :=
  if h.state = .write then messages else []

theorem Stream.pushAll {h : ReplicaHandle κ} {accepted : List SetRequest}
    (hs : h.Stream accepted) {messages : List Message}
    (hpushable : ∀ message ∈ messages, Pushable message) :
    (h.pushAll messages).Stream (accepted ++ messages.filterMap setOf) := by
  unfold ReplicaHandle.pushAll
  split
  · next hstate =>
      obtain ⟨hle, hsets⟩ := hs.attached hstate
      refine ⟨?_, ?_, fun hne => absurd hstate hne, fun _ => ⟨?_, ?_⟩⟩
      · intro message hmessage
        rcases List.mem_append.mp hmessage with hmessage | hmessage
        · exact hs.pushable message hmessage
        · exact hpushable message hmessage
      · simp [hs.bytesPushed]
      · simpa using Nat.le_add_right_of_le hle
      · simp only [List.filterMap_append, hsets]
        rw [List.drop_append_of_le_length hle]
  · next hstate =>
      exact ⟨hs.pushable, hs.bytesPushed, hs.idle, fun heq => absurd heq hstate⟩

/-- PSYNC starts the stream. -/
theorem Stream.attach {h : ReplicaHandle κ} {accepted : List SetRequest}
    (hs : h.Stream accepted) : (h.setState .write accepted.length).Stream accepted := by
  refine ⟨hs.pushable, hs.bytesPushed, fun hne => absurd rfl hne, fun _ => ?_⟩
  by_cases hstate : h.state = .write
  · simpa [setState, hstate] using hs.attached hstate
  · simp [setState, hstate, hs.idle hstate]

theorem Stream.acknowledge {h : ReplicaHandle κ} {accepted : List SetRequest}
    (hs : h.Stream accepted) (bytesAck : UInt64) : (h.acknowledge bytesAck).Stream accepted :=
  ⟨hs.pushable, hs.bytesPushed, hs.idle, hs.attached⟩

end ReplicaHandle

namespace StorageMiddleware

variable {κ : Type}

/-! ## Operations on the replicas -/

theorem push_replicas (message : Message) (m : StorageMiddleware κ) :
    (m.push message).1.replicas = m.replicas.map fun r => r.pushAll [message] := by
  simp only [push, ReplicaHandle.push_eq_pushAll]

/-- The replicas that are asked for their offsets when a wait starts. -/
def askedBy (count : UInt64) (slot : κ) (m : StorageMiddleware κ) (r : ReplicaHandle κ) :
    Bool :=
  let w := m.newWait count slot
  !decide (w.replicasExpected ≤ w.replicasReady) &&
    w.replicaAckWaitlist.any fun entry => entry.1 = r.id

theorem waitFor_replicas (count : UInt64) (slot : κ) (m : StorageMiddleware κ) :
    (m.waitFor count slot).1.replicas = m.replicas.map fun r =>
      r.pushAll (if m.askedBy count slot r then [getAck] else []) := by
  simp only [waitFor, askedBy]
  split
  · next h => simp [reply, h]
  · next h =>
      simp only [pushGetAck, h, decide_false, Bool.not_false, Bool.true_and]
      refine List.map_congr_left fun r _ => ?_
      split <;> simp [ReplicaHandle.push_eq_pushAll]

/-- WAIT replies to its slot, or it asks replicas. -/
theorem waitFor_calls (count : UInt64) (slot : κ) (m : StorageMiddleware κ) :
    ∃ replies : List (κ × Message), (∀ call ∈ replies, call.1 = slot) ∧
      (m.waitFor count slot).2 = replies ++ m.replicas.flatMap fun r =>
        (r.offered (if m.askedBy count slot r then [getAck] else [])).map
          fun message => (r.slot, message) := by
  by_cases h : (m.newWait count slot).replicasExpected ≤ (m.newWait count slot).replicasReady
  · refine ⟨[(slot, .integer (toInt (m.newWait count slot).replicasReady))], by simp, ?_⟩
    have hnone : ∀ r ∈ m.replicas, m.askedBy count slot r = false := by
      intro r _
      simp [askedBy, h]
    rw [List.flatMap_eq_nil_iff.mpr fun r hr => by simp [hnone r hr, ReplicaHandle.offered]]
    simp only [waitFor, h, if_true]
    rfl
  · refine ⟨[], by simp, ?_⟩
    simp only [waitFor, h, if_false, pushGetAck, askedBy, decide_false, Bool.not_false,
      Bool.true_and, List.nil_append]
    induction m.replicas with
    | nil => rfl
    | cons r rs ih =>
        rw [List.filter_cons, List.flatMap_cons, ← ih]
        split
        · rw [List.flatMap_cons]
          congr 1
          unfold ReplicaHandle.pushCalls ReplicaHandle.offered
          split <;> rfl
        · simp [ReplicaHandle.offered]

theorem acknowledge_replicas (id : Nat) (bytesAck : UInt64) (m : StorageMiddleware κ) :
    (m.acknowledge id bytesAck).1.replicas = m.replicas.map fun r =>
      if r.id = id then r.acknowledge bytesAck else r := by
  rw [acknowledge_eq, replyAll_replicas]
  rfl

theorem fireWait_replicas {m : StorageMiddleware κ} {i : Nat}
    {result : StorageMiddleware κ × List (κ × Message)} (h : m.fireWait i = some result) :
    result.1.replicas = m.replicas ∧ result.1.accepted = m.accepted ∧
      result.1.nextReplicaId = m.nextReplicaId := by
  unfold fireWait at h
  grind [reply]

end StorageMiddleware

namespace Server

/-! ## Talkers after calls -/

/-- The messages of these calls that go to a connection. -/
def callsTo (c : Nat) (calls : List (Slot × Message)) : List Message :=
  calls.filterMap fun call => if call.1.conn = c then some call.2 else none

theorem callsTo_of_ne {c : Nat} {calls : List (Slot × Message)}
    (h : ∀ call ∈ calls, call.1.conn ≠ c) : callsTo c calls = [] :=
  List.filterMap_eq_nil_iff.mpr fun call hcall => if_neg (h call hcall)

/-- Nothing but what is queued changes for the talkers: `more` is queued for this one, behind
what was pending. -/
structure SameTalker (c : Nat) (more : List Message) (s s' : Server) : Prop where
  pending : (s'.talkers c).pending = (s.talkers c).pending ++ more
  replicaId : (s'.talkers c).replicaId = (s.talkers c).replicaId
  isOpen : (s'.talkers c).isOpen = (s.talkers c).isOpen

theorem SameTalker.trans {c : Nat} {more more' : List Message} {s s' s'' : Server}
    (h : SameTalker c more s s') (h' : SameTalker c more' s' s'') :
    SameTalker c (more ++ more') s s'' :=
  ⟨by rw [h'.pending, h.pending, List.append_assoc], h'.replicaId.trans h.replicaId,
    h'.isOpen.trans h.isOpen⟩

theorem sameTalker_of_eq {c : Nat} {s s' : Server} (h : s'.talkers c = s.talkers c) :
    SameTalker c [] s s' :=
  ⟨by rw [h, List.append_nil], by rw [h], by rw [h]⟩

theorem sameTalker_nextSay (c : Nat) (slot : Slot) (message : Message) (s : Server) :
    SameTalker c (callsTo c [(slot, message)]) s (s.nextSay slot message) := by
  have htalker := modifyTalker_talkers slot.conn (fun t => { t with
    pending := t.pending ++ [message]
    queued := t.queued ++ [(slot.request, message)] }) s c
  refine ⟨?_, ?_, ?_⟩ <;> rw [nextSay, htalker] <;> split <;> simp [callsTo, *]

theorem sameTalker_record (c conn : Nat) (message : Message) (s : Server) :
    SameTalker c [] s (s.recordRequest conn message) := by
  refine ⟨?_, ?_, ?_⟩ <;> rw [recordRequest, modifyTalker_talkers] <;> split <;> simp

theorem callAll_talkers {calls : List (Slot × Message)} {s s' : Server}
    (h : s.callAll calls = some s') (c : Nat) :
    SameTalker c (callsTo c calls) s s' ∧ s'.middleware = s.middleware := by
  induction calls generalizing s with
  | nil =>
      obtain rfl := Option.some.inj h
      exact ⟨sameTalker_of_eq rfl, rfl⟩
  | cons call calls ih =>
      obtain ⟨slot, message⟩ := call
      rw [callAll] at h
      split at h
      · obtain ⟨hsame, hmiddleware⟩ := ih h
        have hall := (sameTalker_nextSay c slot message s).trans hsame
        rw [callsTo, callsTo, ← List.filterMap_append] at hall
        exact ⟨hall, hmiddleware⟩
      · cases h

theorem update_talkers {result : StorageMiddleware Slot × List (Slot × Message)}
    {s s' : Server} (h : s.update result = some s') (c : Nat) :
    SameTalker c (callsTo c result.2) s s' ∧ s'.middleware = result.1 := by
  obtain ⟨hsame, hmiddleware⟩ := callAll_talkers h c
  exact ⟨⟨hsame.pending, hsame.replicaId, hsame.isOpen⟩, hmiddleware⟩

theorem answerAll_talkers {calls : List (Storage.Call Slot)} {s s' : Server}
    (h : s.answerAll calls = some s') (c : Nat) :
    s'.middleware = s.middleware ∧
      ∃ more, SameTalker c more s s' ∧ ((∀ call ∈ calls, call.1.conn ≠ c) → more = []) := by
  induction calls generalizing s with
  | nil =>
      obtain rfl := Option.some.inj h
      exact ⟨rfl, [], sameTalker_of_eq rfl, fun _ => rfl⟩
  | cons call calls ih =>
      obtain ⟨slot, result⟩ := call
      rw [answerAll] at h
      split at h
      · obtain ⟨hmiddleware, more, hsame, hnone⟩ := ih h
        refine ⟨hmiddleware, _, (sameTalker_nextSay c slot (streamsMessage result) s).trans hsame,
          fun hother => ?_⟩
        rw [hnone fun call hcall => hother call (List.mem_cons_of_mem _ hcall), callsTo_of_ne]
        · rfl
        · simpa using hother _ List.mem_cons_self
      · split at h
        · cases h
        · obtain ⟨hmiddleware, more, hsame, hnone⟩ := ih h
          exact ⟨hmiddleware, more, hsame, fun hother =>
            hnone fun call hcall => hother call (List.mem_cons_of_mem _ hcall)⟩

/-! ## What the master keeps about its replicas -/

/-- The handle of the replica at a connection. -/
def handle (c : Nat) (s : Server) : Option (ReplicaHandle Slot) :=
  s.middleware.replicas.find? fun r => r.slot.conn = c

/-- The invariant of the master.  Handles and talkers of replicas belong together one to one,
clients wait on connections of their own, and every handle has a true record of what was
pushed. -/
structure Served (replicas : Cluster.Replicas) (s : Server) : Prop where
  numbered : s.middleware.Numbered
  clients : ∀ slot ∈ s.middleware.waiting, replicas slot.conn = none
  distinct : (s.middleware.replicas.map ReplicaHandle.id).Nodup
  below : ∀ r ∈ s.middleware.replicas, r.id < s.middleware.nextReplicaId
  owner : ∀ r ∈ s.middleware.replicas, (s.talkers r.slot.conn).replicaId = some r.id ∧
    (s.talkers r.slot.conn).isOpen
  registered : ∀ c id, (s.talkers c).replicaId = some id →
    ∃ r ∈ s.middleware.replicas, r.id = id ∧ r.slot.conn = c
  streams : ∀ r ∈ s.middleware.replicas, r.Stream s.middleware.accepted

variable {replicas : Cluster.Replicas}

/-- A connection has one handle. -/
theorem Served.conns {s : Server} (hs : s.Served replicas) :
    (s.middleware.replicas.map fun r => r.slot.conn).Nodup := by
  refine List.Nodup.map_on ?_ (List.Nodup.of_map _ hs.distinct)
  intro r hr r' hr' heq
  have hid := (hs.owner r hr).1
  rw [heq, (hs.owner r' hr').1] at hid
  exact List.inj_on_of_nodup_map hs.distinct hr hr' (Option.some.inj hid).symm

theorem Served.handle_eq {s : Server} (hs : s.Served replicas) {r : ReplicaHandle Slot}
    (hr : r ∈ s.middleware.replicas) : s.handle r.slot.conn = some r := by
  have hsome : (s.handle r.slot.conn).isSome := List.find?_isSome.mpr ⟨r, hr, by simp⟩
  obtain ⟨r', hr'⟩ := Option.isSome_iff_exists.mp hsome
  have hconn : r'.slot.conn = r.slot.conn := by simpa using List.find?_some hr'
  rw [hr', List.inj_on_of_nodup_map hs.conns (List.mem_of_find?_eq_some hr') hr hconn]

theorem mem_of_handle {c : Nat} {s : Server} {r : ReplicaHandle Slot}
    (h : s.handle c = some r) : r ∈ s.middleware.replicas ∧ r.slot.conn = c :=
  ⟨List.mem_of_find?_eq_some h, by simpa using List.find?_some h⟩

/-- The messages that go to a connection are those of its handle. -/
theorem callsTo_flatMap {rs : List (ReplicaHandle Slot)}
    (hconns : (rs.map fun r => r.slot.conn).Nodup)
    {g : ReplicaHandle Slot → List (Slot × Message)}
    (hg : ∀ r, ∀ call ∈ g r, call.1 = r.slot) (c : Nat) :
    callsTo c (rs.flatMap g) =
      ((rs.find? fun r => r.slot.conn = c).map fun r => (g r).map Prod.snd).getD [] := by
  induction rs with
  | nil => rfl
  | cons r rs ih =>
      obtain ⟨hr, hrs⟩ := List.nodup_cons.mp hconns
      rw [List.flatMap_cons, callsTo, List.filterMap_append]
      by_cases hconn : r.slot.conn = c
      · subst hconn
        have hown : (g r).filterMap (fun call =>
            if call.1.conn = r.slot.conn then some call.2 else none) =
            (g r).map Prod.snd := by
          rw [← List.filterMap_eq_map]
          exact List.filterMap_congr fun call hcall => by simp [hg r call hcall]
        have hrest : (rs.flatMap g).filterMap (fun call =>
            if call.1.conn = r.slot.conn then some call.2 else none) = [] := by
          refine callsTo_of_ne fun call hcall heq => hr ?_
          obtain ⟨r', hr', hcall⟩ := List.mem_flatMap.mp hcall
          rw [hg r' call hcall] at heq
          exact List.mem_map.mpr ⟨r', hr', heq⟩
        rw [hown, hrest]
        simp
      · have hnone : (g r).filterMap (fun call =>
            if call.1.conn = c then some call.2 else none) = [] :=
          callsTo_of_ne fun call hcall => by rwa [hg r call hcall]
        have hih := ih hrs
        rw [callsTo] at hih
        rw [hnone, List.nil_append, hih, List.find?_cons_of_neg (by simpa using hconn)]

/-- Messages are offered to the replica at a connection, and nothing else happens there.  This
is all that the steps of others do to a replica. -/
structure Touched (c : Nat) (messages : List Message) (s s' : Server) : Prop where
  handle : s'.handle c = (s.handle c).map fun r => r.pushAll messages
  talker : SameTalker c (((s.handle c).map fun r => r.offered messages).getD []) s s'
  accepted : s'.middleware.accepted =
    s.middleware.accepted ++ messages.filterMap setOf
  pushable : ∀ message ∈ messages, Pushable message

theorem Touched.refl (c : Nat) (s : Server) : Touched c [] s s := by
  refine ⟨?_, ?_, by simp, by simp⟩
  · cases s.handle c <;> simp
  · cases s.handle c <;> simpa [ReplicaHandle.offered] using sameTalker_of_eq rfl

/-- Another reply, which goes elsewhere. -/
theorem Touched.nextSay {c : Nat} {messages : List Message} {s s' : Server}
    (h : Touched c messages s s') {slot : Slot} (hslot : slot.conn ≠ c) (message : Message) :
    Touched c messages s (s'.nextSay slot message) := by
  refine ⟨h.handle, ?_, h.accepted, h.pushable⟩
  have hsay := sameTalker_nextSay c slot message s'
  rw [callsTo_of_ne (by simpa using hslot)] at hsay
  simpa using h.talker.trans hsay

/-- What does not concern the replica at a connection. -/
theorem touched_of_same {c : Nat} {s s' : Server} (hhandle : s'.handle c = s.handle c)
    (htalker : SameTalker c [] s s')
    (haccepted : s'.middleware.accepted = s.middleware.accepted) : Touched c [] s s' := by
  refine ⟨?_, ?_, by simpa using haccepted, by simp⟩
  · rw [hhandle]
    cases s.handle c <;> simp
  · cases s.handle c <;> simpa [ReplicaHandle.offered] using htalker

theorem handle_map {c : Nat} {s s' : Server} {f : ReplicaHandle Slot → ReplicaHandle Slot}
    (hf : ∀ r, (f r).slot = r.slot)
    (h : s'.middleware.replicas = s.middleware.replicas.map f) :
    s'.handle c = (s.handle c).map f := by
  rw [handle, h, List.find?_map, handle]
  simp only [Function.comp_def, hf]

/-- An operation that changes the handles of replicas, one by one. -/
theorem Served.map {s s' : Server} (hs : s.Served replicas)
    (htalkers : ∀ c, (s'.talkers c).replicaId = (s.talkers c).replicaId ∧
      (s'.talkers c).isOpen = (s.talkers c).isOpen)
    (hnumbered : s'.middleware.Numbered)
    (hclients : ∀ slot ∈ s'.middleware.waiting, replicas slot.conn = none)
    {f : ReplicaHandle Slot → ReplicaHandle Slot} (hid : ∀ r, (f r).id = r.id)
    (hslot : ∀ r, (f r).slot = r.slot)
    (hreplicas : s'.middleware.replicas = s.middleware.replicas.map f)
    (hnext : s'.middleware.nextReplicaId = s.middleware.nextReplicaId)
    (hstreams : ∀ r ∈ s.middleware.replicas, (f r).Stream s'.middleware.accepted) :
    s'.Served replicas := by
  have hmem : ∀ r ∈ s'.middleware.replicas, ∃ r' ∈ s.middleware.replicas, f r' = r := by
    intro r hr
    rw [hreplicas] at hr
    exact List.mem_map.mp hr
  refine ⟨hnumbered, hclients, ?_, ?_, ?_, ?_, ?_⟩
  · rw [hreplicas, List.map_map]
    simpa only [Function.comp_def, hid] using hs.distinct
  · intro r hr
    obtain ⟨r', hr', rfl⟩ := hmem r hr
    rw [hid, hnext]
    exact hs.below r' hr'
  · intro r hr
    obtain ⟨r', hr', rfl⟩ := hmem r hr
    rw [hslot, hid, (htalkers _).1, (htalkers _).2]
    exact hs.owner r' hr'
  · intro c id hc
    rw [(htalkers c).1] at hc
    obtain ⟨r, hr, hrid, hconn⟩ := hs.registered c id hc
    refine ⟨f r, ?_, (hid r).trans hrid, by rw [hslot, hconn]⟩
    rw [hreplicas]
    exact List.mem_map_of_mem hr
  · intro r hr
    obtain ⟨r', hr', rfl⟩ := hmem r hr
    exact hstreams r' hr'

/-- The same where the middleware calls slots. -/
theorem Served.update {s s' : Server} (hs : s.Served replicas)
    {result : StorageMiddleware Slot × List (Slot × Message)}
    (h : s.update result = some s') (hnumbered : result.1.Numbered)
    (hclients : ∀ slot ∈ result.1.waiting, replicas slot.conn = none)
    {f : ReplicaHandle Slot → ReplicaHandle Slot} (hid : ∀ r, (f r).id = r.id)
    (hslot : ∀ r, (f r).slot = r.slot)
    (hreplicas : result.1.replicas = s.middleware.replicas.map f)
    (hnext : result.1.nextReplicaId = s.middleware.nextReplicaId)
    (hstreams : ∀ r ∈ s.middleware.replicas, (f r).Stream result.1.accepted) :
    s'.Served replicas := by
  have hmiddleware := (update_talkers h 0).2
  refine hs.map (fun c => ?_) ?_ ?_ hid hslot ?_ ?_ ?_
  · have hsame := (update_talkers h c).1
    exact ⟨hsame.replicaId, hsame.isOpen⟩
  all_goals rw [hmiddleware]; assumption

theorem Served.nextSay {s : Server} (hs : s.Served replicas) (slot : Slot)
    (message : Message) : (s.nextSay slot message).Served replicas := by
  refine @Served.map replicas s _ hs (fun c => ?_) hs.numbered hs.clients (fun r => r)
    (fun _ => rfl) (fun _ => rfl) (List.map_id' _).symm rfl hs.streams
  have hsame := sameTalker_nextSay c slot message s
  exact ⟨hsame.replicaId, hsame.isOpen⟩

/-! ## Operations -/

theorem set_served {s s' : Server} (hs : s.Served replicas) {now : Timepoint}
    {key value : Bytes} {expireMs : Option Int} (hfits : Command.ExpiryFits expireMs)
    (h : s.update (s.middleware.set now key value expireMs) = some s') :
    s'.Served replicas ∧ s'.middleware.accepted = s.middleware.accepted ++
        [⟨key, value, expireMs⟩] ∧
      ∀ c, Touched c [(Command.set key value expireMs).construct] s s' := by
  have hset := setOf_set key value hfits
  have hpushable : ∀ message ∈ [(Command.set key value expireMs).construct],
      Pushable message := by
    simpa using .set key value hfits
  have hreplicas : (s.middleware.set now key value expireMs).1.replicas =
      s.middleware.replicas.map fun r =>
        r.pushAll [(Command.set key value expireMs).construct] :=
    StorageMiddleware.push_replicas _ _
  have hmiddleware := (update_talkers h 0).2
  have haccepted : s'.middleware.accepted = s.middleware.accepted ++
      [⟨key, value, expireMs⟩] := by
    rw [hmiddleware]
    rfl
  refine ⟨?_, haccepted, fun c => ⟨?_, ?_, ?_, hpushable⟩⟩
  · refine hs.update h (hs.numbered.set now key value expireMs) hs.clients
      (fun r => r.pushAll_id _) (fun r => r.pushAll_slot _) hreplicas rfl fun r hr => ?_
    have hstream := (hs.streams r hr).pushAll hpushable
    rw [List.filterMap_cons_some hset] at hstream
    exact hstream
  · exact handle_map (fun r => r.pushAll_slot _) (by rw [hmiddleware]; exact hreplicas)
  · have hsame := (update_talkers h c).1
    have hcalls : callsTo c (s.middleware.set now key value expireMs).2 =
        ((s.handle c).map fun r =>
          r.offered [(Command.set key value expireMs).construct]).getD [] := by
      refine (callsTo_flatMap hs.conns (fun r call hcall => ?_) c).trans ?_
      · unfold ReplicaHandle.pushCalls at hcall
        split at hcall
        · exact congrArg Prod.fst (List.mem_singleton.mp hcall)
        · cases hcall
      · congr 2
        funext r
        unfold ReplicaHandle.pushCalls ReplicaHandle.offered
        split <;> rfl
    rwa [hcalls] at hsame
  · simpa [hset] using haccepted

/-- Slots of clients are not those of a replica. -/
theorem conn_ne {c conn : Nat} (hc : (replicas c).isSome) (hconn : replicas conn = none) :
    conn ≠ c := by
  rintro rfl
  simp [hconn] at hc

/-- Replies go to those who waited. -/
theorem clients_of_perm {s : Server} (hs : s.Served replicas) {called waiting : List Slot}
    {arrived : List Slot} (harrived : ∀ slot ∈ arrived, replicas slot.conn = none)
    (hperm : (called ++ waiting).Perm (arrived ++ s.middleware.waiting)) :
    (∀ slot ∈ called, replicas slot.conn = none) ∧
      ∀ slot ∈ waiting, replicas slot.conn = none := by
  have hall : ∀ slot ∈ called ++ waiting, replicas slot.conn = none := by
    intro slot hslot
    rcases List.mem_append.mp (hperm.mem_iff.mp hslot) with hslot | hslot
    · exact harrived slot hslot
    · exact hs.clients slot hslot
  exact ⟨fun slot hslot => hall slot (List.mem_append_left _ hslot),
    fun slot hslot => hall slot (List.mem_append_right _ hslot)⟩

/-- An operation that only replies to clients. -/
theorem update_clients {c : Nat} {s s' : Server} (hc : (replicas c).isSome)
    {result : StorageMiddleware Slot × List (Slot × Message)} (h : s.update result = some s')
    (hcalled : ∀ slot ∈ result.2.map Prod.fst, replicas slot.conn = none) :
    SameTalker c [] s s' := by
  have hsame := (update_talkers h c).1
  rwa [callsTo_of_ne fun call hcall =>
    conn_ne hc (hcalled call.1 (List.mem_map_of_mem hcall))] at hsame

theorem wait_served {s s' : Server} (hs : s.Served replicas) {slot : Slot}
    (hslot : replicas slot.conn = none) {count : UInt64}
    (h : s.update (s.middleware.waitFor count slot) = some s') :
    s'.Served replicas ∧ s'.middleware.accepted = s.middleware.accepted ∧
      ∀ c, (replicas c).isSome → ∃ messages, Touched c messages s s' := by
  let asked := fun r : ReplicaHandle Slot =>
    if s.middleware.askedBy count slot r then [StorageMiddleware.getAck] else []
  have hreplicas : (s.middleware.waitFor count slot).1.replicas =
      s.middleware.replicas.map fun r => r.pushAll (asked r) :=
    StorageMiddleware.waitFor_replicas count slot s.middleware
  have hpushable : ∀ r, ∀ message ∈ asked r, Pushable message := by
    intro r message hmessage
    simp only [asked] at hmessage
    split at hmessage
    · obtain rfl := List.mem_singleton.mp hmessage
      exact .getAck
    · cases hmessage
  have hsets : ∀ r, (asked r).filterMap setOf = [] := by
    intro r
    simp only [asked]
    split <;> simp
  have haccepted : (s.middleware.waitFor count slot).1.accepted = s.middleware.accepted := by
    simp only [StorageMiddleware.waitFor]
    split <;> rfl
  have hmiddleware := (update_talkers h 0).2
  obtain ⟨hnumbered, hcases⟩ := hs.numbered.waitFor count slot
  refine ⟨?_, by rw [hmiddleware]; exact haccepted, fun c hc => ?_⟩
  · refine hs.update h hnumbered ?_ (fun r => r.pushAll_id _) (fun r => r.pushAll_slot _)
      hreplicas ?_ fun r hr => ?_
    · intro x hx
      rcases hcases with ⟨hwaiting, -⟩ | ⟨hperm, -⟩
      · exact hs.clients x (hwaiting ▸ hx)
      · rcases List.mem_cons.mp (hperm.mem_iff.mp hx) with rfl | hx
        · exact hslot
        · exact hs.clients x hx
    · simp only [StorageMiddleware.waitFor]
      split <;> rfl
    · have hstream := (hs.streams r hr).pushAll (hpushable r)
      rw [hsets, List.append_nil] at hstream
      rwa [haccepted]
  · refine ⟨((s.handle c).map asked).getD [], ?_, ?_, ?_, ?_⟩
    · have hmap := @handle_map c s s' (fun r => r.pushAll (asked r))
        (fun r => r.pushAll_slot _) (by rw [hmiddleware]; exact hreplicas)
      rw [hmap]
      cases s.handle c <;> rfl
    · have hsame := (update_talkers h c).1
      suffices hcalls : callsTo c (s.middleware.waitFor count slot).2 =
          ((s.handle c).map fun r =>
            r.offered (((s.handle c).map asked).getD [])).getD [] from hcalls ▸ hsame
      obtain ⟨replies, hreplies, hcalls⟩ := s.middleware.waitFor_calls count slot
      have hnone : callsTo c replies = [] :=
        callsTo_of_ne fun call hcall => by rw [hreplies call hcall]; exact conn_ne hc hslot
      have hflat := callsTo_flatMap hs.conns (g := fun r =>
        (r.offered (asked r)).map fun message => (r.slot, message)) (by simp) c
      rw [callsTo] at hnone hflat
      rw [hcalls, callsTo, List.filterMap_append, hnone, hflat, ← handle]
      cases s.handle c <;> simp [Function.comp_def]
    · rw [hmiddleware]
      cases s.handle c <;> simp [haccepted, hsets]
    · intro message hmessage
      cases hhandle : s.handle c with
      | none => simp [hhandle] at hmessage
      | some r => exact hpushable r message (by simpa [hhandle] using hmessage)

theorem acknowledge_served {s s' : Server} (hs : s.Served replicas) {id : Nat}
    {bytesAck : UInt64} (h : s.update (s.middleware.acknowledge id bytesAck) = some s') :
    s'.Served replicas ∧ s'.middleware.accepted = s.middleware.accepted ∧
      ∀ c, (replicas c).isSome → SameTalker c [] s s' ∧
        s'.handle c = (s.handle c).map fun r =>
          if r.id = id then r.acknowledge bytesAck else r := by
  have hreplicas := StorageMiddleware.acknowledge_replicas id bytesAck s.middleware
  have hmiddleware := (update_talkers h 0).2
  obtain ⟨hnumbered, hperm⟩ := hs.numbered.acknowledge id bytesAck
  obtain ⟨hcalled, hwaiting⟩ := @clients_of_perm replicas s hs _ _ [] (by simp) hperm
  have haccepted : (s.middleware.acknowledge id bytesAck).1.accepted =
      s.middleware.accepted := by
    rw [StorageMiddleware.acknowledge_eq, StorageMiddleware.replyAll_accepted]
    rfl
  have hid : ∀ r : ReplicaHandle Slot,
      (if r.id = id then r.acknowledge bytesAck else r).id = r.id := by
    intro r
    split <;> rfl
  have hslot : ∀ r : ReplicaHandle Slot,
      (if r.id = id then r.acknowledge bytesAck else r).slot = r.slot := by
    intro r
    split <;> rfl
  refine ⟨?_, by rw [hmiddleware]; exact haccepted, fun c hc =>
    ⟨update_clients hc h hcalled, ?_⟩⟩
  · refine hs.update h hnumbered hwaiting hid hslot hreplicas ?_ fun r hr => ?_
    · rw [StorageMiddleware.acknowledge_eq, StorageMiddleware.replyAll_nextReplicaId]
      rfl
    · rw [haccepted]
      split
      · exact (hs.streams r hr).acknowledge bytesAck
      · exact hs.streams r hr
  · exact handle_map hslot (by rw [hmiddleware]; exact hreplicas)

theorem storage_served {s s' : Server} (hs : s.Served replicas)
    {result : Storage Slot × List (Storage.Call Slot)}
    (h : s.updateStorage result = some s') (hnumbered : result.1.Numbered)
    {arrived : List Slot} (harrived : ∀ slot ∈ arrived, replicas slot.conn = none)
    (hperm : (result.2.map Prod.fst ++ result.1.waiting).Perm
      (arrived ++ s.middleware.storage.waiting)) :
    s'.Served replicas ∧ ∀ c, (replicas c).isSome → Touched c [] s s' := by
  have hwaits := hperm.append_left (s.middleware.waits.map WaitHandle.slot)
  obtain ⟨hcalled, hwaiting⟩ := @clients_of_perm replicas s hs (result.2.map Prod.fst)
    (s.middleware.waits.map WaitHandle.slot ++ result.1.waiting) arrived harrived
    ((List.perm_append_comm_assoc _ _ _).trans
      (hwaits.trans (List.perm_append_comm_assoc _ _ _)))
  have hmiddleware : s'.middleware = { s.middleware with storage := result.1 } :=
    (answerAll_talkers h 0).1
  have hsame : ∀ c, ∃ more, SameTalker c more s s' ∧
      ((∀ call ∈ result.2, call.1.conn ≠ c) → more = []) := by
    intro c
    obtain ⟨-, more, hsame, hnone⟩ := answerAll_talkers h c
    exact ⟨more, ⟨hsame.pending, hsame.replicaId, hsame.isOpen⟩, hnone⟩
  refine ⟨?_, fun c hc => ?_⟩
  · refine @Served.map replicas s s' hs (fun c => ?_) ?_ ?_ (fun r => r) (fun _ => rfl)
      (fun _ => rfl) ?_ ?_ ?_
    · obtain ⟨more, hsame, -⟩ := hsame c
      exact ⟨hsame.replicaId, hsame.isOpen⟩
    · rw [hmiddleware]
      exact ⟨hs.numbered.distinct, hs.numbered.below, hnumbered⟩
    · rw [hmiddleware]
      exact hwaiting
    · rw [hmiddleware, List.map_id']
    · rw [hmiddleware]
    · rw [hmiddleware]
      exact hs.streams
  · obtain ⟨more, hsame, hnone⟩ := hsame c
    rw [hnone fun call hcall => conn_ne hc
      (hcalled call.1 (List.mem_map_of_mem hcall))] at hsame
    refine touched_of_same ?_ hsame ?_
    · rw [handle, hmiddleware]
      rfl
    · rw [hmiddleware]

theorem fireWait_served {s s' : Server} (hs : s.Served replicas) {i : Nat}
    (h : s.fireWait i = some s') :
    s'.Served replicas ∧ ∀ c, (replicas c).isSome → Touched c [] s s' := by
  obtain ⟨result, hfire, hupdate⟩ := Option.bind_eq_some_iff.mp h
  obtain ⟨hnumbered, hperm⟩ := hs.numbered.fireWait hfire
  obtain ⟨hcalled, hwaiting⟩ := @clients_of_perm replicas s hs _ _ [] (by simp) hperm
  obtain ⟨hreplicas, haccepted, hnext⟩ := StorageMiddleware.fireWait_replicas hfire
  have hmiddleware := (update_talkers hupdate 0).2
  refine ⟨?_, fun c hc => touched_of_same ?_ (update_clients hc hupdate hcalled) ?_⟩
  · refine @Served.update replicas s s' hs result hupdate hnumbered hwaiting (fun r => r)
      (fun _ => rfl) (fun _ => rfl) (by rw [hreplicas, List.map_id']) hnext fun r hr => ?_
    rw [haccepted]
    exact hs.streams r hr
  · rw [handle, hmiddleware, hreplicas]
    rfl
  · rw [hmiddleware, haccepted]

/-- The handle that a talker has registered. -/
theorem Served.own {s : Server} (hs : s.Served replicas) {conn id : Nat}
    (h : (s.talkers conn).replicaId = some id) : ∃ r, s.handle conn = some r ∧ r.id = id := by
  obtain ⟨r, hr, hid, rfl⟩ := hs.registered conn id h
  exact ⟨r, hs.handle_eq hr, hid⟩

theorem Served.id_ne {s : Server} (hs : s.Served replicas) {conn c id : Nat}
    (h : (s.talkers conn).replicaId = some id) (hother : c ≠ conn) {r : ReplicaHandle Slot}
    (hr : s.handle c = some r) : r.id ≠ id := by
  rintro rfl
  obtain ⟨hmem, rfl⟩ := mem_of_handle hr
  obtain ⟨r', hr', hid⟩ := hs.own h
  obtain ⟨hmem', rfl⟩ := mem_of_handle hr'
  exact hother (by rw [List.inj_on_of_nodup_map hs.distinct hmem hmem' hid.symm])

theorem Served.handle_none {s : Server} (hs : s.Served replicas) {conn : Nat}
    (h : (s.talkers conn).replicaId = none) : s.handle conn = none := by
  cases hhandle : s.handle conn with
  | none => rfl
  | some r =>
      obtain ⟨hmem, rfl⟩ := mem_of_handle hhandle
      rw [(hs.owner r hmem).1] at h
      cases h

/-- The first REPLCONF of a connection. -/
theorem register_served {s : Server} (hs : s.Served replicas) {conn : Nat}
    (hopen : (s.talkers conn).isOpen) (hnone : (s.talkers conn).replicaId = none) :
    (s.register conn).2.Served replicas ∧
      (s.register conn).2.middleware.accepted = s.middleware.accepted ∧
      ((s.register conn).2.talkers conn).pending = (s.talkers conn).pending ∧
      ((s.register conn).2.talkers conn).isOpen ∧
      ((s.register conn).2.talkers conn).replicaId = some (s.register conn).1 ∧
      (s.register conn).2.handle conn =
        some { id := (s.register conn).1, state := .met, slot := ⟨conn, none⟩ } ∧
      ∀ c, c ≠ conn → Touched c [] s (s.register conn).2 := by
  generalize hresult : s.register conn = result
  obtain ⟨id, s'⟩ := result
  have hid : id = s.middleware.nextReplicaId := by
    simp only [register, hnone] at hresult
    exact (Prod.mk.inj hresult).1.symm
  have hmiddleware : s'.middleware = (s.middleware.addReplica ⟨conn, none⟩).2 := by
    simp only [register, hnone] at hresult
    exact congrArg (fun p => p.2.middleware) hresult.symm
  have htalkers : ∀ c, s'.talkers c = if conn = c then
      { s.talkers c with replicaId := some id } else s.talkers c := by
    intro c
    simp only [register, hnone] at hresult
    obtain ⟨rfl, rfl⟩ := Prod.mk.inj hresult
    rw [modifyTalker_talkers]
  have hreplicas : s'.middleware.replicas = s.middleware.replicas ++
      [{ id := id, state := .met, slot := ⟨conn, none⟩ }] := by
    rw [hmiddleware, hid]
    rfl
  have hfree := hs.handle_none hnone
  have hother : ∀ r ∈ s.middleware.replicas, conn ≠ r.slot.conn := by
    rintro r hr rfl
    rw [hs.handle_eq hr] at hfree
    cases hfree
  have hmem : ∀ r ∈ s'.middleware.replicas, r ∈ s.middleware.replicas ∨
      r = { id := id, state := .met, slot := ⟨conn, none⟩ } := by
    intro r hr
    rw [hreplicas] at hr
    simpa using hr
  refine ⟨⟨?_, ?_, ?_, ?_, ?_, ?_, ?_⟩, by rw [hmiddleware]; rfl, ?_, ?_, ?_, ?_, ?_⟩
  · rw [hmiddleware]
    exact hs.numbered.congr rfl rfl hs.numbered.storage
  · rw [hmiddleware]
    exact hs.clients
  · rw [hreplicas, List.map_append, List.nodup_append]
    refine ⟨hs.distinct, by simp, fun i hi j hj => ?_⟩
    obtain ⟨r, hr, rfl⟩ := List.mem_map.mp hi
    obtain rfl := List.mem_singleton.mp hj
    rw [hid]
    exact Nat.ne_of_lt (hs.below r hr)
  · rw [hmiddleware]
    intro r hr
    rcases hmem r (hmiddleware ▸ hr) with hr | rfl
    · exact Nat.lt_succ_of_lt (hs.below r hr)
    · rw [hid]
      exact Nat.lt_succ_self _
  · intro r hr
    rcases hmem r hr with hr | rfl
    · rw [htalkers, if_neg (hother r hr)]
      exact hs.owner r hr
    · rw [htalkers, if_pos rfl]
      exact ⟨rfl, hopen⟩
  · intro c i hc
    rw [hreplicas]
    rw [htalkers] at hc
    split at hc
    · next heq =>
        subst heq
        obtain rfl := Option.some.inj hc
        exact ⟨{ id := id, state := .met, slot := ⟨conn, none⟩ }, by simp, rfl, rfl⟩
    · obtain ⟨r, hr, hrid, hconn⟩ := hs.registered c i hc
      exact ⟨r, by simp [hr], hrid, hconn⟩
  · intro r hr
    rw [hmiddleware]
    rcases hmem r hr with hr | rfl
    · exact hs.streams r hr
    · exact ⟨by simp, rfl, fun _ => rfl, fun h => by cases h⟩
  · rw [htalkers, if_pos rfl]
  · rw [htalkers, if_pos rfl]
    exact hopen
  · rw [htalkers, if_pos rfl]
  · rw [handle, hreplicas, List.find?_append, ← handle, hfree]
    simp
  · intro c hc
    refine touched_of_same ?_ (sameTalker_of_eq ?_) (by rw [hmiddleware]; rfl)
    · rw [handle, hreplicas, List.find?_append, ← handle]
      simp [Ne.symm hc]
    · rw [htalkers, if_neg (Ne.symm hc)]

/-- PSYNC of a registered connection. -/
theorem attach_served {s : Server} (hs : s.Served replicas) {conn id : Nat}
    (h : (s.talkers conn).replicaId = some id) (s' : Server)
    (hs' : s' = { s with middleware := s.middleware.replicaSetState id .write }) :
    s'.Served replicas ∧
      s'.handle conn = (s.handle conn).map
        (fun r => r.setState .write s.middleware.accepted.length) ∧
      ∀ c, c ≠ conn → Touched c [] s s' := by
  subst hs'
  let f := fun r : ReplicaHandle Slot =>
    if r.id = id then r.setState .write s.middleware.accepted.length else r
  have hid : ∀ r, (f r).id = r.id := by
    intro r
    simp only [f]
    split <;> rfl
  have hslot : ∀ r, (f r).slot = r.slot := by
    intro r
    simp only [f]
    split <;> rfl
  refine ⟨?_, ?_, fun c hc => touched_of_same ?_ (sameTalker_of_eq rfl) rfl⟩
  · refine hs.map (fun _ => ⟨rfl, rfl⟩) (hs.numbered.congr rfl rfl hs.numbered.storage)
      hs.clients hid hslot rfl rfl fun r hr => ?_
    simp only [f]
    split
    · exact (hs.streams r hr).attach
    · exact hs.streams r hr
  · rw [handle_map hslot rfl]
    obtain ⟨r, hr, rfl⟩ := hs.own h
    simp [f, hr]
  · rw [handle_map hslot rfl]
    cases hr : s.handle c with
    | none => rfl
    | some r => simp [f, hs.id_ne h hc hr]

end Server

end BuildYourOwnRedis
