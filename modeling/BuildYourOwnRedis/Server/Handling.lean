/-
  Server/Handling.lean --- which requests `ServerTalker::listen` handles to the end.

  A request is handled when it is answered, or makes its connection wait, or passes an
  offset on.  The others read an element that is not there, cast a string to a stream, run
  past the end of a stream, call a talker that is gone, read the number of a replica that
  was never registered, or are dropped.
-/
import BuildYourOwnRedis.Command.Defined
import BuildYourOwnRedis.Replication.Served
import BuildYourOwnRedis.Server.DeferredReplies
import BuildYourOwnRedis.Storage.Casts

set_option autoImplicit false

namespace BuildYourOwnRedis

open Foundation

/-! ## Reads that block -/

namespace Storage

variable {κ : Type} {s : Storage κ}

/-- Where no string is read, every `$` gets an id. -/
theorem resolve_isSome {request : StreamsReadRequest} (h : s.NoStrings request) :
    (s.resolve request).isSome := by
  induction request with
  | nil => rfl
  | cons part request ih =>
      obtain ⟨key, id⟩ := part
      obtain ⟨rest, hrest⟩ := Option.isSome_iff_exists.mp
        (ih fun p hp => h p (List.mem_cons_of_mem _ hp))
      have hid : (s.resolveId key id).isSome := by
        unfold resolveId
        split
        · split
          · rfl
          · next value hlookup =>
              have hstream := h (key, id) (List.mem_cons_self ..) value hlookup
              obtain ⟨stream, hasStream⟩ :=
                Option.isSome_iff_exists.mp (asStream_isSome_iff.mpr hstream)
              simp [hasStream, ReadStreamId.fromString_toString, Except.toOption]
        · rfl
      obtain ⟨id', hid'⟩ := Option.isSome_iff_exists.mp hid
      simp [resolve, hid', hrest]

/-- XREAD is undefined exactly where it reads a string.  This goes for the reading and for the
ids that are resolved when it blocks. -/
theorem xread_isSome_iff {request : StreamsReadRequest} {blockMs : Option UInt64} {k : κ} :
    (s.xread request blockMs k).isSome ↔ s.NoStrings request := by
  rw [← readCasts_right_iff, ← readStreams_isSome_iff]
  unfold xread
  cases hread : s.readStreams request with
  | none => simp
  | some result =>
      have hnone : s.NoStrings request :=
        readCasts_right_iff.mp ((readStreams_isSome_iff request).mp (by simp [hread]))
      obtain ⟨resolved, hresolved⟩ := Option.isSome_iff_exists.mp (resolve_isSome hnone)
      cases blockMs with
      | none => simp
      | some ms =>
          simp only [Option.bind_eq_bind, Option.bind_some, Option.isSome_some, iff_true]
          split <;> simp [block, hresolved]

theorem xrange_isSome_iff {key : Bytes} {leftId rightId : BoundStreamId} :
    (s.xrange key leftId rightId).isSome ↔
      ∀ value ∈ s.values.lookup key, ∃ stream, value = .stream stream ∧
        stream.Spans leftId rightId := by
  unfold xrange
  cases s.values.lookup key with
  | none => simp
  | some value =>
      cases value with
      | string str => simp [Value.asStream?]
      | stream stream => simp [Value.asStream?, StreamValue.xrange_isSome_iff]

end Storage

namespace Server

/-! ## What becomes of a request -/

/-- The offsets that the replica of a connection has acknowledged. -/
def acks (conn : Nat) (s : Server) : List UInt64 :=
  ((s.handle conn).map ReplicaHandle.acks).getD []

/-- The request of a slot is answered, or the slot waits for its answer, or an offset is
passed on. -/
inductive Handled (slot : Slot) (s s' : Server) : Prop where
  | replied {before : List (Option Nat × Message)} {message : Message}
      (hbefore : (s.talkers slot.conn).queued <+: before)
      (hqueued : (s'.talkers slot.conn).queued = before ++ [(slot.request, message)])
  | waits (hwaits : s'.middleware.waiting.Perm (slot :: s.middleware.waiting))
  | acknowledged {bytesAck : UInt64}
      (hacks : s'.acks slot.conn = s.acks slot.conn ++ [bytesAck])

/-- A computation ends, and the request is handled: it is answered, or kept for a reply to
come. -/
def Ends (slot : Slot) (s : Server) (after : Option Server) : Prop :=
  ∃ s', after = some s' ∧ Handled slot s s'

/-- PSYNC reads the number of a replica where there is none: `std::bad_optional_access`.  It is
no `CommandParseError`, so `listen` lets it through, behind the two messages that are queued
already. -/
def Throws (conn : Nat) (message : Message) (s : Server) : Prop :=
  (s.talkers conn).replicaId = none ∧ ∃ args, Command.tryParse message = .ok (.psync args)

/-- `listen` completes normally: nothing undefined is done, nothing is thrown, and the request
is handled. -/
def Completes (now : Timepoint) (conn : Nat) (message : Message) (s : Server) : Prop :=
  Ends ⟨conn, some (s.talkers conn).requests.length⟩ s (s.receive now conn message) ∧
    ¬s.Throws conn message

/-- The arguments of REPLCONF that are looked at are there; an offset is a number, and no
wait of a closed connection is satisfied by it. -/
def ConfReads (conn : Nat) (s : Server) : List Bytes → Prop
  | [] => False
  | [name] => toLowerCase name ≠ ascii "ack"
  | name :: value :: _ => toLowerCase name = ascii "ack" →
      ∃ bytesAck, parseInt value = some bytesAck ∧ ∀ w ∈ s.middleware.waits,
        (w.updateReplicaAck (s.register conn).1 (toSizeT bytesAck)).2 = true →
          (s.talkers w.slot.conn).isOpen

/-- What the handler of a command relies on, and nothing checks for it.  Most commands rely on
nothing. -/
def Relied (conn : Nat) (s : Server) : Command → Prop
  | .replConf args => s.ConfReads conn args
  | .psync _ => (s.talkers conn).replicaId.isSome
  | .xrange key leftId rightId =>
      ∀ value ∈ s.middleware.storage.values.lookup key, ∃ stream,
        value = .stream stream ∧ stream.Spans leftId rightId
  | .xread request blockMs =>
      s.middleware.storage.NoStrings request ∧ (blockMs.isSome → request ≠ [])
  | _ => True

/-- What `listen` relies on, first in the parser of the command and then in its handler. -/
structure Acceptable (conn : Nat) (message : Message) (s : Server) : Prop where
  wait : Command.isCutOffWait message = false
  relied : ∀ command, Command.tryParse message = .ok command → s.Relied conn command

/-! ## Calls of slots -/

/-- Slots can be called exactly when their talkers are there.  A call changes no connection, so
this can be asked of all of them before the first. -/
theorem callAll_isSome_iff {calls : List (Slot × Message)} {s : Server} :
    (s.callAll calls).isSome ↔ ∀ call ∈ calls, (s.talkers call.1.conn).isOpen := by
  induction calls generalizing s with
  | nil => simp [callAll]
  | cons call calls ih =>
      obtain ⟨slot, message⟩ := call
      rw [callAll, List.forall_mem_cons]
      split
      · next hopen =>
          have hsame : ∀ c, ((s.nextSay slot message).talkers c).isOpen =
              (s.talkers c).isOpen := (onlySays_nextSay slot message s).isOpen
          simp only [ih, hsame, hopen, true_and]
      · next hclosed => exact iff_of_false (by simp) fun h => hclosed h.1

theorem update_isSome_iff {result : StorageMiddleware Slot × List (Slot × Message)}
    {s : Server} :
    (s.update result).isSome ↔ ∀ call ∈ result.2, (s.talkers call.1.conn).isOpen :=
  callAll_isSome_iff

theorem queued_nextSay (slot : Slot) (message : Message) (s : Server) :
    ((s.nextSay slot message).talkers slot.conn).queued =
      (s.talkers slot.conn).queued ++ [(slot.request, message)] := by
  rw [nextSay_talker, if_pos rfl]

/-- What was queued stays queued. -/
theorem prefix_nextSay (slot : Slot) (message : Message) (s : Server) (c : Nat) :
    (s.talkers c).queued <+: ((s.nextSay slot message).talkers c).queued := by
  rw [nextSay_talker]
  split
  · exact List.prefix_append _ _
  · exact List.prefix_rfl

theorem prefix_callAll {calls : List (Slot × Message)} {s s' : Server}
    (h : s.callAll calls = some s') (c : Nat) :
    (s.talkers c).queued <+: (s'.talkers c).queued := by
  induction calls generalizing s with
  | nil =>
      obtain rfl := Option.some.inj h
      exact List.prefix_rfl
  | cons call calls ih =>
      obtain ⟨slot, message⟩ := call
      rw [callAll] at h
      split at h
      · exact (prefix_nextSay slot message s c).trans (ih h)
      · cases h

theorem prefix_update {result : StorageMiddleware Slot × List (Slot × Message)}
    {s s' : Server} (h : s.update result = some s') (c : Nat) :
    (s.talkers c).queued <+: (s'.talkers c).queued := by
  unfold Server.update at h
  exact prefix_callAll h c

/-- An operation, and a reply behind what it queues. -/
theorem Handled.nextSay {slot : Slot} {s s₁ : Server}
    (h : (s.talkers slot.conn).queued <+: (s₁.talkers slot.conn).queued)
    (message : Message) : Handled slot s (s₁.nextSay slot message) :=
  .replied h (queued_nextSay slot message s₁)

theorem ends_nextSay {slot : Slot} {s s₁ : Server}
    (h : (s.talkers slot.conn).queued <+: (s₁.talkers slot.conn).queued)
    (message : Message) : Ends slot s (some (s₁.nextSay slot message)) :=
  ⟨_, rfl, .nextSay h message⟩

/-! ## The server that has any replicas -/

/-- The invariant of every run; any connection may be one of a replica. -/
abbrev Sound (s : Server) : Prop := s.Served fun _ => none

theorem sound_of_reachable {clock : Nat → Timepoint} {info : ServerInfo}
    {dbFile : Option Bytes} {server s : Server}
    (hstart : start clock info dbFile = some server)
    (h : (machine server).Reachable Anything s) : s.Sound := by
  refine h.invariant (served_start hstart) fun s a s' _ hs _ htaken => ?_
  cases a with
  | receive now conn message => exact (receive_serves hs rfl htaken).served
  | say conn =>
      obtain ⟨⟨message, s₁⟩, hsay, rfl⟩ := Option.map_eq_some_iff.mp htaken
      exact (say_serves hs hsay).served
  | disconnect conn => exact Option.some.inj htaken ▸ (disconnect_serves hs conn).served
  | runJob => exact (runJob_served hs htaken).1
  | fireRead i => exact (fireRead_served hs htaken).1
  | fireWait i => exact (fireWait_served hs htaken).1

/-- Replicas can be called. -/
theorem Served.slots_open {replicas : Cluster.Replicas} {s : Server}
    (hs : s.Served replicas) : ∀ slot ∈ s.middleware.slots, (s.talkers slot.conn).isOpen := by
  intro slot hslot
  obtain ⟨r, hr, rfl⟩ := List.mem_map.mp hslot
  exact (hs.owner r hr).2

/-! ## REPLCONF and PSYNC -/

theorem acks_register {s : Server} (hs : s.Sound) {conn : Nat}
    (hopen : (s.talkers conn).isOpen) : (s.register conn).2.acks conn = s.acks conn := by
  cases hnone : (s.talkers conn).replicaId with
  | some id => simp [register, hnone]
  | none =>
      obtain ⟨-, -, -, -, -, hhandle, -⟩ := register_served hs hopen hnone
      simp [acks, hhandle, hs.handle_none hnone]

theorem acks_acknowledge {s s' : Server} (hs : s.Sound) {conn id : Nat}
    (hid : (s.talkers conn).replicaId = some id) {bytesAck : UInt64}
    (h : s.update (s.middleware.acknowledge id bytesAck) = some s') :
    s'.acks conn = s.acks conn ++ [bytesAck] := by
  have hslot : ∀ r : ReplicaHandle Slot,
      (if r.id = id then r.acknowledge bytesAck else r).slot = r.slot := by
    intro r
    split <;> rfl
  have hreplicas := StorageMiddleware.acknowledge_replicas id bytesAck s.middleware
  rw [← (update_talkers h 0).2] at hreplicas
  obtain ⟨r, hr, rfl⟩ := hs.own hid
  simp [acks, handle_map hslot hreplicas, hr, ReplicaHandle.acknowledge]

/-- The waits that reply to an offset, asked about one by one: only those whose count becomes
complete call their slots. -/
theorem calls_acknowledge_iff {id : Nat} {bytesAck : UInt64} {s : Server} :
    (∀ call ∈ (s.middleware.acknowledge id bytesAck).2, (s.talkers call.1.conn).isOpen) ↔
      ∀ w ∈ s.middleware.waits, (w.updateReplicaAck id bytesAck).2 = true →
        (s.talkers w.slot.conn).isOpen := by
  rw [StorageMiddleware.acknowledge_eq, StorageMiddleware.replyAll_eq]
  simp only [StorageMiddleware.settle, StorageMiddleware.satisfied, List.mem_map,
    List.mem_filter]
  constructor
  · intro h w hw hreplies
    have hcall := h _ ⟨_, ⟨_, ⟨⟨w, hw, rfl⟩, hreplies⟩, rfl⟩, rfl⟩
    rwa [StorageMiddleware.updateReplicaAck_slot] at hcall
  · rintro h _ ⟨_, ⟨_, ⟨⟨w, hw, rfl⟩, hreplies⟩, rfl⟩, rfl⟩
    rw [StorageMiddleware.updateReplicaAck_slot]
    exact h w hw hreplies

/-- Registering changes nothing but who the replicas are. -/
theorem register_keeps (conn : Nat) (s : Server) :
    (s.register conn).2.middleware.waits = s.middleware.waits ∧
      (s.register conn).2.middleware.waiting = s.middleware.waiting ∧
      (∀ c, ((s.register conn).2.talkers c).isOpen = (s.talkers c).isOpen) ∧
      ∀ c, ((s.register conn).2.talkers c).queued = (s.talkers c).queued := by
  unfold register
  split
  · exact ⟨rfl, rfl, fun _ => rfl, fun _ => rfl⟩
  · refine ⟨rfl, rfl, fun c => ?_, fun c => ?_⟩
    · rw [modifyTalker_talkers]
      split <;> rfl
    · rw [modifyTalker_talkers]
      split <;> rfl

/-- A request that leaves no trace is not handled. -/
theorem not_handled {slot : Slot} {s s' : Server}
    (hqueued : (s'.talkers slot.conn).queued = (s.talkers slot.conn).queued)
    (hwaiting : s'.middleware.waiting = s.middleware.waiting)
    (hacks : s'.acks slot.conn = s.acks slot.conn) : ¬Handled slot s s' := by
  rintro (⟨⟨more, rfl⟩, hreplied⟩ | hwaits | hacked)
  · have hlength := congrArg List.length (hqueued.symm.trans hreplied)
    simp at hlength
  · have hlength := (hwaiting ▸ hwaits).length_eq
    simp at hlength
  · have hlength := congrArg List.length (hacks.symm.trans hacked)
    simp at hlength

theorem ends_replConf_iff {s : Server} (hs : s.Sound) {slot : Slot}
    (hopen : (s.talkers slot.conn).isOpen) (args : List Bytes) :
    Ends slot s (s.listenReplConf slot args) ↔ s.ConfReads slot.conn args := by
  obtain ⟨hid, hopen₁⟩ := register_own hs hopen
  obtain ⟨hwaits, hwaiting, hisOpen, hqueued⟩ := register_keeps slot.conn s
  have hacks := acks_register hs hopen
  have hsound := (register_serves hs hopen).served
  have hprefix : (s.talkers slot.conn).queued <+:
      ((s.register slot.conn).2.talkers slot.conn).queued := by
    simp only [hqueued, List.prefix_rfl]
  have hconf : ∀ args, (s.register slot.conn).2.middleware.replicaProcessConf
      (s.register slot.conn).1 args =
        (s.register slot.conn).2.middleware.processConf (s.register slot.conn).1 args := by
    intro args
    obtain ⟨r, hr, hrid, -⟩ := hsound.registered slot.conn _ hid
    exact if_pos (List.any_eq_true.mpr ⟨r, hr, decide_eq_true hrid⟩)
  -- a name that is no offset is answered
  have hother : ∀ name args, toLowerCase name ≠ ascii "ack" →
      Ends slot s (s.listenReplConf slot (name :: args)) := by
    intro name args hname
    have hsaid := ends_nextSay hprefix (.simpleString (ascii "OK"))
    simpa [listenReplConf, processConf, hconf, StorageMiddleware.processConf, hname,
      Server.update, callAll] using hsaid
  rcases args with _ | ⟨name, _ | ⟨value, args⟩⟩
  · refine iff_of_false ?_ (by simp [ConfReads])
    rintro ⟨s', hnone, -⟩
    simp [listenReplConf, processConf, hconf, StorageMiddleware.processConf] at hnone
  · by_cases hname : toLowerCase name = ascii "ack"
    · refine iff_of_false ?_ (by simp [ConfReads, hname])
      rintro ⟨s', hnone, -⟩
      simp [listenReplConf, processConf, hconf, StorageMiddleware.processConf, hname]
        at hnone
    · exact iff_of_true (hother name [] hname) hname
  · by_cases hname : toLowerCase name = ascii "ack"
    · cases hvalue : parseInt value with
      | none =>
          refine iff_of_false ?_ (by simp [ConfReads, hname, hvalue])
          rintro ⟨s', hsome, hhandled⟩
          obtain rfl : (s.register slot.conn).2 = s' := by
            simpa [listenReplConf, processConf, hconf, StorageMiddleware.processConf, hname,
              hvalue, Server.update, callAll] using hsome
          exact not_handled (hqueued _) hwaiting hacks hhandled
      | some bytesAck =>
          have hlisten : s.listenReplConf slot (name :: value :: args) =
              (s.register slot.conn).2.update ((s.register slot.conn).2.middleware.acknowledge
                (s.register slot.conn).1 (toSizeT bytesAck)) := by
            simp [listenReplConf, processConf, hconf, StorageMiddleware.processConf, hname,
              hvalue]
          have hreads : s.ConfReads slot.conn (name :: value :: args) ↔
              ∀ w ∈ (s.register slot.conn).2.middleware.waits,
                (w.updateReplicaAck (s.register slot.conn).1 (toSizeT bytesAck)).2 = true →
                  ((s.register slot.conn).2.talkers w.slot.conn).isOpen := by
            simp [ConfReads, hname, hvalue, hwaits, hisOpen]
          rw [hreads, ← calls_acknowledge_iff, hlisten]
          constructor
          · rintro ⟨s', hupdate, -⟩
            exact update_isSome_iff.mp (Option.isSome_iff_exists.mpr ⟨s', hupdate⟩)
          · intro hcalls
            obtain ⟨s', hupdate⟩ :=
              Option.isSome_iff_exists.mp (update_isSome_iff.mpr hcalls)
            refine ⟨s', hupdate, @Handled.acknowledged slot s s' (toSizeT bytesAck) ?_⟩
            rw [acks_acknowledge hsound hid hupdate, hacks]
    · refine iff_of_true (hother name _ hname) ?_
      simp [ConfReads, hname]

/-- PSYNC queues its two answers before it looks for the replica. -/
theorem ends_psync (slot : Slot) (s : Server) : Ends slot s (some (s.listenPsync slot)) := by
  have hsaid : ((s.nextSay slot (.simpleString (fullResync s.info))).nextSay slot
      (.syncResponse s.dump)).talkers slot.conn =
      (s.listenPsync slot).talkers slot.conn := by
    unfold listenPsync
    simp only
    split <;> rfl
  have hqueued := queued_nextSay slot (.syncResponse s.dump)
    (s.nextSay slot (.simpleString (fullResync s.info)))
  rw [hsaid] at hqueued
  exact ⟨_, rfl, .replied (prefix_nextSay slot (.simpleString (fullResync s.info)) s _) hqueued⟩

/-! ## The other commands -/

theorem ends_set {s : Server} (hs : s.Sound) (slot : Slot) (now : Timepoint)
    (key value : Bytes) (expireMs : Option Int) :
    Ends slot s (s.execute now slot (.set key value expireMs)) := by
  simp only [execute]
  split
  · exact ends_nextSay List.prefix_rfl _
  · have hcalls : ∀ call ∈ (s.middleware.set now key value expireMs).2,
        (s.talkers call.1.conn).isOpen := fun call hcall =>
      hs.slots_open call.1 (StorageMiddleware.mem_pushCalls hcall)
    obtain ⟨s₁, hset⟩ := Option.isSome_iff_exists.mp (update_isSome_iff.mpr hcalls)
    rw [hset]
    exact ends_nextSay (prefix_update hset slot.conn) _

theorem ends_wait {s : Server} (hs : s.Sound) {slot : Slot}
    (hopen : (s.talkers slot.conn).isOpen) (count : UInt64) :
    Ends slot s (s.update (s.middleware.waitFor count slot)) := by
  obtain ⟨-, ⟨-, hcalls⟩ | ⟨hperm, hpush⟩⟩ := hs.numbered.waitFor count slot
  · -- the reply comes at once
    obtain ⟨⟨slot', message⟩, hcall, hslot⟩ := List.map_eq_singleton_iff.mp hcalls
    obtain rfl : slot' = slot := hslot
    let s₁ : Server := { s with middleware := (s.middleware.waitFor count slot').1 }
    have hupdate : s.update (s.middleware.waitFor count slot') =
        some (s₁.nextSay slot' message) := by
      simp only [Server.update, hcall, callAll]
      exact if_pos hopen
    rw [hupdate]
    exact @ends_nextSay slot' s s₁ List.prefix_rfl message
  · obtain ⟨s', hupdate⟩ := Option.isSome_iff_exists.mp
      (update_isSome_iff.mpr fun call hcall => hs.slots_open call.1 (hpush call hcall))
    refine ⟨s', hupdate, .waits ?_⟩
    rw [(onlySays_update hupdate).middleware]
    exact hperm

theorem ends_xread_iff {s : Server} (hs : s.Sound) {slot : Slot}
    (hopen : (s.talkers slot.conn).isOpen) (request : StreamsReadRequest)
    (blockMs : Option UInt64) :
    Ends slot s ((s.middleware.storage.xread request blockMs slot).bind s.updateStorage) ↔
      s.middleware.storage.NoStrings request ∧ (blockMs.isSome → request ≠ []) := by
  rw [← @Storage.xread_isSome_iff _ _ request blockMs slot]
  cases hread : s.middleware.storage.xread request blockMs slot with
  | none => simp [Ends]
  | some outcome =>
      obtain ⟨storage, calls⟩ := outcome
      simp only [Option.bind_some, Option.isSome_some, true_and]
      obtain ⟨result, hresult, ⟨rfl, rfl⟩ | ⟨ms, rfl, rfl, rfl, hblock⟩⟩ :=
        Storage.xread_cases hread
      · have hanswer : s.updateStorage (s.middleware.storage, [(slot, result)]) =
            some (s.nextSay slot (streamsMessage result)) := by
          simp only [updateStorage, answerAll]
          exact if_pos hopen
        rw [hanswer]
        refine iff_of_true (ends_nextSay List.prefix_rfl _) fun hblock hnil => ?_
        -- a request of nothing would have blocked
        subst hnil
        obtain ⟨ms, rfl⟩ := Option.isSome_iff_exists.mp hblock
        obtain rfl : [] = result := by simpa [Storage.readStreams] using hresult
        simp only [Storage.xread, Storage.readStreams, Option.bind_eq_bind, Option.bind_some,
          List.length_nil, Nat.lt_irrefl, if_false] at hread
        obtain ⟨after, -, hafter⟩ := Option.bind_eq_some_iff.mp hread
        cases hafter
      · have hanswer : s.updateStorage (storage, []) = some (s.setStorage storage) := rfl
        rw [hanswer]
        obtain ⟨resolved, -, hhandles, -⟩ := hs.numbered.storage.block hblock
        constructor
        · rintro ⟨s', hs', hhandled⟩ - hnil
          obtain rfl := Option.some.inj hs'
          rcases hhandles with ⟨hne, -⟩ | ⟨-, hhandles⟩
          · exact hne hnil
          · refine @not_handled slot s (s.setStorage storage) rfl ?_ rfl hhandled
            simp [setStorage, StorageMiddleware.waiting, Storage.waiting, hhandles]
        · intro hrequest
          rcases hhandles with ⟨-, hhandles⟩ | ⟨hnil, -⟩
          · refine ⟨_, rfl, .waits ?_⟩
            have hwaiting : storage.waiting = s.middleware.storage.waiting ++ [slot] := by
              simp [Storage.waiting, hhandles, Storage.blocked]
            simp only [setStorage, StorageMiddleware.waiting, hwaiting]
            rw [← List.append_assoc]
            exact List.perm_append_singleton _ _
          · exact absurd hnil (hrequest rfl)

theorem ends_execute_iff {s : Server} (hs : s.Sound) {now : Timepoint} {slot : Slot}
    (hopen : (s.talkers slot.conn).isOpen) (command : Command) :
    (Ends slot s (s.execute now slot command) ∧
        ((s.talkers slot.conn).replicaId = none → ∀ args, command ≠ .psync args)) ↔
      s.Relied slot.conn command := by
  -- a command that is answered in every state
  have hanswered : ∀ {s₁ : Server} {message : Message} {after : Option Server},
      s₁.talkers = s.talkers → after = some (s₁.nextSay slot message) →
      (∀ args, command ≠ .psync args) →
      (Ends slot s after ∧
        ((s.talkers slot.conn).replicaId = none → ∀ args, command ≠ .psync args)) := by
    rintro s₁ message _ htalkers rfl hcommand
    exact ⟨ends_nextSay (by simp only [htalkers, List.prefix_rfl]) message, fun _ => hcommand⟩
  cases command with
  | replConf args => simpa [Relied, execute] using ends_replConf_iff hs hopen args
  | xread request blockMs => simpa [Relied, execute] using ends_xread_iff hs hopen request blockMs
  | xrange key leftId rightId =>
      simp only [Relied, ← Storage.xrange_isSome_iff, execute]
      cases s.middleware.storage.xrange key leftId rightId with
      | none => simp [Ends]
      | some entries => exact iff_of_true (hanswered rfl rfl (by simp)) rfl
  | psync args =>
      simp only [Relied, Option.isSome_iff_ne_none]
      constructor
      · exact fun h hnone => h.2 hnone args rfl
      · exact fun hsome => ⟨ends_psync slot s, fun hnone => absurd hnone hsome⟩
  | set key value expireMs =>
      exact iff_of_true ⟨ends_set hs slot now key value expireMs, (by simp)⟩ trivial
  | wait count timeoutMs => exact iff_of_true ⟨ends_wait hs hopen count, (by simp)⟩ trivial
  | get key =>
      refine iff_of_true (@hanswered (s.setStorage (s.middleware.storage.get now key).2) _ _
        rfl rfl (by simp)) trivial
  | xadd key streamId values =>
      refine iff_of_true (@hanswered
        (s.setStorage (s.middleware.storage.xadd now key streamId values).2) _ _
        rfl rfl (by simp)) trivial
  | ping => exact iff_of_true (hanswered rfl rfl (by simp)) trivial
  | echo data => exact iff_of_true (hanswered rfl rfl (by simp)) trivial
  | type key => exact iff_of_true (hanswered rfl rfl (by simp)) trivial
  | keys arg => exact iff_of_true (hanswered rfl rfl (by simp)) trivial
  | config action args => exact iff_of_true (hanswered rfl rfl (by simp)) trivial
  | info args => exact iff_of_true (hanswered rfl rfl (by simp)) trivial

/-! ## Messages -/

theorem ends_listen_iff {s : Server} (hs : s.Sound) {now : Timepoint} {slot : Slot}
    (hopen : (s.talkers slot.conn).isOpen) (message : Message) :
    (Ends slot s (s.listen now slot message) ∧ ¬s.Throws slot.conn message) ↔
      s.Acceptable slot.conn message := by
  unfold listen
  cases hparse : Command.tryParse message with
  | ok command =>
      have hwait : Command.isCutOffWait message = false := by
        rw [← Bool.not_eq_true, ← Command.tryParse_undefined_iff, hparse]
        nofun
      have hthrows : ¬s.Throws slot.conn message ↔
          ((s.talkers slot.conn).replicaId = none → ∀ args, command ≠ .psync args) := by
        simp [Throws, hparse]
      rw [hthrows]
      refine (ends_execute_iff hs hopen command).trans ⟨fun h => ⟨hwait, ?_⟩, fun h => ?_⟩
      · intro command' hcommand
        obtain rfl := Except.ok.inj (hparse.symm.trans hcommand)
        exact h
      · exact h.relied command hparse
  | error fault =>
      have hthrows : ¬s.Throws slot.conn message := by simp [Throws, hparse]
      cases fault with
      | parseError what =>
          refine iff_of_true ⟨ends_nextSay List.prefix_rfl _, hthrows⟩ ⟨?_, ?_⟩
          · rw [← Bool.not_eq_true, ← Command.tryParse_undefined_iff, hparse]
            nofun
          · intro command hcommand
            rw [hparse] at hcommand
            cases hcommand
      | undefinedBehaviour =>
          refine iff_of_false (fun h => ?_) fun h => ?_
          · obtain ⟨⟨s', hnone, -⟩, -⟩ := h
            cases hnone
          · have hwait := (Command.tryParse_undefined_iff message).mp hparse
            rw [h.wait] at hwait
            cases hwait

/-- A request that was recorded. -/
theorem recordRequest_same (conn : Nat) (message : Message) (s : Server) (c : Nat) :
    ((s.recordRequest conn message).talkers c).queued = (s.talkers c).queued ∧
      ((s.recordRequest conn message).talkers c).replicaId = (s.talkers c).replicaId ∧
      ((s.recordRequest conn message).talkers c).isOpen = (s.talkers c).isOpen := by
  simp only [recordRequest, modifyTalker_talkers]
  split <;> exact ⟨rfl, rfl, rfl⟩

theorem handled_recordRequest_iff {slot : Slot} {conn : Nat} {message : Message}
    {s s' : Server} : Handled slot (s.recordRequest conn message) s' ↔ Handled slot s s' := by
  have hqueued := (recordRequest_same conn message s slot.conn).1
  constructor
  · rintro (⟨hbefore, hreplied⟩ | hwaits | hacks)
    · exact .replied (hqueued ▸ hbefore) hreplied
    · exact .waits hwaits
    · exact .acknowledged hacks
  · rintro (⟨hbefore, hreplied⟩ | hwaits | hacks)
    · exact .replied (hqueued.symm ▸ hbefore) hreplied
    · exact .waits hwaits
    · exact .acknowledged hacks

theorem register_recordRequest (conn : Nat) (message : Message) (s : Server) :
    ((s.recordRequest conn message).register conn).1 = (s.register conn).1 := by
  have hid := (recordRequest_same conn message s conn).2.1
  unfold register
  rw [hid]
  cases (s.talkers conn).replicaId <;> rfl

theorem confReads_recordRequest_iff {conn : Nat} {message : Message} {s : Server}
    {args : List Bytes} :
    (s.recordRequest conn message).ConfReads conn args ↔ s.ConfReads conn args := by
  have hopen : ∀ c, ((s.recordRequest conn message).talkers c).isOpen =
      (s.talkers c).isOpen := fun c => (recordRequest_same conn message s c).2.2
  match args with
  | [] => exact Iff.rfl
  | [name] => exact Iff.rfl
  | name :: value :: args =>
      simp only [ConfReads, register_recordRequest, hopen]
      exact Iff.rfl

theorem acceptable_recordRequest_iff {conn : Nat} {message : Message} {s : Server} :
    (s.recordRequest conn message).Acceptable conn message ↔ s.Acceptable conn message := by
  have hrelied : ∀ command,
      (s.recordRequest conn message).Relied conn command ↔ s.Relied conn command := by
    intro command
    cases command with
    | replConf args => exact confReads_recordRequest_iff
    | psync args => simp only [Relied, (recordRequest_same conn message s conn).2.1]
    | _ => exact Iff.rfl
  constructor
  · intro h
    exact ⟨h.wait, fun command hcommand => (hrelied command).mp (h.relied command hcommand)⟩
  · intro h
    exact ⟨h.wait, fun command hcommand => (hrelied command).mpr (h.relied command hcommand)⟩

/-- **Requests that are handled.**  In every reachable state and on every open connection,
`listen` completes normally for exactly the messages that it can rely on.  Both directions go
by the commands, each with what its handler asks of the state. -/
theorem completes_iff {clock : Nat → Timepoint} {info : ServerInfo} {dbFile : Option Bytes}
    {server s : Server} (hstart : start clock info dbFile = some server)
    (h : (machine server).Reachable Anything s) {conn : Nat}
    (hopen : (s.talkers conn).isOpen) (now : Timepoint) (message : Message) :
    s.Completes now conn message ↔ s.Acceptable conn message := by
  have hrecord := recordRequest_same conn message s conn
  have hsound := (sound_of_reachable hstart h).recordRequest conn message
  have hthrows : (s.recordRequest conn message).Throws conn message ↔
      s.Throws conn message := by
    simp only [Throws, hrecord.2.1]
  have hlisten := @ends_listen_iff _ hsound now
    ⟨conn, some (s.talkers conn).requests.length⟩ (hrecord.2.2.symm ▸ hopen) message
  rw [hthrows, acceptable_recordRequest_iff] at hlisten
  rw [← hlisten]
  simp only [Completes, Ends, receive, hopen, if_true, handled_recordRequest_iff]

/-- PSYNC behind REPLCONF. -/
theorem completes_iff_handshake :
    let server : Server := { info := { masterReplid := [] } }
    let psync := (Command.psync [ascii "?", ascii "-1"]).construct
    let run := (machine server).run Anything server
      [.receive 0 0 (Command.replConf [ascii "capa", ascii "psync2"]).construct]
    ∃ h : run.isSome, (run.get h).Completes 0 0 psync := by
  intro server psync run
  refine ⟨by decide +kernel, (@completes_iff (fun _ => 0) { masterReplid := [] } none _ _ rfl
    (Machine.reachable_of_run (by decide +kernel)) 0 (by decide +kernel) 0 psync).mpr ⟨rfl, ?_⟩⟩
  intro command hcommand
  obtain rfl : Command.psync [ascii "?", ascii "-1"] = command := Except.ok.inj hcommand
  show ((Option.get run _).talkers 0).replicaId.isSome = true
  decide +kernel

/-- WAIT with nothing behind it is not handled: `try_parse` reads an argument that is not
there. -/
theorem not_completes : ¬∀ (clock : Nat → Timepoint) (info : ServerInfo)
    (dbFile : Option Bytes) (server s : Server) (conn : Nat) (now : Timepoint)
    (message : Message), start clock info dbFile = some server →
    (machine server).Reachable Anything s → (s.talkers conn).isOpen →
    s.Completes now conn message := by
  intro hclaim
  obtain ⟨⟨s', hreceive, -⟩, -⟩ := hclaim (fun _ => 0) { masterReplid := [] } none
    { info := { masterReplid := [] } } { info := { masterReplid := [] } } 0 0
    (.array [.bulkString (ascii "WAIT")]) rfl .init rfl
  have hnone : (({ info := { masterReplid := [] } } : Server).receive 0 0
      (.array [.bulkString (ascii "WAIT")])).isNone = true := by
    decide +kernel
  rw [hreceive] at hnone
  cases hnone

end Server

end BuildYourOwnRedis
