/-
  Server/DeferredReplies.lean --- late replies and connections that are closed.

  The function of a slot reaches its talker through a raw pointer.  A blocked read holds
  the slot weakly; a pending wait owns it, so the slot outlives the talker there.
-/
import BuildYourOwnRedis.Server.ReplyOrder
import BuildYourOwnRedis.Server.WaitOnce

set_option autoImplicit false

namespace BuildYourOwnRedis

open Foundation

namespace StorageMiddleware

variable {κ : Type}

/-! ## Who waits after an operation -/

theorem mem_waits_waitFor {count : UInt64} {slot : κ} {m : StorageMiddleware κ}
    {w : WaitHandle κ} (h : w ∈ (m.waitFor count slot).1.waits) :
    w ∈ m.waits ∨ w.slot = slot := by
  have hadded : w ∈ m.waits ++ [m.newWait count slot] → w ∈ m.waits ∨ w.slot = slot := by
    intro hw
    refine (List.mem_append.mp hw).imp_right fun hw => ?_
    rw [List.mem_singleton.mp hw]
    rfl
  simp only [waitFor] at h
  split at h
  · exact hadded (List.mem_of_mem_filter h)
  · exact hadded h

theorem mem_waits_fireWait {i : Nat} {m : StorageMiddleware κ}
    {result : StorageMiddleware κ × List (κ × Message)} (hfire : m.fireWait i = some result)
    {w : WaitHandle κ} (h : w ∈ result.1.waits) : w ∈ m.waits := by
  unfold fireWait at hfire
  grind [StorageMiddleware.reply]

/-- A timeout replies to the slot of a wait. -/
theorem calls_fireWait {i : Nat} {m : StorageMiddleware κ}
    {result : StorageMiddleware κ × List (κ × Message)} (hfire : m.fireWait i = some result)
    {slot : κ} (h : slot ∈ result.2.map Prod.fst) : ∃ w ∈ m.waits, w.slot = slot := by
  unfold fireWait at hfire
  grind [StorageMiddleware.reply]

/-- So does an offset. -/
theorem calls_acknowledge {id : Nat} {bytesAck : UInt64} {m : StorageMiddleware κ} {slot : κ}
    (h : slot ∈ (m.acknowledge id bytesAck).2.map Prod.fst) :
    ∃ w ∈ m.waits, w.slot = slot := by
  rw [acknowledge_eq, replyAll_eq] at h
  simp only [settle, List.map_map, List.mem_map] at h
  obtain ⟨replied, hreplied, rfl⟩ := h
  obtain ⟨w, hw, rfl⟩ := List.mem_map.mp (mem_satisfied hreplied)
  exact ⟨w, hw, (updateReplicaAck_slot id bytesAck w).symm⟩

end StorageMiddleware

namespace Server

/-! ## What answers a wait or a read -/

/-- The slots that a step calls to answer waits and reads that were pending.  The callback
of a read calls its slot if that is still there. -/
def deferred (s : Server) : ServerAction → List Slot
  | .receive _ conn message =>
      match Command.tryParse message with
      | .ok (.replConf args) =>
          let (id, s) := (s.recordRequest conn message).register conn
          match s.middleware.replicaProcessConf id args with
          | some (_, result) => result.2.map Prod.fst
          | none => []
      | _ => []
  | .say _ => []
  | .disconnect _ => []
  | .runJob =>
      match s.middleware.storage.runJob with
      | some (_, calls) => (calls.map Prod.fst).filter fun slot => s.keepsSlot slot.conn
      | none => []
  | .fireRead i =>
      match s.middleware.storage.fire i with
      | some (_, calls) => (calls.map Prod.fst).filter fun slot => s.keepsSlot slot.conn
      | none => []
  | .fireWait i =>
      match s.middleware.fireWait i with
      | some result => result.2.map Prod.fst
      | none => []

/-- No late reply goes to a talker that is gone.  The slots are those that the next action,
whichever it is, would call for waits and reads. -/
def RepliesReach (s : Server) : Prop :=
  ∀ a, ∀ slot ∈ s.deferred a, (s.talkers slot.conn).isOpen

/-- A connection is closed only while none of its waits is pending.  Blocked reads are not
asked about: they keep a weak pointer to their talker, a wait keeps its slot. -/
def ClosesIdle (s : Server) : ServerAction → Prop
  | .disconnect conn => ∀ w ∈ s.middleware.waits, w.slot.conn ≠ conn
  | _ => True

instance (s : Server) (a : ServerAction) : Decidable (s.ClosesIdle a) := by
  unfold ClosesIdle
  split <;> infer_instance

/-! ## Who is open, and who waits, after a step -/

/-- A slot is called, or not: who is open stays so, and so does the middleware. -/
structure OnlySays (s s' : Server) : Prop where
  middleware : s'.middleware = s.middleware
  isOpen : ∀ c, (s'.talkers c).isOpen = (s.talkers c).isOpen

theorem Queues.onlySays {s s' : Server} (h : ∀ c, ∃ slots, Queues c slots s s') :
    OnlySays s s' := by
  obtain ⟨slots, hqueues⟩ := h 0
  refine ⟨hqueues.middleware, fun c => ?_⟩
  obtain ⟨slots, hqueues⟩ := h c
  exact hqueues.isOpen

theorem onlySays_nextSay (slot : Slot) (message : Message) (s : Server) :
    OnlySays s (s.nextSay slot message) :=
  Queues.onlySays fun c => ⟨_, queues_nextSay c slot message s⟩

theorem onlySays_update {result : StorageMiddleware Slot × List (Slot × Message)}
    {s s' : Server} (h : s.update result = some s') :
    OnlySays { s with middleware := result.1 } s' :=
  Queues.onlySays fun c => ⟨_, callAll_queues h c⟩

theorem onlySays_updateStorage {result : Storage Slot × List (Storage.Call Slot)}
    {s s' : Server} (h : s.updateStorage result = some s') :
    OnlySays (s.setStorage result.1) s' :=
  Queues.onlySays fun c => by
    obtain ⟨slots, hqueues, -⟩ := answerAll_queues h c
    exact ⟨slots, hqueues⟩

/-- Who waits in the state after a step waited before or came on this connection, and
nobody is closed. -/
structure Waits (conn : Option Nat) (s s' : Server) : Prop where
  waits : ∀ w ∈ s'.middleware.waits,
    (∃ x ∈ s.middleware.waits, x.slot = w.slot) ∨ some w.slot.conn = conn
  isOpen : ∀ c, (s'.talkers c).isOpen = (s.talkers c).isOpen

theorem Waits.trans {conn : Option Nat} {s s' s'' : Server} (h : Waits conn s s')
    (h' : Waits conn s' s'') : Waits conn s s'' := by
  refine ⟨fun w hw => ?_, fun c => (h'.isOpen c).trans (h.isOpen c)⟩
  rcases h'.waits w hw with ⟨x, hx, hslot⟩ | hconn
  · exact hslot ▸ h.waits x hx
  · exact Or.inr hconn

theorem Waits.of_eq (conn : Option Nat) {s s' : Server}
    (hwaits : s'.middleware.waits = s.middleware.waits)
    (hopen : ∀ c, (s'.talkers c).isOpen = (s.talkers c).isOpen) : Waits conn s s' :=
  ⟨fun w hw => Or.inl ⟨w, hwaits ▸ hw, rfl⟩, hopen⟩

theorem OnlySays.waits {s s' : Server} (h : OnlySays s s') (conn : Option Nat) :
    Waits conn s s' :=
  .of_eq conn (by rw [h.middleware]) h.isOpen

/-- An operation of the middleware makes nobody wait that did not wait before, but perhaps one
connection. -/
theorem waits_update {result : StorageMiddleware Slot × List (Slot × Message)}
    {s s' : Server} (h : s.update result = some s') {conn : Option Nat}
    (hwaits : ∀ w ∈ result.1.waits,
      (∃ x ∈ s.middleware.waits, x.slot = w.slot) ∨ some w.slot.conn = conn) :
    Waits conn s s' := by
  have hspoken := onlySays_update h
  refine ⟨fun w hw => hwaits w ?_, hspoken.isOpen⟩
  rwa [hspoken.middleware] at hw

theorem waits_updateStorage {result : Storage Slot × List (Storage.Call Slot)}
    {s s' : Server} (h : s.updateStorage result = some s') (conn : Option Nat) :
    Waits conn s s' := by
  have hspoken := onlySays_updateStorage h
  exact .of_eq conn (by rw [hspoken.middleware]; rfl) hspoken.isOpen

theorem waits_register (conn : Nat) (s : Server) :
    Waits (some conn) s (s.register conn).2 := by
  unfold register
  split
  · exact .of_eq _ rfl fun _ => rfl
  · refine .of_eq _ rfl fun c => ?_
    simp only [modifyTalker_talkers]
    split <;> rfl

theorem waits_acknowledge {id : Nat} {bytesAck : UInt64} {s s' : Server}
    (h : s.update (s.middleware.acknowledge id bytesAck) = some s') (conn : Option Nat) :
    Waits conn s s' := by
  refine waits_update h fun w hw => ?_
  obtain ⟨x, hx, -, hslot⟩ := StorageMiddleware.mem_waits_acknowledge hw
  exact Or.inl ⟨x, hx, hslot.symm⟩

theorem waits_listenReplConf {slot : Slot} {args : List Bytes} {s s' : Server}
    (h : s.listenReplConf slot args = some s') : Waits (some slot.conn) s s' := by
  obtain ⟨answered, result, s₂, hconf, hupdate, rfl⟩ := listenReplConf_cases h
  have hregister := waits_register slot.conn s
  generalize (s.register slot.conn).2 = s₁ at hconf hupdate hregister
  have hprocess : Waits (some slot.conn) s₁ s₂ := by
    rcases StorageMiddleware.replicaProcessConf_cases hconf with rfl | ⟨bytesAck, rfl⟩
    · exact (onlySays_update hupdate).waits _
    · exact waits_acknowledge hupdate _
  split
  · exact (hregister.trans hprocess).trans ((onlySays_nextSay slot _ s₂).waits _)
  · exact hregister.trans hprocess

theorem waits_listenPsync (slot : Slot) (s : Server) :
    Waits (some slot.conn) s (s.listenPsync slot) := by
  unfold listenPsync
  have hsaid := ((onlySays_nextSay slot (.simpleString (fullResync s.info)) s).waits
    (some slot.conn)).trans ((onlySays_nextSay slot (.syncResponse s.dump) _).waits _)
  simp only
  split
  · exact hsaid
  · exact hsaid.trans (.of_eq _ rfl fun _ => rfl)

theorem waits_heard {now : Timepoint} {slot : Slot} {message : Message} {s s' : Server}
    (h : Heard now slot message s s') : Waits (some slot.conn) s s' := by
  cases h with
  | reply reply => exact (onlySays_nextSay slot reply s).waits _
  | values values jobs reply =>
      have hset : Waits (some slot.conn) s (s.setStorage { s.middleware.storage with
          values := values, onetimeJobs := jobs }) := .of_eq _ rfl fun _ => rfl
      exact hset.trans ((onlySays_nextSay slot reply _).waits _)
  | set hparse hset =>
      have hwaits := @waits_update _ s _ hset (some slot.conn) fun w hw =>
        Or.inl ⟨w, hw, rfl⟩
      exact hwaits.trans ((onlySays_nextSay slot _ _).waits _)
  | replConf hparse hconf => exact waits_listenReplConf hconf
  | psync hparse => exact waits_listenPsync slot s
  | wait hparse hwait =>
      refine waits_update hwait fun w hw => ?_
      rcases StorageMiddleware.mem_waits_waitFor hw with hw | hslot
      · exact Or.inl ⟨w, hw, rfl⟩
      · exact Or.inr (by rw [hslot])
  | xread hparse hread hanswer => exact waits_updateStorage hanswer _

/-- A message makes nobody wait but its connection, which is open. -/
theorem waits_receive {now : Timepoint} {conn : Nat} {message : Message} {s s' : Server}
    (h : s.receive now conn message = some s') :
    (s.talkers conn).isOpen ∧ Waits (some conn) s s' := by
  obtain ⟨hopen, h⟩ := listen_of_receive h
  have hrecord : Waits (some conn) s (s.recordRequest conn message) := by
    refine .of_eq _ rfl fun c => ?_
    rw [recordRequest, modifyTalker_talkers]
    split <;> rfl
  exact ⟨hopen, hrecord.trans (waits_heard (listen_heard h))⟩

/-! ## Late replies reach their talkers -/

/-- Whoever waits is connected.  This is the invariant of the runs in which connections are
closed idle. -/
def WaitersOpen (s : Server) : Prop :=
  ∀ w ∈ s.middleware.waits, (s.talkers w.slot.conn).isOpen

theorem Waits.waitersOpen {conn : Option Nat} {s s' : Server} (h : Waits conn s s')
    (hs : s.WaitersOpen) (hconn : ∀ c, conn = some c → (s.talkers c).isOpen) :
    s'.WaitersOpen := by
  intro w hw
  rw [h.isOpen]
  rcases h.waits w hw with ⟨x, hx, hslot⟩ | hnew
  · exact hslot ▸ hs x hx
  · exact hconn _ hnew.symm

theorem Waits.keepsOpen {s s' : Server} (h : Waits none s s') (hs : s.WaitersOpen) :
    s'.WaitersOpen :=
  h.waitersOpen hs fun c hc => by cases hc

theorem WaitersOpen.disconnect {conn : Nat} {s : Server} (hs : s.WaitersOpen)
    (hidle : ∀ w ∈ s.middleware.waits, w.slot.conn ≠ conn) :
    (s.disconnect conn).WaitersOpen := by
  have hwaits : (s.disconnect conn).middleware.waits = s.middleware.waits := by
    unfold Server.disconnect
    cases (s.talkers conn).replicaId <;> rfl
  intro w hw
  rw [hwaits] at hw
  have hother : ((s.disconnect conn).talkers w.slot.conn) = s.talkers w.slot.conn := by
    unfold Server.disconnect
    cases (s.talkers conn).replicaId <;>
      simp only [modifyTalker_talkers, if_neg (Ne.symm (hidle w hw))]
  rw [hother]
  exact hs w hw

theorem WaitersOpen.step {s s' : Server} {a : ServerAction} (hs : s.WaitersOpen)
    (ha : s.ClosesIdle a) (h : s.step a = some s') : s'.WaitersOpen := by
  cases a with
  | receive now conn message =>
      obtain ⟨hopen, hwaits⟩ := waits_receive h
      exact hwaits.waitersOpen hs fun c hc => Option.some.inj hc ▸ hopen
  | say conn =>
      obtain ⟨⟨message, s₁⟩, hsay, rfl⟩ := Option.map_eq_some_iff.mp h
      obtain ⟨pending, -, rfl⟩ := say_cases hsay
      refine @Waits.keepsOpen s _ (.of_eq none rfl fun c => ?_) hs
      simp only [modifyTalker_talkers]
      split <;> rfl
  | disconnect conn => exact Option.some.inj h ▸ hs.disconnect ha
  | runJob =>
      obtain ⟨result, -, hanswer⟩ := Option.bind_eq_some_iff.mp h
      exact (waits_updateStorage hanswer none).keepsOpen hs
  | fireRead i =>
      obtain ⟨result, -, hanswer⟩ := Option.bind_eq_some_iff.mp h
      exact (waits_updateStorage hanswer none).keepsOpen hs
  | fireWait i =>
      obtain ⟨result, hfire, hupdate⟩ := Option.bind_eq_some_iff.mp h
      have hwaits : Waits none s s' := waits_update hupdate fun w hw =>
        Or.inl ⟨w, StorageMiddleware.mem_waits_fireWait hfire hw, rfl⟩
      exact hwaits.keepsOpen hs

/-- A slot that is there is one of a talker that is there, when this holds of all waits. -/
theorem WaitersOpen.keepsSlot {s : Server} (hs : s.WaitersOpen) {conn : Nat}
    (h : s.keepsSlot conn) : (s.talkers conn).isOpen := by
  rcases Bool.or_eq_true_iff.mp h with hopen | hwaits
  · exact hopen
  · obtain ⟨w, hw, hconn⟩ := List.any_eq_true.mp hwaits
    exact of_decide_eq_true hconn ▸ hs w hw

theorem WaitersOpen.allReach {s : Server} (hs : s.WaitersOpen) : s.RepliesReach := by
  intro a slot hslot
  cases a with
  | say conn => cases hslot
  | disconnect conn => cases hslot
  | receive now conn message =>
      simp only [deferred] at hslot
      split at hslot
      · next args hparse =>
          have hregister := waits_register conn (s.recordRequest conn message)
          generalize hregistered : (s.recordRequest conn message).register conn = registered
            at hslot hregister
          split at hslot
          · next answered result hconf =>
              rcases StorageMiddleware.replicaProcessConf_cases hconf with rfl | ⟨ack, rfl⟩
              · cases hslot
              · obtain ⟨w, hw, rfl⟩ := StorageMiddleware.calls_acknowledge hslot
                rw [← hregistered] at hw
                refine hs w ?_
                unfold register at hw
                split at hw <;> exact hw
          · cases hslot
      · cases hslot
  | runJob =>
      simp only [deferred] at hslot
      split at hslot
      · exact hs.keepsSlot (List.mem_filter.mp hslot).2
      · cases hslot
  | fireRead i =>
      simp only [deferred] at hslot
      split at hslot
      · exact hs.keepsSlot (List.mem_filter.mp hslot).2
      · cases hslot
  | fireWait i =>
      simp only [deferred] at hslot
      split at hslot
      · next result hfire =>
          obtain ⟨w, hw, rfl⟩ := StorageMiddleware.calls_fireWait hfire hslot
          exact hs w hw
      · cases hslot

/-- **Late replies reach their talkers** in every run in which no connection is closed while
one of its waits is pending.  A blocked read may be left behind: its callback looks whether its
talker is still there. -/
theorem repliesReach {clock : Nat → Timepoint} {info : ServerInfo} {dbFile : Option Bytes}
    {server s : Server} (hstart : start clock info dbFile = some server)
    (h : (machine server).Reachable ClosesIdle s) : s.RepliesReach := by
  refine WaitersOpen.allReach (h.invariant ?_ fun _ _ _ _ hs ha htaken =>
    hs.step ha htaken)
  obtain ⟨values, rfl⟩ := start_eq hstart
  exact fun w hw => by cases hw

/-- A replica attaches, a client sets a key, a second client waits for the replica. -/
def pendingWait : List ServerAction :=
  [.receive 0 0 (Command.replConf [ascii "capa", ascii "psync2"]).construct,
    .receive 0 0 (Command.psync [ascii "?", ascii "-1"]).construct,
    .receive 0 1 (Command.set (ascii "k") (ascii "v") none).construct,
    .receive 0 2 (Command.wait 1 0).construct]

/-- The client that set the key may leave. -/
theorem repliesReach_pendingWait :
    let server : Server := { info := { masterReplid := [] } }
    let run := (machine server).run ClosesIdle server (pendingWait ++ [.disconnect 1])
    ∃ h : run.isSome, (run.get h).RepliesReach :=
  ⟨by decide +kernel, @repliesReach (fun _ => 0) { masterReplid := [] } none _ _ rfl
    (Machine.reachable_of_run (by decide +kernel))⟩

/-- The client of a WAIT leaves while a replica has not acknowledged: the timeout of the wait
calls the slot of a talker that is gone. -/
theorem not_repliesReach : ¬∀ (clock : Nat → Timepoint) (info : ServerInfo)
    (dbFile : Option Bytes) (server s : Server),
    start clock info dbFile = some server → (machine server).Reachable Anything s →
    s.RepliesReach := by
  intro hclaim
  obtain ⟨s, hrun, hcalled⟩ := Option.map_eq_some_iff.mp
    (by decide +kernel : ((machine { info := { masterReplid := [] } }).run Anything
      { info := { masterReplid := [] } } (pendingWait ++ [.disconnect 2])).map
        (fun s => (s.deferred (.fireWait 0)).map fun slot => (s.talkers slot.conn).isOpen) =
      some [false])
  have hreach := hclaim (fun _ => 0) { masterReplid := [] } none _ s rfl
    (Machine.Reachable.run .init hrun) (.fireWait 0)
  obtain ⟨slot, hslot, hclosed⟩ : ∃ slot ∈ s.deferred (.fireWait 0),
      (s.talkers slot.conn).isOpen = false :=
    List.mem_map.mp (by rw [hcalled]; exact List.mem_singleton_self false)
  rw [hreach slot hslot] at hclosed
  cases hclosed

end Server

end BuildYourOwnRedis
