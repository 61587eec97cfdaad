/-
  Server/ReplyOrder.lean --- the order in which the replies of a connection are queued.

  A reply is queued when its request is received, except for WAIT and a blocking XREAD,
  whose replies can come from another connection's command, a posted job or a timeout.
  `Effect` is all that a step of the server can do to the replies of one connection.
-/
import BuildYourOwnRedis.Foundation.Transition
import BuildYourOwnRedis.Server.Server
import BuildYourOwnRedis.Server.Waits

set_option autoImplicit false

namespace BuildYourOwnRedis

open Foundation

/-- What can happen to a server.  The order is free: any connection may send its next message
before it is answered, and jobs and timeouts come when they like. -/
inductive ServerAction where
  | receive (now : Timepoint) (conn : Nat) (message : Message)
  | say (conn : Nat)
  | disconnect (conn : Nat)
  | runJob
  | fireRead (i : Nat)
  | fireWait (i : Nat)
  deriving DecidableEq

/-- The request of a slot, when it is one of this connection. -/
def Slot.requestOf (c : Nat) (slot : Slot) : Option Nat :=
  if slot.conn = c then slot.request else none

namespace Server

/-- One step. -/
def step (s : Server) : ServerAction → Option Server
  | .receive now conn message => s.receive now conn message
  | .say conn => (s.say conn).map Prod.snd
  | .disconnect conn => some (s.disconnect conn)
  | .runJob => s.runJob
  | .fireRead i => s.fireRead i
  | .fireWait i => s.fireWait i

/-- A server and its clients. -/
def machine (server : Server) : Machine Server ServerAction where
  init := server
  step := step

/-! ## The replies of a connection -/

/-- The requests that were answered, in the order of the answers. -/
def replies (c : Nat) (s : Server) : List Nat :=
  (s.talkers c).queued.filterMap Prod.fst

/-- The requests that wait for an answer. -/
def unanswered (c : Nat) (s : Server) : List Nat :=
  s.middleware.waiting.filterMap (Slot.requestOf c)

/-- The reply to this request may come later: WAIT, and XREAD with BLOCK. -/
def isDeferred (message : Message) : Bool :=
  match Command.tryParse message with
  | .ok (.wait _ _) => true
  | .ok (.xread _ (some _)) => true
  | _ => false

/-- The reply to this request of a connection may come later, since it is a WAIT or a blocking
XREAD.  All others are answered before `listen` returns. -/
def Deferred (c : Nat) (s : Server) (request : Nat) : Prop :=
  ∃ message, (s.talkers c).requests[request]? = some message ∧ isDeferred message

/-- A request of a client: no replication command, and a read names a stream. -/
def isOrdinary (message : Message) : Bool :=
  match Command.tryParse message with
  | .ok (.replConf _) => false
  | .ok (.psync _) => false
  | .ok (.xread [] _) => false
  | _ => true

/-- The client of this connection sends ordinary requests: no replication command, and no XREAD
without streams.  The others send anything. -/
def Ordinary (c : Nat) (_ : Server) : ServerAction → Prop
  | .receive _ conn message => conn = c → isOrdinary message
  | _ => True

/-- It also waits for the answers to WAIT and XREAD before it sends the next request.  Then no
reply can be overtaken. -/
def InTurn (c : Nat) (s : Server) (a : ServerAction) : Prop :=
  s.Ordinary c a ∧
    match a with
    | .receive _ conn _ => conn = c → s.unanswered c = []
    | _ => True

instance (c : Nat) (s : Server) (a : ServerAction) : Decidable (s.Ordinary c a) := by
  unfold Ordinary
  split <;> infer_instance

instance (c : Nat) (s : Server) (a : ServerAction) : Decidable (s.InTurn c a) := by
  unfold InTurn
  split <;> infer_instance

/-! ## Queuing -/

@[simp] theorem nextSay_middleware (slot : Slot) (message : Message) (s : Server) :
    (s.nextSay slot message).middleware = s.middleware := rfl

@[simp] theorem nextSay_info (slot : Slot) (message : Message) (s : Server) :
    (s.nextSay slot message).info = s.info := rfl

theorem nextSay_talker (slot : Slot) (message : Message) (s : Server) (c : Nat) :
    (s.nextSay slot message).talkers c = if slot.conn = c then
      { s.talkers c with
        pending := (s.talkers c).pending ++ [message]
        queued := (s.talkers c).queued ++ [(slot.request, message)] }
    else s.talkers c := by
  exact modifyTalker_talkers _ _ s c

/-- Only what is queued changes: for this connection, by the requests of these slots.  This is
what a chain of calls of slots comes to, whichever they are. -/
structure Queues (c : Nat) (slots : List Slot) (s s' : Server) : Prop where
  middleware : s'.middleware = s.middleware
  info : s'.info = s.info
  dbFile : s'.dbFile = s.dbFile
  isOpen : (s'.talkers c).isOpen = (s.talkers c).isOpen
  replicaId : (s'.talkers c).replicaId = (s.talkers c).replicaId
  requests : (s'.talkers c).requests = (s.talkers c).requests
  replies : s'.replies c = s.replies c ++ slots.filterMap (Slot.requestOf c)
  answers : (∀ q ∈ (s.talkers c).queued, q.1.isSome) →
    (∀ slot ∈ slots, slot.conn = c → slot.request.isSome) →
    ∀ q ∈ (s'.talkers c).queued, q.1.isSome

theorem Queues.refl (c : Nat) (s : Server) : Queues c [] s s :=
  ⟨rfl, rfl, rfl, rfl, rfl, rfl, by simp, fun h _ => h⟩

theorem Queues.trans {c : Nat} {slots slots' : List Slot} {s s' s'' : Server}
    (h : Queues c slots s s') (h' : Queues c slots' s' s'') :
    Queues c (slots ++ slots') s s'' where
  middleware := h'.middleware.trans h.middleware
  info := h'.info.trans h.info
  dbFile := h'.dbFile.trans h.dbFile
  isOpen := h'.isOpen.trans h.isOpen
  replicaId := h'.replicaId.trans h.replicaId
  requests := h'.requests.trans h.requests
  replies := by rw [h'.replies, h.replies, List.filterMap_append, List.append_assoc]
  answers := fun hold hnew => h'.answers
    (h.answers hold fun slot hslot => hnew slot (List.mem_append_left _ hslot))
    fun slot hslot => hnew slot (List.mem_append_right _ hslot)

theorem queues_nextSay (c : Nat) (slot : Slot) (message : Message) (s : Server) :
    Queues c [slot] s (s.nextSay slot message) := by
  refine ⟨rfl, rfl, rfl, ?_, ?_, ?_, ?_, ?_⟩
  · rw [nextSay_talker]
    split <;> rfl
  · rw [nextSay_talker]
    split <;> rfl
  · rw [nextSay_talker]
    split <;> rfl
  · by_cases h : slot.conn = c
    · cases hr : slot.request <;>
        simp [replies, nextSay_talker, Slot.requestOf, h, hr]
    · simp [replies, nextSay_talker, Slot.requestOf, h]
  · intro hold hnew q hq
    rw [nextSay_talker] at hq
    by_cases h : slot.conn = c
    · simp only [h, if_true] at hq
      rcases List.mem_append.mp hq with hq | hq
      · exact hold q hq
      · obtain rfl := List.mem_singleton.mp hq
        exact hnew slot (by simp) h
    · simp only [h, if_false] at hq
      exact hold q hq

theorem callAll_queues {calls : List (Slot × Message)} {s s' : Server}
    (h : s.callAll calls = some s') (c : Nat) : Queues c (calls.map Prod.fst) s s' := by
  induction calls generalizing s with
  | nil =>
      obtain rfl := Option.some.inj h
      exact Queues.refl c s
  | cons call calls ih =>
      obtain ⟨slot, message⟩ := call
      rw [callAll] at h
      split at h
      · exact (queues_nextSay c slot message s).trans (ih h)
      · cases h

/-- A read is answered unless its connection is closed. -/
theorem answerAll_queues {calls : List (Storage.Call Slot)} {s s' : Server}
    (h : s.answerAll calls = some s') (c : Nat) :
    ∃ slots, Queues c slots s s' ∧ slots ⊆ calls.map Prod.fst ∧
      ((s.talkers c).isOpen → slots.filterMap (Slot.requestOf c) =
        (calls.map Prod.fst).filterMap (Slot.requestOf c)) := by
  induction calls generalizing s with
  | nil =>
      obtain rfl := Option.some.inj h
      exact ⟨[], Queues.refl c s, fun _ h => h, fun _ => rfl⟩
  | cons call calls ih =>
      obtain ⟨slot, result⟩ := call
      rw [answerAll] at h
      split at h
      · have hsay := queues_nextSay c slot (streamsMessage result) s
        obtain ⟨slots, hqueues, hsub, heq⟩ := ih h
        refine ⟨slot :: slots, hsay.trans hqueues, ?_, fun hopen => ?_⟩
        · exact List.cons_subset_cons slot hsub
        · rw [List.map_cons, List.filterMap_cons, List.filterMap_cons,
            heq (hsay.isOpen ▸ hopen)]
      · next hclosed =>
          split at h
          · cases h
          · obtain ⟨slots, hqueues, hsub, heq⟩ := ih h
            refine ⟨slots, hqueues, fun x hx => List.mem_cons_of_mem _ (hsub hx),
              fun hopen => ?_⟩
            have hother : slot.conn ≠ c := fun heq => hclosed (heq ▸ hopen)
            rw [heq hopen]
            simp [Slot.requestOf, hother]

/-! ## What a step does to the replies -/

/-- A connection that is no replica, and the bookkeeping of the server.  No slot of the
middleware leads to it, so whatever is queued for it answers one of its requests. -/
structure Client (c : Nat) (s : Server) : Prop where
  numbered : s.middleware.Numbered
  notReplica : (s.talkers c).replicaId = none
  noSlot : ∀ slot ∈ s.middleware.slots, slot.conn ≠ c
  waitingSome : ∀ slot ∈ s.middleware.waiting, slot.request.isSome
  queuedSome : ∀ q ∈ (s.talkers c).queued, q.1.isSome

/-- What is queued for the connection was waiting for it or has just arrived, and what
neither waits nor was queued has not been there before. -/
structure Effect (c : Nat) (arrived : List Nat) (s s' : Server) : Prop where
  client : s'.Client c
  wasOpen : (s'.talkers c).isOpen → (s.talkers c).isOpen
  requests : (s'.talkers c).requests = (s.talkers c).requests
  balance : (s'.talkers c).isOpen → ∃ new, s'.replies c = s.replies c ++ new ∧
    (new ++ s'.unanswered c).Perm (arrived ++ s.unanswered c)

theorem Queues.effect {c : Nat} {slots : List Slot} {s s₁ s' : Server}
    (h : Queues c slots s₁ s') (hc : s.Client c) (htalkers : s₁.talkers = s.talkers)
    (hnumbered : s₁.middleware.Numbered) (hslots : s₁.middleware.slots = s.middleware.slots)
    {arrived called : List Slot} (hsome : ∀ slot ∈ arrived, slot.request.isSome)
    (hperm : (called ++ s₁.middleware.waiting).Perm (arrived ++ s.middleware.waiting))
    (hcalled : ∀ slot ∈ slots, slot.conn = c → slot ∈ called)
    (hopen : (s.talkers c).isOpen → slots.filterMap (Slot.requestOf c) =
      called.filterMap (Slot.requestOf c)) :
    Effect c (arrived.filterMap (Slot.requestOf c)) s s' := by
  have hall : ∀ slot ∈ called ++ s₁.middleware.waiting, slot.request.isSome := by
    intro slot hslot
    rcases List.mem_append.mp (hperm.mem_iff.mp hslot) with hslot | hslot
    · exact hsome slot hslot
    · exact hc.waitingSome slot hslot
  refine ⟨⟨?_, ?_, ?_, ?_, ?_⟩, ?_, ?_, ?_⟩
  · rw [h.middleware]
    exact hnumbered
  · rw [h.replicaId, htalkers]
    exact hc.notReplica
  · rw [h.middleware, hslots]
    exact hc.noSlot
  · rw [h.middleware]
    exact fun slot hslot => hall slot (List.mem_append_right _ hslot)
  · refine h.answers (htalkers ▸ hc.queuedSome) fun slot hslot hconn => ?_
    exact hall slot (List.mem_append_left _ (hcalled slot hslot hconn))
  · rw [h.isOpen, htalkers]
    exact id
  · rw [h.requests, htalkers]
  · intro hopen'
    rw [h.isOpen, htalkers] at hopen'
    refine ⟨called.filterMap (Slot.requestOf c), ?_, ?_⟩
    · rw [h.replies, hopen hopen', Server.replies, Server.replies, htalkers]
    · rw [unanswered, unanswered, h.middleware, ← List.filterMap_append,
        ← List.filterMap_append]
      exact hperm.filterMap _

/-- An operation whose calls are replies to slots that waited, or to those that have just
arrived. -/
theorem update_effect {c : Nat} {s s' : Server}
    {result : StorageMiddleware Slot × List (Slot × Message)} (hc : s.Client c)
    (h : s.update result = some s') (hnumbered : result.1.Numbered)
    (hslots : result.1.slots = s.middleware.slots) {arrived : List Slot}
    (hsome : ∀ slot ∈ arrived, slot.request.isSome)
    (hperm : (result.2.map Prod.fst ++ result.1.waiting).Perm
      (arrived ++ s.middleware.waiting)) :
    Effect c (arrived.filterMap (Slot.requestOf c)) s s' :=
  (callAll_queues h c).effect hc rfl hnumbered hslots hsome hperm (fun _ hslot _ => hslot)
    fun _ => rfl

/-- An operation that pushes to replicas, which are other connections, and answers nobody. -/
theorem update_pushes {c : Nat} {s s' : Server}
    {result : StorageMiddleware Slot × List (Slot × Message)} (hc : s.Client c)
    (h : s.update result = some s') (hnumbered : result.1.Numbered)
    (hslots : result.1.slots = s.middleware.slots) {arrived : List Slot}
    (hsome : ∀ slot ∈ arrived, slot.request.isSome)
    (hperm : result.1.waiting.Perm (arrived ++ s.middleware.waiting))
    (hpush : ∀ call ∈ result.2, call.1 ∈ s.middleware.slots) :
    Effect c (arrived.filterMap (Slot.requestOf c)) s s' := by
  have hother : ∀ slot ∈ result.2.map Prod.fst, slot.conn ≠ c := by
    intro slot hslot
    obtain ⟨call, hcall, rfl⟩ := List.mem_map.mp hslot
    exact hc.noSlot call.1 (hpush call hcall)
  refine @Queues.effect c _ s _ s' (callAll_queues h c) hc rfl hnumbered hslots arrived []
    hsome hperm (fun slot hslot hconn => absurd hconn (hother slot hslot)) fun _ => ?_
  rw [List.filterMap_nil, List.filterMap_eq_nil_iff]
  exact fun slot hslot => if_neg (hother slot hslot)

/-- An operation of the storage: who is called and who waits then are those that waited and
those that have arrived. -/
theorem updateStorage_effect {c : Nat} {s s' : Server}
    {result : Storage Slot × List (Storage.Call Slot)} (hc : s.Client c)
    (h : s.updateStorage result = some s') (hnumbered : result.1.Numbered) {arrived : List Slot}
    (hsome : ∀ slot ∈ arrived, slot.request.isSome)
    (hperm : (result.2.map Prod.fst ++ result.1.waiting).Perm
      (arrived ++ s.middleware.storage.waiting)) :
    Effect c (arrived.filterMap (Slot.requestOf c)) s s' := by
  obtain ⟨slots, hqueues, hsub, heq⟩ := answerAll_queues h c
  refine hqueues.effect hc rfl ⟨hc.numbered.distinct, hc.numbered.below, hnumbered⟩ rfl hsome
    ?_ (fun slot hslot _ => hsub hslot) heq
  -- the waits stand between the calls and the reads
  simp only [StorageMiddleware.waiting]
  have hwaits := hperm.append_left (s.middleware.waits.map WaitHandle.slot)
  refine (List.perm_append_comm_assoc _ _ _).trans (hwaits.trans ?_)
  exact List.perm_append_comm_assoc _ _ _

theorem Effect.refl {c : Nat} {s : Server} (hc : s.Client c) : Effect c [] s s :=
  ⟨hc, id, rfl, fun _ => ⟨[], by simp, List.Perm.refl _⟩⟩

theorem Effect.trans {c : Nat} {arrived arrived' : List Nat} {s s' s'' : Server}
    (h : Effect c arrived s s') (h' : Effect c arrived' s' s'') :
    Effect c (arrived' ++ arrived) s s'' := by
  refine ⟨h'.client, fun hopen => h.wasOpen (h'.wasOpen hopen),
    h'.requests.trans h.requests, fun hopen => ?_⟩
  obtain ⟨new, hreplies, hperm⟩ := h.balance (h'.wasOpen hopen)
  obtain ⟨new', hreplies', hperm'⟩ := h'.balance hopen
  refine ⟨new ++ new', by rw [hreplies', hreplies, List.append_assoc], ?_⟩
  calc new ++ new' ++ s''.unanswered c
      = new ++ (new' ++ s''.unanswered c) := List.append_assoc _ _ _
    List.Perm _ (new ++ (arrived' ++ s'.unanswered c)) := hperm'.append_left new
    List.Perm _ (arrived' ++ (new ++ s'.unanswered c)) := List.perm_append_comm_assoc _ _ _
    List.Perm _ (arrived' ++ (arrived ++ s.unanswered c)) := hperm.append_left arrived'
    _ = arrived' ++ arrived ++ s.unanswered c := (List.append_assoc _ _ _).symm

/-- Another reply behind an effect. -/
theorem Effect.nextSay {c : Nat} {s s' : Server} (h : Effect c [] s s') {slot : Slot}
    (hslot : slot.request.isSome) (message : Message) :
    Effect c ([slot].filterMap (Slot.requestOf c)) s (s'.nextSay slot message) := by
  have hsay := @Queues.effect c [slot] s' s' _ (queues_nextSay c slot message s') h.client rfl
    h.client.numbered rfl [slot] [slot] (by simpa using hslot) (List.Perm.refl _)
    (fun _ hx _ => hx) fun _ => rfl
  simpa using h.trans hsay

/-! ## Commands -/

theorem set_effect {c : Nat} {s s' : Server} (hc : s.Client c) {now : Timepoint}
    {key value : Bytes} {expireMs : Option Int}
    (h : s.update (s.middleware.set now key value expireMs) = some s') : Effect c [] s s' :=
  @update_pushes c s s' _ hc h (hc.numbered.set now key value expireMs)
    (StorageMiddleware.slots_set now key value expireMs s.middleware) [] (by simp)
    (List.Perm.refl _) fun _ hcall => StorageMiddleware.mem_pushCalls hcall

/-- The values and the jobs of the storage have no part in it. -/
theorem values_effect {c : Nat} {s : Server} (hc : s.Client c)
    (values : AList fun _ : Bytes => Value) (jobs : List (List Nat)) :
    Effect c [] s (s.setStorage { s.middleware.storage with
      values := values, onetimeJobs := jobs }) :=
  @updateStorage_effect c s _ ({ s.middleware.storage with
    values := values, onetimeJobs := jobs }, []) hc rfl
    (hc.numbered.storage.congr rfl rfl rfl) []
    (by simp) (List.Perm.refl _)

/-- What happens to another connection has no effect here, as long as no slot of the middleware
leads to this one. -/
theorem other_effect {c : Nat} {s s' : Server} (hc : s.Client c)
    (htalker : s'.talkers c = s.talkers c) (hnumbered : s'.middleware.Numbered)
    (hwaiting : s'.middleware.waiting = s.middleware.waiting)
    (hslots : ∀ slot ∈ s'.middleware.slots, slot.conn ≠ c) : Effect c [] s s' := by
  refine ⟨⟨hnumbered, ?_, hslots, ?_, ?_⟩, ?_, ?_, fun _ => ⟨[], ?_, ?_⟩⟩
  · exact htalker ▸ hc.notReplica
  · exact hwaiting ▸ hc.waitingSome
  · exact htalker ▸ hc.queuedSome
  · exact htalker ▸ id
  · rw [htalker]
  · rw [replies, replies, htalker, List.append_nil]
  · rw [unanswered, unanswered, hwaiting]

theorem register_effect {c : Nat} {s : Server} (hc : s.Client c) {conn : Nat}
    (hother : conn ≠ c) : Effect c [] s (s.register conn).2 := by
  unfold register
  split
  · exact Effect.refl hc
  · refine other_effect hc ?_ ?_ rfl ?_
    · exact Function.update_of_ne (Ne.symm hother) _ _
    · exact hc.numbered.congr rfl rfl hc.numbered.storage
    · intro x hx
      simp only [modifyTalker, StorageMiddleware.slots, StorageMiddleware.addReplica,
        List.map_append, List.mem_append] at hx
      rcases hx with hx | hx
      · exact hc.noSlot x hx
      · obtain rfl := List.mem_singleton.mp hx
        exact hother

theorem acknowledge_effect {c : Nat} {s s' : Server} (hc : s.Client c) {id : Nat}
    {bytesAck : UInt64} (h : s.update (s.middleware.acknowledge id bytesAck) = some s') :
    Effect c [] s s' := by
  obtain ⟨hnumbered, hperm⟩ := hc.numbered.acknowledge id bytesAck
  exact @update_effect c s s' _ hc h hnumbered
    (StorageMiddleware.slots_acknowledge id bytesAck s.middleware) [] (by simp) hperm

/-- REPLCONF on another connection. -/
theorem listenReplConf_effect {c : Nat} {s s' : Server} (hc : s.Client c) {slot : Slot}
    (hslot : slot.request.isSome) (hother : slot.conn ≠ c) {args : List Bytes}
    (h : s.listenReplConf slot args = some s') : Effect c [] s s' := by
  have hnone : [slot].filterMap (Slot.requestOf c) = [] := by
    simp [Slot.requestOf, hother]
  obtain ⟨answered, result, s₂, hconf, hupdate, rfl⟩ := listenReplConf_cases h
  have hregister := register_effect hc hother
  generalize (s.register slot.conn).2 = s₁ at hconf hupdate hregister
  have hprocess : Effect c [] s₁ s₂ := by
    rcases StorageMiddleware.replicaProcessConf_cases hconf with rfl | ⟨bytesAck, rfl⟩
    · exact Option.some.inj hupdate ▸ Effect.refl hregister.client
    · exact acknowledge_effect hregister.client hupdate
  split
  · exact hnone ▸ Effect.nextSay (hregister.trans hprocess) hslot _
  · exact hregister.trans hprocess

/-- PSYNC on another connection. -/
theorem listenPsync_effect {c : Nat} {s : Server} (hc : s.Client c) {slot : Slot}
    (hslot : slot.request.isSome) (hother : slot.conn ≠ c) :
    Effect c [] s (s.listenPsync slot) := by
  have hnone : [slot].filterMap (Slot.requestOf c) = [] := by
    simp [Slot.requestOf, hother]
  have hsaid : Effect c [] s ((s.nextSay slot (.simpleString (fullResync s.info))).nextSay slot
      (.syncResponse s.dump)) :=
    hnone ▸ Effect.nextSay (hnone ▸ Effect.nextSay (Effect.refl hc) hslot _) hslot _
  simp only [listenPsync]
  split
  · exact hsaid
  · next id _ =>
      refine @Effect.trans c [] [] _ _ _ hsaid ?_
      refine other_effect hsaid.client rfl ?_ rfl ?_
      · exact hsaid.client.numbered.congr rfl rfl hsaid.client.numbered.storage
      · intro x hx
        refine hsaid.client.noSlot x ?_
        rwa [StorageMiddleware.replicaSetState, StorageMiddleware.slots_modifyReplica] at hx
        exact fun _ => rfl

theorem xread_effect {c : Nat} {s s' : Server} (hc : s.Client c) {slot : Slot}
    (hslot : slot.request.isSome) {request : StreamsReadRequest} {blockMs : Option UInt64}
    (hrequest : slot.conn = c → request ≠ [])
    {storage : Storage Slot} {calls : List (Storage.Call Slot)}
    (h : s.middleware.storage.xread request blockMs slot = some (storage, calls))
    (hanswer : s.updateStorage (storage, calls) = some s') :
    Effect c ([slot].filterMap (Slot.requestOf c)) s s' := by
  obtain ⟨result, -, ⟨rfl, rfl⟩ | ⟨ms, -, -, rfl, hblock⟩⟩ := Storage.xread_cases h
  · exact updateStorage_effect hc hanswer hc.numbered.storage (by simpa using hslot)
      (List.Perm.refl _)
  · obtain ⟨resolved, -, hhandles, -⟩ := hc.numbered.storage.block hblock
    have hnumbered := hc.numbered.storage.numbered_block hblock
    rcases hhandles with ⟨-, hhandles⟩ | ⟨hnil, hhandles⟩
    · refine updateStorage_effect hc hanswer hnumbered (by simpa using hslot) ?_
      have hwaiting : storage.waiting = s.middleware.storage.waiting ++ [slot] := by
        simp [Storage.waiting, hhandles, Storage.blocked]
      rw [hwaiting]
      exact List.perm_append_singleton slot s.middleware.storage.waiting
    · have hother : slot.conn ≠ c := fun heq => hrequest heq hnil
      have hnone : [slot].filterMap (Slot.requestOf c) = ([] : List Slot).filterMap
          (Slot.requestOf c) := by
        simp [Slot.requestOf, hother]
      rw [hnone]
      refine updateStorage_effect hc hanswer hnumbered (by simp) ?_
      simp [Storage.waiting, hhandles]

theorem wait_effect {c : Nat} {s s' : Server} (hc : s.Client c) {slot : Slot}
    (hslot : slot.request.isSome) {count : UInt64}
    (h : s.update (s.middleware.waitFor count slot) = some s') :
    Effect c ([slot].filterMap (Slot.requestOf c)) s s' := by
  obtain ⟨hnumbered, ⟨hwaiting, hcalls⟩ | ⟨hperm, hpush⟩⟩ := hc.numbered.waitFor count slot
  · refine update_effect hc h hnumbered (StorageMiddleware.slots_waitFor count slot _)
      (by simpa using hslot) ?_
    rw [hwaiting, hcalls]
  · exact update_pushes hc h hnumbered (StorageMiddleware.slots_waitFor count slot _)
      (by simpa using hslot) hperm hpush

/-- What `listen` does to the replies of a connection: the slot of the message is answered or
waits, and others that waited may be answered. -/
theorem listen_effect {c : Nat} {s s' : Server} (hc : s.Client c) {now : Timepoint}
    {slot : Slot} (hslot : slot.request.isSome) {message : Message}
    (hordinary : slot.conn = c → isOrdinary message)
    (h : s.listen now slot message = some s') :
    Effect c ([slot].filterMap (Slot.requestOf c)) s s' := by
  have hnone : slot.conn ≠ c → [slot].filterMap (Slot.requestOf c) = [] := by
    intro hother
    simp [Slot.requestOf, hother]
  cases listen_heard h with
  | reply reply => exact (Effect.refl hc).nextSay hslot _
  | values values jobs reply => exact (values_effect hc values jobs).nextSay hslot _
  | set hparse hset => exact (set_effect hc hset).nextSay hslot _
  | replConf hparse hconf =>
      have hother : slot.conn ≠ c := fun heq => by
        simpa [isOrdinary, hparse] using hordinary heq
      rw [hnone hother]
      exact listenReplConf_effect hc hslot hother hconf
  | psync hparse =>
      have hother : slot.conn ≠ c := fun heq => by
        simpa [isOrdinary, hparse] using hordinary heq
      rw [hnone hother]
      exact listenPsync_effect hc hslot hother
  | wait hparse hwait => exact wait_effect hc hslot hwait
  | xread hparse hread hanswer =>
      refine xread_effect hc hslot (fun heq hnil => ?_) hread hanswer
      subst hnil
      simpa [isOrdinary, hparse] using hordinary heq

/-- A message that is answered at once leaves nothing to wait for. -/
theorem listen_waiting {s s' : Server} {now : Timepoint} {slot : Slot} {message : Message}
    (hordinary : isOrdinary message) (hnow : isDeferred message = false)
    (h : s.listen now slot message = some s') :
    s'.middleware.waiting = s.middleware.waiting := by
  have hstorage : ∀ (storage : Storage Slot),
      storage.handles = s.middleware.storage.handles →
      (s.setStorage storage).middleware.waiting = s.middleware.waiting := by
    intro storage hhandles
    simp [setStorage, StorageMiddleware.waiting, Storage.waiting, hhandles]
  cases listen_heard h with
  | reply reply => rfl
  | values values jobs reply => exact hstorage _ rfl
  | set hparse hset =>
      rw [nextSay_middleware, (callAll_queues hset 0).middleware]
      rfl
  | replConf hparse hconf => simp [isOrdinary, hparse] at hordinary
  | psync hparse => simp [isOrdinary, hparse] at hordinary
  | wait hparse hwait => simp [isDeferred, hparse] at hnow
  | xread hparse hread hanswer =>
      obtain ⟨result, -, ⟨rfl, -⟩ | ⟨ms, rfl, -⟩⟩ := Storage.xread_cases hread
      · obtain ⟨slots, hqueues, -⟩ := answerAll_queues hanswer 0
        rw [hqueues.middleware]
        exact hstorage _ rfl
      · simp [isDeferred, hparse] at hnow

/-! ## Steps -/

theorem say_effect {c conn : Nat} {s s' : Server} (hc : s.Client c) {message : Message}
    (h : s.say conn = some (message, s')) : Effect c [] s s' := by
  obtain ⟨pending, -, rfl⟩ := say_cases h
  by_cases hconn : conn = c
  · subst hconn
    refine ⟨⟨hc.numbered, ?_, hc.noSlot, hc.waitingSome, ?_⟩, ?_, ?_,
      fun _ => ⟨[], ?_, List.Perm.refl _⟩⟩
    · simpa [modifyTalker] using hc.notReplica
    · simpa [modifyTalker] using hc.queuedSome
    · simp [modifyTalker]
    · simp [modifyTalker]
    · simp [modifyTalker, replies]
  · exact other_effect hc (Function.update_of_ne (Ne.symm hconn) _ _) hc.numbered rfl
      hc.noSlot

theorem disconnect_effect {c conn : Nat} {s : Server} (hc : s.Client c) :
    Effect c [] s (s.disconnect conn) := by
  have hremove : ∀ m : StorageMiddleware Slot,
      (m = s.middleware ∨ ∃ id, m = s.middleware.removeReplica id) →
      m.Numbered ∧ m.waiting = s.middleware.waiting ∧ ∀ slot ∈ m.slots, slot.conn ≠ c := by
    rintro m (rfl | ⟨id, rfl⟩)
    · exact ⟨hc.numbered, rfl, hc.noSlot⟩
    · refine ⟨hc.numbered.congr rfl rfl hc.numbered.storage, rfl, fun x hx => ?_⟩
      obtain ⟨r, hr, rfl⟩ := List.mem_map.mp hx
      exact hc.noSlot r.slot (List.mem_map_of_mem (List.mem_filter.mp hr).1)
  generalize hafter : s.disconnect conn = s'
  obtain ⟨hm, htalkers⟩ : (s'.middleware = s.middleware ∨
      ∃ id, s'.middleware = s.middleware.removeReplica id) ∧
      s'.talkers = Function.update s.talkers conn
        { s.talkers conn with replicaId := none, isOpen := false } := by
    subst hafter
    unfold disconnect
    cases (s.talkers conn).replicaId with
    | none => exact ⟨Or.inl rfl, rfl⟩
    | some id => exact ⟨Or.inr ⟨id, rfl⟩, rfl⟩
  obtain ⟨hnumbered, hwaiting, hslots⟩ := hremove s'.middleware hm
  by_cases hconn : conn = c
  · subst hconn
    refine ⟨⟨hnumbered, ?_, hslots, hwaiting ▸ hc.waitingSome, ?_⟩, ?_, ?_, fun hopen => ?_⟩
    · simp [htalkers]
    · simpa [htalkers] using hc.queuedSome
    · simp [htalkers]
    · simp [htalkers]
    · simp [htalkers] at hopen
  · exact other_effect hc (by rw [htalkers]; exact Function.update_of_ne (Ne.symm hconn) _ _)
      hnumbered hwaiting hslots

/-- Jobs and timeouts of the storage only reply. -/
theorem replies_effect {c : Nat} {s s' : Server} (hc : s.Client c) {storage : Storage Slot}
    {handles : List Nat} {storage' : Storage Slot} {calls : List (Storage.Call Slot)}
    (hhandles : storage.handles = s.middleware.storage.handles)
    (hnext : storage.nextHandle = s.middleware.storage.nextHandle)
    (hnodes : storage.nodes = s.middleware.storage.nodes)
    (h : storage.wake handles = some (storage', calls))
    (hanswer : s.updateStorage (storage', calls) = some s') : Effect c [] s s' := by
  have hnumbered := hc.numbered.storage.congr hhandles hnext hnodes
  have hreplies := Storage.wake_replies h
  refine @updateStorage_effect c s s' (storage', calls) hc hanswer (hreplies.numbered hnumbered) []
    (by simp) ?_
  have hperm := hreplies.waiting_perm hnumbered
  simpa [Storage.waiting, hhandles] using hperm

theorem runJob_effect {c : Nat} {s s' : Server} (hc : s.Client c) (h : s.runJob = some s') :
    Effect c [] s s' := by
  obtain ⟨⟨storage, calls⟩, hrun, hanswer⟩ := Option.bind_eq_some_iff.mp h
  obtain ⟨job, jobs, -, hwake⟩ := Storage.runJob_replies hrun
  refine replies_effect hc ?_ ?_ ?_ hwake hanswer <;> rfl

theorem fireRead_effect {c i : Nat} {s s' : Server} (hc : s.Client c)
    (h : s.fireRead i = some s') : Effect c [] s s' := by
  obtain ⟨⟨storage, calls⟩, hfire, hanswer⟩ := Option.bind_eq_some_iff.mp h
  obtain ⟨handles, hwake⟩ := Storage.fire_replies hfire
  refine replies_effect hc ?_ ?_ ?_ hwake hanswer <;> rfl

theorem fireWait_effect {c i : Nat} {s s' : Server} (hc : s.Client c)
    (h : s.fireWait i = some s') : Effect c [] s s' := by
  obtain ⟨result, hfire, hupdate⟩ := Option.bind_eq_some_iff.mp h
  obtain ⟨hnumbered, hperm⟩ := hc.numbered.fireWait hfire
  exact @update_effect c s s' result hc hupdate hnumbered
    (StorageMiddleware.slots_fireWait hfire) [] (by simp) hperm

theorem Client.recordRequest {c : Nat} {s : Server} (hc : s.Client c) (conn : Nat)
    (message : Message) : (s.recordRequest conn message).Client c := by
  refine ⟨hc.numbered, ?_, hc.noSlot, hc.waitingSome, ?_⟩
  · rw [Server.recordRequest, modifyTalker_talkers]
    split <;> exact hc.notReplica
  · rw [Server.recordRequest, modifyTalker_talkers]
    split <;> exact hc.queuedSome

/-! ## The invariant -/

/-- Every request was answered or waits for it, only a late one waits, and a reply comes
before that of an earlier request only if the latter can come late. -/
structure Ordered (c : Nat) (s : Server) : Prop where
  perm : (s.replies c ++ s.unanswered c).Perm (List.range (s.talkers c).requests.length)
  late : ∀ r ∈ s.unanswered c, s.Deferred c r
  order : (s.replies c).Pairwise fun x y => x < y ∨ s.Deferred c y

theorem Ordered.lt {c : Nat} {s : Server} (hs : s.Ordered c) {r : Nat}
    (hr : r ∈ s.replies c ∨ r ∈ s.unanswered c) : r < (s.talkers c).requests.length :=
  List.mem_range.mp (hs.perm.mem_iff.mp (List.mem_append.mpr hr))

/-- An effect keeps the order: what arrived is later than all before, and what waited is
late. -/
theorem Effect.ordered {c : Nat} {arrived : List Nat} {s s' : Server}
    (h : Effect c arrived s s') (hopen : (s'.talkers c).isOpen)
    (hbefore : (s.replies c).Pairwise fun x y => x < y ∨ s.Deferred c y)
    (hlate : ∀ r ∈ s.unanswered c, s.Deferred c r)
    (hlt : ∀ r, r ∈ s.replies c ∨ r ∈ s.unanswered c → ∀ n ∈ arrived, r < n)
    (harrived : arrived.length ≤ 1)
    (hperm : (s.replies c ++ (arrived ++ s.unanswered c)).Perm
      (List.range (s.talkers c).requests.length))
    (hwaits : ∀ r ∈ arrived, r ∈ s'.unanswered c → s.Deferred c r) : s'.Ordered c := by
  obtain ⟨new, hreplies, hnew⟩ := h.balance hopen
  have hdeferred : ∀ r, s.Deferred c r → s'.Deferred c r := by
    rintro r ⟨message, hmessage, hlate⟩
    exact ⟨message, h.requests ▸ hmessage, hlate⟩
  have hmem : ∀ r ∈ new, r ∈ arrived ∨ r ∈ s.unanswered c := fun r hr =>
    List.mem_append.mp (hnew.mem_iff.mp (List.mem_append_left _ hr))
  have hnodup : (arrived ++ s.unanswered c).Nodup :=
    (List.nodup_append.mp (hperm.nodup_iff.mpr List.nodup_range)).2.1
  refine ⟨?_, ?_, ?_⟩
  · rw [hreplies, h.requests, List.append_assoc]
    exact (hnew.append_left _).trans hperm
  · intro r hr
    refine hdeferred r ?_
    rcases List.mem_append.mp (hnew.mem_iff.mp (List.mem_append_right _ hr)) with hr' | hr'
    · exact hwaits r hr' hr
    · exact hlate r hr'
  · rw [hreplies, List.pairwise_append]
    refine ⟨hbefore.imp fun hxy => hxy.imp_right (hdeferred _), ?_, ?_⟩
    · have hne : new.Nodup := (List.nodup_append.mp (hnew.nodup_iff.mpr hnodup)).1
      refine hne.imp_of_mem fun {x y} hx hy hxy => ?_
      rcases hmem y hy with hy | hy
      · rcases hmem x hx with hx | hx
        · -- only one request arrives in a step
          obtain ⟨n, rfl⟩ : ∃ n, arrived = [n] := by
            match arrived, harrived, hx with
            | [n], _, _ => exact ⟨n, rfl⟩
          exact absurd ((List.mem_singleton.mp hx).trans (List.mem_singleton.mp hy).symm) hxy
        · exact Or.inl (hlt x (Or.inr hx) y hy)
      · exact Or.inr (hdeferred y (hlate y hy))
    · intro x hx y hy
      rcases hmem y hy with hy | hy
      · exact Or.inl (hlt x (Or.inl hx) y hy)
      · exact Or.inr (hdeferred y (hlate y hy))

/-- The invariant of every run.  The order is that of requests and replies on one connection,
and is kept whatever other connections do. -/
structure ReplyInv (c : Nat) (s : Server) : Prop where
  client : s.Client c
  ordered : (s.talkers c).isOpen → s.Ordered c

theorem ReplyInv.effect {c : Nat} {s s' : Server} (hs : s.ReplyInv c) (h : Effect c [] s s') :
    s'.ReplyInv c := by
  refine ⟨h.client, fun hopen => ?_⟩
  have hordered := hs.ordered (h.wasOpen hopen)
  exact h.ordered hopen hordered.order hordered.late (by simp) (by simp)
    (by simpa using hordered.perm) (by simp)

/-- A message that comes on another connection. -/
theorem receive_other {c : Nat} {s s' : Server} (hc : s.Client c) {now : Timepoint}
    {conn : Nat} (hconn : conn ≠ c) {message : Message}
    (h : s.receive now conn message = some s') : Effect c [] s s' := by
  have heffect := listen_effect (hc.recordRequest conn message) rfl
    (fun heq => absurd heq hconn) (listen_of_receive h).2
  have hnone : [Slot.mk conn (some (s.talkers conn).requests.length)].filterMap
      (Slot.requestOf c) = [] := by
    simp [Slot.requestOf, hconn]
  rw [hnone] at heffect
  refine @Effect.trans c [] [] _ _ _ ?_ heffect
  refine other_effect hc ?_ hc.numbered rfl hc.noSlot
  rw [Server.recordRequest, modifyTalker_talkers, if_neg hconn]

/-- A message that comes on this connection. -/
theorem receive_own {c : Nat} {s s' : Server} (hc : s.Client c) {now : Timepoint}
    {message : Message} (hordinary : isOrdinary message)
    (h : s.receive now c message = some s') : (s.talkers c).isOpen ∧
      (isDeferred message = false → s'.middleware.waiting = s.middleware.waiting) ∧
      Effect c [(s.talkers c).requests.length] (s.recordRequest c message) s' := by
  obtain ⟨hopen, h⟩ := listen_of_receive h
  refine ⟨hopen, fun hnow => @listen_waiting (s.recordRequest c message) _ _ _ _ hordinary
    hnow h, ?_⟩
  simpa [Slot.requestOf] using
    listen_effect (hc.recordRequest c message) rfl (fun _ => hordinary) h

/-- All that a step can do to the replies of a connection: what others do queues replies for
its pending requests at most, and its own messages are ordinary requests. -/
theorem step_effect {c : Nat} {s s' : Server} (hc : s.Client c) {a : ServerAction}
    (ha : s.Ordinary c a) (h : s.step a = some s') :
    Effect c [] s s' ∨ ∃ now message, a = .receive now c message ∧ isOrdinary message ∧
      s.receive now c message = some s' := by
  cases a with
  | receive now conn message =>
      by_cases hconn : conn = c
      · subst hconn
        exact Or.inr ⟨now, message, rfl, ha rfl, h⟩
      · exact Or.inl (receive_other hc hconn h)
  | say conn =>
      obtain ⟨⟨message, s₁⟩, hsay, rfl⟩ := Option.map_eq_some_iff.mp h
      exact Or.inl (say_effect hc hsay)
  | disconnect conn => exact Or.inl (Option.some.inj h ▸ disconnect_effect hc)
  | runJob => exact Or.inl (runJob_effect hc h)
  | fireRead i => exact Or.inl (fireRead_effect hc h)
  | fireWait i => exact Or.inl (fireWait_effect hc h)

theorem recordRequest_requests (c : Nat) (message : Message) (s : Server) :
    ((s.recordRequest c message).talkers c).requests =
      (s.talkers c).requests ++ [message] := by
  rw [recordRequest, modifyTalker_talkers, if_pos rfl]

@[simp] theorem recordRequest_replies (c : Nat) (message : Message) (s : Server) :
    (s.recordRequest c message).replies c = s.replies c := by
  rw [replies, recordRequest, modifyTalker_talkers, if_pos rfl]
  rfl

@[simp] theorem recordRequest_unanswered (c : Nat) (message : Message) (s : Server) :
    (s.recordRequest c message).unanswered c = s.unanswered c := rfl

/-- A request is later than all before it. -/
theorem ReplyInv.receive {c : Nat} {s s' : Server} (hs : s.ReplyInv c) {now : Timepoint}
    {message : Message} (hordinary : isOrdinary message)
    (h : s.receive now c message = some s') : s'.ReplyInv c := by
  obtain ⟨hopen, hnow, heffect⟩ := receive_own hs.client hordinary h
  refine ⟨heffect.client, fun hopen' => ?_⟩
  have hordered := hs.ordered hopen
  have hdeferred : ∀ r, s.Deferred c r → (s.recordRequest c message).Deferred c r := by
    rintro r ⟨m, hm, hlate⟩
    refine ⟨m, ?_, hlate⟩
    rw [recordRequest_requests, List.getElem?_append_left (List.getElem?_eq_some_iff.mp hm).1]
    exact hm
  refine heffect.ordered hopen' ?_ ?_ ?_ (by simp) ?_ ?_
  · rw [recordRequest_replies]
    exact hordered.order.imp fun hxy => hxy.imp_right (hdeferred _)
  · exact fun r hr => hdeferred r (hordered.late r hr)
  · intro r hr n hn
    obtain rfl := List.mem_singleton.mp hn
    rw [recordRequest_replies, recordRequest_unanswered] at hr
    exact hordered.lt hr
  · rw [recordRequest_replies, recordRequest_unanswered, recordRequest_requests,
      List.length_append, List.length_singleton, List.range_succ, List.singleton_append]
    exact List.perm_middle.trans
      ((hordered.perm.cons _).trans (List.perm_append_singleton _ _).symm)
  · intro r hr hwaits
    obtain rfl := List.mem_singleton.mp hr
    refine ⟨message, by simp [recordRequest_requests], ?_⟩
    by_contra hlate
    -- otherwise the request is answered already, and none with this number was there before
    rw [unanswered, hnow (by simpa using hlate)] at hwaits
    exact Nat.lt_irrefl _ (hordered.lt (Or.inr hwaits))

theorem ReplyInv.step {c : Nat} {s s' : Server} (hs : s.ReplyInv c) {a : ServerAction}
    (ha : s.Ordinary c a) (h : s.step a = some s') : s'.ReplyInv c := by
  rcases step_effect hs.client ha h with heffect | ⟨now, message, -, hordinary, hreceive⟩
  · exact hs.effect heffect
  · exact hs.receive hordinary hreceive

theorem replyInv_start {clock : Nat → Timepoint} {info : ServerInfo} {dbFile : Option Bytes}
    {server : Server} (h : start clock info dbFile = some server) (c : Nat) :
    server.ReplyInv c := by
  obtain ⟨values, rfl⟩ := start_eq h
  refine ⟨⟨⟨.nil, by simp, ⟨.nil, by simp, by simp⟩⟩, rfl, ?_, ?_, ?_⟩, fun _ => ⟨?_, ?_, .nil⟩⟩
  · simp [StorageMiddleware.slots]
  · simp [StorageMiddleware.waiting, Storage.waiting]
  · simp
  · simp [replies, unanswered, StorageMiddleware.waiting, Storage.waiting]
  · simp [unanswered, StorageMiddleware.waiting, Storage.waiting]

theorem replyInv_of_reachable {clock : Nat → Timepoint} {info : ServerInfo}
    {dbFile : Option Bytes} {server s : Server} {c : Nat}
    (hstart : start clock info dbFile = some server)
    (h : (machine server).Reachable (Ordinary c) s) : s.ReplyInv c :=
  h.invariant (replyInv_start hstart c) fun _ _ _ _ hs ha htaken => hs.step ha htaken

/-! ## In turn -/

/-- Who takes the next place. -/
theorem eq_of_perm_range {k n x : Nat} (h : (List.range k ++ [x]).Perm (List.range n)) :
    x = k := by
  have hlength : k + 1 = n := by simpa using h.length_eq
  subst hlength
  have hmem : x ∈ List.range (k + 1) := h.mem_iff.mp (by simp)
  have hnodup := (List.nodup_append.mp (h.nodup_iff.mpr List.nodup_range)).2.2
  have hle : x ≤ k := Nat.le_of_lt_succ (List.mem_range.mp hmem)
  have hge : ¬x < k := fun hlt => hnodup x (List.mem_range.mpr hlt) x (by simp) rfl
  omega

/-- When nobody sends before the answer is there, the answers come one by one: they are those
of the first requests, and at most one request is without its answer. -/
structure TurnInv (c : Nat) (s : Server) : Prop extends s.ReplyInv c where
  turn : (s.talkers c).isOpen → s.replies c = List.range (s.replies c).length ∧
    (s.unanswered c).length ≤ 1

theorem Effect.turn {c : Nat} {arrived : List Nat} {s s' : Server}
    (h : Effect c arrived s s') (hopen : (s'.talkers c).isOpen) (hordered : s'.Ordered c)
    (hreplies : s.replies c = List.range (s.replies c).length)
    (hone : (arrived ++ s.unanswered c).length ≤ 1) :
    s'.replies c = List.range (s'.replies c).length ∧ (s'.unanswered c).length ≤ 1 := by
  obtain ⟨new, heq, hperm⟩ := h.balance hopen
  have hlength := hperm.length_eq
  rw [List.length_append] at hlength
  refine ⟨?_, by omega⟩
  match new, hlength with
  | [], _ => simpa [heq] using hreplies
  | [x], hlength =>
      have hall := hordered.perm
      have hempty : s'.unanswered c = [] := by
        refine List.length_eq_zero_iff.mp ?_
        simp only [List.length_singleton] at hlength
        omega
      rw [hempty, List.append_nil, heq, hreplies] at hall
      have hx := eq_of_perm_range hall
      rw [heq, List.length_append, List.length_singleton, List.range_succ, ← hreplies, hx]
  | x :: y :: new, hlength =>
      simp only [List.length_cons] at hlength
      omega

theorem TurnInv.step {c : Nat} {s s' : Server} (hs : s.TurnInv c) {a : ServerAction}
    (ha : s.InTurn c a) (h : s.step a = some s') : s'.TurnInv c := by
  have hafter := hs.toReplyInv.step ha.1 h
  refine ⟨hafter, fun hopen => ?_⟩
  rcases step_effect hs.client ha.1 h with heffect | ⟨now, message, rfl, hordinary, hreceive⟩
  · obtain ⟨hreplies, hone⟩ := hs.turn (heffect.wasOpen hopen)
    exact heffect.turn hopen (hafter.ordered hopen) hreplies hone
  · obtain ⟨hwasOpen, -, heffect⟩ := receive_own hs.client hordinary hreceive
    obtain ⟨hreplies, -⟩ := hs.turn hwasOpen
    refine heffect.turn hopen (hafter.ordered hopen) ?_ ?_
    · rw [recordRequest_replies]
      exact hreplies
    · rw [recordRequest_unanswered, ha.2 rfl]
      simp

theorem turnInv_of_reachable {clock : Nat → Timepoint} {info : ServerInfo}
    {dbFile : Option Bytes} {server s : Server} {c : Nat}
    (hstart : start clock info dbFile = some server)
    (h : (machine server).Reachable (InTurn c) s) : s.TurnInv c := by
  refine h.invariant ⟨replyInv_start hstart c, ?_⟩
    fun _ _ _ _ hs ha htaken => hs.step ha htaken
  obtain ⟨values, rfl⟩ := start_eq hstart
  exact fun _ => ⟨rfl, by simp [machine, unanswered, StorageMiddleware.waiting,
    Storage.waiting]⟩

/-! ## Replies come in the order of requests, except late ones -/

/-- **The order of replies.**  On a connection that is open and whose client sends no
replication command: every queued message answers a request, and a request is answered at
most once; what is not answered is a WAIT or a blocking XREAD; a reply is queued behind
that of a later request only if it is one to these.  When the client sends nothing while
a WAIT or a blocking XREAD is unanswered, the i-th message is the reply to the i-th
request. -/
theorem replies_ordered {clock : Nat → Timepoint} {info : ServerInfo} {dbFile : Option Bytes}
    {server s : Server} {c : Nat} (hstart : start clock info dbFile = some server)
    (h : (machine server).Reachable (Ordinary c) s) (hopen : (s.talkers c).isOpen) :
    (∀ q ∈ (s.talkers c).queued, ∃ request, q.1 = some request ∧
      request < (s.talkers c).requests.length) ∧
    (s.replies c).Nodup ∧
    (∀ request < (s.talkers c).requests.length, ¬s.Deferred c request →
      request ∈ s.replies c) ∧
    ((s.replies c).Pairwise fun x y => x < y ∨ s.Deferred c y) ∧
    ((machine server).Reachable (InTurn c) s →
      (s.talkers c).queued.map Prod.fst =
        (List.range (s.talkers c).queued.length).map some) := by
  have hs := replyInv_of_reachable hstart h
  have hordered := hs.ordered hopen
  have hqueued : (s.talkers c).queued.map Prod.fst = (s.replies c).map some := by
    rw [replies, List.map_filterMap]
    rw [← List.filterMap_eq_map]
    refine List.filterMap_congr fun q hq => ?_
    obtain ⟨request, hrequest⟩ := Option.isSome_iff_exists.mp (hs.client.queuedSome q hq)
    simp [hrequest]
  refine ⟨fun q hq => ?_, ?_, fun request hlt hnow => ?_, hordered.order, fun hturn => ?_⟩
  · obtain ⟨request, hrequest⟩ := Option.isSome_iff_exists.mp (hs.client.queuedSome q hq)
    exact ⟨request, hrequest, hordered.lt (Or.inl (List.mem_filterMap.mpr ⟨q, hq, hrequest⟩))⟩
  · exact (List.nodup_append.mp (hordered.perm.nodup_iff.mpr List.nodup_range)).1
  · rcases List.mem_append.mp (hordered.perm.mem_iff.mpr (List.mem_range.mpr hlt)) with hr | hr
    · exact hr
    · exact absurd (hordered.late request hr) hnow
  · obtain ⟨hrange, -⟩ := (turnInv_of_reachable hstart hturn).turn hopen
    have hlength : (s.replies c).length = (s.talkers c).queued.length := by
      simpa using (congrArg List.length hqueued).symm
    rw [hqueued, hrange, hlength]

/-- A client that sends PING behind a blocking XREAD; another client adds the entry. -/
def overtaken : List ServerAction :=
  [.receive 0 0 (Command.xread [(ascii "k", { isNextExpected := true })] (some 0)).construct,
    .receive 0 0 Command.ping.construct,
    .receive 0 1 (Command.xadd (ascii "k") { ms := 1, id := 1 }
      [(ascii "f", ascii "v")]).construct,
    .runJob]

theorem replies_ordered_overtaken :
    ∃ s : Server, (machine { info := { masterReplid := [] } }).run (Ordinary 0)
        { info := { masterReplid := [] } } overtaken = some s ∧
      s.replies 0 = [1, 0] ∧ (s.replies 0).Nodup := by
  obtain ⟨s, hrun, hreplies⟩ := Option.map_eq_some_iff.mp
    (by decide +kernel : ((machine { info := { masterReplid := [] } }).run (Ordinary 0)
      { info := { masterReplid := [] } } overtaken).map
        (fun s => (s.replies 0, (s.talkers 0).isOpen)) = some ([1, 0], true))
  obtain ⟨hreplies, hopen⟩ := Prod.mk.inj hreplies
  exact ⟨s, hrun, hreplies,
    (@replies_ordered (fun _ => 0) { masterReplid := [] } none _ s 0 rfl
      (Machine.Reachable.run .init hrun) hopen).2.1⟩

/-- The i-th message is not always the reply to the i-th request: a client that waits and goes
on asking is answered the next request first. -/
theorem not_replies_inTurn : ¬∀ (clock : Nat → Timepoint) (info : ServerInfo)
    (dbFile : Option Bytes) (server s : Server) (c : Nat),
    start clock info dbFile = some server → (machine server).Reachable (Ordinary c) s →
    (s.talkers c).isOpen → (s.talkers c).queued.map Prod.fst =
      (List.range (s.talkers c).queued.length).map some := by
  intro hclaim
  obtain ⟨s, hrun, hqueued⟩ := Option.map_eq_some_iff.mp
    (by decide +kernel : ((machine { info := { masterReplid := [] } }).run (Ordinary 0)
      { info := { masterReplid := [] } } (overtaken.take 2)).map
        (fun s => ((s.talkers 0).queued.map Prod.fst, (s.talkers 0).isOpen)) =
          some ([some 1], true))
  obtain ⟨hqueued, hopen⟩ := Prod.mk.inj hqueued
  have hturn := hclaim (fun _ => 0) { masterReplid := [] } none _ s 0 rfl
    (Machine.Reachable.run .init hrun) hopen
  have hlength := congrArg List.length hqueued
  rw [List.length_map, List.length_singleton] at hlength
  rw [hqueued, hlength] at hturn
  exact absurd hturn (by decide)

end Server

end BuildYourOwnRedis
