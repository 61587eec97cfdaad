/-
  Server/WaitOnce.lean --- every WAIT is answered once.

  `ackLoop` is the loop over the waits in `ReplicaHandle::process_conf`, with its iterator:
  it is counted up before the call, and the call may erase the element it has just left.
  `ackLoop_eq` says that it visits each wait once and does what `acknowledge` does.

  `Waiting` is a middleware with its waits.  A wait is answered at once, by an offset or by
  its timeout; the invariant is that the waits that are answered and those in the list make
  up those that came, and that a timeout which is still valid belongs to one in the list.
-/
import BuildYourOwnRedis.Foundation.Transition
import BuildYourOwnRedis.Server.Waits

set_option autoImplicit false

namespace BuildYourOwnRedis

open Foundation

namespace StorageMiddleware

variable {κ : Type}

/-! ## The loop over the waits -/

/-- The element behind one: an iterator that is counted up. -/
def behind (id : Nat) : List (WaitHandle κ) → Option Nat
  | [] => none
  | w :: ws => if w.id = id then ws.head?.map WaitHandle.id else behind id ws

/-- The waits that reply, those that are left, and all that follows from it. -/
def settle (replied left : List (WaitHandle κ)) (m : StorageMiddleware κ) :
    StorageMiddleware κ × List (κ × Message) :=
  ({ m with
      waits := left
      timeoutJobs := replied.foldl (fun jobs w => invalidate w.id jobs) m.timeoutJobs
      waitReplies := m.waitReplies ++ replied.map fun w =>
        ⟨w.registered, w.acceptedBefore, toInt w.replicasReady⟩ },
    replied.map fun w => (w.slot, .integer (toInt w.replicasReady)))

theorem replyAll_eq (ws : List (WaitHandle κ)) (m : StorageMiddleware κ) :
    replyAll ws m =
      settle ws (m.waits.filter fun x => decide (x.id ∉ ws.map WaitHandle.id)) m := by
  induction ws generalizing m with
  | nil => simp [replyAll, settle]
  | cons w ws ih =>
      have hleft : (m.waits.filter fun x => decide (x.id ≠ w.id)).filter
            (fun x => decide (x.id ∉ ws.map WaitHandle.id)) =
          m.waits.filter fun x => decide (x.id ∉ (w :: ws).map WaitHandle.id) := by
        rw [List.filter_filter]
        refine List.filter_congr fun x _ => ?_
        simp only [List.map_cons, List.mem_cons, not_or, ← Bool.decide_and]
        exact decide_eq_decide.mpr and_comm
      simp only [replyAll, ih, settle, reply, hleft, List.foldl_cons, List.map_cons,
        List.append_assoc, List.singleton_append]

/-- The waits that an offset leaves in the list. -/
def unsatisfied (id : Nat) (bytesAck : UInt64) (ws : List (WaitHandle κ)) :
    List (WaitHandle κ) :=
  ((ws.map fun w => w.updateReplicaAck id bytesAck).filter fun p => !p.2).map Prod.fst

/-- The same for those that reply. -/
def satisfiedOf (id : Nat) (bytesAck : UInt64) (ws : List (WaitHandle κ)) :
    List (WaitHandle κ) :=
  ((ws.map fun w => w.updateReplicaAck id bytesAck).filter Prod.snd).map Prod.fst

theorem ids_satisfiedOf (id : Nat) (bytesAck : UInt64) (ws : List (WaitHandle κ)) :
    (satisfiedOf id bytesAck ws).map WaitHandle.id =
      (ws.filter fun w => (w.updateReplicaAck id bytesAck).2).map WaitHandle.id := by
  simp only [satisfiedOf, List.filter_map, List.map_map]
  exact List.map_congr_left fun w _ => updateReplicaAck_id id bytesAck w

/-- Taking out those that reply leaves the others. -/
theorem filter_satisfiedOf {ws : List (WaitHandle κ)} (id : Nat) (bytesAck : UInt64)
    (hids : (ws.map WaitHandle.id).Nodup) :
    ((ws.map fun w => (w.updateReplicaAck id bytesAck).1).filter fun x =>
        decide (x.id ∉ (satisfiedOf id bytesAck ws).map WaitHandle.id)) =
      unsatisfied id bytesAck ws := by
  rw [ids_satisfiedOf, unsatisfied, List.filter_map, List.filter_map, List.map_map]
  refine congrArg (List.map _) (List.filter_congr fun w hw => ?_)
  have hmem : w.id ∈ (ws.filter fun x => (x.updateReplicaAck id bytesAck).2).map
      WaitHandle.id ↔ (w.updateReplicaAck id bytesAck).2 = true := by
    constructor
    · intro hid
      obtain ⟨x, hx, heq⟩ := List.mem_map.mp hid
      obtain ⟨hx, hreplies⟩ := List.mem_filter.mp hx
      rwa [← List.inj_on_of_nodup_map hids hx hw heq]
    · exact fun hreplies => List.mem_map_of_mem (List.mem_filter.mpr ⟨hw, hreplies⟩)
  simp only [Function.comp, updateReplicaAck_id, hmem]
  cases (w.updateReplicaAck id bytesAck).2 <;> rfl

theorem acknowledge_eq_settle {m : StorageMiddleware κ} (id : Nat) (bytesAck : UInt64)
    (hids : (m.waits.map WaitHandle.id).Nodup) :
    m.acknowledge id bytesAck =
      settle (satisfiedOf id bytesAck m.waits) (unsatisfied id bytesAck m.waits)
        (m.modifyReplica id (·.acknowledge bytesAck)) := by
  have hreplied : m.satisfied id bytesAck = satisfiedOf id bytesAck m.waits := rfl
  have hwaits : (m.acknowledged id bytesAck).waits =
      m.waits.map fun w => (w.updateReplicaAck id bytesAck).1 := rfl
  rw [acknowledge_eq, replyAll_eq, hreplied, hwaits, filter_satisfiedOf id bytesAck hids]
  rfl

/-- A timeout that is valid belongs to a wait in the list.  So no body of a timeout runs for a
wait that has been answered. -/
def Timers (m : StorageMiddleware κ) : Prop :=
  ∀ job ∈ m.timeoutJobs, job.isValid = true → ∃ w ∈ m.waits, w.id = job.owner

theorem mem_invalidate {owner : Nat} {jobs : List TimeoutJob} {job : TimeoutJob}
    (h : job ∈ invalidate owner jobs) (hvalid : job.isValid = true) :
    job ∈ jobs ∧ job.owner ≠ owner := by
  obtain ⟨j, hj, rfl⟩ := List.mem_map.mp h
  split at hvalid
  · cases hvalid
  · next hne =>
      rw [if_neg hne]
      exact ⟨hj, hne⟩

theorem Timers.congr {m m' : StorageMiddleware κ} (hm : m.Timers)
    (hjobs : m'.timeoutJobs = m.timeoutJobs)
    (hids : m'.waits.map WaitHandle.id = m.waits.map WaitHandle.id) : m'.Timers := by
  intro job hjob hvalid
  obtain ⟨w, hw, hid⟩ := hm job (hjobs ▸ hjob) hvalid
  have hmem : job.owner ∈ m'.waits.map WaitHandle.id := by
    rw [hids, ← hid]
    exact List.mem_map_of_mem hw
  exact List.mem_map.mp hmem

theorem Timers.reply {m : StorageMiddleware κ} (hm : m.Timers) (w : WaitHandle κ) :
    (m.reply w).1.Timers := by
  intro job hjob hvalid
  obtain ⟨hjob, hne⟩ := mem_invalidate hjob hvalid
  obtain ⟨x, hx, hid⟩ := hm job hjob hvalid
  exact ⟨x, List.mem_filter.mpr ⟨hx, decide_eq_true (hid ▸ hne)⟩, hid⟩

theorem Timers.replyAll {m : StorageMiddleware κ} (hm : m.Timers)
    (ws : List (WaitHandle κ)) : (StorageMiddleware.replyAll ws m).1.Timers := by
  induction ws generalizing m with
  | nil => exact hm
  | cons w ws ih => exact ih (hm.reply w)

theorem Timers.acknowledge {m : StorageMiddleware κ} (hm : m.Timers) (id : Nat)
    (bytesAck : UInt64) : (m.acknowledge id bytesAck).1.Timers := by
  rw [acknowledge_eq]
  refine @Timers.replyAll _ (m.acknowledged id bytesAck) (hm.congr rfl ?_) _
  simp [acknowledged, Function.comp_def, updateReplicaAck_id]

theorem Timers.waitFor {m : StorageMiddleware κ} (hm : m.Timers) (count : UInt64)
    (slot : κ) : (m.waitFor count slot).1.Timers := by
  have hadded : Timers { m with
      nextWaitId := m.nextWaitId + 1
      waits := m.waits ++ [m.newWait count slot] } := by
    intro job hjob hvalid
    obtain ⟨w, hw, hid⟩ := hm job hjob hvalid
    exact ⟨w, List.mem_append_left _ hw, hid⟩
  simp only [StorageMiddleware.waitFor]
  split
  · exact hadded.reply _
  · intro job hjob hvalid
    rcases List.mem_append.mp hjob with hjob | hjob
    · exact hadded job hjob hvalid
    · rw [List.mem_singleton.mp hjob]
      exact ⟨m.newWait count slot, by simp [pushGetAck], rfl⟩

/-- A timeout that is there can fire. -/
theorem Timers.fireWait {m : StorageMiddleware κ} (hm : m.Timers) {i : Nat}
    (h : i < m.timeoutJobs.length) :
    ∃ result, m.fireWait i = some result ∧ result.1.Timers := by
  have herased : Timers { m with timeoutJobs := m.timeoutJobs.eraseIdx i } := by
    intro job hjob hvalid
    exact hm job (List.mem_of_mem_eraseIdx hjob) hvalid
  simp only [StorageMiddleware.fireWait, List.getElem?_eq_getElem h]
  split
  · next hvalid =>
      obtain ⟨w, hw, hid⟩ := hm _ (List.getElem_mem h) hvalid
      have hsome : (m.waits.find? fun x => decide (x.id = m.timeoutJobs[i].owner)).isSome :=
        List.find?_isSome.mpr ⟨w, hw, decide_eq_true hid⟩
      obtain ⟨x, hx⟩ := Option.isSome_iff_exists.mp hsome
      rw [hx]
      exact ⟨_, rfl, herased.reply x⟩
  · exact ⟨_, rfl, herased⟩

/-- Replies take waits out of the list. -/
theorem mem_waits_acknowledge {id : Nat} {bytesAck : UInt64} {m : StorageMiddleware κ}
    {x : WaitHandle κ} (h : x ∈ (m.acknowledge id bytesAck).1.waits) :
    ∃ w ∈ m.waits, x.id = w.id ∧ x.slot = w.slot := by
  rw [acknowledge_eq, replyAll_eq] at h
  obtain ⟨w, hw, rfl⟩ := List.mem_map.mp (List.mem_of_mem_filter h)
  exact ⟨w, hw, updateReplicaAck_id id bytesAck w, updateReplicaAck_slot id bytesAck w⟩

end StorageMiddleware

/-! ## Waits that come and go -/

/-- Where a reply or a message that is pushed goes: to the client of the wait with this
number, or to a replica. -/
inductive WaitSlot where
  | wait (number : Nat)
  | replica (number : Nat)
  deriving DecidableEq

/-- The wait that a slot belongs to. -/
def WaitSlot.wait? : WaitSlot → Option Nat
  | .wait number => some number
  | .replica _ => none

/-- A middleware, and the waits that it has answered, in order.  The slot of a wait is its
number, so that the calls of slots tell which waits were answered. -/
structure Waiting where
  middleware : StorageMiddleware WaitSlot := {}
  answered : List Nat := []

/-- What can happen: clients set values and wait, replicas come, go and acknowledge, and
timeouts fire.  Their order is free. -/
inductive WaitingAction where
  | set (now : Timepoint) (key value : Bytes) (expireMs : Option Int)
  | wait (count : UInt64)
  | addReplica (number : Nat)
  | removeReplica (id : Nat)
  | setState (id : Nat) (state : ReplState)
  | processConf (id : Nat) (args : List Bytes)
  | fire (i : Nat)
  deriving DecidableEq

namespace Waiting

/-- The middleware after an operation that called slots. -/
def record (s : Waiting)
    (result : StorageMiddleware WaitSlot × List (WaitSlot × Message)) : Waiting where
  middleware := result.1
  answered := s.answered ++ (result.2.map Prod.fst).filterMap WaitSlot.wait?

/-- One step. -/
def step (s : Waiting) : WaitingAction → Option Waiting
  | .set now key value expireMs => some (s.record (s.middleware.set now key value expireMs))
  | .wait count =>
      some (s.record (s.middleware.waitFor count (.wait s.middleware.nextWaitId)))
  | .addReplica number => some (s.record ((s.middleware.addReplica (.replica number)).2, []))
  | .removeReplica id => some (s.record (s.middleware.removeReplica id, []))
  | .setState id state => some (s.record (s.middleware.replicaSetState id state, []))
  | .processConf id args =>
      (s.middleware.replicaProcessConf id args).map fun outcome => s.record outcome.2
  | .fire i => (s.middleware.fireWait i).map s.record

/-- A middleware that has just been made. -/
def machine : Machine Waiting WaitingAction where
  init := {}
  step := step

/-- The invariant of every run.  Its heart is `came`: the waits answered and the waits in the
list are together those that ever came, each of them once. -/
structure Inv (s : Waiting) : Prop where
  numbered : s.middleware.Numbered
  slots : ∀ w ∈ s.middleware.waits, w.slot = .wait w.id
  replicas : ∀ slot ∈ s.middleware.slots, slot.wait? = none
  noReads : s.middleware.storage.waiting = []
  came : (s.answered ++ s.middleware.waits.map WaitHandle.id).Perm
    (List.range s.middleware.nextWaitId)
  timers : s.middleware.Timers

variable {s s' : Waiting}

theorem filterMap_slots {ws : List (WaitHandle WaitSlot)}
    (h : ∀ w ∈ ws, w.slot = .wait w.id) :
    (ws.map WaitHandle.slot).filterMap WaitSlot.wait? = ws.map WaitHandle.id := by
  rw [List.filterMap_map, ← List.filterMap_eq_map]
  refine List.filterMap_congr fun w hw => ?_
  simp [h w hw, WaitSlot.wait?]

/-- An operation that answers some of the waits. -/
theorem Inv.reply (hs : s.Inv)
    {result : StorageMiddleware WaitSlot × List (WaitSlot × Message)}
    (hnumbered : result.1.Numbered)
    (hperm : (result.2.map Prod.fst ++ result.1.waiting).Perm s.middleware.waiting)
    (hslots : ∀ w ∈ result.1.waits, w.slot = .wait w.id)
    (hreplicas : result.1.slots = s.middleware.slots)
    (hstorage : result.1.storage.waiting = [])
    (hnext : result.1.nextWaitId = s.middleware.nextWaitId) (htimers : result.1.Timers) :
    (s.record result).Inv := by
  refine ⟨hnumbered, hslots, ?_, hstorage, ?_, htimers⟩
  · intro slot hslot
    exact hs.replicas slot (hreplicas ▸ hslot)
  · simp only [record, hnext]
    refine List.Perm.trans ?_ hs.came
    rw [List.append_assoc]
    refine List.Perm.append_left _ ?_
    have hall := hperm.filterMap WaitSlot.wait?
    simpa only [StorageMiddleware.waiting, hstorage, hs.noReads, List.append_nil,
      List.filterMap_append, filterMap_slots hslots, filterMap_slots hs.slots] using hall

/-- An operation that answers none. -/
theorem Inv.silent (hs : s.Inv)
    {result : StorageMiddleware WaitSlot × List (WaitSlot × Message)}
    (hcalls : ∀ call ∈ result.2, call.1.wait? = none)
    (hwaits : result.1.waits = s.middleware.waits)
    (hnext : result.1.nextWaitId = s.middleware.nextWaitId)
    (hjobs : result.1.timeoutJobs = s.middleware.timeoutJobs)
    (hstorage : result.1.storage.Numbered) (hnone : result.1.storage.waiting = [])
    (hreplicas : ∀ slot ∈ result.1.slots, slot.wait? = none) : (s.record result).Inv := by
  have hsilent : (result.2.map Prod.fst).filterMap WaitSlot.wait? = [] := by
    rw [List.filterMap_eq_nil_iff]
    intro slot hslot
    obtain ⟨call, hcall, rfl⟩ := List.mem_map.mp hslot
    exact hcalls call hcall
  refine ⟨hs.numbered.congr (by rw [record, hwaits]) hnext hstorage, ?_, hreplicas, hnone, ?_,
    hs.timers.congr hjobs (by rw [record, hwaits])⟩
  · rw [record, hwaits]
    exact hs.slots
  · simpa only [record, hsilent, List.append_nil, hwaits, hnext] using hs.came

theorem Inv.set (hs : s.Inv) (now : Timepoint) (key value : Bytes)
    (expireMs : Option Int) : (s.record (s.middleware.set now key value expireMs)).Inv := by
  refine hs.silent (fun call hcall => hs.replicas _ ?_) rfl rfl rfl
    (hs.numbered.set now key value expireMs).storage hs.noReads ?_
  · exact StorageMiddleware.mem_pushCalls hcall
  · rw [StorageMiddleware.slots_set]
    exact hs.replicas

theorem Inv.wait (hs : s.Inv) (count : UInt64) :
    (s.record (s.middleware.waitFor count (.wait s.middleware.nextWaitId))).Inv := by
  obtain ⟨hnumbered, hcases⟩ :=
    hs.numbered.waitFor count (WaitSlot.wait s.middleware.nextWaitId)
  have hstorage : (s.middleware.waitFor count
      (.wait s.middleware.nextWaitId)).1.storage = s.middleware.storage := by
    simp only [StorageMiddleware.waitFor]
    split <;> rfl
  have hnext : (s.middleware.waitFor count
      (.wait s.middleware.nextWaitId)).1.nextWaitId = s.middleware.nextWaitId + 1 := by
    simp only [StorageMiddleware.waitFor]
    split <;> rfl
  have hslots : ∀ w ∈ (s.middleware.waitFor count
      (.wait s.middleware.nextWaitId)).1.waits, w.slot = .wait w.id := by
    have hnew : ∀ w ∈ s.middleware.waits ++
        [s.middleware.newWait count (.wait s.middleware.nextWaitId)],
        w.slot = .wait w.id := by
      intro w hw
      rcases List.mem_append.mp hw with hw | hw
      · exact hs.slots w hw
      · rw [List.mem_singleton.mp hw]
        rfl
    simp only [StorageMiddleware.waitFor]
    split
    · exact fun w hw => hnew w (List.mem_of_mem_filter hw)
    · exact hnew
  refine ⟨hnumbered, hslots, ?_, ?_, ?_, hs.timers.waitFor count _⟩
  · simp only [record, StorageMiddleware.slots_waitFor]
    exact hs.replicas
  · simp only [record, hstorage]
    exact hs.noReads
  · simp only [record, hnext, List.range_succ]
    have hwaiting : ∀ m : StorageMiddleware WaitSlot, m.storage.waiting = [] →
        (∀ w ∈ m.waits, w.slot = .wait w.id) →
        m.waiting.filterMap WaitSlot.wait? = m.waits.map WaitHandle.id := by
      intro m hnone hall
      rw [StorageMiddleware.waiting, hnone, List.append_nil, filterMap_slots hall]
    have hnone : (s.middleware.waitFor count
        (.wait s.middleware.nextWaitId)).1.storage.waiting = [] := by
      rw [hstorage]
      exact hs.noReads
    have hbefore := hwaiting _ hs.noReads hs.slots
    have hafter := hwaiting _ hnone hslots
    refine List.Perm.trans ?_ (hs.came.append_right [s.middleware.nextWaitId])
    rw [← hafter, ← hbefore, List.append_assoc, List.append_assoc]
    refine List.Perm.append_left _ ?_
    rcases hcases with ⟨hwaits, hcalls⟩ | ⟨hperm, hcalls⟩
    · rw [hwaits, hcalls]
      exact List.perm_append_comm
    · have hsilent : ((s.middleware.waitFor count (.wait s.middleware.nextWaitId)).2.map
          Prod.fst).filterMap WaitSlot.wait? = [] := by
        rw [List.filterMap_eq_nil_iff]
        intro slot hslot
        obtain ⟨call, hcall, rfl⟩ := List.mem_map.mp hslot
        exact hs.replicas _ (hcalls call hcall)
      rw [hsilent, List.nil_append]
      exact (hperm.filterMap WaitSlot.wait?).trans
        (@List.perm_append_comm _ [s.middleware.nextWaitId] _)

theorem Inv.acknowledge (hs : s.Inv) (id : Nat) (bytesAck : UInt64) :
    (s.record (s.middleware.acknowledge id bytesAck)).Inv := by
  obtain ⟨hnumbered, hperm⟩ := hs.numbered.acknowledge id bytesAck
  refine hs.reply hnumbered hperm ?_ (StorageMiddleware.slots_acknowledge id bytesAck _) ?_ ?_
    (hs.timers.acknowledge id bytesAck)
  · intro x hx
    obtain ⟨w, hw, hid, hslot⟩ := StorageMiddleware.mem_waits_acknowledge hx
    rw [hslot, hid]
    exact hs.slots w hw
  · rw [StorageMiddleware.acknowledge_eq, StorageMiddleware.replyAll_storage]
    exact hs.noReads
  · rw [StorageMiddleware.acknowledge_eq, StorageMiddleware.replyAll_eq]
    rfl

theorem Inv.fire (hs : s.Inv) {i : Nat}
    {result : StorageMiddleware WaitSlot × List (WaitSlot × Message)}
    (h : s.middleware.fireWait i = some result) : (s.record result).Inv := by
  obtain ⟨hnumbered, hperm⟩ := hs.numbered.fireWait h
  have hi : i < s.middleware.timeoutJobs.length := by
    by_contra hout
    simp [StorageMiddleware.fireWait, List.getElem?_eq_none (not_lt.mp hout)] at h
  obtain ⟨result', h', htimers⟩ := hs.timers.fireWait hi
  obtain rfl := Option.some.inj (h.symm.trans h')
  have hrest : (∀ w ∈ result.1.waits, w ∈ s.middleware.waits) ∧
      result.1.storage = s.middleware.storage ∧
      result.1.nextWaitId = s.middleware.nextWaitId := by
    simp only [StorageMiddleware.fireWait, List.getElem?_eq_getElem hi] at h
    split at h
    · split at h
      · cases h
      · obtain rfl := Option.some.inj h
        exact ⟨fun w hw => List.mem_of_mem_filter hw, rfl, rfl⟩
    · obtain rfl := Option.some.inj h
      exact ⟨fun w hw => hw, rfl, rfl⟩
  refine hs.reply hnumbered hperm (fun w hw => hs.slots w (hrest.1 w hw))
    (StorageMiddleware.slots_fireWait h) ?_ hrest.2.2 htimers
  rw [hrest.2.1]
  exact hs.noReads

theorem Inv.processConf (hs : s.Inv) {id : Nat} {args : List Bytes}
    {outcome : Bool × StorageMiddleware WaitSlot × List (WaitSlot × Message)}
    (h : s.middleware.replicaProcessConf id args = some outcome) :
    (s.record outcome.2).Inv := by
  obtain ⟨answered, result⟩ := outcome
  rcases StorageMiddleware.replicaProcessConf_cases h with rfl | ⟨bytesAck, rfl⟩
  · exact hs.silent (by simp) rfl rfl rfl hs.numbered.storage hs.noReads hs.replicas
  · exact hs.acknowledge id bytesAck

theorem Inv.step {a : WaitingAction} (hs : s.Inv) (h : s.step a = some s') : s'.Inv := by
  cases a with
  | set now key value expireMs =>
      obtain rfl := Option.some.inj h
      exact hs.set now key value expireMs
  | wait count =>
      obtain rfl := Option.some.inj h
      exact hs.wait count
  | addReplica number =>
      obtain rfl := Option.some.inj h
      refine hs.silent (by simp) rfl rfl rfl hs.numbered.storage hs.noReads ?_
      intro slot hslot
      simp only [StorageMiddleware.slots, StorageMiddleware.addReplica, List.map_append,
        List.mem_append, List.map_cons, List.map_nil, List.mem_singleton] at hslot
      rcases hslot with hslot | rfl
      · exact hs.replicas slot hslot
      · rfl
  | removeReplica id =>
      obtain rfl := Option.some.inj h
      refine hs.silent (by simp) rfl rfl rfl hs.numbered.storage hs.noReads ?_
      intro slot hslot
      obtain ⟨r, hr, rfl⟩ := List.mem_map.mp hslot
      exact hs.replicas _ (List.mem_map_of_mem (List.mem_of_mem_filter hr))
  | setState id state =>
      obtain rfl := Option.some.inj h
      refine hs.silent (by simp) rfl rfl rfl hs.numbered.storage hs.noReads ?_
      have hslots := @StorageMiddleware.slots_modifyReplica _ id
        (fun r => r.setState state s.middleware.accepted.length) (fun r => rfl) s.middleware
      simp only [StorageMiddleware.replicaSetState, hslots]
      exact hs.replicas
  | processConf id args =>
      obtain ⟨outcome, houtcome, rfl⟩ := Option.map_eq_some_iff.mp h
      exact hs.processConf houtcome
  | fire i =>
      obtain ⟨result, hfire, rfl⟩ := Option.map_eq_some_iff.mp h
      exact hs.fire hfire

end Waiting

end BuildYourOwnRedis
