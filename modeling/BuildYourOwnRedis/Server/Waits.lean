/-
  Server/Waits.lean --- the slots that wait for a reply, and what the operations of the
  middleware do to them.

  Every operation passes a reply to slots that waited, and these wait no longer; what is
  pushed goes to the slots of replicas.
-/
import BuildYourOwnRedis.Server.StorageMiddleware
import BuildYourOwnRedis.Storage.WaitLists

set_option autoImplicit false

namespace BuildYourOwnRedis

open Foundation

namespace StorageMiddleware

variable {κ : Type}

/-- The slots of the waits and of the reads that are not answered. -/
def waiting (m : StorageMiddleware κ) : List κ :=
  m.waits.map WaitHandle.slot ++ m.storage.waiting

/-- The slots that messages are pushed to. -/
def slots (m : StorageMiddleware κ) : List κ := m.replicas.map ReplicaHandle.slot

/-- Waits and reads are told apart by their numbers, and the next number is that of no wait.
This is what makes a number stand for the object that the sources point to. -/
structure Numbered (m : StorageMiddleware κ) : Prop where
  distinct : (m.waits.map WaitHandle.id).Nodup
  below : ∀ w ∈ m.waits, w.id < m.nextWaitId
  storage : m.storage.Numbered

theorem Numbered.congr {m m' : StorageMiddleware κ} (hm : m.Numbered)
    (hwaits : m'.waits.map WaitHandle.id = m.waits.map WaitHandle.id)
    (hnext : m'.nextWaitId = m.nextWaitId) (hstorage : m'.storage.Numbered) :
    m'.Numbered := by
  refine ⟨hwaits ▸ hm.distinct, fun w hw => ?_, hstorage⟩
  have hid : w.id ∈ m.waits.map WaitHandle.id := hwaits ▸ List.mem_map_of_mem hw
  obtain ⟨w', hw', heq⟩ := List.mem_map.mp hid
  rw [hnext, ← heq]
  exact hm.below w' hw'

/-! ## Replies -/

/-- A wait that replies is taken out of the list. -/
theorem Numbered.waits_reply {m : StorageMiddleware κ} (hm : m.Numbered) {w : WaitHandle κ}
    (hw : w ∈ m.waits) : ∃ before after, m.waits = before ++ w :: after ∧
      (m.reply w).1.waits = before ++ after := by
  obtain ⟨before, after, hsplit⟩ := List.append_of_mem hw
  refine ⟨before, after, hsplit, ?_⟩
  have hdistinct := hm.distinct
  rw [hsplit, List.map_append, List.map_cons, List.nodup_middle, List.nodup_cons,
    ← List.map_append] at hdistinct
  have hkeep : (before ++ after).filter (fun x => decide (x.id ≠ w.id)) = before ++ after :=
    List.filter_eq_self.mpr fun x hx => decide_eq_true fun heq =>
      hdistinct.1 (heq ▸ List.mem_map_of_mem hx)
  rw [List.filter_append] at hkeep
  simpa [reply, hsplit] using hkeep

theorem Numbered.reply {m : StorageMiddleware κ} (hm : m.Numbered) {w : WaitHandle κ}
    (hw : w ∈ m.waits) :
    (m.reply w).1.Numbered ∧ (w.slot :: (m.reply w).1.waiting).Perm m.waiting := by
  obtain ⟨before, after, hsplit, hafter⟩ := hm.waits_reply hw
  refine ⟨⟨?_, ?_, hm.storage⟩, ?_⟩
  · have hdistinct := hm.distinct
    rw [hsplit] at hdistinct
    rw [hafter]
    exact hdistinct.sublist
      (((List.Sublist.refl before).append (List.sublist_cons_self w after)).map _)
  · rw [hafter]
    intro x hx
    refine hm.below x ?_
    rw [hsplit]
    simp only [List.mem_append, List.mem_cons] at hx ⊢
    tauto
  · rw [waiting, waiting, hafter, hsplit]
    simp only [List.map_append, List.map_cons, List.append_assoc, List.cons_append]
    exact List.perm_middle.symm

theorem Numbered.replyAll {m : StorageMiddleware κ} (hm : m.Numbered)
    {ws : List (WaitHandle κ)} (hsub : ∀ w ∈ ws, w ∈ m.waits)
    (hids : (ws.map WaitHandle.id).Nodup) :
    (StorageMiddleware.replyAll ws m).1.Numbered ∧
      ((StorageMiddleware.replyAll ws m).2.map Prod.fst ++
        (StorageMiddleware.replyAll ws m).1.waiting).Perm m.waiting := by
  induction ws generalizing m with
  | nil => exact ⟨hm, List.Perm.refl _⟩
  | cons w ws ih =>
      obtain ⟨hnumbered, hperm⟩ := hm.reply (hsub w (by simp))
      obtain ⟨hw, hids⟩ := List.nodup_cons.mp hids
      have hrest : ∀ x ∈ ws, x ∈ (m.reply w).1.waits := by
        intro x hx
        refine List.mem_filter.mpr ⟨hsub x (by simp [hx]), decide_eq_true fun heq => hw ?_⟩
        exact heq ▸ List.mem_map_of_mem hx
      obtain ⟨hall, hperm'⟩ := ih hnumbered hrest hids
      exact ⟨hall, (hperm'.cons w.slot).trans hperm⟩

/-! ## Operations -/

theorem Numbered.set {m : StorageMiddleware κ} (hm : m.Numbered) (now : Timepoint)
    (key value : Bytes) (expireMs : Option Int) : (m.set now key value expireMs).1.Numbered :=
  hm.congr rfl rfl (hm.storage.congr rfl rfl rfl)

/-- What is pushed goes to replicas. -/
theorem mem_pushCalls {message : Message} {m : StorageMiddleware κ} {call : κ × Message}
    (h : call ∈ (m.push message).2) : call.1 ∈ m.slots := by
  obtain ⟨r, hr, hcall⟩ := List.mem_flatMap.mp h
  unfold ReplicaHandle.pushCalls at hcall
  split at hcall
  · obtain rfl := List.mem_singleton.mp hcall
    exact List.mem_map_of_mem hr
  · cases hcall

theorem updateReplicaAck_id (id : Nat) (bytesAck : UInt64) (w : WaitHandle κ) :
    (w.updateReplicaAck id bytesAck).1.id = w.id := by
  unfold WaitHandle.updateReplicaAck
  grind

theorem updateReplicaAck_slot (id : Nat) (bytesAck : UInt64) (w : WaitHandle κ) :
    (w.updateReplicaAck id bytesAck).1.slot = w.slot := by
  unfold WaitHandle.updateReplicaAck
  grind

/-- The waits after an offset came, before any of them replies. -/
def acknowledged (id : Nat) (bytesAck : UInt64) (m : StorageMiddleware κ) :
    StorageMiddleware κ :=
  { m.modifyReplica id (·.acknowledge bytesAck) with
    waits := m.waits.map fun w => (w.updateReplicaAck id bytesAck).1 }

/-- The waits that reply when an offset comes. -/
def satisfied (id : Nat) (bytesAck : UInt64) (m : StorageMiddleware κ) :
    List (WaitHandle κ) :=
  ((m.waits.map fun w => w.updateReplicaAck id bytesAck).filter Prod.snd).map Prod.fst

theorem acknowledge_eq (id : Nat) (bytesAck : UInt64) (m : StorageMiddleware κ) :
    m.acknowledge id bytesAck =
      replyAll (m.satisfied id bytesAck) (m.acknowledged id bytesAck) := by
  simp [acknowledge, satisfied, acknowledged, List.map_map, Function.comp_def]

theorem mem_satisfied {id : Nat} {bytesAck : UInt64} {m : StorageMiddleware κ}
    {w : WaitHandle κ} (h : w ∈ m.satisfied id bytesAck) :
    w ∈ (m.acknowledged id bytesAck).waits := by
  obtain ⟨p, hp, rfl⟩ := List.mem_map.mp h
  obtain ⟨w, hw, rfl⟩ := List.mem_map.mp (List.mem_filter.mp hp).1
  exact List.mem_map_of_mem hw

theorem Numbered.acknowledge {m : StorageMiddleware κ} (hm : m.Numbered) (id : Nat)
    (bytesAck : UInt64) :
    (m.acknowledge id bytesAck).1.Numbered ∧
      ((m.acknowledge id bytesAck).2.map Prod.fst ++
        (m.acknowledge id bytesAck).1.waiting).Perm m.waiting := by
  have hids : (m.acknowledged id bytesAck).waits.map WaitHandle.id =
      m.waits.map WaitHandle.id := by
    simp [acknowledged, Function.comp_def, updateReplicaAck_id]
  have hslots : (m.acknowledged id bytesAck).waiting = m.waiting := by
    simp [waiting, acknowledged, modifyReplica, Function.comp_def, updateReplicaAck_slot]
  have hnumbered : (m.acknowledged id bytesAck).Numbered := hm.congr hids rfl hm.storage
  have hnodup : ((m.satisfied id bytesAck).map WaitHandle.id).Nodup := by
    refine List.Nodup.sublist ?_ hm.distinct
    rw [← hids]
    refine List.Sublist.map _ ?_
    have hfilter := (List.filter_sublist (p := Prod.snd)
      (l := m.waits.map fun w => w.updateReplicaAck id bytesAck)).map Prod.fst
    simpa [satisfied, acknowledged, Function.comp_def] using hfilter
  rw [acknowledge_eq, ← hslots]
  exact hnumbered.replyAll (fun w => mem_satisfied) hnodup

/-- REPLCONF passes an offset on, or it does nothing.  It does nothing for a replica that is
gone, for other arguments, and for an offset that cannot be read. -/
theorem replicaProcessConf_cases {m : StorageMiddleware κ} {id : Nat} {args : List Bytes}
    {answered : Bool} {result : StorageMiddleware κ × List (κ × Message)}
    (h : m.replicaProcessConf id args = some (answered, result)) :
    result = (m, []) ∨ ∃ bytesAck, result = m.acknowledge id bytesAck := by
  unfold replicaProcessConf processConf at h
  grind

/-- WAIT: the slot gets its reply at once, or it waits and replicas are asked. -/
theorem Numbered.waitFor {m : StorageMiddleware κ} (hm : m.Numbered) (count : UInt64)
    (slot : κ) :
    (m.waitFor count slot).1.Numbered ∧
      (((m.waitFor count slot).1.waiting = m.waiting ∧
          (m.waitFor count slot).2.map Prod.fst = [slot]) ∨
        ((m.waitFor count slot).1.waiting.Perm (slot :: m.waiting) ∧
          ∀ call ∈ (m.waitFor count slot).2, call.1 ∈ m.slots)) := by
  have hadded : Numbered { m with
      nextWaitId := m.nextWaitId + 1
      waits := m.waits ++ [m.newWait count slot] } := by
    refine ⟨?_, ?_, hm.storage⟩
    · rw [List.map_append, List.nodup_append]
      refine ⟨hm.distinct, by simp, fun i hi j hj => ?_⟩
      obtain ⟨w, hw, rfl⟩ := List.mem_map.mp hi
      obtain rfl := List.mem_singleton.mp hj
      exact Nat.ne_of_lt (hm.below w hw)
    · intro w hw
      rcases List.mem_append.mp hw with hw | hw
      · exact Nat.lt_succ_of_lt (hm.below w hw)
      · obtain rfl := List.mem_singleton.mp hw
        exact Nat.lt_succ_self _
  simp only [StorageMiddleware.waitFor]
  split
  · refine ⟨(hadded.reply (by simp)).1, Or.inl ⟨?_, rfl⟩⟩
    have hkeep : m.waits.filter (fun x => decide (x.id ≠ (m.newWait count slot).id)) =
        m.waits :=
      List.filter_eq_self.mpr fun x hx => decide_eq_true (Nat.ne_of_lt (hm.below x hx))
    simp only [waiting, StorageMiddleware.reply, List.filter_append, hkeep]
    simp
  · refine ⟨hadded.congr rfl rfl hadded.storage, Or.inr ⟨?_, ?_⟩⟩
    · simp only [waiting, pushGetAck, List.map_append, List.map_cons, List.map_nil,
        List.append_assoc, List.singleton_append]
      exact List.perm_middle
    · intro call hcall
      obtain ⟨r, hr, hcall⟩ := List.mem_flatMap.mp hcall
      unfold ReplicaHandle.pushCalls at hcall
      split at hcall
      · obtain rfl := List.mem_singleton.mp hcall
        exact List.mem_map_of_mem (List.mem_filter.mp hr).1
      · cases hcall

/-- A timeout of a wait. -/
theorem Numbered.fireWait {m : StorageMiddleware κ} (hm : m.Numbered) {i : Nat}
    {result : StorageMiddleware κ × List (κ × Message)} (h : m.fireWait i = some result) :
    result.1.Numbered ∧ (result.2.map Prod.fst ++ result.1.waiting).Perm m.waiting := by
  unfold StorageMiddleware.fireWait at h
  have htaken : Numbered { m with timeoutJobs := m.timeoutJobs.eraseIdx i } :=
    hm.congr rfl rfl hm.storage
  cases hjob : m.timeoutJobs[i]? with
  | none => simp [hjob] at h
  | some job =>
      simp only [hjob] at h
      split at h
      · cases hfind : m.waits.find? fun w => decide (w.id = job.owner) with
        | none => simp [hfind] at h
        | some w =>
            simp only [hfind, Option.some.injEq] at h
            subst h
            exact htaken.reply (List.mem_of_find?_eq_some hfind)
      · obtain rfl := Option.some.inj h
        exact ⟨htaken, List.Perm.refl _⟩

/-! ## The slots of replicas stay -/

theorem slots_set (now : Timepoint) (key value : Bytes) (expireMs : Option Int)
    (m : StorageMiddleware κ) : (m.set now key value expireMs).1.slots = m.slots := by
  simp [slots, StorageMiddleware.set, push, Function.comp_def]

theorem slots_modifyReplica {id : Nat} {f : ReplicaHandle κ → ReplicaHandle κ}
    (hf : ∀ h, (f h).slot = h.slot) (m : StorageMiddleware κ) :
    (m.modifyReplica id f).slots = m.slots := by
  simp only [slots, modifyReplica, List.map_map]
  refine List.map_congr_left fun h _ => ?_
  simp only [Function.comp]
  split
  · exact hf h
  · rfl

theorem slots_acknowledge (id : Nat) (bytesAck : UInt64) (m : StorageMiddleware κ) :
    (m.acknowledge id bytesAck).1.slots = m.slots := by
  rw [acknowledge_eq, slots, replyAll_replicas]
  exact @slots_modifyReplica _ _ (·.acknowledge bytesAck) (fun h => rfl) m

theorem slots_waitFor (count : UInt64) (slot : κ) (m : StorageMiddleware κ) :
    (m.waitFor count slot).1.slots = m.slots := by
  simp only [StorageMiddleware.waitFor]
  split
  · rfl
  · simp only [slots, pushGetAck, List.map_map]
    refine List.map_congr_left fun h _ => ?_
    simp only [Function.comp]
    split <;> simp

theorem slots_fireWait {m : StorageMiddleware κ} {i : Nat}
    {result : StorageMiddleware κ × List (κ × Message)} (h : m.fireWait i = some result) :
    result.1.slots = m.slots := by
  unfold StorageMiddleware.fireWait at h
  grind [StorageMiddleware.reply, slots]

end StorageMiddleware

end BuildYourOwnRedis
