/-
  Storage/WaitLists.lean --- what the operations of a storage do to its wait handles.

  `Replies` is all that a posted job or a timeout can do: one reply after the other.
  `Linked` is the invariant of the wait lists of readers that name each key once: every
  element belongs to a handle that can still reply, and the iterators of a handle are
  exactly its elements.
-/
import BuildYourOwnRedis.Storage.Storage

set_option autoImplicit false

namespace BuildYourOwnRedis

open Foundation

namespace Storage

variable {κ : Type}

/-! ## Replies -/

/-- Handles reply one after the other, each in the storage that the replies before it have
left.  This is what a job or a timeout comes to, as a relation that keeps the calls. -/
inductive Replies : Storage κ → List (Call κ) → Storage κ → Prop where
  | nil (s : Storage κ) : Replies s [] s
  | cons {s s' : Storage κ} {h : StorageWait κ} {k : κ} {result : StreamsReadResult}
      {calls : List (Call κ)} (hmem : h ∈ s.handles) (hcallback : h.callback = some k)
      (hresult : s.readStreams h.request = some result)
      (rest : Replies (s.unblock h) calls s') : Replies s ((k, result) :: calls) s'

theorem mem_of_lock {i : Nat} {s : Storage κ} {h : StorageWait κ}
    (hlock : s.lock i = some h) : h ∈ s.handles ∧ h.id = i :=
  ⟨List.mem_of_find?_eq_some hlock, by simpa using List.find?_some hlock⟩

/-- What a job does with its first handle: the pointer is dead, the handle has no callback
and the job ends, or it replies and the job goes on. -/
theorem wake_cons {i : Nat} {handles : List Nat} {s s' : Storage κ} {calls : List (Call κ)}
    (h : wake (i :: handles) s = some (s', calls)) :
    s.lock i = none ∧ wake handles s = some (s', calls) ∨
    (∃ w, s.lock i = some w ∧ w.callback = none ∧ s' = s ∧ calls = []) ∨
    ∃ w k result rest, s.lock i = some w ∧ w.callback = some k ∧
      s.readStreams w.request = some result ∧ wake handles (s.unblock w) = some (s', rest) ∧
      calls = (k, result) :: rest := by
  rw [wake] at h
  cases hlock : s.lock i with
  | none =>
      rw [hlock] at h
      exact .inl ⟨rfl, h⟩
  | some w =>
      rw [hlock] at h
      cases hread : s.readStreams w.request with
      | none => simp [reply, hread] at h
      | some result =>
          cases hcallback : w.callback with
          | none =>
              obtain ⟨rfl, rfl⟩ : s = s' ∧ [] = calls := by
                simpa [reply, hread, hcallback] using h
              exact .inr (.inl ⟨w, rfl, hcallback, rfl, rfl⟩)
          | some k =>
              simp only [reply, hread, hcallback, Option.bind_eq_bind, Option.bind_some,
                Option.pure_def] at h
              cases hrest : wake handles (s.unblock w) with
              | none => simp [hrest] at h
              | some p =>
                  obtain ⟨s₁, rest⟩ := p
                  rw [hrest] at h
                  obtain ⟨rfl, rfl⟩ : s₁ = s' ∧ (k, result) :: rest = calls := by simpa using h
                  exact .inr (.inr ⟨w, k, result, rest, rfl, hcallback, hread, hrest, rfl⟩)

/-- With no handle left a job does nothing. -/
theorem wake_nil {s s' : Storage κ} {calls : List (Call κ)}
    (h : wake [] s = some (s', calls)) : s' = s ∧ calls = [] := by
  obtain ⟨rfl, rfl⟩ := Prod.mk.inj (Option.some.inj h)
  exact ⟨rfl, rfl⟩

theorem wake_replies {handles : List Nat} {s s' : Storage κ} {calls : List (Call κ)}
    (h : wake handles s = some (s', calls)) : Replies s calls s' := by
  induction handles generalizing s calls with
  | nil =>
      obtain ⟨rfl, rfl⟩ := wake_nil h
      exact .nil _
  | cons i handles ih =>
      obtain ⟨-, hrest⟩ | ⟨w, -, -, rfl, rfl⟩ |
          ⟨w, k, result, rest, hlock, hk, hread, hrest, rfl⟩ := wake_cons h
      · exact ih hrest
      · exact .nil _
      · exact .cons (mem_of_lock hlock).1 hk hread (ih hrest)

/-- A job does what its replies do, one after the other, for the handles that are still there.
-/
theorem runJob_replies {s s' : Storage κ} {calls : List (Call κ)}
    (h : s.runJob = some (s', calls)) :
    ∃ job jobs, s.onetimeJobs = job :: jobs ∧
      wake job { s with onetimeJobs := jobs } = some (s', calls) := by
  rw [runJob] at h
  cases hjobs : s.onetimeJobs with
  | nil => simp [hjobs] at h
  | cons job jobs => exact ⟨job, jobs, rfl, by simpa [hjobs] using h⟩

/-- A timeout leaves its list and does what its reply does; one that is no longer valid does
nothing. -/
theorem fire_replies {i : Nat} {s s' : Storage κ} {calls : List (Call κ)}
    (h : s.fire i = some (s', calls)) :
    ∃ handles, wake handles { s with timeoutJobs := s.timeoutJobs.eraseIdx i } =
      some (s', calls) := by
  rw [fire] at h
  cases hjob : s.timeoutJobs[i]? with
  | none => simp [hjob] at h
  | some job =>
      simp only [hjob] at h
      split at h
      · exact ⟨[job.owner], h⟩
      · exact ⟨[], h⟩

/-! ## What replies leave alone -/

@[simp] theorem release_values (i : Nat) (s : Storage κ) : (s.release i).values = s.values := by
  unfold release
  split <;> rfl

@[simp] theorem release_onetimeJobs (i : Nat) (s : Storage κ) :
    (s.release i).onetimeJobs = s.onetimeJobs := by
  unfold release
  split <;> rfl

@[simp] theorem release_nextHandle (i : Nat) (s : Storage κ) :
    (s.release i).nextHandle = s.nextHandle := by
  unfold release
  split <;> rfl

@[simp] theorem release_nodes (i : Nat) (s : Storage κ) : (s.release i).nodes = s.nodes := by
  unfold release
  split <;> rfl

@[simp] theorem release_nextNode (i : Nat) (s : Storage κ) :
    (s.release i).nextNode = s.nextNode := by
  unfold release
  split <;> rfl

theorem release_handles (i : Nat) (s : Storage κ) :
    (s.release i).handles = if s.nodes.any fun n => n.handle = i then s.handles
      else s.handles.filter fun h => h.id ≠ i := by
  unfold release
  split <;> rfl

@[simp] theorem unblock_values (h : StorageWait κ) (s : Storage κ) :
    (s.unblock h).values = s.values := by
  simp [unblock]

@[simp] theorem unblock_onetimeJobs (h : StorageWait κ) (s : Storage κ) :
    (s.unblock h).onetimeJobs = s.onetimeJobs := by
  simp [unblock]

@[simp] theorem unblock_nextHandle (h : StorageWait κ) (s : Storage κ) :
    (s.unblock h).nextHandle = s.nextHandle := by
  simp [unblock]

theorem readStreams_congr {s s' : Storage κ} (h : s'.values = s.values)
    (request : StreamsReadRequest) : s'.readStreams request = s.readStreams request := by
  induction request with
  | nil => rfl
  | cons part request ih => simp only [readStreams, h, ih]

theorem Replies.values_eq {s s' : Storage κ} {calls : List (Call κ)}
    (h : Replies s calls s') : s'.values = s.values := by
  induction h with
  | nil => rfl
  | cons _ _ _ _ ih => simpa using ih

theorem Replies.nextHandle_eq {s s' : Storage κ} {calls : List (Call κ)}
    (h : Replies s calls s') : s'.nextHandle = s.nextHandle := by
  induction h with
  | nil => rfl
  | cons _ _ _ _ ih => simpa using ih

/-! ## Callbacks that wait -/

/-- The callbacks that are still to be called. -/
def waiting (s : Storage κ) : List κ := s.handles.filterMap StorageWait.callback

/-- Handles are told apart by their numbers, and the next number is in no wait list.  Every
operation keeps this, whatever the readers ask for. -/
structure Numbered (s : Storage κ) : Prop where
  distinct : (s.handles.map StorageWait.id).Nodup
  below : ∀ h ∈ s.handles, h.id < s.nextHandle
  elements : ∀ n ∈ s.nodes, n.handle < s.nextHandle

theorem Numbered.congr {s s' : Storage κ} (hs : s.Numbered) (hhandles : s'.handles = s.handles)
    (hnext : s'.nextHandle = s.nextHandle) (hnodes : s'.nodes = s.nodes) : s'.Numbered :=
  ⟨hhandles ▸ hs.distinct, fun h hh => hnext ▸ hs.below h (hhandles ▸ hh),
    fun n hn => hnext ▸ hs.elements n (hnodes ▸ hn)⟩

/-- A reply takes the callback of its handle and changes nothing for the others. -/
theorem Numbered.handles_unblock {s : Storage κ} (hs : s.Numbered) {h : StorageWait κ}
    (hmem : h ∈ s.handles) :
    ∃ before after, s.handles = before ++ h :: after ∧
      ((s.unblock h).handles = before ++ after ∨
        (s.unblock h).handles =
          before ++ { h with request := [], callback := none } :: after) := by
  obtain ⟨before, after, hsplit⟩ := List.append_of_mem hmem
  have hdistinct := hs.distinct
  rw [hsplit, List.map_append, List.map_cons, List.nodup_middle, List.nodup_cons] at hdistinct
  have hother : ∀ x ∈ before ++ after, x.id ≠ h.id := by
    intro x hx heq
    refine hdistinct.1 ?_
    rw [← heq, ← List.map_append]
    exact List.mem_map_of_mem hx
  have hbefore : ∀ x ∈ before, x.id ≠ h.id := fun x hx => hother x (by simp [hx])
  have hafter : ∀ x ∈ after, x.id ≠ h.id := fun x hx => hother x (by simp [hx])
  have hmap : (s.handles.map fun x =>
      if x.id = h.id then { x with request := [], callback := none } else x) =
        before ++ { h with request := [], callback := none } :: after := by
    rw [hsplit, List.map_append, List.map_cons, if_pos rfl]
    congr 1
    · exact (List.map_congr_left fun x hx => if_neg (hbefore x hx)).trans (List.map_id' _)
    · congr 1
      exact (List.map_congr_left fun x hx => if_neg (hafter x hx)).trans (List.map_id' _)
  refine ⟨before, after, hsplit, ?_⟩
  simp only [unblock, release, hmap]
  split
  · exact Or.inr rfl
  · have hkeep : (before ++ after).filter (fun x => decide (x.id ≠ h.id)) = before ++ after :=
      List.filter_eq_self.mpr fun x hx => decide_eq_true (hother x hx)
    refine Or.inl ?_
    rw [List.filter_append] at hkeep
    simpa using hkeep

theorem Numbered.unblock {s : Storage κ} (hs : s.Numbered) {h : StorageWait κ}
    (hmem : h ∈ s.handles) : (s.unblock h).Numbered := by
  obtain ⟨before, after, hsplit, hafter⟩ := hs.handles_unblock hmem
  have hdistinct := hs.distinct
  have hbelow := hs.below
  have helements : ∀ n ∈ (s.unblock h).nodes, n.handle < (s.unblock h).nextHandle := by
    intro n hn
    rw [unblock_nextHandle]
    unfold Storage.unblock at hn
    rw [release_nodes] at hn
    exact hs.elements n (List.mem_of_mem_filter hn)
  rw [hsplit] at hdistinct hbelow
  rcases hafter with hafter | hafter
  · refine ⟨?_, ?_, helements⟩
    · rw [hafter]
      exact hdistinct.sublist
        (((List.Sublist.refl before).append (List.sublist_cons_self h after)).map _)
    · rw [hafter, unblock_nextHandle]
      intro x hx
      exact hbelow x (by simp only [List.mem_append, List.mem_cons] at hx ⊢; tauto)
  · refine ⟨?_, ?_, helements⟩
    · rw [hafter]
      simpa using hdistinct
    · rw [hafter, unblock_nextHandle]
      intro x hx
      rcases List.mem_append.mp hx with hx | hx
      · exact hbelow x (by simp [hx])
      rcases List.mem_cons.mp hx with rfl | hx
      · exact hbelow h (by simp)
      · exact hbelow x (by simp [hx])

theorem Numbered.waiting_unblock {s : Storage κ} (hs : s.Numbered) {h : StorageWait κ}
    (hmem : h ∈ s.handles) {k : κ} (hcallback : h.callback = some k) :
    (k :: (s.unblock h).waiting).Perm s.waiting := by
  obtain ⟨before, after, hsplit, hafter⟩ := hs.handles_unblock hmem
  have hwaiting : (s.unblock h).waiting =
      (before ++ after).filterMap StorageWait.callback := by
    rcases hafter with hafter | hafter <;> simp [waiting, hafter]
  rw [hwaiting, waiting, hsplit, List.filterMap_append, List.filterMap_append,
    List.filterMap_cons_some hcallback]
  exact List.perm_middle.symm

theorem Replies.numbered {s s' : Storage κ} {calls : List (Call κ)}
    (h : Replies s calls s') (hs : s.Numbered) : s'.Numbered := by
  induction h with
  | nil => exact hs
  | cons hmem _ _ _ ih => exact ih (hs.unblock hmem)

/-- What is called is what waits no longer. -/
theorem Replies.waiting_perm {s s' : Storage κ} {calls : List (Call κ)}
    (h : Replies s calls s') (hs : s.Numbered) :
    (calls.map Prod.fst ++ s'.waiting).Perm s.waiting := by
  induction h with
  | nil => exact List.Perm.refl _
  | cons hmem hcallback _ _ ih =>
      exact ((ih (hs.unblock hmem)).cons _).trans (hs.waiting_unblock hmem hcallback)

/-! ## Readers that name each key once -/

/-- A key that was not named before gets an iterator of its own. -/
theorem iterators_eq_map {nodes : List WaitNode} (h : (nodes.map WaitNode.key).Nodup) :
    iterators nodes = nodes.map fun n => (n.key, n.node) := by
  -- the iterators found so far stay, as their keys do not come again
  have hfold : ∀ its : List (Bytes × Nat), (∀ it ∈ its, it.1 ∉ nodes.map WaitNode.key) →
      nodes.foldl (fun its n => its.filter (fun it => it.1 ≠ n.key) ++ [(n.key, n.node)]) its =
        its ++ nodes.map fun n => (n.key, n.node) := by
    induction nodes with
    | nil => simp
    | cons n nodes ih =>
        intro its hits
        obtain ⟨hn, hnodes⟩ := List.nodup_cons.mp h
        have hkeep : its.filter (fun it => decide (it.1 ≠ n.key)) = its := by
          refine List.filter_eq_self.mpr fun it hit => decide_eq_true fun heq => ?_
          exact hits it hit (by simp [heq])
        rw [List.foldl_cons, hkeep, ih hnodes]
        · simp
        · intro it hit
          rcases List.mem_append.mp hit with hit | hit
          · exact fun hmem => hits it hit (by simp [hmem])
          · obtain rfl := List.mem_singleton.mp hit
            exact hn
  exact hfold [] (by simp)

theorem map_key_newNodes (handle node : Nat) (request : StreamsReadRequest) :
    (newNodes handle node request).map WaitNode.key = request.map Prod.fst := by
  induction request generalizing node with
  | nil => rfl
  | cons part request ih => simp [newNodes, ih]

theorem mem_newNodes {handle node : Nat} {request : StreamsReadRequest} {n : WaitNode}
    (h : n ∈ newNodes handle node request) :
    n.handle = handle ∧ node ≤ n.node ∧ n.node < node + request.length := by
  induction request generalizing node with
  | nil => cases h
  | cons part request ih =>
      rcases List.mem_cons.mp h with rfl | h
      · exact ⟨rfl, le_rfl, by simp⟩
      · obtain ⟨hhandle, hle, hlt⟩ := ih h
        refine ⟨hhandle, by omega, ?_⟩
        simp only [List.length_cons]
        omega

/-- Every element of a wait list belongs to a handle that can still reply, and a handle
finds its elements, no others, by its iterators. -/
structure Linked (s : Storage κ) : Prop extends s.Numbered where
  armed : ∀ h ∈ s.handles, h.callback.isSome
  owned : ∀ n ∈ s.nodes, ∃ h ∈ s.handles, h.id = n.handle
  nodesBelow : ∀ n ∈ s.nodes, n.node < s.nextNode
  iteratorsBelow : ∀ h ∈ s.handles, ∀ node ∈ h.streamIts.map Prod.snd, node < s.nextNode
  found : ∀ h ∈ s.handles, ∀ n ∈ s.nodes,
    n.node ∈ h.streamIts.map Prod.snd ↔ n.handle = h.id

/-- The values and the jobs have no part in it. -/
theorem Linked.congr {s s' : Storage κ} (hs : s.Linked) (hnodes : s'.nodes = s.nodes)
    (hhandles : s'.handles = s.handles) (hnext : s'.nextHandle = s.nextHandle)
    (hnextNode : s'.nextNode = s.nextNode) : s'.Linked := by
  refine ⟨hs.toNumbered.congr hhandles hnext hnodes, ?_, ?_, ?_, ?_, ?_⟩
  · rw [hhandles]
    exact hs.armed
  · rw [hnodes, hhandles]
    exact hs.owned
  · rw [hnodes, hnextNode]
    exact hs.nodesBelow
  · rw [hhandles, hnextNode]
    exact hs.iteratorsBelow
  · rw [hhandles, hnodes]
    exact hs.found

theorem Linked.lock_of_mem {s : Storage κ} (hs : s.Linked) {h : StorageWait κ}
    (hmem : h ∈ s.handles) : s.lock h.id = some h := by
  have hsome : (s.lock h.id).isSome := List.find?_isSome.mpr ⟨h, hmem, by simp⟩
  obtain ⟨w, hw⟩ := Option.isSome_iff_exists.mp hsome
  obtain ⟨hwmem, hid⟩ := mem_of_lock hw
  rw [hw, List.inj_on_of_nodup_map hs.distinct hwmem hmem hid]

/-- A reply takes the handle out of all wait lists, and with them goes the handle. -/
theorem Linked.unblock_eq {s : Storage κ} (hs : s.Linked) {h : StorageWait κ}
    (hmem : h ∈ s.handles) :
    s.unblock h = { s with
      nodes := s.nodes.filter fun n => n.handle ≠ h.id
      handles := s.handles.filter fun x => x.id ≠ h.id
      timeoutJobs := invalidate h.id s.timeoutJobs } := by
  have hnodes : (s.nodes.filter fun n => decide (n.node ∉ h.streamIts.map Prod.snd)) =
      s.nodes.filter fun n => decide (n.handle ≠ h.id) :=
    List.filter_congr fun n hn => decide_eq_decide.mpr (not_congr (hs.found h hmem n hn))
  have hnone : ((s.nodes.filter fun n => decide (n.handle ≠ h.id)).any
      fun n => decide (n.handle = h.id)) = false := by
    simp
  have hhandles : ((s.handles.map fun x =>
      if x.id = h.id then { x with request := [], callback := none } else x).filter
        fun x => decide (x.id ≠ h.id)) = s.handles.filter fun x => decide (x.id ≠ h.id) := by
    rw [List.filter_map]
    have hkept : (fun x : StorageWait κ => decide (x.id ≠ h.id)) ∘ (fun x =>
        if x.id = h.id then { x with request := [], callback := none } else x) =
          fun x => decide (x.id ≠ h.id) := by
      funext x
      by_cases hx : x.id = h.id <;> simp [hx]
    rw [hkept]
    refine (List.map_congr_left fun x hx => if_neg ?_).trans (List.map_id' _)
    simpa using (List.mem_filter.mp hx).2
  simp only [unblock, release, hnodes, hnone, hhandles]
  simp

theorem Linked.unblock {s : Storage κ} (hs : s.Linked) {h : StorageWait κ}
    (hmem : h ∈ s.handles) : (s.unblock h).Linked := by
  have hnumbered := hs.toNumbered.unblock hmem
  rw [hs.unblock_eq hmem] at hnumbered ⊢
  refine ⟨hnumbered, ?_, ?_, ?_, ?_, ?_⟩
  · exact fun x hx => hs.armed x (List.mem_filter.mp hx).1
  · intro n hn
    obtain ⟨hn, hother⟩ := List.mem_filter.mp hn
    obtain ⟨w, hw, hid⟩ := hs.owned n hn
    exact ⟨w, List.mem_filter.mpr ⟨hw, by simpa [hid] using hother⟩, hid⟩
  · exact fun n hn => hs.nodesBelow n (List.mem_filter.mp hn).1
  · exact fun x hx => hs.iteratorsBelow x (List.mem_filter.mp hx).1
  · exact fun x hx n hn => hs.found x (List.mem_filter.mp hx).1 n (List.mem_filter.mp hn).1

theorem Replies.linked {s s' : Storage κ} {calls : List (Call κ)} (h : Replies s calls s')
    (hs : s.Linked) : s'.Linked := by
  induction h with
  | nil => exact hs
  | cons hmem _ _ _ ih => exact ih (hs.unblock hmem)

/-- A handle that can reply is called, or it stays as it is. -/
theorem Replies.mem_handles {s s' : Storage κ} {calls : List (Call κ)}
    (h : Replies s calls s') (hs : s.Linked) {w : StorageWait κ} :
    w ∈ s.handles → w ∈ s'.handles ∨ ∃ k ∈ calls.map Prod.fst, w.callback = some k := by
  induction h with
  | nil => exact Or.inl
  | @cons s s' h k result calls hmem hcallback _ _ ih =>
      intro hw
      by_cases hid : w.id = h.id
      · obtain rfl := List.inj_on_of_nodup_map hs.distinct hw hmem hid
        exact Or.inr ⟨k, by simp, hcallback⟩
      · have hkept : w ∈ (s.unblock h).handles := by
          rw [hs.unblock_eq hmem]
          exact List.mem_filter.mpr ⟨hw, by simpa using hid⟩
        rcases ih (hs.unblock hmem) hkept with hstays | ⟨k', hk', hcall⟩
        · exact Or.inl hstays
        · exact Or.inr ⟨k', by simp [hk'], hcall⟩

theorem Replies.handles_subset {s s' : Storage κ} {calls : List (Call κ)}
    (h : Replies s calls s') (hs : s.Linked) : s'.handles ⊆ s.handles := by
  induction h with
  | nil => exact fun _ hx => hx
  | @cons s s' h k result calls hmem _ _ _ ih =>
      intro x hx
      have hunblock := ih (hs.unblock hmem) hx
      rw [hs.unblock_eq hmem] at hunblock
      exact (List.mem_filter.mp hunblock).1

/-- **No handle of a job is missed.**  Where every handle can read its streams, a job
runs to its end, and none of its handles is left. -/
theorem Linked.wake {s : Storage κ} (hs : s.Linked)
    (hread : ∀ h ∈ s.handles, (s.readStreams h.request).isSome) (job : List Nat) :
    ∃ s' calls, Storage.wake job s = some (s', calls) ∧
      ∀ i ∈ job, i ∉ s'.handles.map StorageWait.id := by
  induction job generalizing s with
  | nil => exact ⟨s, [], rfl, by simp⟩
  | cons i job ih =>
      rw [Storage.wake]
      cases hlock : s.lock i with
      | none =>
          obtain ⟨s', calls, hwake, hgone⟩ := ih hs hread
          refine ⟨s', calls, hwake, ?_⟩
          intro j hj
          rcases List.mem_cons.mp hj with rfl | hj
          · intro hmem
            obtain ⟨w, hw, rfl⟩ := List.mem_map.mp hmem
            have hbefore := (wake_replies hwake).handles_subset hs hw
            rw [hs.lock_of_mem hbefore] at hlock
            cases hlock
          · exact hgone j hj
      | some h =>
          obtain ⟨hmem, rfl⟩ := mem_of_lock hlock
          obtain ⟨k, hcallback⟩ := Option.isSome_iff_exists.mp (hs.armed h hmem)
          obtain ⟨result, hresult⟩ := Option.isSome_iff_exists.mp (hread h hmem)
          have heq := hs.unblock_eq hmem
          have hread' : ∀ x ∈ (s.unblock h).handles,
              ((s.unblock h).readStreams x.request).isSome := by
            intro x hx
            rw [heq] at hx
            rw [readStreams_congr (unblock_values h s)]
            exact hread x (List.mem_filter.mp hx).1
          obtain ⟨s', calls, hwake, hgone⟩ := ih (hs.unblock hmem) hread'
          refine ⟨s', (k, result) :: calls, ?_, ?_⟩
          · simp [reply, hresult, hcallback, hwake]
          · intro j hj
            rcases List.mem_cons.mp hj with rfl | hj
            · intro hleft
              obtain ⟨w, hw, hid⟩ := List.mem_map.mp hleft
              have hbefore := (wake_replies hwake).handles_subset (hs.unblock hmem) hw
              rw [heq] at hbefore
              exact absurd hid (by simpa using (List.mem_filter.mp hbefore).2)
            · exact hgone j hj

/-- Whoever of a job still waits when it runs is called by it. -/
theorem Linked.wake_reaches {s : Storage κ} (hs : s.Linked)
    (hread : ∀ h ∈ s.handles, (s.readStreams h.request).isSome) (job : List Nat) :
    ∃ s' calls, Storage.wake job s = some (s', calls) ∧
      ∀ h ∈ s.handles, h.id ∈ job → ∃ k ∈ calls.map Prod.fst, h.callback = some k := by
  obtain ⟨s', calls, hwake, hgone⟩ := hs.wake hread job
  refine ⟨s', calls, hwake, fun h hmem hid => ?_⟩
  rcases (wake_replies hwake).mem_handles hs hmem with hleft | hcalled
  · exact absurd (List.mem_map_of_mem hleft) (hgone h.id hid)
  · exact hcalled

/-! ## Blocking -/

/-- The handle of a reader that blocks. -/
def blocked (s : Storage κ) (request resolved : StreamsReadRequest) (k : κ) :
    StorageWait κ :=
  ⟨s.nextHandle, resolved, some k, iterators (newNodes s.nextHandle s.nextNode request)⟩

/-- Blocking adds the handle to those that wait; without a stream to wait for it is
destroyed at once. -/
theorem Numbered.block {s s' : Storage κ} (hs : s.Numbered) {request : StreamsReadRequest}
    {blockMs : UInt64} {k : κ} (h : s.block request blockMs k = some s') :
    ∃ resolved, s.resolve request = some resolved ∧
      (request ≠ [] ∧ s'.handles = s.handles ++ [s.blocked request resolved k] ∨
        request = [] ∧ s'.handles = s.handles) ∧
      s'.nodes = s.nodes ++ newNodes s.nextHandle s.nextNode request ∧
      s'.nextHandle = s.nextHandle + 1 ∧ s'.nextNode = s.nextNode + request.length ∧
      s'.values = s.values ∧ s'.onetimeJobs = s.onetimeJobs := by
  unfold Storage.block at h
  cases hresolve : s.resolve request with
  | none => simp [hresolve] at h
  | some resolved =>
      simp only [hresolve, Option.bind_eq_bind, Option.bind_some, Option.pure_def,
        Option.some.injEq] at h
      subst h
      have hkeep : s.handles.filter (fun x => decide (x.id ≠ s.nextHandle)) = s.handles :=
        List.filter_eq_self.mpr fun x hx => decide_eq_true (by have := hs.below x hx; omega)
      refine ⟨resolved, rfl, ?_, by simp, by simp, by simp, by simp, by simp⟩
      rw [release_handles]
      generalize (if blockMs > 0 then _ else s.timeoutJobs) = timeouts
      split
      · next hany =>
          refine Or.inl ⟨?_, rfl⟩
          rintro rfl
          obtain ⟨n, hn, hid⟩ := List.any_eq_true.mp hany
          have hlt := hs.elements n (by simpa [newNodes] using hn)
          exact Nat.ne_of_lt hlt (of_decide_eq_true hid)
      · next hnone =>
          refine Or.inr ⟨?_, ?_⟩
          · cases request with
            | nil => rfl
            | cons part request => simp [newNodes] at hnone
          · rw [List.filter_append, hkeep]
            simp

theorem Numbered.numbered_block {s s' : Storage κ} (hs : s.Numbered)
    {request : StreamsReadRequest} {blockMs : UInt64} {k : κ}
    (h : s.block request blockMs k = some s') : s'.Numbered := by
  obtain ⟨resolved, -, hhandles, hnodes, hnext, -⟩ := hs.block h
  have helements : ∀ n ∈ s'.nodes, n.handle < s'.nextHandle := by
    intro n hn
    rw [hnext]
    rw [hnodes] at hn
    rcases List.mem_append.mp hn with hn | hn
    · exact Nat.lt_succ_of_lt (hs.elements n hn)
    · rw [(mem_newNodes hn).1]
      exact Nat.lt_succ_self _
  rcases hhandles with ⟨-, hhandles⟩ | ⟨-, hhandles⟩
  · refine ⟨?_, ?_, helements⟩
    · rw [hhandles, List.map_append, List.nodup_append]
      refine ⟨hs.distinct, by simp, ?_⟩
      intro i hi j hj
      obtain ⟨x, hx, rfl⟩ := List.mem_map.mp hi
      obtain rfl := List.mem_singleton.mp hj
      exact Nat.ne_of_lt (hs.below x hx)
    · rw [hhandles, hnext]
      intro x hx
      rcases List.mem_append.mp hx with hx | hx
      · exact Nat.lt_succ_of_lt (hs.below x hx)
      · obtain rfl := List.mem_singleton.mp hx
        exact Nat.lt_succ_self _
  · refine ⟨by rw [hhandles]; exact hs.distinct, ?_, helements⟩
    rw [hhandles, hnext]
    exact fun x hx => Nat.lt_succ_of_lt (hs.below x hx)

theorem Linked.block {s s' : Storage κ} (hs : s.Linked) {request : StreamsReadRequest}
    (hkeys : (request.map Prod.fst).Nodup) {blockMs : UInt64} {k : κ}
    (h : s.block request blockMs k = some s') : s'.Linked := by
  obtain ⟨resolved, -, hhandles, hnodes, hnext, hnextNode, -⟩ := hs.toNumbered.block h
  have hmem : ∀ x ∈ s'.handles, x ∈ s.handles ∨ x = s.blocked request resolved k := by
    intro x hx
    rcases hhandles with ⟨-, hhandles⟩ | ⟨-, hhandles⟩
    · rw [hhandles] at hx
      simpa using hx
    · exact Or.inl (hhandles ▸ hx)
  have hold : s.handles ⊆ s'.handles := by
    rcases hhandles with ⟨-, hhandles⟩ | ⟨-, hhandles⟩ <;> simp [hhandles]
  have hits : (s.blocked request resolved k).streamIts.map Prod.snd =
      (newNodes s.nextHandle s.nextNode request).map WaitNode.node := by
    rw [blocked, iterators_eq_map (by rwa [map_key_newNodes]), List.map_map]
    rfl
  have hnode : ∀ n ∈ s'.nodes, n ∈ s.nodes ∨
      n ∈ newNodes s.nextHandle s.nextNode request := by
    simp [hnodes]
  refine ⟨hs.toNumbered.numbered_block h, ?_, ?_, ?_, ?_, ?_⟩
  · intro x hx
    rcases hmem x hx with hx | rfl
    · exact hs.armed x hx
    · rfl
  · intro n hn
    rcases hnode n hn with hn | hn
    · obtain ⟨w, hw, hid⟩ := hs.owned n hn
      exact ⟨w, hold hw, hid⟩
    · rcases hhandles with ⟨-, hhandles⟩ | ⟨rfl, -⟩
      · exact ⟨s.blocked request resolved k, by simp [hhandles], (mem_newNodes hn).1.symm⟩
      · cases hn
  · intro n hn
    rw [hnextNode]
    rcases hnode n hn with hn | hn
    · exact Nat.lt_add_right _ (hs.nodesBelow n hn)
    · exact (mem_newNodes hn).2.2
  · intro x hx node hit
    rw [hnextNode]
    rcases hmem x hx with hx | rfl
    · exact Nat.lt_add_right _ (hs.iteratorsBelow x hx node hit)
    · rw [hits] at hit
      obtain ⟨n, hn, rfl⟩ := List.mem_map.mp hit
      exact (mem_newNodes hn).2.2
  · intro x hx n hn
    rcases hmem x hx with hx | rfl <;> rcases hnode n hn with hn | hn
    · exact hs.found x hx n hn
    · -- an old handle and a new element
      have hnew := mem_newNodes hn
      refine iff_of_false (fun hit => ?_) ?_
      · exact absurd (hs.iteratorsBelow x hx n.node hit) (Nat.not_lt.mpr hnew.2.1)
      · rw [hnew.1]
        exact (Nat.ne_of_lt (hs.below x hx)).symm
    · -- the new handle and an old element
      rw [hits]
      refine iff_of_false (fun hit => ?_) (fun heq => ?_)
      · obtain ⟨m, hm, heq⟩ := List.mem_map.mp hit
        have hlt := hs.nodesBelow n hn
        have hle := (mem_newNodes hm).2.1
        omega
      · obtain ⟨w, hw, hid⟩ := hs.owned n hn
        have hlt := hs.below w hw
        rw [hid, heq] at hlt
        exact Nat.lt_irrefl _ hlt
    · rw [hits]
      exact iff_of_true (List.mem_map_of_mem hn) (mem_newNodes hn).1

/-- What a read does: it answers at once, or it blocks.  It blocks only with a timeout and
where there is nothing to answer. -/
theorem xread_cases {request : StreamsReadRequest} {blockMs : Option UInt64} {k : κ}
    {s s' : Storage κ} {calls : List (Call κ)}
    (h : s.xread request blockMs k = some (s', calls)) :
    ∃ result, s.readStreams request = some result ∧
      ((s' = s ∧ calls = [(k, result)]) ∨
        (∃ ms, blockMs = some ms ∧ result = [] ∧ calls = [] ∧
          s.block request ms k = some s')) := by
  unfold xread at h
  cases hread : s.readStreams request with
  | none => simp [hread] at h
  | some result =>
      refine ⟨result, rfl, ?_⟩
      cases blockMs with
      | none =>
          obtain ⟨rfl, rfl⟩ : s = s' ∧ [(k, result)] = calls := by simpa [hread] using h
          exact Or.inl ⟨rfl, rfl⟩
      | some ms =>
          simp only [hread, Option.bind_eq_bind, Option.bind_some, Option.pure_def] at h
          split at h
          · obtain ⟨rfl, rfl⟩ : s = s' ∧ [(k, result)] = calls := by simpa using h
            exact Or.inl ⟨rfl, rfl⟩
          · next hempty =>
              cases hblock : s.block request ms k with
              | none => simp [hblock] at h
              | some s₁ =>
                  obtain ⟨rfl, rfl⟩ : s₁ = s' ∧ [] = calls := by simpa [hblock] using h
                  refine Or.inr ⟨ms, rfl, ?_, rfl, hblock⟩
                  exact List.length_eq_zero_iff.mp (by omega)

end Storage

end BuildYourOwnRedis
