/-
  Storage/Iterators.lean --- the entries in the wait lists and the iterators of the handles.

  A handle enters the wait list of every key of its request and keeps one iterator for each
  key.  `Indexed` says that its iterators are those to its entries, all of them: that holds
  as long as no reader that blocks names a key twice, and is lost at the first one that does,
  since the second entry of the key takes the place of the first in `stream_its`.
-/
import BuildYourOwnRedis.Storage.Blocking

set_option autoImplicit false

namespace BuildYourOwnRedis

open Foundation

namespace Storage

variable {κ : Type}

/-! ## Entries and iterators -/

/-- Wait lists and `stream_its` match: the elements that a handle has in the lists are those
that it holds iterators to, until it replies. -/
structure Matched (s : Storage κ) : Prop where
  /-- a handle is in a list as often as it holds an iterator to itself there -/
  count : ∀ h ∈ s.handles, ∀ key, (s.waitList key).count h.id =
    h.streamIts.countP fun it => it.1 = key ∧ ⟨it.2, key, h.id⟩ ∈ s.nodes
  /-- no iterator of an unanswered handle dangles -/
  live : ∀ h ∈ s.handles, h.callback.isSome → ∀ it ∈ h.streamIts, ⟨it.2, it.1, h.id⟩ ∈ s.nodes
  /-- who is in a list is not answered -/
  unanswered : ∀ key, ∀ i ∈ s.waitList key, ∃ h ∈ s.handles, h.id = i ∧ h.callback.isSome

/-- A read of these streams finds no entry, so that it blocks if it may. -/
def NothingNew (request : StreamsReadRequest) (s : Storage κ) : Prop :=
  s.readStreams request = some []

instance (request : StreamsReadRequest) (s : Storage κ) : Decidable (s.NothingNew request) :=
  decidable_of_iff ((s.readStreams request).map List.length = some 0) (by simp [NothingNew])

/-- No reply of a job runs a second time, and none erases an entry twice.  The state is
followed through the replies, since each of them changes the lists for the next. -/
def RepliesOnce : List Nat → Storage κ → Prop
  | [], _ => True
  | handle :: handles, s =>
      match s.lock handle with
      | none => RepliesOnce handles s
      | some h => h.callback.isSome ∧ (h.streamIts.map Prod.snd).Nodup ∧
          (∀ it ∈ h.streamIts, ⟨it.2, it.1, h.id⟩ ∈ s.nodes) ∧
          RepliesOnce handles (s.unblock h)

/-- The entries of a handle, as iterators. -/
def iteratorsTo (handle : Nat) (s : Storage κ) : List (Bytes × Nat) :=
  (s.nodes.filter fun n => n.handle = handle).map fun n => (n.key, n.node)

/-- The iterators of a handle are those to its entries, and entries are told apart by their
numbers. -/
structure Indexed (s : Storage κ) : Prop extends s.Linked where
  iterators : ∀ h ∈ s.handles, h.streamIts = s.iteratorsTo h.id
  apart : (s.nodes.map WaitNode.node).Nodup

/-- The values and the jobs have no part in it. -/
theorem Indexed.congr {s s' : Storage κ} (hs : s.Indexed) (hnodes : s'.nodes = s.nodes)
    (hhandles : s'.handles = s.handles) (hnext : s'.nextHandle = s.nextHandle)
    (hnextNode : s'.nextNode = s.nextNode) : s'.Indexed := by
  refine ⟨hs.toLinked.congr hnodes hhandles hnext hnextNode, ?_, hnodes ▸ hs.apart⟩
  intro h hh
  rw [iteratorsTo, hnodes]
  exact hs.iterators h (hhandles ▸ hh)

theorem mem_iteratorsTo {s : Storage κ} {handle : Nat} {it : Bytes × Nat} :
    it ∈ s.iteratorsTo handle ↔ ⟨it.2, it.1, handle⟩ ∈ s.nodes := by
  simp only [iteratorsTo, List.mem_map, List.mem_filter, decide_eq_true_eq]
  constructor
  · rintro ⟨n, ⟨hn, rfl⟩, rfl⟩
    exact hn
  · exact fun hn => ⟨_, ⟨hn, rfl⟩, rfl⟩

theorem Indexed.nodup {s : Storage κ} (hs : s.Indexed) {h : StorageWait κ} (hh : h ∈ s.handles) :
    (h.streamIts.map Prod.snd).Nodup := by
  rw [hs.iterators h hh, iteratorsTo, List.map_map]
  exact hs.apart.sublist (List.filter_sublist.map _)

theorem Indexed.live {s : Storage κ} (hs : s.Indexed) {h : StorageWait κ} (hh : h ∈ s.handles)
    {it : Bytes × Nat} (hit : it ∈ h.streamIts) : ⟨it.2, it.1, h.id⟩ ∈ s.nodes :=
  mem_iteratorsTo.mp (hs.iterators h hh ▸ hit)

theorem Indexed.matched {s : Storage κ} (hs : s.Indexed) : s.Matched := by
  refine ⟨fun h hh key => ?_, fun h hh _ it hit => hs.live hh hit, fun key i hi => ?_⟩
  · have hcount : h.streamIts.countP (fun it => decide (it.1 = key ∧ ⟨it.2, key, h.id⟩ ∈ s.nodes)) =
        h.streamIts.countP fun it => decide (it.1 = key) := by
      refine List.countP_congr fun it hit => ?_
      have hlive := hs.live hh hit
      simp only [decide_eq_true_eq, and_iff_left_iff_imp]
      rintro rfl
      exact hlive
    rw [hcount, hs.iterators h hh, iteratorsTo, waitList, List.count_eq_countP, List.countP_map,
      List.countP_map, List.countP_filter, List.countP_filter]
    refine List.countP_congr fun n _ => ?_
    simp [and_comm]
  · obtain ⟨n, hn, rfl⟩ := List.mem_map.mp hi
    obtain ⟨h, hh, hid⟩ := hs.owned n (List.mem_filter.mp hn).1
    exact ⟨h, hh, hid, hs.armed h hh⟩

/-! ## Replies -/

theorem Indexed.unblock {s : Storage κ} (hs : s.Indexed) {h : StorageWait κ}
    (hmem : h ∈ s.handles) : (s.unblock h).Indexed := by
  have hlinked := hs.toLinked.unblock hmem
  rw [hs.unblock_eq hmem] at hlinked ⊢
  refine ⟨hlinked, fun x hx => ?_, hs.apart.sublist (List.filter_sublist.map _)⟩
  obtain ⟨hx, hother⟩ := List.mem_filter.mp hx
  rw [hs.iterators x hx, iteratorsTo, iteratorsTo, List.filter_filter]
  congr 1
  refine List.filter_congr fun n _ => ?_
  have hne : x.id ≠ h.id := of_decide_eq_true hother
  by_cases hn : n.handle = x.id <;> simp [hn, hne]

theorem Replies.indexed {s s' : Storage κ} {calls : List (Call κ)} (h : Replies s calls s')
    (hs : s.Indexed) : s'.Indexed := by
  induction h with
  | nil => exact hs
  | cons hmem _ _ _ ih => exact ih (hs.unblock hmem)

theorem Indexed.repliesOnce {s : Storage κ} (hs : s.Indexed) (job : List Nat) :
    RepliesOnce job s := by
  induction job generalizing s with
  | nil => trivial
  | cons i job ih =>
      rw [RepliesOnce]
      cases hlock : s.lock i with
      | none => exact ih hs
      | some h =>
          have hmem := (mem_of_lock hlock).1
          exact ⟨hs.armed h hmem, hs.nodup hmem, fun it hit => hs.live hmem hit,
            ih (hs.unblock hmem)⟩

/-! ## Blocking -/

theorem map_node_newNodes (handle node : Nat) (request : StreamsReadRequest) :
    (newNodes handle node request).map WaitNode.node = List.range' node request.length := by
  induction request generalizing node with
  | nil => rfl
  | cons part request ih => simp [newNodes, ih, List.range'_succ]

theorem Indexed.block {s s' : Storage κ} (hs : s.Indexed) {request : StreamsReadRequest}
    (hkeys : (request.map Prod.fst).Nodup) {blockMs : UInt64} {k : κ}
    (h : s.block request blockMs k = some s') : s'.Indexed := by
  obtain ⟨resolved, -, hhandles, hnodes, -⟩ := hs.toNumbered.block h
  have hold : (s.nodes.filter fun n => decide (n.handle = s.nextHandle)) = [] :=
    List.filter_eq_nil_iff.mpr fun n hn => by
      simpa using (Nat.ne_of_lt (hs.elements n hn))
  have hsame : ∀ x ∈ s.handles, s'.iteratorsTo x.id = s.iteratorsTo x.id := by
    intro x hx
    have hnew : ((newNodes s.nextHandle s.nextNode request).filter
        fun n => decide (n.handle = x.id)) = [] :=
      List.filter_eq_nil_iff.mpr fun n hn => by
        simpa [(mem_newNodes hn).1] using (Nat.ne_of_lt (hs.below x hx)).symm
    rw [iteratorsTo, hnodes, List.filter_append, hnew, List.append_nil]
    rfl
  have hown : s'.iteratorsTo s.nextHandle =
      Storage.iterators (newNodes s.nextHandle s.nextNode request) := by
    have hall : ((newNodes s.nextHandle s.nextNode request).filter
        fun n => decide (n.handle = s.nextHandle)) = newNodes s.nextHandle s.nextNode request :=
      List.filter_eq_self.mpr fun n hn => decide_eq_true (mem_newNodes hn).1
    rw [iteratorsTo, hnodes, List.filter_append, hold, hall,
      iterators_eq_map (by rwa [map_key_newNodes])]
    rfl
  refine ⟨hs.toLinked.block hkeys h, fun x hx => ?_, ?_⟩
  · rcases hhandles with ⟨-, hhandles⟩ | ⟨-, hhandles⟩
    · rw [hhandles] at hx
      rcases List.mem_append.mp hx with hx | hx
      · rw [hsame x hx]
        exact hs.iterators x hx
      · obtain rfl := List.mem_singleton.mp hx
        exact hown.symm
    · rw [hhandles] at hx
      rw [hsame x hx]
      exact hs.iterators x hx
  · rw [hnodes, List.map_append, List.nodup_append]
    refine ⟨hs.apart, map_node_newNodes _ _ _ ▸ List.nodup_range', fun a ha b hb heq => ?_⟩
    obtain ⟨n, hn, rfl⟩ := List.mem_map.mp ha
    obtain ⟨m, hm, rfl⟩ := List.mem_map.mp hb
    have hlt := hs.nodesBelow n hn
    have hle := (mem_newNodes hm).2.1
    omega

/-! ## A key that is named twice -/

/-- `stream_its` is a map: each key comes once. -/
theorem nodup_key_iterators (nodes : List WaitNode) : ((iterators nodes).map Prod.fst).Nodup := by
  have hfold : ∀ its : List (Bytes × Nat), (its.map Prod.fst).Nodup →
      ((nodes.foldl (fun its n => its.filter (fun it => it.1 ≠ n.key) ++ [(n.key, n.node)])
        its).map Prod.fst).Nodup := by
    induction nodes with
    | nil => exact fun its h => h
    | cons n nodes ih =>
        intro its h
        rw [List.foldl_cons]
        refine ih _ ?_
        rw [List.map_append, List.nodup_append]
        refine ⟨h.sublist (List.filter_sublist.map _), by simp, fun a ha b hb heq => ?_⟩
        obtain ⟨it, hit, rfl⟩ := List.mem_map.mp ha
        obtain rfl : b = n.key := List.mem_singleton.mp hb
        exact (of_decide_eq_true (List.mem_filter.mp hit).2) heq
  exact hfold [] (by simp)

theorem count_waitList_newNodes (handle node : Nat) (request : StreamsReadRequest) (key : Bytes) :
    (((newNodes handle node request).filter fun n => n.key = key).map WaitNode.handle).count
      handle = (request.map Prod.fst).count key := by
  induction request generalizing node with
  | nil => rfl
  | cons part request ih =>
      rw [newNodes, List.filter_cons]
      by_cases h : part.1 = key <;> simp [h, ih]

/-- A reader that blocks and names a key twice is in its list more often than it knows. -/
theorem not_matched_of_block {s s' : Storage κ} (hs : s.Numbered) {request : StreamsReadRequest}
    (hkeys : ¬ (request.map Prod.fst).Nodup) {blockMs : UInt64} {k : κ}
    (h : s.block request blockMs k = some s') : ¬ s'.Matched := by
  intro hmatched
  obtain ⟨resolved, -, ⟨-, hhandles⟩ | ⟨rfl, -⟩, hnodes, -⟩ := hs.block h
  · obtain ⟨key, htwice⟩ : ∃ key, 1 < (request.map Prod.fst).count key := by
      simpa [List.nodup_iff_count_le_one] using hkeys
    have hcount := hmatched.count (s.blocked request resolved k) (by simp [hhandles]) key
    have hlist : (request.map Prod.fst).count key ≤ (s'.waitList key).count s.nextHandle := by
      rw [waitList, hnodes, List.filter_append, List.map_append, List.count_append,
        count_waitList_newNodes]
      omega
    have hits : (s.blocked request resolved k).streamIts.countP (fun it =>
        decide (it.1 = key ∧ ⟨it.2, key, s.nextHandle⟩ ∈ s'.nodes)) ≤ 1 := by
      refine le_trans (List.countP_mono_left (q := fun it => decide (it.1 = key)) ?_) ?_
      · intro it _ hit
        exact decide_eq_true (of_decide_eq_true hit).1
      · have honce := List.nodup_iff_count_le_one.mp (nodup_key_iterators
          (newNodes s.nextHandle s.nextNode request)) key
        rw [List.count_eq_countP, List.countP_map] at honce
        refine le_trans (le_of_eq (List.countP_congr fun it _ => ?_)) honce
        simp
    exact absurd (le_trans hlist (hcount.trans_le hits)) (Nat.not_le.mpr htwice)
  · exact hkeys (by simp)

end Storage

/-! ## Readers -/

namespace Readers

/-- The wait lists match the iterators, and so replies and jobs do what they should.  The
fields behind the first one are what a client can see of it. -/
structure Matches (s : Readers) : Prop where
  lists : s.storage.Matched
  /-- nobody is answered twice -/
  once : s.answered.Nodup
  /-- no posted job and no timeout replies where a reply was given -/
  jobs : ∀ job ∈ s.storage.onetimeJobs, s.storage.RepliesOnce job
  timers : ∀ job ∈ s.storage.timeoutJobs, job.isValid → s.storage.RepliesOnce [job.owner]
  /-- the next job calls all of its readers that wait -/
  reached : ∀ job jobs, s.storage.onetimeJobs = job :: jobs →
    ∃ storage calls, s.storage.runJob = some (storage, calls) ∧
      ∀ h ∈ s.storage.handles, h.id ∈ job → ∃ k ∈ calls.map Prod.fst, h.callback = some k

/-- A reader that blocks names no key twice.  One that is answered at once may, since it is put
in no list. -/
def NamesOnce (s : Readers) : ReadersAction → Prop
  | .xread request (some _) => s.storage.NothingNew request → (request.map Prod.fst).Nodup
  | _ => True

instance (s : Readers) (a : ReadersAction) : Decidable (s.NamesOnce a) := by
  unfold NamesOnce
  split <;> infer_instance

/-- The command parser accepts the request. -/
def Accepted (_ : Readers) : ReadersAction → Prop
  | .xread request blockMs => ∃ message, Command.tryParse message = .ok (.xread request blockMs)
  | _ => True

theorem Inv.matches {s : Readers} (hs : s.Inv) (hindexed : s.storage.Indexed) : s.Matches := by
  refine ⟨hindexed.matched, hs.once, fun job _ => hindexed.repliesOnce job,
    fun job _ _ => hindexed.repliesOnce [job.owner], fun job jobs hjobs => ?_⟩
  have hpopped : Storage.Linked { s.storage with onetimeJobs := jobs } :=
    hs.linked.congr rfl rfl rfl rfl
  obtain ⟨storage, calls, hwake, hcalled⟩ := hpopped.wake_reaches (hs.readable rfl) job
  exact ⟨storage, calls, by simpa [Storage.runJob, hjobs] using hwake, hcalled⟩

theorem Inv.step_of_namesOnce {s s' : Readers} (hs : s.Inv) {a : ReadersAction}
    (ha : s.NamesOnce a) (h : s.step a = some s') : s'.Inv := by
  cases a with
  | xadd now key id values => exact hs.xadd h
  | runJob => exact hs.runJob h
  | fire i => exact hs.fire h
  | xread request blockMs =>
      refine hs.xread (fun hblocks hnothing => ?_) h
      obtain ⟨ms, rfl⟩ := Option.isSome_iff_exists.mp hblocks
      exact ha hnothing

/-- What a step does to the storage, when no reader that blocks names a key twice: the lists
and the iterators still match. -/
theorem indexed_step {s s' : Readers} (hs : s.storage.Indexed) {a : ReadersAction}
    (ha : s.NamesOnce a) (h : s.step a = some s') : s'.storage.Indexed := by
  cases a with
  | xadd now key id values =>
      simp only [step] at h
      rcases s.storage.xadd_cases now key id values with ⟨e, hadd⟩ | ⟨added, stream, hadd⟩
      · rw [hadd] at h
        exact Option.some.inj h ▸ hs
      · rw [hadd] at h
        exact Option.some.inj h ▸ hs.congr rfl rfl rfl rfl
  | xread request blockMs =>
      obtain ⟨storage, calls, hread, rfl⟩ := xread_of_step h
      obtain ⟨result, hresult, ⟨rfl, rfl⟩ | ⟨ms, rfl, rfl, rfl, hblock⟩⟩ :=
        Storage.xread_cases hread
      · exact hs
      · exact hs.block (ha hresult) hblock
  | runJob =>
      obtain ⟨storage, calls, hrun, rfl⟩ := runJob_of_step h
      obtain ⟨job, jobs, -, hwake⟩ := Storage.runJob_replies hrun
      exact (Storage.wake_replies hwake).indexed (hs.congr rfl rfl rfl rfl)
  | fire i =>
      obtain ⟨storage, calls, hfire, rfl⟩ := fire_of_step h
      obtain ⟨handles, hwake⟩ := Storage.fire_replies hfire
      exact (Storage.wake_replies hwake).indexed (hs.congr rfl rfl rfl rfl)

/-- A reader that names a key twice and blocks spoils it. -/
theorem namesOnce_of_matched {s s' : Readers} (hs : s.Inv) {a : ReadersAction}
    (h : s.step a = some s') (hmatched : s'.storage.Matched) : s.NamesOnce a := by
  cases a with
  | xread request blockMs =>
      cases blockMs with
      | none => trivial
      | some ms =>
          intro hnothing
          by_contra hkeys
          rw [Storage.NothingNew] at hnothing
          simp only [step, Storage.xread, hnothing, Option.bind_eq_bind, Option.pure_def,
            Option.bind_some, List.length_nil, Nat.lt_irrefl, if_false, Option.bind_eq_some_iff,
            Option.some.injEq, Prod.exists, Prod.mk.injEq] at h
          obtain ⟨storage, calls, ⟨storage', hblock, rfl, rfl⟩, rfl⟩ := h
          exact Storage.not_matched_of_block hs.linked.toNumbered hkeys hblock hmatched
  | _ => trivial

/-- **Wait lists and iterators match.**  In every run in which no reader that blocks names a
key twice: a handle is in the list of a key as often as it holds an iterator to itself
there, no iterator of an unanswered handle dangles, no answered handle is in a list, no
reply is given twice, and a job reaches all of its readers.  A further step keeps that if
and only if it is such a step too. -/
theorem matches_iff_namesOnce {s : Readers} (h : machine.Reachable NamesOnce s) :
    s.Matches ∧ ∀ a s', s.step a = some s' → (s'.Matches ↔ s.NamesOnce a) := by
  have hs : s.Inv ∧ s.storage.Indexed := by
    refine h.invariant (I := fun s => s.Inv ∧ s.storage.Indexed) ⟨inv_init, ?_⟩
      fun s a s' _ hs ha htaken =>
        ⟨hs.1.step_of_namesOnce ha htaken, indexed_step hs.2 ha htaken⟩
    exact ⟨inv_init.linked, by simp [machine], by simp [machine]⟩
  refine ⟨hs.1.matches hs.2, fun a s' htaken => ⟨fun hmatches => ?_, fun ha => ?_⟩⟩
  · exact namesOnce_of_matched hs.1 htaken hmatches.lists
  · exact (hs.1.step_of_namesOnce ha htaken).matches (indexed_step hs.2 ha htaken)

/-- Two readers share a key, and a third that names one twice is answered at once. -/
theorem matches_iff_namesOnce_shared :
    ∃ h : (machine.run NamesOnce machine.init
        [.xread [(ascii "k", {}), (ascii "l", {})] (some 0), .xread [(ascii "k", {})] (some 5),
          .xadd 0 (ascii "k") { ms := 1, id := 1 } [],
          .xread [(ascii "k", {}), (ascii "k", {})] (some 0)]).isSome,
      ((machine.run NamesOnce machine.init
        [.xread [(ascii "k", {}), (ascii "l", {})] (some 0), .xread [(ascii "k", {})] (some 5),
          .xadd 0 (ascii "k") { ms := 1, id := 1 } [],
          .xread [(ascii "k", {}), (ascii "k", {})] (some 0)]).get h).Matches :=
  ⟨by decide +kernel, (matches_iff_namesOnce (Machine.reachable_of_run (by decide +kernel))).1⟩

/-- `XREAD BLOCK 0 STREAMS k k 0 0`. -/
def twice : ReadersAction := .xread [(ascii "k", {}), (ascii "k", {})] (some 0)

/-- XREAD BLOCK 0 STREAMS k k 0 0: `stream_its` keeps one iterator for the two elements of the
list, and the reply leaves the other one there. -/
theorem not_matches : ¬ ∀ s : Readers, machine.Reachable Accepted s → s.Matches := by
  intro h
  have hrun : (machine.run (fun _ a => a = twice) machine.init [twice]).map (fun s =>
      s.storage.handles.map fun w => (w.id, (s.storage.waitList (ascii "k")).count w.id,
        w.streamIts.length)) = some [(0, 2, 1)] := by
    decide +kernel
  obtain ⟨s, hreached, hs⟩ := Option.map_eq_some_iff.mp hrun
  have haccepted : machine.Reachable Accepted s := by
    refine (Machine.Reachable.run .init hreached).mono ?_
    rintro _ _ rfl
    exact ⟨.array (([ascii "XREAD", ascii "BLOCK", ascii "0", ascii "STREAMS", ascii "k",
      ascii "k", ascii "0", ascii "0"]).map .bulkString), by decide⟩
  obtain ⟨w, hw, heq⟩ := List.mem_map.mp (hs ▸ List.mem_singleton.mpr rfl)
  obtain ⟨hid, hlist, hits⟩ : w.id = 0 ∧ (s.storage.waitList (ascii "k")).count w.id = 2 ∧
      w.streamIts.length = 1 := by
    simpa using heq
  have hcount := (h s haccepted).lists.count w hw (ascii "k")
  have hle := w.streamIts.countP_le_length (p := fun it =>
    decide (it.1 = ascii "k" ∧ ⟨it.2, ascii "k", w.id⟩ ∈ s.storage.nodes))
  omega

end Readers

end BuildYourOwnRedis
