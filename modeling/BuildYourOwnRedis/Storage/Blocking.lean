/-
  Storage/Blocking.lean --- every reader that blocks is woken, once, with the new entries.

  `Readers` is a storage with any number of readers.  What the storage does not keep is
  recorded beside it: the starting ids of each reader, the reader of each wait handle,
  the answers, and for each job the readers that were in the wait list when it was posted.
  The step function only looks at the storage.
-/
import BuildYourOwnRedis.Foundation.Transition
import BuildYourOwnRedis.Storage.WaitLists

set_option autoImplicit false

namespace BuildYourOwnRedis

open Foundation

/-- The contents of a storage. -/
abbrev Values : Type := AList fun _ : Bytes => Value

/-! ## What a read is for -/

namespace Values

/-- The entries of the stream at a key; there are none where nothing is. -/
def entriesAt (values : Values) (key : Bytes) : StreamRange :=
  match values.lookup key with
  | some (.stream stream) => stream.data.entries
  | _ => []

/-- The id that a reader starts behind: `$` is the last id of the stream, or 0-0. -/
def startingId (values : Values) (key : Bytes) (id : ReadStreamId) : StreamId :=
  if id.isNextExpected then ((values.entriesAt key).getLast?.map Prod.fst).getD {}
  else id.toStreamId

/-- The starting ids of a request. -/
def startingIds (values : Values) (request : StreamsReadRequest) : List (Bytes × StreamId) :=
  request.map fun part => (part.1, values.startingId part.1 part.2)

/-- The request of a reader that blocked. -/
def resolved (starts : List (Bytes × StreamId)) : StreamsReadRequest :=
  starts.map fun start => (start.1, { toStreamId := start.2 })

/-- The entries behind the starting ids, for each key that has some, in the order of the
request. -/
def newEntries (values : Values) (starts : List (Bytes × StreamId)) : StreamsReadResult :=
  starts.filterMap fun start =>
    let entries := (values.entriesAt start.1).filter fun entry => start.2 < entry.1
    if entries = [] then none else some (start.1, entries)

/-- No key holds a string.  XADD and XREAD keep this, and under it no cast of a reader is
undefined. -/
def AllStreams (values : Values) : Prop :=
  ∀ key value, values.lookup key = some value → ∃ stream, value = .stream stream

theorem AllStreams.insert {values : Values} (h : values.AllStreams) (key : Bytes)
    (stream : StreamValue) : AllStreams (AList.insert key (.stream stream) values) := by
  intro key' value hlookup
  by_cases heq : key' = key
  · subst heq
    rw [AList.lookup_insert] at hlookup
    exact ⟨stream, (Option.some.inj hlookup).symm⟩
  · rw [AList.lookup_insert_ne heq] at hlookup
    exact h key' value hlookup

theorem pairwise_entriesAt (values : Values) (key : Bytes) :
    (values.entriesAt key).Pairwise fun x y => x.1 < y.1 := by
  unfold entriesAt
  split
  · next stream _ => exact stream.data.sorted
  · exact .nil

/-- What is read is in ascending order. -/
theorem pairwise_newEntries {values : Values} {starts : List (Bytes × StreamId)}
    {part : Bytes × StreamRange} (h : part ∈ values.newEntries starts) :
    part.2.Pairwise fun x y => x.1 < y.1 := by
  obtain ⟨start, -, hpart⟩ := List.mem_filterMap.mp h
  simp only at hpart
  split at hpart
  · cases hpart
  · obtain rfl := Option.some.inj hpart
    exact (values.pairwise_entriesAt start.1).filter _

/-- The first of the starting ids adds a part to the result, unless nothing is behind it. -/
theorem newEntries_cons {values : Values} {key : Bytes} {id : StreamId} {entries : StreamRange}
    (h : entries = (values.entriesAt key).filter fun entry => id < entry.1)
    (starts : List (Bytes × StreamId)) :
    values.newEntries ((key, id) :: starts) =
      if entries = [] then values.newEntries starts
      else (key, entries) :: values.newEntries starts := by
  unfold newEntries
  rw [List.filterMap_cons]
  simp only [← h]
  by_cases hempty : entries = []
  · simp only [if_pos hempty]
  · simp only [if_neg hempty]

/-- Nothing is behind the last entry. -/
theorem filter_last (values : Values) (key : Bytes) :
    ((values.entriesAt key).filter fun entry =>
      ((values.entriesAt key).getLast?.map Prod.fst).getD {} < entry.1) = [] := by
  have hsorted := values.pairwise_entriesAt key
  rw [List.filter_eq_nil_iff]
  intro entry hentry
  rcases List.eq_nil_or_concat (values.entriesAt key) with hnil | ⟨front, last, hconcat⟩
  · rw [hnil] at hentry
    cases hentry
  · rw [List.concat_eq_append] at hconcat
    rw [hconcat] at hentry hsorted ⊢
    simp only [List.getLast?_concat, Option.map_some, Option.getD_some, decide_eq_true_eq,
      not_lt]
    rcases List.mem_append.mp hentry with hentry | hentry
    · exact le_of_lt ((List.pairwise_append.mp hsorted).2.2 entry hentry last (by simp))
    · obtain rfl := List.mem_singleton.mp hentry
      exact le_rfl

end Values

theorem StreamValue.lastId_eq (stream : StreamValue) :
    stream.lastId = (stream.data.entries.getLast?.map Prod.fst).getD {} := by
  unfold lastId SortedMap.last?
  cases stream.data.entries.getLast? <;> rfl

/-- A key that holds a stream or nothing is read as the entries behind its starting id. -/
theorem StreamValue.xread_entriesAt {values : Values} {key : Bytes} {stream : StreamValue}
    (h : values.lookup key = some (.stream stream)) (id : ReadStreamId) :
    stream.xread id = (values.entriesAt key).filter
      fun entry => values.startingId key id < entry.1 := by
  have hentries : values.entriesAt key = stream.data.entries := by
    simp [Values.entriesAt, h]
  cases hdollar : id.isNextExpected with
  | true =>
      have hread : stream.xread id = [] := by simp [xread, hdollar]
      rw [hread]
      simpa [Values.startingId, hdollar] using (values.filter_last key).symm
  | false => simp [Values.startingId, hdollar, hentries, xread_eq_filter hdollar]

namespace Storage

variable {κ : Type}

/-- Reading where no key holds a string. -/
theorem readStreams_eq {s : Storage κ} (h : Values.AllStreams s.values)
    (request : StreamsReadRequest) :
    s.readStreams request = some (Values.newEntries s.values
      (Values.startingIds s.values request)) := by
  induction request with
  | nil => rfl
  | cons part request ih =>
      obtain ⟨key, id⟩ := part
      have hstarts : Values.startingIds s.values ((key, id) :: request) =
          (key, Values.startingId s.values key id) :: Values.startingIds s.values request := rfl
      rw [hstarts, readStreams]
      cases hlookup : s.values.lookup key with
      | none =>
          have hnone : Values.entriesAt s.values key = [] := by
            simp [Values.entriesAt, hlookup]
          have hempty : [] = (Values.entriesAt s.values key).filter
              fun entry => Values.startingId s.values key id < entry.1 := by
            rw [hnone, List.filter_nil]
          rw [Values.newEntries_cons hempty, if_pos rfl]
          exact ih
      | some value =>
          obtain ⟨stream, rfl⟩ := h key value hlookup
          rw [Values.newEntries_cons (StreamValue.xread_entriesAt hlookup id)]
          simp only [Value.asStream?, ih, Option.bind_eq_bind, Option.bind_some]
          split
          · rfl
          · rfl

/-- `$` is replaced by the last id. -/
theorem resolve_eq {s : Storage κ} (h : Values.AllStreams s.values)
    (request : StreamsReadRequest) :
    s.resolve request = some (Values.resolved (Values.startingIds s.values request)) := by
  induction request with
  | nil => rfl
  | cons part request ih =>
      obtain ⟨key, id⟩ := part
      have hid : s.resolveId key id =
          some { toStreamId := Values.startingId s.values key id } := by
        cases hdollar : id.isNextExpected with
        | false =>
            simp only [resolveId, Values.startingId, hdollar]
            obtain ⟨id, isNextExpected⟩ := id
            simp_all
        | true =>
            simp only [resolveId, Values.startingId, hdollar, if_true, Values.entriesAt]
            cases hlookup : s.values.lookup key with
            | none => rfl
            | some value =>
                obtain ⟨stream, rfl⟩ := h key value hlookup
                simp [Value.asStream?, ReadStreamId.fromString_toString,
                  StreamValue.lastId_eq, Except.toOption]
      simp [resolve, hid, ih, Values.startingIds, Values.resolved]

end Storage

/-! ## Readers -/

/-- An answer, with what the storage held when it was given: what is exact at that time may
have grown when the answer is looked at. -/
structure Answer where
  reader : Nat
  values : Values
  result : StreamsReadResult

/-- A storage and the readers that came.  Readers are numbered in the order they came, and the
callback of a reader is its number.  What is recorded is read by no step. -/
structure Readers where
  storage : Storage Nat := {}
  /-- The starting ids of each reader. -/
  starts : List (List (Bytes × StreamId)) := []
  /-- The reader of each wait handle. -/
  blocked : List Nat := []
  answers : List Answer := []
  /-- For each job in the queue, the readers in the wait list when it was posted. -/
  posted : List (List Nat) := []
  /-- The same for each job that has run. -/
  ran : List (List Nat) := []

/-- What can happen: XADD, XREAD, the next job, a timeout. -/
inductive ReadersAction where
  | xadd (now : Timepoint) (key : Bytes) (id : InputStreamId) (values : StreamPartValue)
  | xread (request : StreamsReadRequest) (blockMs : Option UInt64)
  | runJob
  | fire (i : Nat)
  deriving DecidableEq

namespace Readers

/-- The readers in the wait list of a key. -/
def waitList (key : Bytes) (s : Readers) : List Nat :=
  (s.storage.waitList key).filterMap fun i => s.blocked[i]?

/-- The readers that have been answered, in that order. -/
def answered (s : Readers) : List Nat := s.answers.map Answer.reader

/-- The storage after an operation that called callbacks. -/
def record (s : Readers) (storage : Storage Nat) (calls : List (Storage.Call Nat)) : Readers :=
  { s with
    storage := storage
    answers := s.answers ++ calls.map fun call => ⟨call.1, storage.values, call.2⟩ }

/-- The same after a read of a reader that comes now. -/
def come (s : Readers) (request : StreamsReadRequest) (storage : Storage Nat)
    (calls : List (Storage.Call Nat)) : Readers :=
  { s.record storage calls with
    starts := s.starts ++ [Values.startingIds s.storage.values request]
    blocked := s.blocked ++
      List.replicate (storage.nextHandle - s.storage.nextHandle) s.starts.length }

/-- One step. -/
def step (s : Readers) : ReadersAction → Option Readers
  | .xadd now key id values =>
      match s.storage.xadd now key id values with
      | (.error _, storage) => some { s with storage := storage }
      | (.ok _, storage) =>
          some { s with storage := storage, posted := s.posted ++ [s.waitList key] }
  | .xread request blockMs => do
      let (storage, calls) ← s.storage.xread request blockMs s.starts.length
      return s.come request storage calls
  | .runJob => do
      let (storage, calls) ← s.storage.runJob
      let s' := s.record storage calls
      return { s' with ran := s.ran ++ s.posted.take 1, posted := s.posted.drop 1 }
  | .fire i => do
      let (storage, calls) ← s.storage.fire i
      return s.record storage calls

/-- Readers come and go. -/
def machine : Machine Readers ReadersAction where
  init := {}
  step := step

/-- Each request names pairwise distinct keys. -/
def DistinctKeys (_ : Readers) : ReadersAction → Prop
  | .xread request _ => (request.map Prod.fst).Nodup
  | _ => True

instance (s : Readers) (a : ReadersAction) : Decidable (s.DistinctKeys a) := by
  unfold DistinctKeys
  split <;> infer_instance

/-! ## What a step does -/

theorem xread_of_step {s s' : Readers} {request : StreamsReadRequest} {blockMs : Option UInt64}
    (h : s.step (.xread request blockMs) = some s') :
    ∃ storage calls, s.storage.xread request blockMs s.starts.length = some (storage, calls) ∧
      s' = s.come request storage calls := by
  simp only [step, Option.bind_eq_bind, Option.pure_def, Option.bind_eq_some_iff,
    Option.some.injEq, Prod.exists] at h
  obtain ⟨storage, calls, hread, rfl⟩ := h
  exact ⟨storage, calls, hread, rfl⟩

theorem runJob_of_step {s s' : Readers} (h : s.step .runJob = some s') :
    ∃ storage calls, s.storage.runJob = some (storage, calls) ∧
      s' = { s.record storage calls with
        ran := s.ran ++ s.posted.take 1, posted := s.posted.drop 1 } := by
  simp only [step, Option.bind_eq_bind, Option.pure_def, Option.bind_eq_some_iff,
    Option.some.injEq, Prod.exists] at h
  obtain ⟨storage, calls, hrun, rfl⟩ := h
  exact ⟨storage, calls, hrun, rfl⟩

theorem fire_of_step {s s' : Readers} {i : Nat} (h : s.step (.fire i) = some s') :
    ∃ storage calls, s.storage.fire i = some (storage, calls) ∧
      s' = s.record storage calls := by
  simp only [step, Option.bind_eq_bind, Option.pure_def, Option.bind_eq_some_iff,
    Option.some.injEq, Prod.exists] at h
  obtain ⟨storage, calls, hfire, rfl⟩ := h
  exact ⟨storage, calls, hfire, rfl⟩

/-! ## The invariant -/

/-- A handle that waits: whose it is, and where its reader started.  Its request is resolved,
so its reader is still owed exactly the entries behind these ids. -/
structure Pending (s : Readers) (h : StorageWait Nat) (reader : Nat) : Prop where
  callback : h.callback = some reader
  owner : s.blocked[h.id]? = some reader
  request : ∃ starts, s.starts[reader]? = some starts ∧ h.request = Values.resolved starts
  unanswered : reader ∉ s.answered

/-- The invariant of every run: wait lists and handles fit, every handle belongs to a reader
that is not answered yet, and every answer given was exact when it was given. -/
structure Inv (s : Readers) : Prop where
  linked : s.storage.Linked
  streams : Values.AllStreams s.storage.values
  handles : s.blocked.length = s.storage.nextHandle
  distinct : s.blocked.Nodup
  came : ∀ reader ∈ s.blocked, reader < s.starts.length
  pending : ∀ h ∈ s.storage.handles, ∃ reader, s.Pending h reader
  once : s.answered.Nodup
  exact : ∀ a ∈ s.answers, ∃ starts, s.starts[a.reader]? = some starts ∧
    a.result = Values.newEntries a.values starts
  queue : s.posted = s.storage.onetimeJobs.map fun job => job.filterMap fun i => s.blocked[i]?
  queued : ∀ job ∈ s.storage.onetimeJobs, ∀ i ∈ job, i ∈ s.storage.handles.map StorageWait.id ∨
    ∃ reader ∈ s.answered, s.blocked[i]? = some reader
  done : ∀ readers ∈ s.ran, ∀ reader ∈ readers, reader ∈ s.answered

theorem inv_init : Inv machine.init := by
  refine ⟨⟨⟨?_, ?_, ?_⟩, ?_, ?_, ?_, ?_, ?_⟩, ?_, ?_, ?_, ?_, ?_, ?_, ?_, ?_, ?_, ?_⟩
  all_goals simp [machine, answered, Values.AllStreams]

/-! ## Replies keep it -/

/-- The request of a handle that waits is read as what its reader is to be told. -/
theorem Pending.readStreams_eq {s : Readers} {h : StorageWait Nat} {reader : Nat}
    (hpending : s.Pending h reader) (hstreams : Values.AllStreams s.storage.values) :
    ∃ starts, s.starts[reader]? = some starts ∧
      s.storage.readStreams h.request = some (Values.newEntries s.storage.values starts) := by
  obtain ⟨starts, hstarts, hrequest⟩ := hpending.request
  refine ⟨starts, hstarts, ?_⟩
  have hids : Values.startingIds s.storage.values h.request = starts := by
    rw [hrequest, Values.startingIds, Values.resolved, List.map_map]
    exact (List.map_congr_left fun start _ => rfl).trans (List.map_id' starts)
  rw [Storage.readStreams_eq hstreams, hids]

/-- A reader has one handle. -/
theorem Inv.reader_inj {s : Readers} (hs : s.Inv) {i j reader : Nat}
    (hi : s.blocked[i]? = some reader) (hj : s.blocked[j]? = some reader) : i = j := by
  obtain ⟨hilt, hi⟩ := List.getElem?_eq_some_iff.mp hi
  obtain ⟨hjlt, hj⟩ := List.getElem?_eq_some_iff.mp hj
  exact (List.Nodup.getElem_inj_iff hs.distinct).mp (hi.trans hj.symm)

theorem Inv.answer {s : Readers} (hs : s.Inv) {h : StorageWait Nat} {k : Nat}
    {result : StreamsReadResult} (hmem : h ∈ s.storage.handles)
    (hcallback : h.callback = some k)
    (hresult : s.storage.readStreams h.request = some result) :
    (s.record (s.storage.unblock h) [(k, result)]).Inv := by
  obtain ⟨reader, hpending⟩ := hs.pending h hmem
  obtain rfl : reader = k := by
    have hcall := hpending.callback
    rw [hcallback] at hcall
    exact (Option.some.inj hcall).symm
  have hhandles : (s.storage.unblock h).handles =
      s.storage.handles.filter fun x => decide (x.id ≠ h.id) := by
    rw [hs.linked.unblock_eq hmem]
  have hanswered : (s.record (s.storage.unblock h) [(reader, result)]).answered =
      s.answered ++ [reader] := by
    simp [answered, record]
  refine ⟨hs.linked.unblock hmem, ?_, ?_, hs.distinct, hs.came, ?_, ?_, ?_, ?_, ?_, ?_⟩
  · simpa [record] using hs.streams
  · simpa [record] using hs.handles
  · intro x hx
    simp only [record] at hx
    rw [hhandles] at hx
    obtain ⟨hx, hother⟩ := List.mem_filter.mp hx
    obtain ⟨other, hpending'⟩ := hs.pending x hx
    refine ⟨other, hpending'.callback, hpending'.owner, hpending'.request, ?_⟩
    rw [hanswered, List.mem_append]
    rintro (hold | hnew)
    · exact hpending'.unanswered hold
    · obtain rfl := List.mem_singleton.mp hnew
      exact (of_decide_eq_true hother) (hs.reader_inj hpending'.owner hpending.owner)
  · rw [hanswered]
    exact List.nodup_append.mpr ⟨hs.once, by simp, fun x hx y hy heq =>
      hpending.unanswered (List.mem_singleton.mp hy ▸ heq ▸ hx)⟩
  · intro a ha
    rcases List.mem_append.mp ha with ha | ha
    · exact hs.exact a ha
    · obtain rfl := List.mem_singleton.mp ha
      obtain ⟨starts, hstarts, hread⟩ := hpending.readStreams_eq hs.streams
      rw [hread] at hresult
      refine ⟨starts, hstarts, ?_⟩
      simpa using (Option.some.inj hresult).symm
  · simpa [record] using hs.queue
  · intro job hjob i hi
    simp only [record, Storage.unblock_onetimeJobs] at hjob
    rcases hs.queued job hjob i hi with halive | ⟨other, hother, hblocked⟩
    · obtain ⟨w, hw, rfl⟩ := List.mem_map.mp halive
      by_cases hid : w.id = h.id
      · exact Or.inr ⟨reader, by simp [hanswered], hid ▸ hpending.owner⟩
      · refine Or.inl (List.mem_map_of_mem ?_)
        simp only [record]
        rw [hhandles]
        exact List.mem_filter.mpr ⟨hw, decide_eq_true hid⟩
    · exact Or.inr ⟨other, by simp [hanswered, hother], hblocked⟩
  · intro readers hreaders other hother
    rw [hanswered]
    exact List.mem_append_left _ (hs.done readers hreaders other hother)

theorem Inv.replies {s : Readers} (hs : s.Inv) {storage : Storage Nat}
    {calls : List (Storage.Call Nat)} (h : s.storage.Replies calls storage) :
    (s.record storage calls).Inv := by
  generalize hbefore : s.storage = before at h
  induction h generalizing s with
  | nil before =>
      subst hbefore
      simpa [record] using hs
  | @cons before storage w k result calls hmem hcallback hresult rest ih =>
      subst hbefore
      have hstep := ih (hs.answer hmem hcallback hresult) rfl
      have hvalues := rest.values_eq
      have hrecord : (s.record (s.storage.unblock w) [(k, result)]).record storage calls =
          s.record storage ((k, result) :: calls) := by
        simp [record, hvalues]
      rwa [hrecord] at hstep

/-! ## Every step keeps it -/

theorem Inv.xadd {s s' : Readers} (hs : s.Inv) {now : Timepoint} {key : Bytes}
    {id : InputStreamId} {values : StreamPartValue}
    (h : s.step (.xadd now key id values) = some s') : s'.Inv := by
  simp only [step] at h
  rcases s.storage.xadd_cases now key id values with ⟨e, hadd⟩ | ⟨added, stream, hadd⟩
  · rw [hadd] at h
    exact Option.some.inj h ▸ hs
  · rw [hadd] at h
    obtain rfl := Option.some.inj h
    refine ⟨hs.linked.congr rfl rfl rfl rfl, ?_, hs.handles, hs.distinct, hs.came, ?_,
      hs.once, hs.exact, ?_, ?_, hs.done⟩
    · exact hs.streams.insert key stream
    · intro x hx
      obtain ⟨reader, hpending⟩ := hs.pending x hx
      exact ⟨reader, hpending.callback, hpending.owner, hpending.request,
        hpending.unanswered⟩
    · simp only [hs.queue, List.map_append, List.map_cons, List.map_nil, waitList]
    · intro job hjob i hi
      rcases List.mem_append.mp hjob with hjob | hjob
      · exact hs.queued job hjob i hi
      · obtain rfl := List.mem_singleton.mp hjob
        obtain ⟨n, hn, rfl⟩ := List.mem_map.mp hi
        obtain ⟨w, hw, hid⟩ := hs.linked.owned n (List.mem_filter.mp hn).1
        exact Or.inl (hid ▸ List.mem_map_of_mem hw)

/-- A reader that comes has no part in what others wait for. -/
theorem Pending.come {s : Readers} {h : StorageWait Nat} {reader : Nat}
    (hpending : s.Pending h reader) {s' : Readers}
    (hstarts : ∃ new, s'.starts = s.starts ++ new)
    (hblocked : ∃ new, s'.blocked = s.blocked ++ new) (hanswered : reader ∉ s'.answered) :
    s'.Pending h reader := by
  obtain ⟨new, hstarts⟩ := hstarts
  obtain ⟨new', hblocked⟩ := hblocked
  obtain ⟨starts, hget, hrequest⟩ := hpending.request
  refine ⟨hpending.callback, ?_, ⟨starts, ?_, hrequest⟩, hanswered⟩
  · rw [hblocked, List.getElem?_append_left (List.getElem?_eq_some_iff.mp hpending.owner).1]
    exact hpending.owner
  · rw [hstarts, List.getElem?_append_left (List.getElem?_eq_some_iff.mp hget).1]
    exact hget

/-- Who was answered came before. -/
theorem Inv.lt_of_answered {s : Readers} (hs : s.Inv) {reader : Nat}
    (h : reader ∈ s.answered) : reader < s.starts.length := by
  obtain ⟨a, ha, rfl⟩ := List.mem_map.mp h
  obtain ⟨starts, hstarts, -⟩ := hs.exact a ha
  exact (List.getElem?_eq_some_iff.mp hstarts).1

theorem Inv.exact_come {s : Readers} (hs : s.Inv) (new : List (List (Bytes × StreamId))) :
    ∀ a ∈ s.answers, ∃ starts, (s.starts ++ new)[a.reader]? = some starts ∧
      a.result = Values.newEntries a.values starts := by
  intro a ha
  obtain ⟨starts, hstarts, hresult⟩ := hs.exact a ha
  refine ⟨starts, ?_, hresult⟩
  rw [List.getElem?_append_left (List.getElem?_eq_some_iff.mp hstarts).1]
  exact hstarts

/-- A reader that is answered at once. -/
theorem Inv.come_answered {s : Readers} (hs : s.Inv) (request : StreamsReadRequest) :
    (s.come request s.storage [(s.starts.length, Values.newEntries s.storage.values
      (Values.startingIds s.storage.values request))]).Inv := by
  have hfresh : s.starts.length ∉ s.answered := fun hmem =>
    Nat.lt_irrefl _ (hs.lt_of_answered hmem)
  generalize hafter : s.come request s.storage [(s.starts.length, Values.newEntries
    s.storage.values (Values.startingIds s.storage.values request))] = s'
  have hblocked : s'.blocked = s.blocked := by simp [← hafter, come]
  have hstarts : s'.starts = s.starts ++ [Values.startingIds s.storage.values request] := by
    simp [← hafter, come]
  have hstorage : s'.storage = s.storage := by simp [← hafter, come, record]
  have hanswered : s'.answered = s.answered ++ [s.starts.length] := by
    simp [← hafter, come, record, answered]
  refine ⟨?_, ?_, ?_, ?_, ?_, ?_, ?_, ?_, ?_, ?_, ?_⟩
  · exact hstorage ▸ hs.linked
  · exact hstorage ▸ hs.streams
  · rw [hblocked, hstorage]
    exact hs.handles
  · exact hblocked ▸ hs.distinct
  · intro reader hreader
    rw [hblocked] at hreader
    rw [hstarts, List.length_append]
    exact Nat.lt_add_right _ (hs.came reader hreader)
  · intro x hx
    rw [hstorage] at hx
    obtain ⟨reader, hpending⟩ := hs.pending x hx
    refine ⟨reader, hpending.come ⟨_, hstarts⟩ ⟨[], by simp [hblocked]⟩ ?_⟩
    have hlt := hs.came reader (List.mem_of_getElem? hpending.owner)
    rw [hanswered, List.mem_append, List.mem_singleton, not_or]
    exact ⟨hpending.unanswered, Nat.ne_of_lt hlt⟩
  · rw [hanswered]
    exact List.nodup_append.mpr ⟨hs.once, by simp, fun x hx y hy heq =>
      hfresh (List.mem_singleton.mp hy ▸ heq ▸ hx)⟩
  · intro a ha
    rw [hstarts]
    rw [← hafter] at ha
    rcases List.mem_append.mp ha with ha | ha
    · exact hs.exact_come _ a ha
    · obtain rfl := List.mem_singleton.mp ha
      exact ⟨Values.startingIds s.storage.values request, by simp, rfl⟩
  · rw [hblocked, hstorage, ← hs.queue, ← hafter]
    rfl
  · rw [hstorage, hblocked, hanswered]
    intro job hjob i hi
    rcases hs.queued job hjob i hi with halive | ⟨reader, hreader, hblocked⟩
    · exact Or.inl halive
    · exact Or.inr ⟨reader, List.mem_append_left _ hreader, hblocked⟩
  · intro readers hreaders reader hreader
    rw [← hafter] at hreaders
    rw [hanswered]
    exact List.mem_append_left _ (hs.done readers hreaders reader hreader)

/-- The handles of the jobs in the queue have readers. -/
theorem Inv.lt_of_queued {s : Readers} (hs : s.Inv) {job : List Nat}
    (hjob : job ∈ s.storage.onetimeJobs) {i : Nat} (hi : i ∈ job) : i < s.blocked.length := by
  rcases hs.queued job hjob i hi with halive | ⟨reader, -, hblocked⟩
  · obtain ⟨w, hw, rfl⟩ := List.mem_map.mp halive
    exact hs.handles ▸ hs.linked.below w hw
  · exact (List.getElem?_eq_some_iff.mp hblocked).1

/-- A reader that blocks. -/
theorem Inv.come_blocked {s : Readers} (hs : s.Inv) {request : StreamsReadRequest}
    (hkeys : (request.map Prod.fst).Nodup) {ms : UInt64} {storage : Storage Nat}
    (hblock : s.storage.block request ms s.starts.length = some storage) :
    (s.come request storage []).Inv := by
  obtain ⟨resolved, hresolve, hhandles, -, hnext, -, hvalues, hjobs⟩ :=
    hs.linked.toNumbered.block hblock
  rw [Storage.resolve_eq hs.streams] at hresolve
  obtain rfl := Option.some.inj hresolve
  have hold : ∀ x ∈ storage.handles, x ∈ s.storage.handles ∨
      x = s.storage.blocked request
        (Values.resolved (Values.startingIds s.storage.values request)) s.starts.length := by
    intro x hx
    rcases hhandles with ⟨-, hhandles⟩ | ⟨-, hhandles⟩
    · rw [hhandles] at hx
      simpa using hx
    · exact Or.inl (hhandles ▸ hx)
  have hkept : s.storage.handles ⊆ storage.handles := by
    rcases hhandles with ⟨-, hhandles⟩ | ⟨-, hhandles⟩ <;> simp [hhandles]
  generalize hafter : s.come request storage [] = s'
  have hblocked : s'.blocked = s.blocked ++ [s.starts.length] := by
    simp [← hafter, come, hnext]
  have hstarts : s'.starts = s.starts ++ [Values.startingIds s.storage.values request] := by
    simp [← hafter, come]
  have hstorage : s'.storage = storage := by simp [← hafter, come, record]
  have hanswers : s'.answers = s.answers := by simp [← hafter, come, record]
  have hanswered : s'.answered = s.answered := by simp [answered, hanswers]
  refine ⟨?_, ?_, ?_, ?_, ?_, ?_, ?_, ?_, ?_, ?_, ?_⟩
  · exact hstorage ▸ hs.linked.block hkeys hblock
  · rw [hstorage, hvalues]
    exact hs.streams
  · rw [hstorage, hblocked, hnext, List.length_append, hs.handles]
    rfl
  · rw [hblocked]
    exact List.nodup_append.mpr ⟨hs.distinct, by simp, fun x hx y hy heq =>
      Nat.lt_irrefl _ (hs.came _ (List.mem_singleton.mp hy ▸ heq ▸ hx))⟩
  · intro reader hreader
    rw [hblocked] at hreader
    rw [hstarts, List.length_append]
    rcases List.mem_append.mp hreader with hreader | hreader
    · exact Nat.lt_add_right _ (hs.came reader hreader)
    · obtain rfl := List.mem_singleton.mp hreader
      exact Nat.lt_add_one _
  · intro x hx
    rw [hstorage] at hx
    rcases hold x hx with hx | rfl
    · obtain ⟨reader, hpending⟩ := hs.pending x hx
      exact ⟨reader, hpending.come ⟨_, hstarts⟩ ⟨_, hblocked⟩
        (hanswered ▸ hpending.unanswered)⟩
    · refine ⟨s.starts.length, rfl, ?_, ⟨_, ?_, rfl⟩, ?_⟩
      · simp [hblocked, Storage.blocked, ← hs.handles]
      · simp [hstarts]
      · rw [hanswered]
        exact fun hmem => Nat.lt_irrefl _ (hs.lt_of_answered hmem)
  · exact hanswered ▸ hs.once
  · rw [hanswers, hstarts]
    exact hs.exact_come _
  · rw [hstorage, hblocked, hjobs, show s'.posted = s.posted from hafter ▸ rfl, hs.queue]
    refine List.map_congr_left fun job hmem => List.filterMap_congr fun i hi => ?_
    exact (List.getElem?_append_left (hs.lt_of_queued hmem hi)).symm
  · rw [hstorage, hanswered, hblocked, hjobs]
    intro job hmem i hi
    rcases hs.queued job hmem i hi with halive | ⟨reader, hreader, howner⟩
    · obtain ⟨w, hw, rfl⟩ := List.mem_map.mp halive
      exact Or.inl (List.mem_map_of_mem (hkept hw))
    · refine Or.inr ⟨reader, hreader, ?_⟩
      rw [List.getElem?_append_left (hs.lt_of_queued hmem hi)]
      exact howner
  · rw [hanswered, show s'.ran = s.ran from hafter ▸ rfl]
    exact hs.done

theorem Inv.xread {s s' : Readers} (hs : s.Inv) {request : StreamsReadRequest}
    {blockMs : Option UInt64} (hkeys : blockMs.isSome → s.storage.readStreams request = some [] →
      (request.map Prod.fst).Nodup) (h : s.step (.xread request blockMs) = some s') : s'.Inv := by
  obtain ⟨storage, calls, hread, rfl⟩ := xread_of_step h
  obtain ⟨result, hresult, ⟨rfl, rfl⟩ | ⟨ms, rfl, rfl, rfl, hblock⟩⟩ :=
    Storage.xread_cases hread
  · rw [Storage.readStreams_eq hs.streams] at hresult
    obtain rfl := Option.some.inj hresult
    exact hs.come_answered request
  · exact hs.come_blocked (hkeys rfl hresult) hblock

/-- Every request can be read. -/
theorem Inv.readable {s : Readers} (hs : s.Inv) {storage : Storage Nat}
    (hvalues : storage.values = s.storage.values) :
    ∀ h ∈ storage.handles, (storage.readStreams h.request).isSome := by
  intro h hh
  rw [Storage.readStreams_congr hvalues, Storage.readStreams_eq hs.streams]
  rfl

/-- A job answers all its readers that were not answered before. -/
theorem Inv.runJob {s s' : Readers} (hs : s.Inv) (h : s.step .runJob = some s') : s'.Inv := by
  obtain ⟨storage, calls, hrun, rfl⟩ := runJob_of_step h
  obtain ⟨job, jobs, hjobs, hwake⟩ := Storage.runJob_replies hrun
  have hqueue := hs.queue
  rw [hjobs, List.map_cons] at hqueue
  let taken : Readers := { s with
    storage := { s.storage with onetimeJobs := jobs }
    posted := s.posted.drop 1 }
  have htaken : taken.Inv := by
    refine ⟨hs.linked.congr rfl rfl rfl rfl, hs.streams, hs.handles, hs.distinct, hs.came,
      ?_, hs.once, hs.exact, ?_, ?_, hs.done⟩
    · intro x hx
      obtain ⟨reader, hpending⟩ := hs.pending x hx
      exact ⟨reader, hpending.callback, hpending.owner, hpending.request,
        hpending.unanswered⟩
    · simp only [taken, hqueue, List.drop_one, List.tail_cons]
    · exact fun other hother => hs.queued other (hjobs ▸ List.mem_cons_of_mem _ hother)
  have hreplies := Storage.wake_replies hwake
  have hafter := htaken.replies hreplies
  have hcalled : ∀ w ∈ s.storage.handles, w.id ∈ job →
      ∃ k ∈ calls.map Prod.fst, w.callback = some k := by
    obtain ⟨storage', calls', hwake', hcalled⟩ :=
      htaken.linked.wake_reaches (htaken.readable rfl) job
    rw [show Storage.wake job taken.storage = some (storage, calls) from hwake] at hwake'
    obtain ⟨rfl, rfl⟩ := Prod.mk.inj (Option.some.inj hwake')
    exact hcalled
  have hanswered : ∀ reader, reader ∈ s.answered ∨ reader ∈ calls.map Prod.fst →
      reader ∈ (taken.record storage calls).answered := by
    intro reader hreader
    simpa [answered, record, taken, or_comm] using hreader
  refine ⟨hafter.linked, hafter.streams, hafter.handles, hafter.distinct, hafter.came, ?_,
    hafter.once, hafter.exact, hafter.queue, hafter.queued, ?_⟩
  · intro x hx
    obtain ⟨reader, hpending⟩ := hafter.pending x hx
    exact ⟨reader, hpending.callback, hpending.owner, hpending.request,
      hpending.unanswered⟩
  · intro readers hreaders reader hreader
    rcases List.mem_append.mp hreaders with hreaders | hreaders
    · exact hanswered reader (Or.inl (hs.done readers hreaders reader hreader))
    · rw [hqueue] at hreaders
      obtain rfl := List.mem_singleton.mp hreaders
      obtain ⟨i, hi, hblocked⟩ := List.mem_filterMap.mp hreader
      rcases hs.queued job (by simp [hjobs]) i hi with halive | ⟨other, hother, heq⟩
      · obtain ⟨w, hw, rfl⟩ := List.mem_map.mp halive
        obtain ⟨other, hpending⟩ := hs.pending w hw
        obtain ⟨k, hk, hcallback⟩ := hcalled w hw hi
        have howner := hpending.owner
        rw [hblocked] at howner
        obtain rfl := Option.some.inj howner
        rw [hpending.callback] at hcallback
        obtain rfl := Option.some.inj hcallback
        exact hanswered reader (Or.inr hk)
      · rw [hblocked] at heq
        obtain rfl := Option.some.inj heq
        exact hanswered reader (Or.inl hother)

theorem Inv.fire {s s' : Readers} (hs : s.Inv) {i : Nat} (h : s.step (.fire i) = some s') :
    s'.Inv := by
  obtain ⟨storage, calls, hfire, rfl⟩ := fire_of_step h
  obtain ⟨handles, hwake⟩ := Storage.fire_replies hfire
  let taken : Readers := { s with
    storage := { s.storage with timeoutJobs := s.storage.timeoutJobs.eraseIdx i } }
  have htaken : taken.Inv := by
    refine ⟨hs.linked.congr rfl rfl rfl rfl, hs.streams, hs.handles, hs.distinct, hs.came,
      ?_, hs.once, hs.exact, hs.queue, hs.queued, hs.done⟩
    intro x hx
    obtain ⟨reader, hpending⟩ := hs.pending x hx
    exact ⟨reader, hpending.callback, hpending.owner, hpending.request,
      hpending.unanswered⟩
  exact htaken.replies (Storage.wake_replies hwake)

theorem Inv.step {s s' : Readers} (hs : s.Inv) {a : ReadersAction} (ha : s.DistinctKeys a)
    (h : s.step a = some s') : s'.Inv := by
  cases a with
  | xadd now key id values => exact hs.xadd h
  | xread request blockMs => exact hs.xread (fun _ _ => ha) h
  | runJob => exact hs.runJob h
  | fire i => exact hs.fire h

/-- **The invariant of every run.**  It holds whatever the order in which entries are added,
readers come, jobs run and timers fire, if requests name pairwise distinct keys. -/
theorem inv_of_reachable {s : Readers} (h : machine.Reachable DistinctKeys s) : s.Inv :=
  h.invariant inv_init fun _ _ _ _ hs ha htaken => hs.step ha htaken

/-! ## No step is undefined -/

theorem Inv.xread_isSome {s : Readers} (hs : s.Inv) (request : StreamsReadRequest)
    (blockMs : Option UInt64) : (s.step (.xread request blockMs)).isSome := by
  have hread := Storage.readStreams_eq hs.streams request
  have hresolve := Storage.resolve_eq hs.streams request
  cases blockMs with
  | none => simp [Readers.step, Storage.xread, hread]
  | some ms =>
      simp only [Readers.step, Storage.xread, hread, Option.bind_eq_bind, Option.bind_some]
      split <;> simp [Storage.block, hresolve]

theorem Inv.runJob_isSome {s : Readers} (hs : s.Inv) (hjobs : s.storage.onetimeJobs ≠ []) :
    (s.step .runJob).isSome := by
  obtain ⟨job, jobs, hjobs⟩ := List.exists_cons_of_ne_nil hjobs
  have hlinked : Storage.Linked { s.storage with onetimeJobs := jobs } :=
    hs.linked.congr rfl rfl rfl rfl
  obtain ⟨storage, calls, hwake, -⟩ := hlinked.wake (hs.readable rfl) job
  simp [Readers.step, Storage.runJob, hjobs, hwake]

theorem Inv.fire_isSome {s : Readers} (hs : s.Inv) {i : Nat}
    (hi : i < s.storage.timeoutJobs.length) : (s.step (.fire i)).isSome := by
  have hlinked : Storage.Linked
      { s.storage with timeoutJobs := s.storage.timeoutJobs.eraseIdx i } :=
    hs.linked.congr rfl rfl rfl rfl
  simp only [Readers.step, Storage.fire, List.getElem?_eq_getElem hi]
  split
  · obtain ⟨storage, calls, hwake, -⟩ :=
      hlinked.wake (hs.readable rfl) [(s.storage.timeoutJobs[i]).owner]
    simp [hwake]
  · rfl

/-! ## Every reader is woken once -/

/-- Answers are only added, so what has been shown of an answer remains true. -/
theorem answers_step {s s' : Readers} {a : ReadersAction} (h : s.step a = some s') :
    ∃ new, s'.answers = s.answers ++ new := by
  cases a with
  | xadd now key id values =>
      simp only [step] at h
      split at h <;> exact ⟨[], by simp [← Option.some.inj h]⟩
  | xread request blockMs =>
      obtain ⟨storage, calls, -, rfl⟩ := xread_of_step h
      exact ⟨_, rfl⟩
  | runJob =>
      obtain ⟨storage, calls, -, rfl⟩ := runJob_of_step h
      exact ⟨_, rfl⟩
  | fire i =>
      obtain ⟨storage, calls, -, rfl⟩ := fire_of_step h
      exact ⟨_, rfl⟩

/-- A reader that was answered is in no wait list. -/
theorem Inv.notMem_waitList {s : Readers} (hs : s.Inv) {reader : Nat}
    (h : reader ∈ s.answered) (key : Bytes) : reader ∉ s.waitList key := by
  intro hmem
  obtain ⟨i, hi, hblocked⟩ := List.mem_filterMap.mp hmem
  obtain ⟨n, hn, rfl⟩ := List.mem_map.mp hi
  obtain ⟨w, hw, hid⟩ := hs.linked.owned n (List.mem_filter.mp hn).1
  obtain ⟨other, hpending⟩ := hs.pending w hw
  have howner := hpending.owner
  rw [hid, hblocked] at howner
  obtain rfl := Option.some.inj howner
  exact hpending.unanswered h

/-- A step answers nobody again. -/
theorem Inv.fresh_answers {s s' : Readers} (hs : s.Inv) {a : ReadersAction}
    (ha : s.DistinctKeys a) (h : s.step a = some s') :
    ∃ new, s'.answers = s.answers ++ new ∧ ∀ answer ∈ new, answer.reader ∉ s.answered := by
  obtain ⟨new, hnew⟩ := answers_step h
  refine ⟨new, hnew, fun answer hanswer hold => ?_⟩
  have honce := (hs.step ha h).once
  rw [answered, hnew, List.map_append, List.nodup_append] at honce
  exact honce.2.2 _ hold _ (List.mem_map_of_mem hanswer) rfl

/-- **Every reader is woken, once, with exactly the new entries.**  In every run: nobody
is answered twice; when the job of an XADD has run, the readers that were in the wait list
of its key are answered; an answer holds the entries behind the starting ids that were
there when it was given; who was answered is in no wait list, and no step answers them
again.  Every read, every posted job and every timeout can be carried out. -/
theorem wakes_once {s : Readers} (h : machine.Reachable DistinctKeys s) :
    s.answered.Nodup ∧
    (∀ readers ∈ s.ran, ∀ reader ∈ readers, reader ∈ s.answered) ∧
    (∀ answer ∈ s.answers, ∃ starts, s.starts[answer.reader]? = some starts ∧
      answer.result = answer.values.newEntries starts ∧
      ∀ part ∈ answer.result, part.2.Pairwise fun x y => x.1 < y.1) ∧
    (∀ reader ∈ s.answered, ∀ key, reader ∉ s.waitList key) ∧
    (∀ a s', s.DistinctKeys a → s.step a = some s' → ∃ new,
      s'.answers = s.answers ++ new ∧ ∀ answer ∈ new, answer.reader ∉ s.answered) ∧
    (∀ request blockMs, (s.step (.xread request blockMs)).isSome) ∧
    (s.storage.onetimeJobs ≠ [] → (s.step .runJob).isSome) ∧
    (∀ i < s.storage.timeoutJobs.length, (s.step (.fire i)).isSome) := by
  have hs := inv_of_reachable h
  refine ⟨hs.once, hs.done, ?_, fun reader => hs.notMem_waitList,
    fun a s' => hs.fresh_answers, hs.xread_isSome, hs.runJob_isSome,
    fun i => hs.fire_isSome⟩
  intro answer hanswer
  obtain ⟨starts, hstarts, hresult⟩ := hs.exact answer hanswer
  refine ⟨starts, hstarts, hresult, fun part hpart => ?_⟩
  rw [hresult] at hpart
  exact Values.pairwise_newEntries hpart

/-- Two readers block on a key, an entry comes, the timeout of the first fires, and the
job of the entry wakes the second. -/
def twoReaders : List ReadersAction :=
  [.xread [(ascii "k", { isNextExpected := true })] (some 5),
    .xread [(ascii "k", {}), (ascii "l", {})] (some 0),
    .xadd 0 (ascii "k") { ms := 1, id := 1 } [],
    .fire 0,
    .runJob]

theorem wakes_once_twoReaders :
    ∃ s, machine.run DistinctKeys machine.init twoReaders = some s ∧
      s.answered = [0, 1] ∧ s.answered.Nodup := by
  obtain ⟨s, hrun, hanswered⟩ := Option.map_eq_some_iff.mp
    (by decide +kernel : (machine.run DistinctKeys machine.init twoReaders).map answered =
      some [0, 1])
  exact ⟨s, hrun, hanswered, (wakes_once (Machine.Reachable.run .init hrun)).1⟩

end Readers

end BuildYourOwnRedis
