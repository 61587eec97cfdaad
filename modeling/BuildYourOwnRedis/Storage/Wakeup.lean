/-
  Storage/Wakeup.lean --- a reader that blocks is answered before its timeout only when
  there is something to tell.

  XADD wakes the readers that wait for its key whatever ids they asked for, and the filter
  by id comes later, inside the reply.  `Waking` is a storage with its readers, of which it
  is recorded when each timeout was given and which have fired.  No key of a request need
  be named only once: `Inv` asks less of the wait handles than the invariant of
  `Readers`, and keeps only what the callbacks that are still there say.
-/
import BuildYourOwnRedis.Storage.Blocking

set_option autoImplicit false

namespace BuildYourOwnRedis

open Foundation

theorem getElem?_of_extends {α : Type} {xs ys : List α} (h : xs <+: ys) {i : Nat} {a : α}
    (hget : xs[i]? = some a) : ys[i]? = some a := by
  obtain ⟨more, rfl⟩ := h
  rw [List.getElem?_append_left (List.getElem?_eq_some_iff.mp hget).1]
  exact hget

/-! ## What a result holds -/

/-- The last id of the stream at a key. -/
def Values.lastIdAt (values : Values) (key : Bytes) : StreamId :=
  match values.lookup key with
  | some (.stream stream) => stream.lastId
  | _ => {}

/-- A result holds an entry that is greater than the starting id given for its stream.  An
empty result holds none, and so is not what a reader with no timeout is to get. -/
def Satisfied (starts : List (Bytes × StreamId)) (result : StreamsReadResult) : Prop :=
  ∃ start ∈ starts, ∃ part ∈ result, part.1 = start.1 ∧ ∃ entry ∈ part.2, start.2 < entry.1

theorem Satisfied.ne_nil {starts : List (Bytes × StreamId)} {result : StreamsReadResult}
    (h : Satisfied starts result) : result ≠ [] := by
  obtain ⟨-, -, part, hpart, -⟩ := h
  exact List.ne_nil_of_mem hpart

namespace Values

theorem lastIdAt_eq (values : Values) (key : Bytes) :
    values.lastIdAt key = ((values.entriesAt key).getLast?.map Prod.fst).getD {} := by
  unfold lastIdAt entriesAt
  rcases values.lookup key with _ | _ | stream
  · rfl
  · rfl
  · exact stream.lastId_eq

/-- An id lies below an entry of the stream exactly if it lies below the last one, since the
entries are in the order of their ids. -/
theorem lt_lastIdAt_iff (values : Values) (key : Bytes) (id : StreamId) :
    id < values.lastIdAt key ↔ ∃ entry ∈ values.entriesAt key, id < entry.1 := by
  have hlast := values.filter_last key
  rw [← lastIdAt_eq, List.filter_eq_nil_iff] at hlast
  constructor
  · intro hlt
    rw [lastIdAt_eq] at hlt
    cases hentries : (values.entriesAt key).getLast? with
    | none =>
        rw [hentries] at hlt
        simp only [Option.map_none, Option.getD_none, StreamId.lt_iff_toNat] at hlt
        simp at hlt
    | some last =>
        rw [hentries] at hlt
        exact ⟨last, List.mem_of_getLast? hentries, hlt⟩
  · rintro ⟨entry, hentry, hlt⟩
    have hle := hlast entry hentry
    simp only [decide_eq_true_eq, not_lt] at hle
    exact lt_of_lt_of_le hlt hle

/-- A read finds something new exactly if a stream goes on behind its starting id.  So what a
reader will be told is known from the last ids alone. -/
theorem satisfied_newEntries_iff (values : Values) (starts : List (Bytes × StreamId)) :
    Satisfied starts (values.newEntries starts) ↔
      ∃ start ∈ starts, start.2 < values.lastIdAt start.1 := by
  constructor
  · rintro ⟨start, hstart, part, hpart, hkey, entry, hentry, hlt⟩
    obtain ⟨start', -, hnew⟩ := List.mem_filterMap.mp hpart
    simp only at hnew
    split at hnew
    · cases hnew
    · obtain rfl := Option.some.inj hnew
      simp only at hkey
      rw [hkey] at hentry
      refine ⟨start, hstart, (lt_lastIdAt_iff values start.1 start.2).mpr ⟨entry, ?_, hlt⟩⟩
      exact (List.mem_filter.mp hentry).1
  · rintro ⟨start, hstart, hlt⟩
    obtain ⟨entry, hentry, hlt⟩ := (lt_lastIdAt_iff values start.1 start.2).mp hlt
    have hmem : entry ∈ (values.entriesAt start.1).filter
        fun entry => decide (start.2 < entry.1) :=
      List.mem_filter.mpr ⟨hentry, decide_eq_true hlt⟩
    refine ⟨start, hstart, (start.1, _), ?_, rfl, entry, hmem, hlt⟩
    refine List.mem_filterMap.mpr ⟨start, hstart, ?_⟩
    exact if_neg (List.ne_nil_of_mem hmem)

/-- Whatever is read is new. -/
theorem satisfied_of_ne_nil {values : Values} {starts : List (Bytes × StreamId)}
    (h : values.newEntries starts ≠ []) : Satisfied starts (values.newEntries starts) := by
  obtain ⟨part, hpart⟩ := List.exists_mem_of_ne_nil _ h
  obtain ⟨start, hstart, hnew⟩ := List.mem_filterMap.mp hpart
  simp only at hnew
  split at hnew
  · cases hnew
  · next hne =>
      obtain rfl := Option.some.inj hnew
      obtain ⟨entry, hentry⟩ := List.exists_mem_of_ne_nil _ hne
      exact ⟨start, hstart, _, hpart, rfl, entry, hentry,
        of_decide_eq_true (List.mem_filter.mp hentry).2⟩

end Values

/-! ## The readers that a job calls -/

namespace Storage

variable {κ : Type}

/-- One of the streams that a reader waits for goes on behind its starting id, so that a reply
now would not be empty. -/
def Ready (h : StorageWait κ) (s : Storage κ) : Prop :=
  ∃ part ∈ h.request, part.2.toStreamId < Values.lastIdAt s.values part.1

instance (h : StorageWait κ) (s : Storage κ) : Decidable (s.Ready h) :=
  inferInstanceAs (Decidable (∃ part ∈ h.request, _))

/-- That is so for every reader that the job calls; a callback that was moved from ends
the job. -/
def WakesReady : List Nat → Storage κ → Prop
  | [], _ => True
  | handle :: handles, s =>
      match s.lock handle with
      | none => WakesReady handles s
      | some h => h.callback.isSome → s.Ready h ∧ WakesReady handles (s.unblock h)

instance decidableWakesReady : ∀ (handles : List Nat) (s : Storage κ),
    Decidable (WakesReady handles s)
  | [], _ => .isTrue trivial
  | handle :: handles, s =>
      match h : s.lock handle with
      | none =>
          have := decidableWakesReady handles s
          decidable_of_iff (WakesReady handles s) (by simp [WakesReady, h])
      | some w =>
          have := decidableWakesReady handles (s.unblock w)
          decidable_of_iff (w.callback.isSome → s.Ready w ∧ WakesReady handles (s.unblock w))
            (by simp [WakesReady, h])

/-- What can still be called behind a reply could be called before it. -/
theorem Numbered.mem_unblock {s : Storage κ} (hs : s.Numbered) {h x : StorageWait κ} {k : κ}
    (hmem : h ∈ s.handles) (hx : x ∈ (s.unblock h).handles) (hcallback : x.callback = some k) :
    x ∈ s.handles ∧ x.id ≠ h.id := by
  obtain ⟨before, after, hsplit, hafter⟩ := hs.handles_unblock hmem
  have hdistinct := hs.distinct
  rw [hsplit, List.map_append, List.map_cons, List.nodup_middle, List.nodup_cons] at hdistinct
  have hin : x ∈ before ++ after := by
    rcases hafter with hafter | hafter
    · rwa [hafter] at hx
    · rw [hafter] at hx
      rcases List.mem_append.mp hx with hx | hx
      · exact List.mem_append_left _ hx
      · rcases List.mem_cons.mp hx with rfl | hx
        · cases hcallback
        · exact List.mem_append_right _ hx
  refine ⟨?_, fun heq => hdistinct.1 ?_⟩
  · rw [hsplit]
    rcases List.mem_append.mp hin with hin | hin
    · exact List.mem_append_left _ hin
    · exact List.mem_append_right _ (List.mem_cons_of_mem _ hin)
  · rw [← heq, ← List.map_append]
    exact List.mem_map_of_mem hin

theorem Replies.mem_before {s s' : Storage κ} {calls : List (Call κ)}
    (h : Replies s calls s') (hs : s.Numbered) {x : StorageWait κ} {k : κ}
    (hx : x ∈ s'.handles) (hcallback : x.callback = some k) : x ∈ s.handles := by
  induction h with
  | nil => exact hx
  | cons hmem _ _ _ ih => exact (hs.mem_unblock hmem (ih (hs.unblock hmem) hx) hcallback).1

/-- Who is called had a handle, and is told what its request reads as. -/
theorem Replies.called {s s' : Storage κ} {calls : List (Call κ)}
    (h : Replies s calls s') (hs : s.Numbered) :
    ∀ call ∈ calls, ∃ w ∈ s.handles, w.callback = some call.1 ∧
      s.readStreams w.request = some call.2 := by
  induction h with
  | nil => intro call hcall; cases hcall
  | @cons s s' h k result calls hmem hcallback hresult _ ih =>
      intro call hcall
      rcases List.mem_cons.mp hcall with rfl | hcall
      · exact ⟨h, hmem, hcallback, hresult⟩
      · obtain ⟨w, hw, hwcall, hread⟩ := ih (hs.unblock hmem) call hcall
        refine ⟨w, (hs.mem_unblock hmem hw hwcall).1, hwcall, ?_⟩
        rwa [readStreams_congr (unblock_values h s)] at hread

theorem release_owners (handle : Nat) (s : Storage κ) :
    (s.release handle).timeoutJobs.map TimeoutJob.owner =
      s.timeoutJobs.map TimeoutJob.owner := by
  rw [release]
  split
  · rfl
  · simp only [invalidate, List.map_map]
    refine List.map_congr_left fun job _ => ?_
    simp only [Function.comp_apply]
    split <;> rfl

/-- Replies take the validity from timeouts and leave them where they are. -/
theorem Replies.timeouts {s s' : Storage κ} {calls : List (Call κ)} (h : Replies s calls s') :
    s'.timeoutJobs.map TimeoutJob.owner = s.timeoutJobs.map TimeoutJob.owner := by
  induction h with
  | nil => rfl
  | cons _ _ _ _ ih => rw [ih, unblock, release_owners]

/-- A reader that blocks brings at most one timeout, and none to wait for ever. -/
theorem block_timeouts {s s' : Storage κ} {request : StreamsReadRequest} {blockMs : UInt64}
    {k : κ} (h : s.block request blockMs k = some s') {job : TimeoutJob}
    (hjob : job ∈ s'.timeoutJobs) :
    job.owner ∈ s.timeoutJobs.map TimeoutJob.owner ∨
      job.owner = s.nextHandle ∧ blockMs ≠ 0 := by
  unfold block at h
  simp only [Option.bind_eq_bind, Option.pure_def, Option.bind_eq_some_iff,
    Option.some.injEq] at h
  obtain ⟨resolved, -, rfl⟩ := h
  have howner := List.mem_map_of_mem (f := TimeoutJob.owner) hjob
  rw [release_owners] at howner
  split at howner
  · next hpos =>
      rw [List.map_append, List.mem_append] at howner
      refine howner.imp id fun hnew => ⟨List.mem_singleton.mp hnew, ?_⟩
      exact fun hzero => absurd (hzero ▸ hpos) (by decide)
  · exact Or.inl howner

/-- Where a property of calls says that the reader is ready, it holds of all calls of a job
exactly if the job wakes only such. -/
theorem wake_calls_iff {P : Call κ → Prop} {handles : List Nat} {s s' : Storage κ}
    {calls : List (Call κ)} (hs : s.Numbered)
    (hP : ∀ w ∈ s.handles, ∀ k result, w.callback = some k →
      s.readStreams w.request = some result → (P (k, result) ↔ s.Ready w))
    (h : wake handles s = some (s', calls)) :
    (∀ call ∈ calls, P call) ↔ WakesReady handles s := by
  induction handles generalizing s calls with
  | nil =>
      obtain ⟨rfl, rfl⟩ := wake_nil h
      simp [WakesReady]
  | cons i handles ih =>
      rw [WakesReady]
      obtain ⟨hlock, hrest⟩ | ⟨w, hlock, hk, rfl, rfl⟩ |
        ⟨w, k, result, rest, hlock, hk, hread, hrest, rfl⟩ := wake_cons h
      · rw [hlock]
        exact ih hs hP hrest
      · rw [hlock]
        simp [hk]
      · have hmem := (mem_of_lock hlock).1
        have hafter := ih (hs.unblock hmem) (fun x hx k' result' hk' hread' => by
          rw [readStreams_congr (unblock_values w s)] at hread'
          have hbefore := (hs.mem_unblock hmem hx hk').1
          simpa [Ready] using hP x hbefore k' result' hk' hread') hrest
        rw [hlock]
        simp [hk, hP w hmem k result hk hread, ← hafter]

/-- A timeout calls the reader of its own handle only. -/
theorem wake_owner_called {owner : Nat} {s s' : Storage κ} {calls : List (Call κ)}
    (h : wake [owner] s = some (s', calls)) :
    ∀ call ∈ calls, ∃ w ∈ s.handles, w.id = owner ∧ w.callback = some call.1 := by
  intro call hcall
  obtain ⟨-, hrest⟩ | ⟨w, -, -, -, rfl⟩ | ⟨w, k, result, rest, hlock, hk, -, hrest, rfl⟩ :=
    wake_cons h
  · obtain ⟨-, rfl⟩ := wake_nil hrest
    cases hcall
  · cases hcall
  · obtain ⟨-, rfl⟩ := wake_nil hrest
    obtain ⟨hmem, hid⟩ := mem_of_lock hlock
    obtain rfl := List.mem_singleton.mp hcall
    exact ⟨w, hmem, hid, hk⟩

/-- The handle of a timeout that was called has no callback any more. -/
theorem wake_owner {owner : Nat} {s s' : Storage κ} {calls : List (Call κ)} (hs : s.Numbered)
    (h : wake [owner] s = some (s', calls)) {x : StorageWait κ} (hx : x ∈ s'.handles)
    (hid : x.id = owner) : x.callback = none := by
  cases hcallback : x.callback with
  | none => rfl
  | some k =>
      have hbefore := (wake_replies h).mem_before hs hx hcallback
      obtain ⟨hlock, -⟩ | ⟨w, hlock, hk, -, -⟩ | ⟨w, k', result, rest, hlock, -, -, hrest, -⟩ :=
        wake_cons h
      · have hnone := List.find?_eq_none.mp hlock x hbefore
        exact absurd hid (by simpa using hnone)
      · -- the handle that was locked is `x`, and it had its callback
        obtain ⟨hmem, hwid⟩ := mem_of_lock hlock
        obtain rfl : x = w :=
          List.inj_on_of_nodup_map hs.distinct hbefore hmem (hid.trans hwid.symm)
        cases hcallback.symm.trans hk
      · obtain ⟨hmem, hwid⟩ := mem_of_lock hlock
        obtain rfl : x = w :=
          List.inj_on_of_nodup_map hs.distinct hbefore hmem (hid.trans hwid.symm)
        obtain ⟨rfl, -⟩ := wake_nil hrest
        exact absurd rfl (hs.mem_unblock hmem hx hcallback).2

end Storage

/-! ## Timeouts -/

/-- A storage with its readers, numbered in the order they came.  Beside what `Readers`
records, it keeps the timeouts, and the answers that were given before them. -/
structure Waking where
  readers : Readers := {}
  /-- What each reader gave as its timeout; nothing for one that does not block. -/
  blockMs : List (Option UInt64) := []
  /-- The readers whose timeouts have fired. -/
  fired : List Nat := []
  /-- The answers to readers whose timeouts had not fired. -/
  early : List Answer := []

namespace Waking

/-- The timeout of a reader that comes. -/
def asks : ReadersAction → List (Option UInt64)
  | .xread _ blockMs => [blockMs]
  | _ => []

/-- The reader whose timeout the event loop calls. -/
def timesOut (s : Waking) : ReadersAction → List Nat
  | .fire i =>
      match s.readers.storage.timeoutJobs[i]? with
      | some job => if job.isValid then (s.readers.blocked[job.owner]?).toList else []
      | none => []
  | _ => []

/-- One step. -/
def step (s : Waking) (a : ReadersAction) : Option Waking := do
  let readers ← s.readers.step a
  let fired := s.fired ++ s.timesOut a
  return {
    readers := readers
    blockMs := s.blockMs ++ asks a
    fired := fired
    early := s.early ++ (readers.answers.drop s.readers.answers.length).filter
      fun answer => answer.reader ∉ fired }

/-- Readers come, are woken and time out. -/
def machine : Machine Waking ReadersAction where
  init := {}
  step := step

/-- A reader that blocks is told something new. -/
def Tells (s : Waking) (answer : Answer) : Prop :=
  ∀ ms, s.blockMs[answer.reader]? = some (some ms) →
    ∃ starts, s.readers.starts[answer.reader]? = some starts ∧ Satisfied starts answer.result

/-- No reader that blocks is answered with nothing before its timeout, and one that waits
for ever is never answered with nothing. -/
structure Prompt (s : Waking) : Prop where
  early : ∀ answer ∈ s.early, s.Tells answer
  forever : ∀ answer ∈ s.readers.answers,
    s.blockMs[answer.reader]? = some (some 0) → answer.result ≠ []

/-- A job that runs calls only readers that one of their streams has gone on for: its last
id is greater than the starting id. -/
def Careful (s : Waking) : ReadersAction → Prop
  | .runJob =>
      match s.readers.storage.onetimeJobs with
      | [] => True
      | job :: jobs => Storage.WakesReady job { s.readers.storage with onetimeJobs := jobs }
  | _ => True

instance (s : Waking) (a : ReadersAction) : Decidable (s.Careful a) := by
  unfold Careful
  split
  · split <;> infer_instance
  · infer_instance

/-! ## The invariant -/

/-- Whose callback a handle holds, and where that reader started. -/
structure Waits (s : Waking) (h : StorageWait Nat) (reader : Nat) : Prop where
  owner : s.readers.blocked[h.id]? = some reader
  request : ∃ starts, s.readers.starts[reader]? = some starts ∧
    h.request = Values.resolved starts
  unfired : reader ∉ s.fired
  blocks : ∃ ms, s.blockMs[reader]? = some (some ms)

/-- A reader gave a timeout that fires. -/
def Timed (s : Waking) (reader : Nat) : Prop :=
  ∃ ms, s.blockMs[reader]? = some (some ms) ∧ ms ≠ 0

/-- The invariant of every run: every handle that waits has the callback and the starting ids
of its reader, every timer belongs to a reader that gave a timeout, and who was answered was
answered early or had its timeout fire. -/
structure Inv (s : Waking) : Prop where
  numbered : s.readers.storage.Numbered
  streams : Values.AllStreams s.readers.storage.values
  handles : s.readers.blocked.length = s.readers.storage.nextHandle
  distinct : s.readers.blocked.Nodup
  came : ∀ reader ∈ s.readers.blocked, reader < s.readers.starts.length
  asked : s.blockMs.length = s.readers.starts.length
  waits : ∀ h ∈ s.readers.storage.handles, ∀ reader, h.callback = some reader →
    s.Waits h reader
  timers : ∀ job ∈ s.readers.storage.timeoutJobs, ∃ reader,
    s.readers.blocked[job.owner]? = some reader ∧ s.Timed reader
  fired : ∀ reader ∈ s.fired, s.Timed reader
  known : ∀ answer ∈ s.readers.answers, answer.reader < s.readers.starts.length
  told : ∀ answer ∈ s.readers.answers, answer ∈ s.early ∨ answer.reader ∈ s.fired
  subset : s.early ⊆ s.readers.answers

theorem inv_init : Inv machine.init := by
  refine ⟨⟨?_, ?_, ?_⟩, ?_, ?_, ?_, ?_, ?_, ?_, ?_, ?_, ?_, ?_, ?_⟩
  all_goals simp [machine, Values.AllStreams]

/-- What is recorded of a reader stays when others come. -/
theorem Waits.extend {s s' : Waking} {h : StorageWait Nat} {reader : Nat}
    (hwaits : s.Waits h reader) (hblocked : s.readers.blocked <+: s'.readers.blocked)
    (hstarts : s.readers.starts <+: s'.readers.starts) (hasked : s.blockMs <+: s'.blockMs)
    (hunfired : reader ∉ s'.fired) : s'.Waits h reader := by
  obtain ⟨starts, hget, hrequest⟩ := hwaits.request
  obtain ⟨ms, hms⟩ := hwaits.blocks
  exact ⟨getElem?_of_extends hblocked hwaits.owner,
    ⟨starts, getElem?_of_extends hstarts hget, hrequest⟩, hunfired,
    ⟨ms, getElem?_of_extends hasked hms⟩⟩

theorem Timed.extend {s s' : Waking} {reader : Nat} (h : s.Timed reader)
    (hasked : s.blockMs <+: s'.blockMs) : s'.Timed reader := by
  obtain ⟨ms, hms, hne⟩ := h
  exact ⟨ms, getElem?_of_extends hasked hms, hne⟩

/-- A job or a timeout has run: handles have replied, and some timeouts are over. -/
structure Replied (s s' : Waking) (calls : List (Storage.Call Nat)) (fired : List Nat) :
    Prop where
  replies : ∃ taken : Storage Nat, taken.Replies calls s'.readers.storage ∧
    taken.handles = s.readers.storage.handles ∧ taken.nodes = s.readers.storage.nodes ∧
    taken.nextHandle = s.readers.storage.nextHandle ∧
    taken.values = s.readers.storage.values ∧
    taken.timeoutJobs ⊆ s.readers.storage.timeoutJobs
  blocked : s'.readers.blocked = s.readers.blocked
  starts : s'.readers.starts = s.readers.starts
  asked : s'.blockMs = s.blockMs
  answers : s'.readers.answers = s.readers.answers ++
    calls.map fun call => ⟨call.1, s'.readers.storage.values, call.2⟩
  timedOut : s'.fired = s.fired ++ fired
  early : s'.early = s.early ++
    (calls.map fun call => (⟨call.1, s'.readers.storage.values, call.2⟩ : Answer)).filter
      fun answer => answer.reader ∉ s'.fired

theorem Inv.replied {s s' : Waking} (hs : s.Inv) {calls : List (Storage.Call Nat)}
    {fired : List Nat} (h : s.Replied s' calls fired) (hfired : ∀ reader ∈ fired, s.Timed reader)
    (hover : ∀ w ∈ s'.readers.storage.handles, ∀ reader, w.callback = some reader →
      reader ∉ fired) : s'.Inv := by
  obtain ⟨⟨taken, hreplies, hhandles, hnodes, hnext, hvalues, htimeouts⟩, hblocked, hstarts,
    hasked, hanswers, htimedOut, hearly⟩ := h
  have htaken : taken.Numbered := hs.numbered.congr hhandles hnext hnodes
  have hextends : s.blockMs <+: s'.blockMs := hasked ▸ List.prefix_refl _
  refine ⟨hreplies.numbered htaken, ?_, ?_, ?_, ?_, ?_, ?_, ?_, ?_, ?_, ?_, ?_⟩
  · rw [hreplies.values_eq, hvalues]
    exact hs.streams
  · rw [hblocked, hreplies.nextHandle_eq, hnext]
    exact hs.handles
  · exact hblocked ▸ hs.distinct
  · rw [hblocked, hstarts]
    exact hs.came
  · rw [hasked, hstarts]
    exact hs.asked
  · intro w hw reader hcallback
    have hbefore := hreplies.mem_before htaken hw hcallback
    rw [hhandles] at hbefore
    have hwaits := hs.waits w hbefore reader hcallback
    refine hwaits.extend (hblocked ▸ List.prefix_refl _) (hstarts ▸ List.prefix_refl _)
      hextends ?_
    rw [htimedOut, List.mem_append, not_or]
    exact ⟨hwaits.unfired, hover w hw reader hcallback⟩
  · intro job hjob
    have howner := List.mem_map_of_mem (f := TimeoutJob.owner) hjob
    rw [hreplies.timeouts] at howner
    obtain ⟨job', hjob', heq⟩ := List.mem_map.mp howner
    obtain ⟨reader, hreader, htimed⟩ := hs.timers job' (htimeouts hjob')
    exact ⟨reader, by rw [hblocked, ← heq, hreader], htimed.extend hextends⟩
  · intro reader hreader
    rw [htimedOut] at hreader
    rcases List.mem_append.mp hreader with hreader | hreader
    · exact (hs.fired reader hreader).extend hextends
    · exact (hfired reader hreader).extend hextends
  · intro answer hanswer
    rw [hanswers] at hanswer
    rw [hstarts]
    rcases List.mem_append.mp hanswer with hanswer | hanswer
    · exact hs.known answer hanswer
    · obtain ⟨call, hcall, rfl⟩ := List.mem_map.mp hanswer
      obtain ⟨w, hw, hcallback, -⟩ := hreplies.called htaken call hcall
      rw [hhandles] at hw
      exact hs.came _ (List.mem_of_getElem? (hs.waits w hw _ hcallback).owner)
  · intro answer hanswer
    rw [hanswers] at hanswer
    rw [hearly, htimedOut]
    rcases List.mem_append.mp hanswer with hanswer | hanswer
    · rcases hs.told answer hanswer with htold | htold
      · exact Or.inl (List.mem_append_left _ htold)
      · exact Or.inr (List.mem_append_left _ htold)
    · by_cases hover : answer.reader ∈ s.fired ++ fired
      · exact Or.inr hover
      · exact Or.inl (List.mem_append_right _
          (List.mem_filter.mpr ⟨hanswer, decide_eq_true hover⟩))
  · rw [hearly, hanswers]
    intro answer hanswer
    rcases List.mem_append.mp hanswer with hanswer | hanswer
    · exact List.mem_append_left _ (hs.subset hanswer)
    · exact List.mem_append_right _ (List.mem_of_mem_filter hanswer)

/-! ## Steps -/

theorem replied_runJob {s s' : Waking} (h : s.step .runJob = some s') :
    ∃ job jobs storage calls, s.readers.storage.onetimeJobs = job :: jobs ∧
      Storage.wake job { s.readers.storage with onetimeJobs := jobs } = some (storage, calls) ∧
      s'.readers.storage = storage ∧ s.Replied s' calls [] := by
  simp only [step, Readers.step, Option.bind_eq_bind, Option.pure_def, Option.bind_eq_some_iff,
    Option.some.injEq, Prod.exists] at h
  obtain ⟨readers, ⟨storage, calls, hrun, rfl⟩, rfl⟩ := h
  obtain ⟨job, jobs, hjobs, hwake⟩ := Storage.runJob_replies hrun
  refine ⟨job, jobs, storage, calls, hjobs, hwake, rfl, ⟨_, Storage.wake_replies hwake, rfl,
    rfl, rfl, rfl, fun _ hjob => hjob⟩, rfl, rfl, ?_, rfl, ?_, ?_⟩
  · simp [asks]
  · simp [timesOut]
  · simp [Readers.record]

theorem replied_fire {s s' : Waking} {i : Nat} (h : s.step (.fire i) = some s') :
    ∃ job handles storage calls, s.readers.storage.timeoutJobs[i]? = some job ∧
      Storage.wake handles { s.readers.storage with
        timeoutJobs := s.readers.storage.timeoutJobs.eraseIdx i } = some (storage, calls) ∧
      s'.readers.storage = storage ∧
      (handles = [job.owner] ∧ s.Replied s' calls (s.readers.blocked[job.owner]?).toList ∨
        handles = [] ∧ s.Replied s' calls []) := by
  simp only [step, Readers.step, Option.bind_eq_bind, Option.pure_def, Option.bind_eq_some_iff,
    Option.some.injEq, Prod.exists] at h
  obtain ⟨readers, ⟨storage, calls, hfire, rfl⟩, rfl⟩ := h
  rw [Storage.fire] at hfire
  cases hjob : s.readers.storage.timeoutJobs[i]? with
  | none => simp [hjob] at hfire
  | some job =>
      simp only [hjob] at hfire
      split at hfire
      · next hvalid =>
          refine ⟨job, [job.owner], storage, calls, rfl, hfire, rfl, Or.inl ⟨rfl,
            ⟨_, Storage.wake_replies hfire, rfl, rfl, rfl, rfl, ?_⟩, rfl, rfl, ?_, rfl, ?_, ?_⟩⟩
          · exact List.eraseIdx_subset
          · simp [asks]
          · simp [timesOut, hjob, hvalid]
          · simp [Readers.record]
      · next hinvalid =>
          have hwake : Storage.wake [] { s.readers.storage with
              timeoutJobs := s.readers.storage.timeoutJobs.eraseIdx i } =
              some (storage, calls) := hfire
          refine ⟨job, [], storage, calls, rfl, hwake, rfl, Or.inr ⟨rfl,
            ⟨_, Storage.wake_replies hwake, rfl, rfl, rfl, rfl, ?_⟩, rfl, rfl, ?_, rfl, ?_, ?_⟩⟩
          · exact List.eraseIdx_subset
          · simp [asks]
          · simp [timesOut, hjob, hinvalid]
          · simp [Readers.record]

theorem Inv.runJob {s s' : Waking} (hs : s.Inv) (h : s.step .runJob = some s') : s'.Inv := by
  obtain ⟨job, jobs, storage, calls, -, -, -, hreplied⟩ := replied_runJob h
  exact hs.replied hreplied (by simp) (by simp)

theorem Inv.fire {s s' : Waking} (hs : s.Inv) {i : Nat} (h : s.step (.fire i) = some s') :
    s'.Inv := by
  obtain ⟨job, handles, storage, calls, hjob, hwake, rfl, ⟨rfl, hreplied⟩ | ⟨rfl, hreplied⟩⟩ :=
    replied_fire h
  · refine hs.replied hreplied ?_ ?_
    · intro reader hreader
      obtain ⟨reader', howner, htimed⟩ := hs.timers job (List.mem_of_getElem? hjob)
      rw [howner] at hreader
      obtain rfl : reader = reader' := by simpa using hreader
      exact htimed
    · intro w hw reader hcallback hreader
      have htaken : Storage.Numbered { s.readers.storage with
          timeoutJobs := s.readers.storage.timeoutJobs.eraseIdx i } :=
        hs.numbered.congr rfl rfl rfl
      have hbefore := (Storage.wake_replies hwake).mem_before htaken hw hcallback
      have howner := (hs.waits w hbefore reader hcallback).owner
      -- only the handle of this timeout is that reader's
      have hid : w.id = job.owner := by
        have hreader : s.readers.blocked[job.owner]? = some reader := by
          simpa [Option.mem_toList] using hreader
        obtain ⟨hlt, hget⟩ := List.getElem?_eq_some_iff.mp howner
        obtain ⟨hlt', hget'⟩ := List.getElem?_eq_some_iff.mp hreader
        exact (List.Nodup.getElem_inj_iff hs.distinct).mp (hget.trans hget'.symm)
      rw [Storage.wake_owner htaken hwake hw hid] at hcallback
      cases hcallback
  · exact hs.replied hreplied (by simp) (by simp)

theorem Inv.xadd {s s' : Waking} (hs : s.Inv) {now : Timepoint} {key : Bytes}
    {id : InputStreamId} {values : StreamPartValue}
    (h : s.step (.xadd now key id values) = some s') :
    s'.Inv ∧ s'.early = s.early ∧ s'.readers.starts = s.readers.starts ∧
      s'.blockMs = s.blockMs := by
  simp only [step, Readers.step, Option.bind_eq_bind, Option.pure_def, Option.bind_eq_some_iff,
    Option.some.injEq] at h
  obtain ⟨readers, hreaders, rfl⟩ := h
  rcases s.readers.storage.xadd_cases now key id values with ⟨e, hadd⟩ | ⟨added, stream, hadd⟩
  · rw [hadd] at hreaders
    obtain rfl := Option.some.inj hreaders
    refine ⟨?_, by simp, rfl, by simp [asks]⟩
    simpa [asks, timesOut] using hs
  · rw [hadd] at hreaders
    obtain rfl := Option.some.inj hreaders
    refine ⟨?_, by simp, rfl, by simp [asks]⟩
    simp only [asks, timesOut, List.append_nil, List.drop_length, List.filter_nil]
    refine ⟨hs.numbered.congr rfl rfl rfl, ?_, hs.handles, hs.distinct, hs.came, hs.asked, ?_,
      hs.timers, hs.fired, hs.known, hs.told, hs.subset⟩
    · exact hs.streams.insert key stream
    · intro w hw reader hcallback
      have hwaits := hs.waits w hw reader hcallback
      exact ⟨hwaits.owner, hwaits.request, hwaits.unfired, hwaits.blocks⟩

/-- A reader that comes has not timed out. -/
theorem Inv.unfired_new {s : Waking} (hs : s.Inv) : s.readers.starts.length ∉ s.fired := by
  intro hmem
  obtain ⟨ms, hms, -⟩ := hs.fired _ hmem
  have hlt := (List.getElem?_eq_some_iff.mp hms).1
  rw [hs.asked] at hlt
  exact Nat.lt_irrefl _ hlt

/-- A reader that comes: it is answered at once, or it blocks. -/
theorem step_xread {s s' : Waking} (hs : s.Inv) {request : StreamsReadRequest}
    {blockMs : Option UInt64} (h : s.step (.xread request blockMs) = some s') :
    ∃ storage calls, s'.readers = s.readers.come request storage calls ∧
      s'.blockMs = s.blockMs ++ [blockMs] ∧ s'.fired = s.fired ∧
      s'.early = s.early ++ calls.map (fun call => ⟨call.1, storage.values, call.2⟩) ∧
      (storage = s.readers.storage ∧ calls = [(s.readers.starts.length,
          Values.newEntries s.readers.storage.values
            (Values.startingIds s.readers.storage.values request))] ∧
          (blockMs = none ∨ Values.newEntries s.readers.storage.values
            (Values.startingIds s.readers.storage.values request) ≠ []) ∨
        calls = [] ∧ ∃ ms, blockMs = some ms ∧
          s.readers.storage.block request ms s.readers.starts.length = some storage) := by
  simp only [step, Readers.step, Option.bind_eq_bind, Option.pure_def, Option.bind_eq_some_iff,
    Option.some.injEq, Prod.exists] at h
  obtain ⟨readers, ⟨storage, calls, hread, rfl⟩, rfl⟩ := h
  refine ⟨storage, calls, rfl, rfl, by simp [timesOut], ?_, ?_⟩
  · obtain ⟨result, -, ⟨-, rfl⟩ | ⟨-, -, -, rfl, -⟩⟩ := Storage.xread_cases hread
    · simp [Readers.come, Readers.record, timesOut, hs.unfired_new]
    · simp [Readers.come, Readers.record]
  · rw [Storage.xread, Storage.readStreams_eq hs.streams] at hread
    cases blockMs with
    | none =>
        obtain ⟨rfl, rfl⟩ := Prod.mk.inj (Option.some.inj hread)
        exact Or.inl ⟨rfl, rfl, Or.inl rfl⟩
    | some ms =>
        simp only [Option.bind_eq_bind, Option.bind_some, Option.pure_def] at hread
        split at hread
        · next hsome =>
            obtain ⟨rfl, rfl⟩ := Prod.mk.inj (Option.some.inj hread)
            exact Or.inl ⟨rfl, rfl, Or.inr (List.ne_nil_of_length_pos hsome)⟩
        · cases hblock : s.readers.storage.block request ms s.readers.starts.length with
          | none => simp [hblock] at hread
          | some storage' =>
              rw [hblock] at hread
              obtain ⟨rfl, rfl⟩ := Prod.mk.inj (Option.some.inj hread)
              exact Or.inr ⟨rfl, ms, rfl, hblock⟩

/-- One more reader is recorded. -/
structure Came (s s' : Waking) (starts : List (Bytes × StreamId)) (blockMs : Option UInt64) :
    Prop where
  starts : s'.readers.starts = s.readers.starts ++ [starts]
  asked : s'.blockMs = s.blockMs ++ [blockMs]
  fired : s'.fired = s.fired

namespace Came

variable {s s' : Waking} {starts : List (Bytes × StreamId)} {blockMs : Option UInt64}

theorem length (h : s.Came s' starts blockMs) :
    s'.readers.starts.length = s.readers.starts.length + 1 := by
  simp [h.starts]

theorem starts_extend (h : s.Came s' starts blockMs) : s.readers.starts <+: s'.readers.starts :=
  h.starts ▸ List.prefix_append _ _

theorem asked_extend (h : s.Came s' starts blockMs) : s.blockMs <+: s'.blockMs :=
  h.asked ▸ List.prefix_append _ _

theorem asked_length (h : s.Came s' starts blockMs) (hs : s.Inv) :
    s'.blockMs.length = s'.readers.starts.length := by
  rw [h.asked, h.length, ← hs.asked]
  simp

theorem asked_new (h : s.Came s' starts blockMs) (hs : s.Inv) :
    s'.blockMs[s.readers.starts.length]? = some blockMs := by
  rw [h.asked, ← hs.asked]
  simp

theorem timed (h : s.Came s' starts blockMs) (hs : s.Inv) :
    ∀ reader ∈ s'.fired, s'.Timed reader := by
  rw [h.fired]
  exact fun reader hreader => (hs.fired reader hreader).extend h.asked_extend

theorem waits (h : s.Came s' starts blockMs) (hs : s.Inv)
    (hblocked : s.readers.blocked <+: s'.readers.blocked) {w : StorageWait Nat}
    (hw : w ∈ s.readers.storage.handles) {reader : Nat} (hcallback : w.callback = some reader) :
    s'.Waits w reader := by
  have hwaits := hs.waits w hw reader hcallback
  exact hwaits.extend hblocked h.starts_extend h.asked_extend (h.fired ▸ hwaits.unfired)

theorem timers (h : s.Came s' starts blockMs) (hs : s.Inv)
    (hblocked : s.readers.blocked <+: s'.readers.blocked) {job : TimeoutJob}
    (hjob : job ∈ s.readers.storage.timeoutJobs) : ∃ reader,
      s'.readers.blocked[job.owner]? = some reader ∧ s'.Timed reader := by
  obtain ⟨reader, howner, htimed⟩ := hs.timers job hjob
  exact ⟨reader, getElem?_of_extends hblocked howner, htimed.extend h.asked_extend⟩

end Came

/-- The reader is answered at once. -/
theorem Inv.answered {s s' : Waking} (hs : s.Inv) {starts : List (Bytes × StreamId)}
    {blockMs : Option UInt64} (hcame : s.Came s' starts blockMs)
    (hstorage : s'.readers.storage = s.readers.storage)
    (hblocked : s'.readers.blocked = s.readers.blocked) {answer : Answer}
    (hreader : answer.reader = s.readers.starts.length)
    (hanswers : s'.readers.answers = s.readers.answers ++ [answer])
    (hearly : s'.early = s.early ++ [answer]) : s'.Inv := by
  have hextends : s.readers.blocked <+: s'.readers.blocked := hblocked ▸ List.prefix_refl _
  refine ⟨hstorage ▸ hs.numbered, hstorage ▸ hs.streams, ?_, hblocked ▸ hs.distinct, ?_,
    hcame.asked_length hs, ?_, ?_, hcame.timed hs, ?_, ?_, ?_⟩
  · rw [hblocked, hstorage]
    exact hs.handles
  · rw [hblocked, hcame.length]
    exact fun reader hreader => Nat.lt_succ_of_lt (hs.came reader hreader)
  · rw [hstorage]
    exact fun w hw reader hcallback => hcame.waits hs hextends hw hcallback
  · rw [hstorage]
    exact fun job hjob => hcame.timers hs hextends hjob
  · rw [hanswers, hcame.length]
    intro a ha
    rcases List.mem_append.mp ha with ha | ha
    · exact Nat.lt_succ_of_lt (hs.known a ha)
    · rw [List.mem_singleton.mp ha, hreader]
      exact Nat.lt_succ_self _
  · rw [hanswers, hearly, hcame.fired]
    intro a ha
    rcases List.mem_append.mp ha with ha | ha
    · exact (hs.told a ha).imp (List.mem_append_left _) id
    · exact Or.inl (List.mem_append_right _ ha)
  · rw [hanswers, hearly]
    intro a ha
    rcases List.mem_append.mp ha with ha | ha
    · exact List.mem_append_left _ (hs.subset ha)
    · exact List.mem_append_right _ ha

/-- The reader blocks. -/
theorem Inv.blocked {s s' : Waking} (hs : s.Inv) {request : StreamsReadRequest} {ms : UInt64}
    (hcame : s.Came s' (Values.startingIds s.readers.storage.values request) (some ms))
    (hblock : s.readers.storage.block request ms s.readers.starts.length =
      some s'.readers.storage)
    (hblocked : s'.readers.blocked = s.readers.blocked ++ [s.readers.starts.length])
    (hanswers : s'.readers.answers = s.readers.answers) (hearly : s'.early = s.early) :
    s'.Inv := by
  obtain ⟨resolved, hresolve, hhandles, -, hnext, -, hvalues, -⟩ := hs.numbered.block hblock
  rw [Storage.resolve_eq hs.streams] at hresolve
  obtain rfl := Option.some.inj hresolve
  have hextends : s.readers.blocked <+: s'.readers.blocked := hblocked ▸ List.prefix_append _ _
  have hnewOwner : s'.readers.blocked[s.readers.storage.nextHandle]? =
      some s.readers.starts.length := by
    rw [hblocked, ← hs.handles]
    simp
  refine ⟨hs.numbered.numbered_block hblock, hvalues ▸ hs.streams, ?_, ?_, ?_,
    hcame.asked_length hs, ?_, ?_, hcame.timed hs, ?_, ?_, ?_⟩
  · rw [hblocked, hnext, List.length_append, hs.handles]
    rfl
  · rw [hblocked]
    exact List.nodup_append.mpr ⟨hs.distinct, by simp, fun x hx y hy heq =>
      Nat.lt_irrefl _ (hs.came _ (List.mem_singleton.mp hy ▸ heq ▸ hx))⟩
  · rw [hblocked, hcame.length]
    intro reader hreader
    rcases List.mem_append.mp hreader with hreader | hreader
    · exact Nat.lt_succ_of_lt (hs.came reader hreader)
    · obtain rfl := List.mem_singleton.mp hreader
      exact Nat.lt_succ_self _
  · intro w hw reader hcallback
    have hold : w ∈ s.readers.storage.handles ∨ w = s.readers.storage.blocked request
        (Values.resolved (Values.startingIds s.readers.storage.values request))
        s.readers.starts.length := by
      rcases hhandles with ⟨-, hhandles⟩ | ⟨-, hhandles⟩
      · rw [hhandles] at hw
        simpa using hw
      · exact Or.inl (hhandles ▸ hw)
    rcases hold with hold | rfl
    · exact hcame.waits hs hextends hold hcallback
    · obtain rfl := Option.some.inj hcallback
      refine ⟨hnewOwner, ⟨_, ?_, rfl⟩, ?_, ⟨ms, hcame.asked_new hs⟩⟩
      · rw [hcame.starts]
        simp
      · rw [hcame.fired]
        exact hs.unfired_new
  · intro job hjob
    rcases Storage.block_timeouts hblock hjob with hold | ⟨hnewJob, hne⟩
    · obtain ⟨job', hjob', heq⟩ := List.mem_map.mp hold
      exact heq ▸ hcame.timers hs hextends hjob'
    · exact ⟨_, hnewJob ▸ hnewOwner, ms, hcame.asked_new hs, hne⟩
  · rw [hanswers, hcame.length]
    exact fun answer hanswer => Nat.lt_succ_of_lt (hs.known answer hanswer)
  · rw [hanswers, hearly, hcame.fired]
    exact hs.told
  · rw [hanswers, hearly]
    exact hs.subset

theorem Inv.xread {s s' : Waking} (hs : s.Inv) {request : StreamsReadRequest}
    {blockMs : Option UInt64} (h : s.step (.xread request blockMs) = some s') : s'.Inv := by
  obtain ⟨storage, calls, hreaders, hasked, hfired, hearly, hcases⟩ := step_xread hs h
  have hcame : s.Came s' (Values.startingIds s.readers.storage.values request) blockMs :=
    ⟨by rw [hreaders]; rfl, hasked, hfired⟩
  have hstorage : s'.readers.storage = storage := by rw [hreaders]; rfl
  rcases hcases with ⟨rfl, rfl, -⟩ | ⟨rfl, ms, rfl, hblock⟩
  · have hblocked : s'.readers.blocked = s.readers.blocked := by
      simp [hreaders, Readers.come]
    exact hs.answered hcame hstorage hblocked rfl (by rw [hreaders]; rfl) hearly
  · have hnext : storage.nextHandle = s.readers.storage.nextHandle + 1 := by
      obtain ⟨resolved, -, -, -, hnext, -⟩ := hs.numbered.block hblock
      exact hnext
    have hblocked : s'.readers.blocked = s.readers.blocked ++ [s.readers.starts.length] := by
      simp [hreaders, Readers.come, hnext]
    refine hs.blocked hcame (hstorage ▸ hblock) hblocked ?_ (by simpa using hearly)
    simp [hreaders, Readers.come, Readers.record]

theorem Inv.step {s s' : Waking} (hs : s.Inv) {a : ReadersAction} (h : s.step a = some s') :
    s'.Inv := by
  cases a with
  | xadd now key id values => exact (hs.xadd h).1
  | xread request blockMs => exact hs.xread h
  | runJob => exact hs.runJob h
  | fire i => exact hs.fire h

/-! ## Early answers -/

/-- A reader that waits for ever has no timeout, so all its answers are early. -/
theorem Inv.prompt_iff {s : Waking} (hs : s.Inv) :
    s.Prompt ↔ ∀ answer ∈ s.early, s.Tells answer := by
  refine ⟨Prompt.early, fun hearly => ⟨hearly, fun answer hanswer hforever => ?_⟩⟩
  have htold : answer ∈ s.early := by
    refine (hs.told answer hanswer).resolve_right fun hfired => ?_
    obtain ⟨ms, hms, hne⟩ := hs.fired _ hfired
    rw [hforever] at hms
    exact hne (Option.some.inj (Option.some.inj hms)).symm
  obtain ⟨starts, -, hsatisfied⟩ := hearly answer htold 0 hforever
  exact hsatisfied.ne_nil

/-- What was told stays told. -/
theorem Inv.tells_extend {s s' : Waking} (hs : s.Inv)
    (hstarts : s.readers.starts <+: s'.readers.starts) (hasked : s.blockMs <+: s'.blockMs)
    {answer : Answer} (hanswer : answer ∈ s.early) (h : s.Tells answer) : s'.Tells answer := by
  intro ms hms
  have hlt := hs.known answer (hs.subset hanswer)
  obtain ⟨more, hmore⟩ := hasked
  rw [← hmore, List.getElem?_append_left (hs.asked ▸ hlt)] at hms
  obtain ⟨starts, hget, hsatisfied⟩ := h ms hms
  exact ⟨starts, getElem?_of_extends hstarts hget, hsatisfied⟩

/-- The request of a handle that can still be called reads as what is new to its reader: its
starting ids are those with which the reader came, resolved. -/
theorem Inv.ready_iff {s : Waking} (hs : s.Inv) {w : StorageWait Nat} {reader : Nat}
    (hw : w ∈ s.readers.storage.handles) (hcallback : w.callback = some reader)
    {result : StreamsReadResult}
    (hread : s.readers.storage.readStreams w.request = some result) (values : Values) :
    s.Tells ⟨reader, values, result⟩ ↔ s.readers.storage.Ready w := by
  have hwaits := hs.waits w hw reader hcallback
  obtain ⟨starts, hstarts, hrequest⟩ := hwaits.request
  obtain ⟨ms, hms⟩ := hwaits.blocks
  have hids : Values.startingIds s.readers.storage.values w.request = starts := by
    rw [hrequest, Values.startingIds, Values.resolved, List.map_map]
    exact (List.map_congr_left fun start _ => rfl).trans (List.map_id' starts)
  rw [Storage.readStreams_eq hs.streams, hids] at hread
  obtain rfl := Option.some.inj hread
  have hready : s.readers.storage.Ready w ↔
      ∃ start ∈ starts, start.2 < Values.lastIdAt s.readers.storage.values start.1 := by
    simp [Storage.Ready, hrequest, Values.resolved]
  rw [hready, ← Values.satisfied_newEntries_iff]
  constructor
  · intro htells
    obtain ⟨starts', hget, hsatisfied⟩ := htells ms hms
    rw [hstarts] at hget
    exact Option.some.inj hget ▸ hsatisfied
  · exact fun hsatisfied _ _ => ⟨starts, hstarts, hsatisfied⟩

/-- The answers of a job are all early, and new if and only if it is careful. -/
theorem Inv.runJob_early {s s' : Waking} (hs : s.Inv) (h : s.step .runJob = some s')
    (hprompt : ∀ answer ∈ s.early, s.Tells answer) :
    (∀ answer ∈ s'.early, s'.Tells answer) ↔ s.Careful .runJob := by
  obtain ⟨job, jobs, storage, calls, hjobs, hwake, hstorage, hreplied⟩ := replied_runJob h
  let taken : Storage Nat := { s.readers.storage with onetimeJobs := jobs }
  have htaken : taken.Numbered := hs.numbered.congr rfl rfl rfl
  have hcalled : ∀ call ∈ calls, ∃ w ∈ s.readers.storage.handles, w.callback = some call.1 ∧
      taken.readStreams w.request = some call.2 :=
    (Storage.wake_replies hwake).called htaken
  have hsame : ∀ answer, s'.Tells answer ↔ s.Tells answer := by
    intro answer
    rw [Tells, Tells, hreplied.asked, hreplied.starts]
  have hearly : s'.early = s.early ++
      calls.map fun call => ⟨call.1, s'.readers.storage.values, call.2⟩ := by
    rw [hreplied.early]
    congr 1
    refine List.filter_eq_self.mpr fun answer hanswer => decide_eq_true ?_
    obtain ⟨call, hcall, rfl⟩ := List.mem_map.mp hanswer
    obtain ⟨w, hw, hcallback, -⟩ := hcalled call hcall
    rw [hreplied.timedOut, List.append_nil]
    exact (hs.waits w hw _ hcallback).unfired
  have hcareful : s.Careful .runJob ↔ Storage.WakesReady job taken := by
    simp only [Careful, hjobs, taken]
  have hready : ∀ w ∈ taken.handles, ∀ reader result, w.callback = some reader →
      taken.readStreams w.request = some result →
      (s.Tells ⟨reader, s'.readers.storage.values, result⟩ ↔ taken.Ready w) := by
    intro w hw reader result hcallback hread
    have hsame : s.readers.storage.readStreams w.request = taken.readStreams w.request :=
      (Storage.readStreams_congr (s := s.readers.storage) (show taken.values = _ from rfl)
        w.request).symm
    exact hs.ready_iff hw hcallback (hsame.trans hread) _
  have hcalls := Storage.wake_calls_iff (P := fun call =>
    s.Tells ⟨call.1, s'.readers.storage.values, call.2⟩) htaken hready hwake
  rw [hcareful, ← hcalls, hearly]
  constructor
  · intro hall call hcall
    exact (hsame _).mp (hall _ (List.mem_append_right _ (List.mem_map_of_mem hcall)))
  · intro hall answer hanswer
    rw [hsame]
    rcases List.mem_append.mp hanswer with hanswer | hanswer
    · exact hprompt answer hanswer
    · obtain ⟨call, hcall, rfl⟩ := List.mem_map.mp hanswer
      exact hall call hcall

/-- No other step answers a reader with nothing before its timeout. -/
theorem Inv.other_early {s s' : Waking} (hs : s.Inv) {a : ReadersAction} (hjob : a ≠ .runJob)
    (h : s.step a = some s') (hprompt : ∀ answer ∈ s.early, s.Tells answer) :
    ∀ answer ∈ s'.early, s'.Tells answer := by
  cases a with
  | runJob => exact absurd rfl hjob
  | xadd now key id values =>
      obtain ⟨-, hearly, hstarts, hasked⟩ := hs.xadd h
      rw [hearly]
      exact fun answer hanswer => hs.tells_extend (hstarts ▸ List.prefix_refl _)
        (hasked ▸ List.prefix_refl _) hanswer (hprompt answer hanswer)
  | xread request blockMs =>
      obtain ⟨storage, calls, hreaders, hasked, -, hearly, hcases⟩ := step_xread hs h
      have hstarts : s'.readers.starts =
          s.readers.starts ++ [Values.startingIds s.readers.storage.values request] := by
        rw [hreaders]
        rfl
      rw [hearly]
      intro answer hanswer
      rcases List.mem_append.mp hanswer with hanswer | hanswer
      · exact hs.tells_extend (hstarts ▸ List.prefix_append _ _)
          (hasked ▸ List.prefix_append _ _) hanswer (hprompt answer hanswer)
      · rcases hcases with ⟨rfl, rfl, hnone | hsome⟩ | ⟨rfl, -⟩
        · -- a reader that does not block is promised nothing
          obtain rfl := List.mem_singleton.mp hanswer
          intro ms hms
          simp only [hasked, hnone, ← hs.asked, List.getElem?_concat_length,
            Option.some.injEq] at hms
          cases hms
        · obtain rfl := List.mem_singleton.mp hanswer
          exact fun _ _ => ⟨_, by simp [hstarts], Values.satisfied_of_ne_nil hsome⟩
        · cases hanswer
  | fire i =>
      obtain ⟨job, handles, storage, calls, hjob, hwake, rfl,
        ⟨rfl, hreplied⟩ | ⟨rfl, hreplied⟩⟩ := replied_fire h
      · have hsilent : (calls.map fun call =>
            (⟨call.1, s'.readers.storage.values, call.2⟩ : Answer)).filter
              (fun answer => decide (answer.reader ∉ s'.fired)) = [] := by
          refine List.filter_eq_nil_iff.mpr fun answer hanswer => ?_
          obtain ⟨call, hcall, rfl⟩ := List.mem_map.mp hanswer
          obtain ⟨w, hw, hid, hcallback⟩ := Storage.wake_owner_called hwake call hcall
          have howner := (hs.waits w hw _ hcallback).owner
          rw [hid] at howner
          simp [hreplied.timedOut, howner]
        rw [hreplied.early, hsilent, List.append_nil]
        exact fun answer hanswer => hs.tells_extend (hreplied.starts ▸ List.prefix_refl _)
          (hreplied.asked ▸ List.prefix_refl _) hanswer (hprompt answer hanswer)
      · obtain ⟨-, rfl⟩ := Prod.mk.inj (Option.some.inj hwake)
        rw [hreplied.early]
        intro answer hanswer
        have hold : answer ∈ s.early := by simpa using hanswer
        exact hs.tells_extend (hreplied.starts ▸ List.prefix_refl _)
          (hreplied.asked ▸ List.prefix_refl _) hold (hprompt answer hold)

/-- **One step** keeps the promise if and only if it is careful.  Only jobs can break it: a
read that blocks is answered at once only with something new, and a timeout is no early answer.
-/
theorem Inv.prompt_step_iff {s s' : Waking} (hs : s.Inv) (hprompt : s.Prompt)
    {a : ReadersAction} (h : s.step a = some s') : s'.Prompt ↔ s.Careful a := by
  rw [(hs.step h).prompt_iff]
  rw [hs.prompt_iff] at hprompt
  by_cases hjob : a = .runJob
  · subst hjob
    exact hs.runJob_early h hprompt
  · refine iff_of_true (hs.other_early hjob h hprompt) ?_
    cases a with
    | runJob => exact absurd rfl hjob
    | _ => trivial

/-- **No early empty answer.**  In a run in which every job calls only readers for whom one
of their streams has gone on behind the starting id, every reader that blocks is told
something new if it is answered before its timeout; and a further step keeps that if and
only if it is such a step too. -/
theorem prompt_iff_careful {s : Waking} (h : machine.Reachable Careful s) :
    s.Prompt ∧ ∀ a s', s.step a = some s' → (s'.Prompt ↔ s.Careful a) := by
  have hinv : s.Inv ∧ s.Prompt := by
    refine h.invariant (I := fun s => s.Inv ∧ s.Prompt) ⟨inv_init, ?_⟩
      fun s a s' _ hs hcareful htaken => ?_
    · exact inv_init.prompt_iff.mpr (by simp [machine])
    · exact ⟨hs.1.step htaken, (hs.1.prompt_step_iff hs.2 htaken).mpr hcareful⟩
  exact ⟨hinv.2, fun a s' htaken => hinv.1.prompt_step_iff hinv.2 htaken⟩

/-- A reader waits behind 5-0 for ever, and the entry 1-1 comes. -/
def tooSmall : List ReadersAction :=
  [.xread [(ascii "k", { ms := 5 })] (some 0), .xadd 0 (ascii "k") { ms := 1, id := 1 } []]

/-- The same reader, woken when 7-0 has come too. -/
theorem prompt_iff_careful_later :
    ∃ h : (machine.run Careful machine.init
        (tooSmall ++ [.xadd 0 (ascii "k") { ms := 7 } [], .runJob])).isSome,
      ((machine.run Careful machine.init
        (tooSmall ++ [.xadd 0 (ascii "k") { ms := 7 } [], .runJob])).get h).Prompt :=
  ⟨by decide +kernel, (prompt_iff_careful (Machine.reachable_of_run (by decide +kernel))).1⟩

/-- A reader waits for ids behind 5-0, and 1-1 is appended: the job wakes it, it finds nothing
and is answered so. -/
theorem not_prompt :
    ¬ ∀ s : Waking, machine.Reachable Anything s → s.Prompt := by
  intro h
  have hrun : (machine.run Anything machine.init (tooSmall ++ [.runJob])).map
      (fun s => (s.early.map fun answer => (answer.reader, answer.result.length), s.blockMs)) =
      some ([(0, 0)], [some 0]) := by
    decide +kernel
  obtain ⟨s, hreached, hs⟩ := Option.map_eq_some_iff.mp hrun
  obtain ⟨hearly, hasked⟩ := Prod.mk.inj hs
  obtain ⟨answer, hanswer, heq⟩ := List.mem_map.mp (hearly ▸ List.mem_singleton.mpr rfl)
  obtain ⟨hreader, hresult⟩ := Prod.mk.inj heq
  obtain ⟨starts, -, hsatisfied⟩ := (h s (Machine.Reachable.run .init hreached)).early answer
    hanswer 0 (by rw [hasked, hreader]; rfl)
  exact hsatisfied.ne_nil (List.length_eq_zero_iff.mp hresult)

end Waking

end BuildYourOwnRedis
