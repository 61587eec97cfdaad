/-
  Storage/Casts.lean --- the casts of stored values.

  `casts` lists the values that an operation of a storage passes to `static_cast`, in the
  order of the sources.  GET, XADD and TYPE look at the type first.  XRANGE, XREAD and the
  replies of blocked readers do not, and `$` of a reader that blocks does not either, but
  what it casts has been cast before.  `readStreams_isSome_iff` ties the list to the model:
  a read is undefined exactly if one of its casts is wrong.
-/
import BuildYourOwnRedis.Foundation.Transition
import BuildYourOwnRedis.Storage.WaitLists

set_option autoImplicit false

namespace BuildYourOwnRedis

open Foundation

/-- `static_cast<StringValue&>` and `static_cast<StreamValue&>` of a stored value.  Nothing is
checked when they are made; a wrong one is undefined behaviour. -/
inductive Cast where
  | toString (value : Value)
  | toStream (value : Value)

/-- The type that `Value::type` of the operand must be. -/
def Cast.Right : Cast → Prop
  | .toString value => value.type = .string
  | .toStream value => value.type = .stream

instance : DecidablePred Cast.Right := fun c => by
  unfold Cast.Right
  split <;> infer_instance

/-- What can happen to a storage. -/
inductive StorageAction (κ : Type) where
  | restore (key value : Bytes) (expireTime : Option Timepoint)
  | set (now : Timepoint) (key value : Bytes) (expireMs : Option Int)
  | get (now : Timepoint) (key : Bytes)
  | xadd (now : Timepoint) (key : Bytes) (id : InputStreamId) (values : StreamPartValue)
  | xrange (key : Bytes) (leftId rightId : BoundStreamId)
  | xread (request : StreamsReadRequest) (blockMs : Option UInt64) (callback : κ)
  | type (key : Bytes)
  | keys
  | runJob
  | fire (i : Nat)

namespace Storage

variable {κ : Type}

/-- The storage after an operation. -/
def step (s : Storage κ) : StorageAction κ → Option (Storage κ)
  | .restore key value expireTime => some (s.restore key value expireTime)
  | .set now key value expireMs => some (s.set now key value expireMs)
  | .get now key => some (s.get now key).2
  | .xadd now key id values => some (s.xadd now key id values).2
  | .xrange key leftId rightId => (s.xrange key leftId rightId).map fun _ => s
  | .xread request blockMs callback => (s.xread request blockMs callback).map Prod.fst
  | .type _ => some s
  | .keys => some s
  | .runJob => s.runJob.map Prod.fst
  | .fire i => (s.fire i).map Prod.fst

/-! ## The casts of each operation -/

/-- A stored value is taken for a stream. -/
def streamCasts (key : Bytes) (s : Storage κ) : List Cast :=
  (s.values.lookup key).toList.map .toStream

/-- `Storage::get`. -/
def getCasts (key : Bytes) (s : Storage κ) : List Cast :=
  match s.values.lookup key with
  | none => []
  | some value => if value.type ≠ .string then [] else [.toString value]

/-- `Storage::xadd`. -/
def xaddCasts (key : Bytes) (s : Storage κ) : List Cast :=
  match s.values.lookup key with
  | none => []
  | some value => if value.type ≠ .stream then [] else [.toStream value]

/-- The loop of `Storage::xread`. -/
def readCasts (request : StreamsReadRequest) (s : Storage κ) : List Cast :=
  request.flatMap fun part => s.streamCasts part.1

/-- The loop of `WaitHandle::setup`. -/
def setupCasts (request : StreamsReadRequest) (s : Storage κ) : List Cast :=
  request.flatMap fun part => if part.2.isNextExpected then s.streamCasts part.1 else []

/-- `Storage::xread`. -/
def xreadCasts (request : StreamsReadRequest) (blockMs : Option UInt64) (s : Storage κ) :
    List Cast :=
  s.readCasts request ++
    match blockMs, s.readStreams request with
    | some _, some [] => s.setupCasts request
    | _, _ => []

/-- The job that `Storage::xadd` posts. -/
def wakeCasts : List Nat → Storage κ → List Cast
  | [], _ => []
  | handle :: handles, s =>
      match s.lock handle with
      | none => wakeCasts handles s
      | some h => s.readCasts h.request ++
          match s.reply h with
          | some (s', some _) => wakeCasts handles s'
          | _ => []

/-- The casts of an operation. -/
def casts (s : Storage κ) : StorageAction κ → List Cast
  | .get _ key => s.getCasts key
  | .xadd _ key _ _ => s.xaddCasts key
  | .xrange key _ _ => s.streamCasts key
  | .xread request blockMs _ => s.xreadCasts request blockMs
  | .runJob =>
      match s.onetimeJobs with
      | [] => []
      | handles :: jobs => wakeCasts handles { s with onetimeJobs := jobs }
  | .fire i =>
      match s.timeoutJobs[i]? with
      | none => []
      | some job =>
          if job.isValid
          then wakeCasts [job.owner] { s with timeoutJobs := s.timeoutJobs.eraseIdx i }
          else []
  | _ => []

/-! ## When they are right -/

/-- No string is stored at a key. -/
def NoString (key : Bytes) (s : Storage κ) : Prop :=
  ∀ value ∈ s.values.lookup key, value.type = .stream

instance (key : Bytes) (s : Storage κ) : Decidable (s.NoString key) := by
  unfold NoString
  cases s.values.lookup key <;> simp only [Option.mem_def] <;> infer_instance

/-- No string is stored at a key of a request. -/
def NoStrings (request : StreamsReadRequest) (s : Storage κ) : Prop :=
  ∀ part ∈ request, s.NoString part.1

instance (request : StreamsReadRequest) (s : Storage κ) : Decidable (s.NoStrings request) :=
  inferInstanceAs (Decidable (∀ part ∈ request, _))

/-- The same for the requests of blocked readers, at the time when they are answered: a SET may
have replaced the stream since they blocked. -/
def ReadersNoStrings (handles : List Nat) (s : Storage κ) : Prop :=
  ∀ h ∈ s.handles, h.id ∈ handles → s.NoStrings h.request

instance (handles : List Nat) (s : Storage κ) : Decidable (s.ReadersNoStrings handles) :=
  inferInstanceAs (Decidable (∀ h ∈ s.handles, _))

/-- XRANGE and XREAD name no key that holds a string, and no key of a blocked reader holds
one when a job or a timeout is there to answer it. -/
def Typed (s : Storage κ) : StorageAction κ → Prop
  | .xrange key _ _ => s.NoString key
  | .xread request _ _ => s.NoStrings request
  | .runJob => s.ReadersNoStrings (s.onetimeJobs.headD [])
  | .fire i => s.ReadersNoStrings
      ((s.timeoutJobs[i]?.toList.filter TimeoutJob.isValid).map TimeoutJob.owner)
  | _ => True

instance (s : Storage κ) (a : StorageAction κ) : Decidable (s.Typed a) := by
  unfold Typed
  split <;> infer_instance

variable {s : Storage κ}

theorem streamCasts_right_iff {key : Bytes} :
    (∀ c ∈ s.streamCasts key, c.Right) ↔ s.NoString key := by
  simp [streamCasts, NoString, Cast.Right]

theorem readCasts_right_iff {request : StreamsReadRequest} :
    (∀ c ∈ s.readCasts request, c.Right) ↔ s.NoStrings request := by
  simp only [readCasts, List.mem_flatMap, forall_exists_index, and_imp, NoStrings]
  constructor
  · intro h part hpart
    exact streamCasts_right_iff.mp fun c hc => h c part hpart hc
  · intro h c part hpart hc
    exact streamCasts_right_iff.mpr (h part hpart) c hc

/-- A value can be read as a stream where no string is stored. -/
theorem asStream_isSome_iff {value : Value} :
    value.asStream?.isSome ↔ value.type = .stream := by
  cases value <;> simp [Value.asStream?, Value.type]

/-- A read is undefined exactly if one of its casts is wrong.  The casts are made for the
streams of the request one after the other. -/
theorem readStreams_isSome_iff (request : StreamsReadRequest) :
    (s.readStreams request).isSome ↔ ∀ c ∈ s.readCasts request, c.Right := by
  rw [readCasts_right_iff]
  induction request with
  | nil => simp [readStreams, NoStrings]
  | cons part request ih =>
      obtain ⟨key, id⟩ := part
      have hcons : s.NoStrings ((key, id) :: request) ↔
          s.NoString key ∧ s.NoStrings request := by
        simp [NoStrings]
      rw [hcons, ← ih]
      simp only [readStreams, NoString]
      cases hlookup : s.values.lookup key with
      | none => simp
      | some value =>
          cases value with
          | string str => simp [Value.asStream?, Value.type]
          | stream stream =>
              cases s.readStreams request with
              | none => simp [Value.asStream?]
              | some result =>
                  simp only [Value.asStream?, Option.bind_eq_bind, Option.bind_some]
                  split <;> simp [Value.type]

theorem getCasts_right (key : Bytes) : ∀ c ∈ s.getCasts key, c.Right := by
  intro c hc
  unfold getCasts at hc
  split at hc
  · cases hc
  · split at hc
    · cases hc
    · next htype =>
        rw [List.mem_singleton.mp hc]
        exact not_not.mp htype

theorem xaddCasts_right (key : Bytes) : ∀ c ∈ s.xaddCasts key, c.Right := by
  intro c hc
  unfold xaddCasts at hc
  split at hc
  · cases hc
  · split at hc
    · cases hc
    · next htype =>
        rw [List.mem_singleton.mp hc]
        exact not_not.mp htype

/-- What `setup` casts was cast by the read before it. -/
theorem setupCasts_subset (request : StreamsReadRequest) :
    s.setupCasts request ⊆ s.readCasts request := by
  intro c hc
  obtain ⟨part, hpart, hc⟩ := List.mem_flatMap.mp hc
  refine List.mem_flatMap.mpr ⟨part, hpart, ?_⟩
  split at hc
  · exact hc
  · cases hc

theorem xreadCasts_right {request : StreamsReadRequest} (h : s.NoStrings request)
    (blockMs : Option UInt64) : ∀ c ∈ s.xreadCasts request blockMs, c.Right := by
  intro c hc
  have hread := readCasts_right_iff.mpr h
  rcases List.mem_append.mp hc with hc | hc
  · exact hread c hc
  · split at hc
    · exact hread c (setupCasts_subset request hc)
    · cases hc

/-- A reader that has been answered leaves the requests of the others alone; its own is
gone. -/
theorem mem_unblock_handles {h x : StorageWait κ} (hx : x ∈ (s.unblock h).handles) :
    ∃ y ∈ s.handles, y.id = x.id ∧ (x.request = y.request ∨ x.request = []) := by
  have hmem : x ∈ s.handles.map fun y =>
      if y.id = h.id then { y with request := [], callback := none } else y := by
    unfold unblock at hx
    rw [release_handles] at hx
    split at hx
    · exact hx
    · exact List.mem_of_mem_filter hx
  obtain ⟨y, hy, rfl⟩ := List.mem_map.mp hmem
  refine ⟨y, hy, ?_⟩
  split
  · exact ⟨rfl, Or.inr rfl⟩
  · exact ⟨rfl, Or.inl rfl⟩

theorem NoStrings.congr {s' : Storage κ} (hvalues : s'.values = s.values)
    {request : StreamsReadRequest} (h : s.NoStrings request) : s'.NoStrings request := by
  intro part hpart value hvalue
  rw [hvalues] at hvalue
  exact h part hpart value hvalue

theorem wakeCasts_right {handles : List Nat} (h : s.ReadersNoStrings handles) :
    ∀ c ∈ wakeCasts handles s, c.Right := by
  induction handles generalizing s with
  | nil => simp [wakeCasts]
  | cons handle handles ih =>
      have hrest : s.ReadersNoStrings handles :=
        fun x hx hid => h x hx (List.mem_cons_of_mem _ hid)
      rw [wakeCasts]
      cases hlock : s.lock handle with
      | none => exact ih hrest
      | some w =>
          obtain ⟨hw, hid⟩ := mem_of_lock hlock
          have hread := readCasts_right_iff.mpr (h w hw (by simp [hid]))
          intro c hc
          rcases List.mem_append.mp hc with hc | hc
          · exact hread c hc
          · split at hc
            · next s' call hreply =>
                refine ih ?_ c hc
                obtain rfl : s.unblock w = s' := by
                  unfold reply at hreply
                  obtain ⟨result, -, hreply⟩ := Option.bind_eq_some_iff.mp hreply
                  cases hcallback : w.callback with
                  | none => simp [hcallback] at hreply
                  | some k =>
                      simp only [hcallback, Option.pure_def, Option.some.injEq,
                        Prod.mk.injEq] at hreply
                      exact hreply.1
                intro x hx hmem
                obtain ⟨y, hy, hyid, hrequest | hrequest⟩ := mem_unblock_handles hx
                · rw [hrequest]
                  exact (hrest y hy (hyid ▸ hmem)).congr (unblock_values w s)
                · rw [hrequest]
                  simp [NoStrings]
            · cases hc

theorem stepCasts_right {a : StorageAction κ} (h : s.Typed a) : ∀ c ∈ s.casts a, c.Right := by
  cases a with
  | restore key value expireTime => simp [casts]
  | set now key value expireMs => simp [casts]
  | type key => simp [casts]
  | keys => simp [casts]
  | get now key => exact getCasts_right key
  | xadd now key id values => exact xaddCasts_right key
  | xrange key leftId rightId => exact streamCasts_right_iff.mpr h
  | xread request blockMs callback => exact xreadCasts_right h blockMs
  | runJob =>
      simp only [casts]
      cases hjobs : s.onetimeJobs with
      | nil => simp
      | cons handles jobs =>
          refine wakeCasts_right fun x hx hid => NoStrings.congr rfl (h x hx ?_)
          simpa [hjobs] using hid
  | fire i =>
      simp only [casts]
      cases hjob : s.timeoutJobs[i]? with
      | none => simp
      | some job =>
          simp only
          split
          · next hvalid =>
              refine wakeCasts_right fun x hx hid => NoStrings.congr rfl (h x hx ?_)
              simpa [hjob, hvalid] using hid
          · simp

end Storage

/-! ## Runs -/

/-- A storage, and the casts that its operations have made.  A cast that is wrong is recorded
too, so that a run can be asked about it. -/
structure Casting (κ : Type) where
  storage : Storage κ := {}
  made : List Cast := []

namespace Casting

variable {κ : Type}

/-- One step. -/
def step (s : Casting κ) (a : StorageAction κ) : Option (Casting κ) :=
  (s.storage.step a).map fun storage => ⟨storage, s.made ++ s.storage.casts a⟩

/-- A storage that starts empty. -/
def machine (κ : Type) : Machine (Casting κ) (StorageAction κ) where
  init := {}
  step := step

/-- Strings are not where streams are read.  GET and XADD are not restricted: they look at the
type before they cast. -/
def Typed (s : Casting κ) (a : StorageAction κ) : Prop := s.storage.Typed a

instance (s : Casting κ) (a : StorageAction κ) : Decidable (s.Typed a) :=
  inferInstanceAs (Decidable (s.storage.Typed a))

/-- **Casts.**  As long as XRANGE and XREAD name no key that holds a string, and no reader
is answered while a key of its request holds one, every cast of a stored value, those of
the next operation included, is one to its own type. -/
theorem casts_right {s : Casting κ} (h : (machine κ).Reachable Typed s)
    {a : StorageAction κ} (ha : s.Typed a) : ∀ c ∈ s.made ++ s.storage.casts a, c.Right := by
  have hmade : ∀ c ∈ s.made, c.Right := by
    refine h.invariant (I := fun s => ∀ c ∈ s.made, c.Right) (by simp [machine])
      fun s a s' _ hs hallowed htaken => ?_
    obtain ⟨storage, -, rfl⟩ := Option.map_eq_some_iff.mp htaken
    intro c hc
    rcases List.mem_append.mp hc with hc | hc
    · exact hs c hc
    · exact Storage.stepCasts_right hallowed c hc
  intro c hc
  rcases List.mem_append.mp hc with hc | hc
  · exact hmade c hc
  · exact Storage.stepCasts_right ha c hc

/-- A reader blocks on a key that gets a string, and another key wakes it before. -/
theorem casts_right_blocked :
    let run := (machine Nat).run Typed (machine Nat).init
      [.xread [([107], { isNextExpected := true }), ([106], { isNextExpected := true })]
          (some 0) 0,
        .xadd 0 [106] { ms := 1 } [], .runJob, .set 0 [107] [118] none]
    ∃ h : run.isSome, ∀ c ∈ (run.get h).made ++ (run.get h).storage.casts (.get 0 [107]),
      c.Right :=
  ⟨by decide +kernel, casts_right (Machine.reachable_of_run (by decide +kernel)) trivial⟩

/-- XRANGE on a key that holds a string casts it to a stream. -/
theorem not_casts_right :
    ¬ ∀ (s : Casting Nat) (a : StorageAction Nat), (machine Nat).Reachable Anything s →
      ∀ c ∈ s.storage.casts a, c.Right := by
  intro h
  have hrun : ((machine Nat).run Anything (machine Nat).init
      [.set 0 [107] [118] none]).map (fun s => decide (∀ c ∈ s.storage.casts
        (.xread [([107], {})] none 0), c.Right)) = some false := by
    decide +kernel
  obtain ⟨s, hreached, hwrong⟩ := Option.map_eq_some_iff.mp hrun
  exact of_decide_eq_false hwrong (h s _ (Machine.Reachable.run .init hreached))

end Casting

end BuildYourOwnRedis
