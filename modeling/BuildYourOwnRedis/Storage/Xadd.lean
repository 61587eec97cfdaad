/-
  Storage/Xadd.lean --- when XADD fails, and that it then has changed nothing.

  `appendInPlace` and `xaddInPlace` follow the sources statement by statement: they work on
  the stored stream itself, or on a new one that is stored only if the append succeeded,
  and give what is left also where they fail.  `Storage.xadd` says in one piece what comes
  of it; `xadd_eq_inPlace` connects the two.
-/
import BuildYourOwnRedis.Storage.Append
import BuildYourOwnRedis.Storage.Storage

set_option autoImplicit false

namespace BuildYourOwnRedis

open Foundation

/-- The full id 0-0. -/
theorem InputStreamId.isNull_iff (inId : InputStreamId) :
    inId.isNull = true ↔ inId.isFullDefined = true ∧ inId.toStreamId = {} := by
  unfold InputStreamId.isNull StreamId.isNull
  cases inId with
  | mk id _ _ => cases id; simp

namespace StreamValue

/-- `StreamValue::append`: the returned tuple, and the stream afterwards. -/
def appendInPlace (now : Timepoint) (inId : InputStreamId) (values : StreamPartValue)
    (stream : StreamValue) : (StreamId × Option StreamErrorType) × StreamValue :=
  if inId.isNull then (({}, some .mustBeNotZeroId), stream)
  else
    let id := match stream.data.last? with
      | some (lastId, _) => nextId now inId lastId
      | none => .ok (firstId now inId)
    match id with
    | .error e => (({}, some e), stream)
    | .ok id => ((id, none), { data := stream.data.emplace id values })

/-- An append that succeeded, and one that failed. -/
theorem appendInPlace_eq (now : Timepoint) (inId : InputStreamId) (values : StreamPartValue)
    (stream : StreamValue) :
    stream.appendInPlace now inId values =
      match stream.append now inId values with
      | .error e => (({}, some e), stream)
      | .ok (id, stream') => ((id, none), stream') := by
  unfold appendInPlace append
  split
  · rfl
  · cases stream.data.last? with
    | none => rfl
    | some last => cases hnext : nextId now inId last.1 <;> simp [hnext]

/-- The id is not behind the last entry, as far as the caller has fixed it. -/
def NotAbove (inId : InputStreamId) (lastId : StreamId) : Prop :=
  inId.isFullDefined = true ∧ inId.toStreamId ≤ lastId ∨
    inId.generalWildcard = false ∧ inId.idWildcard = true ∧ inId.ms < lastId.ms

/-- There is a next id unless the fixed part is too small, and there is only one error. -/
theorem nextId_error_iff {now : Timepoint} {inId : InputStreamId} {lastId : StreamId}
    {e : StreamErrorType} :
    nextId now inId lastId = .error e ↔ e = .mustBeMoreThanTop ∧ NotAbove inId lastId := by
  have hle : inId.toStreamId ≤ lastId ↔
      inId.ms < lastId.ms ∨ inId.ms = lastId.ms ∧ inId.id ≤ lastId.id := by
    rw [← not_lt, StreamId.lt_iff_toNat, UInt64.lt_iff_toNat_lt, ← UInt64.toNat_inj,
      UInt64.le_iff_toNat_le]
    omega
  unfold nextId NotAbove
  rw [hle]
  cases hgeneral : inId.generalWildcard with
  | true =>
      simp only [if_true, InputStreamId.isFullDefined, hgeneral]
      split <;> simp
  | false =>
      cases hwildcard : inId.idWildcard with
      | true =>
          simp only [InputStreamId.isFullDefined, hgeneral, hwildcard]
          grind
      | false =>
          simp only [InputStreamId.isFullDefined, hgeneral, hwildcard]
          grind

/-- **Failing appends.**  The id 0-0 is refused, then one that is not behind the last; which of
the two errors it is depends on nothing else. -/
theorem append_error_iff {now : Timepoint} {inId : InputStreamId} {values : StreamPartValue}
    {stream : StreamValue} {e : StreamErrorType} :
    stream.append now inId values = .error e ↔
      inId.isNull = true ∧ e = .mustBeNotZeroId ∨
      inId.isNull = false ∧ e = .mustBeMoreThanTop ∧
        ∃ last ∈ stream.data.last?, NotAbove inId last.1 := by
  unfold append
  cases hnull : inId.isNull with
  | true => simp [eq_comm]
  | false =>
      cases hlast : stream.data.last? with
      | none => simp
      | some last =>
          have hnext := @nextId_error_iff now inId last.1 e
          cases hid : nextId now inId last.1 with
          | error e' =>
              rw [hid] at hnext
              simpa [hid] using hnext
          | ok id =>
              rw [hid] at hnext
              simpa [hid] using hnext

end StreamValue

namespace Storage

variable {κ : Type}

/-- The part of `Storage::xadd` behind the append: the readers that wait for this key now
are to be woken by a job. -/
def postWake (key : Bytes) (s : Storage κ) : Storage κ :=
  { s with onetimeJobs := s.onetimeJobs ++ [s.waitList key] }

/-- `Storage::xadd`: the returned tuple, and the storage afterwards. -/
def xaddInPlace (now : Timepoint) (key : Bytes) (id : InputStreamId)
    (values : StreamPartValue) (s : Storage κ) :
    (StreamId × Option StreamErrorType) × Storage κ :=
  match s.values.lookup key with
  | some (.string _) => (({}, some .wrongKeyType), s)
  | some (.stream stored) =>
      let (result, stored) := stored.appendInPlace now id values
      let s : Storage κ := { s with values := s.values.replace key (.stream stored) }
      (result, if result.2 = none then s.postWake key else s)
  | none =>
      let (result, ptr) := ({} : StreamValue).appendInPlace now id values
      if result.2 = none then
        let s : Storage κ := { s with values := s.values.insert key (.stream ptr) }
        (result, s.postWake key)
      else (result, s)

theorem dlookup_kreplace {key : Bytes} {values : List (Sigma fun _ : Bytes => Value)}
    (h : key ∈ values.keys) (value : Value) (key' : Bytes) :
    (values.kreplace key value).dlookup key' =
      if key' = key then some value else values.dlookup key' := by
  induction values with
  | nil => cases h
  | cons entry values ih =>
      obtain ⟨k, v⟩ := entry
      rw [List.keys_cons, List.mem_cons] at h
      by_cases hfirst : key = k
      · subst hfirst
        have hhead : (⟨key, v⟩ :: values : List (Sigma fun _ : Bytes => Value)).kreplace key value =
            ⟨key, value⟩ :: values := List.lookmap_cons_some _ _ (if_pos rfl)
        rw [hhead]
        by_cases hkey : key' = key
        · subst hkey
          simp
        · rw [List.dlookup_cons_ne _ _ hkey, List.dlookup_cons_ne _ _ hkey, if_neg hkey]
      · have hhead : (⟨k, v⟩ :: values : List (Sigma fun _ : Bytes => Value)).kreplace key value =
            ⟨k, v⟩ :: values.kreplace key value := List.lookmap_cons_none _ _ (if_neg hfirst)
        have hrest := ih (h.resolve_left hfirst)
        rw [hhead]
        by_cases hk : key' = k
        · subst hk
          rw [List.dlookup_cons_eq, List.dlookup_cons_eq, if_neg (Ne.symm hfirst)]
        · rw [List.dlookup_cons_ne _ _ hk, List.dlookup_cons_ne _ _ hk, hrest]

/-- A value is replaced at its key. -/
theorem lookup_replace {key : Bytes} {stored : Value} {values : AList fun _ : Bytes => Value}
    (h : values.lookup key = some stored) (value : Value) (key' : Bytes) :
    (values.replace key value).lookup key' =
      if key' = key then some value else values.lookup key' :=
  dlookup_kreplace (List.dlookup_isSome.mp (Option.isSome_of_eq_some h)) value key'

theorem replace_self {key : Bytes} {value : Value} {s : AList fun _ : Bytes => Value}
    (h : s.lookup key = some value) : s.replace key value = s :=
  AList.ext (List.kreplace_self s.nodupKeys (List.of_mem_dlookup h))

/-! ## What it does -/

/-- The stored stream is changed only by an append that succeeds; a new stream is stored only
then, too. -/
theorem xaddInPlace_eq (now : Timepoint) (key : Bytes) (id : InputStreamId)
    (values : StreamPartValue) (s : Storage κ) :
    (∃ e, s.xaddInPlace now key id values = (({}, some e), s) ∧
      s.xaddValues now key id values = .error e) ∨
    ∃ added stream stored, s.xaddInPlace now key id values =
        ((added, none), { s with values := stored }.postWake key) ∧
      s.xaddValues now key id values = .ok (added, s.values.insert key (.stream stream)) ∧
      ∀ key', stored.lookup key' = (s.values.insert key (.stream stream)).lookup key' := by
  unfold xaddInPlace xaddValues storedStream
  cases hlookup : s.values.lookup key with
  | none =>
      simp only [StreamValue.appendInPlace_eq]
      cases happend : ({} : StreamValue).append now id values with
      | error e => exact Or.inl ⟨e, rfl, rfl⟩
      | ok p =>
          exact Or.inr ⟨p.1, p.2, s.values.insert key (.stream p.2), rfl, rfl,
            fun _ => rfl⟩
  | some value =>
      cases value with
      | string str => exact Or.inl ⟨.wrongKeyType, rfl, rfl⟩
      | stream stored =>
          simp only [StreamValue.appendInPlace_eq]
          cases happend : stored.append now id values with
          | error e =>
              refine Or.inl ⟨e, ?_, rfl⟩
              simp [replace_self hlookup]
          | ok p =>
              refine Or.inr ⟨p.1, p.2, s.values.replace key (.stream p.2), rfl,
                rfl, fun key' => ?_⟩
              rw [lookup_replace hlookup]
              by_cases hkey : key' = key
              · subst hkey
                simp
              · rw [if_neg hkey, AList.lookup_insert_ne hkey]

/-- The storage model and the functions with the map changed in place say the same: the same
answer, the same contents, the same job. -/
theorem xadd_eq_inPlace (now : Timepoint) (key : Bytes) (id : InputStreamId)
    (values : StreamPartValue) (s : Storage κ) :
    let r := s.xaddInPlace now key id values
    (s.xadd now key id values).1 = (match r.1.2 with | some e => .error e | none => .ok r.1.1) ∧
      (∀ key', (s.xadd now key id values).2.values.lookup key' = r.2.values.lookup key') ∧
      (s.xadd now key id values).2 =
        { r.2 with values := (s.xadd now key id values).2.values } := by
  unfold xadd
  rcases xaddInPlace_eq now key id values s with ⟨e, hplace, hvalues⟩ |
    ⟨added, stream, stored, hplace, hvalues, hlookup⟩
  · simp [hplace, hvalues]
  · simp [hplace, hvalues, hlookup, postWake, waitList]

/-- The key holds a value that is not a stream. -/
def HoldsOther (key : Bytes) (s : Storage κ) : Prop :=
  ∃ value, s.values.lookup key = some value ∧ value.type ≠ .stream

/-- When XADD has to fail: the value is of another type, then the id is 0-0, then the id
is not behind the last one of the stream. -/
structure FailsExactly (key : Bytes) (id : InputStreamId) (s : Storage κ)
    (error : Option StreamErrorType) : Prop where
  wrongKeyType : error = some .wrongKeyType ↔ s.HoldsOther key
  mustBeNotZeroId : ¬ s.HoldsOther key →
    (error = some .mustBeNotZeroId ↔ id.isFullDefined = true ∧ id.toStreamId = ⟨0, 0⟩)
  mustBeMoreThanTop : ¬ s.HoldsOther key →
    ¬ (id.isFullDefined = true ∧ id.toStreamId = ⟨0, 0⟩) →
    (error = some .mustBeMoreThanTop ↔ ∃ stream last,
      s.values.lookup key = some (.stream stream) ∧ stream.data.last? = some last ∧
        StreamValue.NotAbove id last.1)

/-- What XADD leaves alone where it succeeds, and the one job that it posts: for the handles
that are in the wait list of the key at this time. -/
structure WakesKey (key : Bytes) (s s' : Storage κ) : Prop where
  others : ∀ key', key' ≠ key → s'.values.lookup key' = s.values.lookup key'
  job : s'.onetimeJobs = s.onetimeJobs ++ [s.waitList key]
  nodes : s'.nodes = s.nodes
  handles : s'.handles = s.handles
  timeouts : s'.timeoutJobs = s.timeoutJobs

theorem xaddInPlace_error_iff {now : Timepoint} {key : Bytes} {id : InputStreamId}
    {values : StreamPartValue} {s : Storage κ} {e : StreamErrorType} :
    (s.xaddInPlace now key id values).1.2 = some e ↔
      s.xaddValues now key id values = .error e := by
  rcases xaddInPlace_eq now key id values s with ⟨e', hplace, hvalues⟩ |
    ⟨added, stream, stored, hplace, hvalues, -⟩
  · simp [hplace, hvalues]
  · simp [hplace, hvalues]

theorem failsExactly (now : Timepoint) (key : Bytes) (id : InputStreamId)
    (values : StreamPartValue) (s : Storage κ) :
    s.FailsExactly key id (s.xaddInPlace now key id values).1.2 := by
  have hnull := id.isNull_iff
  have hvalues : ∀ stream, s.storedStream key = .ok stream → ∀ e,
      s.xaddValues now key id values = .error e ↔ stream.append now id values = .error e := by
    intro stream hstream e
    rw [xaddValues, hstream]
    cases happend : stream.append now id values <;> simp [happend]
  cases hlookup : s.values.lookup key with
  | none =>
      have hother : ¬ s.HoldsOther key := by simp [HoldsOther, hlookup]
      have hstream : s.storedStream key = .ok {} := by simp [storedStream, hlookup]
      refine ⟨?_, fun _ => ?_, fun _ hfull => ?_⟩
      · simp [xaddInPlace_error_iff, hvalues _ hstream, StreamValue.append_error_iff, hother]
      · simp [xaddInPlace_error_iff, hvalues _ hstream, StreamValue.append_error_iff, hnull]
      · simp [xaddInPlace_error_iff, hvalues _ hstream, StreamValue.append_error_iff,
          SortedMap.last?, SortedMap.empty, hlookup]
  | some value =>
      cases value with
      | string str =>
          have hother : s.HoldsOther key := ⟨_, hlookup, by simp [Value.type]⟩
          refine ⟨?_, fun h => absurd hother h, fun h => absurd hother h⟩
          simp [xaddInPlace_error_iff, xaddValues, storedStream, hlookup, hother]
      | stream stream =>
          have hother : ¬ s.HoldsOther key := by simp [HoldsOther, hlookup, Value.type]
          have hstream : s.storedStream key = .ok stream := by simp [storedStream, hlookup]
          refine ⟨?_, fun _ => ?_, fun _ hfull => ?_⟩
          · simp [xaddInPlace_error_iff, hvalues _ hstream, StreamValue.append_error_iff, hother]
          · simp [xaddInPlace_error_iff, hvalues _ hstream, StreamValue.append_error_iff, hnull]
          · have hnotNull : id.isNull = false := Bool.eq_false_iff.mpr fun h => hfull (hnull.mp h)
            simp [xaddInPlace_error_iff, hvalues _ hstream, StreamValue.append_error_iff,
              hnotNull, hlookup]

/-- **A failing XADD.**  It fails exactly when it should and then nothing has changed; where it
succeeds, the other keys are as before and one job is posted, for the readers that wait for the
key.  The two functions are followed statement by statement, with the map and the wait lists
changed in place. -/
theorem xadd_exact (now : Timepoint) (key : Bytes) (id : InputStreamId)
    (values : StreamPartValue) (s : Storage κ) :
    let r := s.xaddInPlace now key id values
    s.FailsExactly key id r.1.2 ∧ (r.1.2 ≠ none → r.2 = s) ∧
      (r.1.2 = none → s.WakesKey key r.2) := by
  refine ⟨failsExactly now key id values s, ?_, ?_⟩
  · rcases xaddInPlace_eq now key id values s with ⟨e, hplace, -⟩ | ⟨_, _, _, hplace, -, -⟩
    · simp [hplace]
    · simp [hplace]
  · rcases xaddInPlace_eq now key id values s with ⟨e, hplace, -⟩ |
      ⟨added, stream, stored, hplace, -, hlookup⟩
    · simp [hplace]
    · rw [hplace]
      refine fun _ => ⟨fun key' hkey => ?_, rfl, rfl, rfl, rfl⟩
      exact (hlookup key').trans (AList.lookup_insert_ne hkey)

end Storage

end BuildYourOwnRedis
