/-
  Storage/Consumer.lean --- a consumer that follows one stream with XREAD.

  It starts from `0-0` and asks each time for what is behind the last entry it got, by the
  printed form of that id.  The entries whose XADD succeeded are recorded beside the
  storage.  An entry 0-0 can never be read in this way; the other branches of `append`
  do not make one, but `*` does on a new stream in the first millisecond of the clock.
-/
import BuildYourOwnRedis.Foundation.Transition
import BuildYourOwnRedis.Storage.Append
import BuildYourOwnRedis.Storage.Blocking

set_option autoImplicit false

namespace BuildYourOwnRedis

open Foundation

/-! ## XADD on a stream -/

namespace Storage

variable {κ : Type}

/-- An XADD that succeeds has appended to the stream at its key. -/
theorem xadd_ok {now : Timepoint} {key : Bytes} {inId : InputStreamId}
    {values : StreamPartValue} {s s' : Storage κ} {id : StreamId}
    (h : s.xadd now key inId values = (.ok id, s')) :
    ∃ stream stream', s.storedStream key = .ok stream ∧
      stream.append now inId values = .ok (id, stream') ∧
      s'.values = s.values.insert key (.stream stream') := by
  unfold xadd at h
  cases hvalues : s.xaddValues now key inId values with
  | error e => simp [hvalues] at h
  | ok p =>
      obtain ⟨added, stored⟩ := p
      rw [hvalues] at h
      obtain ⟨hid, rfl⟩ := Prod.mk.inj h
      obtain rfl := Except.ok.inj hid
      unfold xaddValues at hvalues
      cases hstream : s.storedStream key with
      | error e => simp [hstream] at hvalues
      | ok stream =>
          simp only [hstream] at hvalues
          cases happend : stream.append now inId values with
          | error e => simp [happend] at hvalues
          | ok q =>
              obtain ⟨id', stream'⟩ := q
              simp only [happend] at hvalues
              obtain ⟨rfl, rfl⟩ := Prod.mk.inj (Except.ok.inj hvalues)
              exact ⟨stream, stream', rfl, happend, rfl⟩

theorem xadd_error {now : Timepoint} {key : Bytes} {inId : InputStreamId}
    {values : StreamPartValue} {s s' : Storage κ} {e : StreamErrorType}
    (h : s.xadd now key inId values = (.error e, s')) : s' = s := by
  unfold xadd at h
  cases hvalues : s.xaddValues now key inId values with
  | error e' =>
      rw [hvalues] at h
      exact (Prod.mk.inj h).2.symm
  | ok p => simp [hvalues] at h

/-- The stream that XADD would append to has no sequence number left. -/
def Wraps (now : Timepoint) (key : Bytes) (inId : InputStreamId) (s : Storage κ) : Prop :=
  match s.storedStream key with
  | .ok stream => stream.Wraps now inId
  | .error _ => False

instance (now : Timepoint) (key : Bytes) (inId : InputStreamId) (s : Storage κ) :
    Decidable (s.Wraps now key inId) :=
  match h : s.storedStream key with
  | .ok stream => decidable_of_iff (stream.Wraps now inId) (by simp [Wraps, h])
  | .error _ => isFalse (by simp [Wraps, h])

/-- Where nothing is stored an id 0-0 would be generated. -/
def StartsAtZero (now : Timepoint) (key : Bytes) (inId : InputStreamId) (s : Storage κ) :
    Prop :=
  s.values.lookup key = none ∧ inId.generalWildcard = true ∧
    StreamValue.milliseconds now = 0

instance (now : Timepoint) (key : Bytes) (inId : InputStreamId) (s : Storage κ) :
    Decidable (s.StartsAtZero now key inId) := inferInstanceAs (Decidable (_ ∧ _))

theorem entriesAt_of_storedStream {key : Bytes} {s : Storage κ} {stream : StreamValue}
    (h : s.storedStream key = .ok stream) :
    Values.entriesAt s.values key = stream.data.entries := by
  unfold storedStream at h
  unfold Values.entriesAt
  cases hlookup : s.values.lookup key with
  | none =>
      rw [hlookup] at h
      obtain rfl := Except.ok.inj h
      rfl
  | some value =>
      rw [hlookup] at h
      cases value with
      | string str => cases h
      | stream stream' =>
          obtain rfl := Except.ok.inj h
          rfl

end Storage

/-- The first id is 0-0 where the caller has written it or the clock stands at zero. -/
theorem StreamValue.firstId_pos {now : Timepoint} {inId : InputStreamId}
    (hnull : inId.isNull = false)
    (hclock : ¬ (inId.generalWildcard = true ∧ milliseconds now = 0)) :
    ({} : StreamId) < firstId now inId := by
  have hpos : ∀ n : UInt64, n ≠ 0 → 0 < n := fun n hn => UInt64.pos_iff_ne_zero.mpr hn
  unfold firstId
  cases hgeneral : inId.generalWildcard with
  | true =>
      simp only [if_true]
      exact lt_of_ms_lt (hpos _ fun hzero => hclock ⟨hgeneral, hzero⟩)
  | false =>
      simp only [Bool.false_eq_true, if_false]
      split
      · split
        · exact Or.inr ⟨rfl, by decide⟩
        · next hms => exact lt_of_ms_lt (hpos _ hms)
      · next hwildcard =>
          have hfull : inId.isFullDefined = true := by
            simpa [InputStreamId.isFullDefined, hgeneral] using hwildcard
          by_cases hms : inId.ms = 0
          · refine Or.inr ⟨hms.symm, hpos _ fun hid => ?_⟩
            simp [InputStreamId.isNull, hfull, StreamId.isNull, hms, hid] at hnull
          · exact lt_of_ms_lt (hpos _ hms)

/-! ## The consumer -/

/-- A storage, and a consumer of one of its streams: it starts at 0-0 and passes the last id it
has received to the next XREAD.  Others add entries, set strings and ask for them meanwhile. -/
structure Consumer where
  storage : Storage Unit
  /-- The id that the next XREAD passes. -/
  lastId : Bytes := ascii "0-0"
  received : StreamRange := []
  /-- Recorded: the entries whose XADD succeeded, in order. -/
  appended : StreamRange := []

/-- XADD, SET and GET on any key, and the next XREAD of the consumer. -/
inductive ConsumerAction where
  | xadd (now : Timepoint) (key : Bytes) (inId : InputStreamId) (values : StreamPartValue)
  | set (now : Timepoint) (key value : Bytes) (expireMs : Option Int)
  | get (now : Timepoint) (key : Bytes)
  | xread
  deriving DecidableEq

/-- The id of the last entry, or 0-0. -/
def lastIdOf (entries : StreamRange) : StreamId := (entries.getLast?.map Prod.fst).getD {}

namespace Consumer

/-- The consumer gets the answer to an XREAD. -/
def receive (entries : StreamRange) (s : Consumer) : Consumer :=
  { s with
    received := s.received ++ entries
    lastId := match entries.getLast? with
      | some last => last.1.toString
      | none => s.lastId }

/-- One step, for a consumer of the stream at `key`. -/
def step (key : Bytes) (s : Consumer) : ConsumerAction → Option Consumer
  | .xadd now key' inId values =>
      match s.storage.xadd now key' inId values with
      | (.error _, storage) => some { s with storage := storage }
      | (.ok id, storage) => some { s with
          storage := storage
          appended := if key' = key then s.appended ++ [(id, values)] else s.appended }
  | .set now key' value expireMs =>
      some { s with storage := s.storage.set now key' value expireMs }
  | .get now key' => some { s with storage := (s.storage.get now key').2 }
  | .xread =>
      match ReadStreamId.fromString s.lastId with
      | .error _ => none
      | .ok id => do
          let (storage, calls) ← s.storage.xread [(key, id)] none ()
          return { s with storage := storage }.receive
            (calls.flatMap fun call : Storage.Call Unit => call.2.flatMap Prod.snd)

/-- A consumer that comes to this storage. -/
def machine (storage : Storage Unit) (key : Bytes) : Machine Consumer ConsumerAction where
  init := { storage := storage }
  step := step key

/-- What is taken for granted: the clock is past the epoch, sequence numbers do not wrap,
and no SET hits the key. -/
def Assumed (key : Bytes) (s : Consumer) : ConsumerAction → Prop
  | .xadd now key' inId _ => key' = key → 0 < now ∧ ¬ s.storage.Wraps now key inId
  | .set _ key' _ _ => key' ≠ key
  | _ => True

/-- Besides, no `*` makes a new stream while the clock shows less than a millisecond.  That
entry would have the id 0-0, at which the consumer starts. -/
def Timely (key : Bytes) (s : Consumer) (a : ConsumerAction) : Prop :=
  s.Assumed key a ∧
    match a with
    | .xadd now key' inId _ => key' = key → ¬ s.storage.StartsAtZero now key inId
    | _ => True

instance (key : Bytes) (s : Consumer) (a : ConsumerAction) : Decidable (s.Assumed key a) := by
  unfold Assumed
  split <;> infer_instance

instance (key : Bytes) (s : Consumer) (a : ConsumerAction) : Decidable (s.Timely key a) := by
  unfold Timely
  split <;> infer_instance

/-! ## The invariant -/

/-- What holds along every run: the stream holds exactly the entries that were appended, all
above 0-0, and the consumer has received the first of them and knows the id of the last of
these. -/
structure Inv (key : Bytes) (s : Consumer) : Prop where
  entries : Values.entriesAt s.storage.values key = s.appended
  stream : ∀ value, s.storage.values.lookup key = some value →
    s.appended ≠ [] ∧ ∃ stream, value = .stream stream
  positive : ∀ entry ∈ s.appended, ({} : StreamId) < entry.1
  lastId : s.lastId = (lastIdOf s.received).toString
  seen : s.received <+: s.appended

variable {key : Bytes} {s s' : Consumer}

/-- What only concerns other keys. -/
theorem Inv.other {storage : Storage Unit} (hs : s.Inv key)
    (hlookup : storage.values.lookup key = s.storage.values.lookup key) :
    Inv key { s with storage := storage } := by
  refine ⟨?_, ?_, hs.positive, hs.lastId, hs.seen⟩
  · simpa [Values.entriesAt, hlookup] using hs.entries
  · simpa [hlookup] using hs.stream

/-- A stream that is stored goes through GET as it is. -/
theorem lookup_get {κ : Type} {storage : Storage κ} (now : Timepoint) (key' : Bytes)
    (h : ∀ value, storage.values.lookup key = some value → ∃ stream, value = .stream stream) :
    (storage.get now key').2.values.lookup key = storage.values.lookup key := by
  unfold Storage.get
  cases hlookup : storage.values.lookup key' with
  | none => rfl
  | some value =>
      cases value with
      | stream stream => rfl
      | string str =>
          have hne : key ≠ key' := by
            rintro rfl
            obtain ⟨stream, hstream⟩ := h _ hlookup
            cases hstream
          simp only
          split
          · exact AList.lookup_erase_ne hne
          · rfl

theorem Inv.xadd (hs : s.Inv key) {now : Timepoint} {inId : InputStreamId}
    {values : StreamPartValue} {id : StreamId} {storage : Storage Unit}
    (hwraps : ¬ s.storage.Wraps now key inId)
    (hzero : ¬ s.storage.StartsAtZero now key inId)
    (h : s.storage.xadd now key inId values = (.ok id, storage)) :
    Inv key { s with storage := storage, appended := s.appended ++ [(id, values)] } := by
  obtain ⟨stream, stream', hstored, happend, hvalues⟩ := Storage.xadd_ok h
  have hbefore : stream.data.entries = s.appended := by
    rw [← Storage.entriesAt_of_storedStream hstored, hs.entries]
  have hputs : StreamValue.PutsLast inId values id stream stream' := by
    refine (StreamValue.append_putsLast_iff happend).mpr fun hwrap => hwraps ?_
    rw [Storage.Wraps, hstored]
    exact hwrap
  have hid : ({} : StreamId) < id := by
    obtain ⟨hnull, -, ⟨hlast, rfl⟩ | ⟨last, hlast, -⟩⟩ := StreamValue.append_cases happend
    · have hempty : s.appended = [] := by
        rw [← hbefore]
        exact List.getLast?_eq_none_iff.mp hlast
      have habsent : s.storage.values.lookup key = none := by
        cases hlookup : s.storage.values.lookup key with
        | none => rfl
        | some value => exact absurd hempty (hs.stream value hlookup).1
      exact StreamValue.firstId_pos hnull fun hclock => hzero ⟨habsent, hclock⟩
    · have hmem := List.mem_of_getLast? hlast
      exact lt_trans (hs.positive last (hbefore ▸ hmem)) (hputs.above last hmem)
  have hlookup : storage.values.lookup key = some (.stream stream') := by
    rw [hvalues, AList.lookup_insert]
  refine ⟨?_, ?_, ?_, hs.lastId, hs.seen.trans (List.prefix_append _ _)⟩
  · simp [Values.entriesAt, hlookup, hputs.entries, hbefore]
  · intro value hvalue
    rw [hlookup] at hvalue
    exact ⟨by simp, stream', (Option.some.inj hvalue).symm⟩
  · intro entry hentry
    rcases List.mem_append.mp hentry with hentry | hentry
    · exact hs.positive entry hentry
    · rwa [List.mem_singleton.mp hentry]

/-- Behind the last entry that was received lies what was not received. -/
theorem filter_lastIdOf {received appended : StreamRange}
    (hsorted : appended.Pairwise fun x y => x.1 < y.1)
    (hpositive : ∀ entry ∈ appended, ({} : StreamId) < entry.1)
    (hseen : received <+: appended) :
    received ++ appended.filter (fun entry => lastIdOf received < entry.1) = appended := by
  obtain ⟨rest, rfl⟩ := hseen
  obtain ⟨hreceived, -, hbehind⟩ := List.pairwise_append.mp hsorted
  rw [List.filter_append]
  have hold : (received.filter fun entry => lastIdOf received < entry.1) = [] := by
    refine List.filter_eq_nil_iff.mpr fun entry hentry => ?_
    rcases List.eq_nil_or_concat received with rfl | ⟨front, last, rfl⟩
    · cases hentry
    · simp only [List.concat_eq_append] at hentry hreceived ⊢
      simp only [lastIdOf, List.getLast?_concat, Option.map_some, Option.getD_some,
        decide_eq_true_eq, not_lt]
      rcases List.mem_append.mp hentry with hentry | hentry
      · exact le_of_lt ((List.pairwise_append.mp hreceived).2.2 entry hentry last (by simp))
      · rw [List.mem_singleton.mp hentry]
  have hnew : (rest.filter fun entry => lastIdOf received < entry.1) = rest := by
    refine List.filter_eq_self.mpr fun entry hentry => decide_eq_true ?_
    rcases List.eq_nil_or_concat received with rfl | ⟨front, last, rfl⟩
    · exact hpositive entry (by simpa using hentry)
    · simp only [List.concat_eq_append] at hbehind ⊢
      simp only [lastIdOf, List.getLast?_concat, Option.map_some, Option.getD_some]
      exact hbehind last (by simp) entry hentry
  rw [hold, hnew, List.nil_append]

theorem lastIdOf_append (xs ys : StreamRange) :
    lastIdOf (xs ++ ys) = match ys.getLast? with
      | some last => last.1
      | none => lastIdOf xs := by
  rcases List.eq_nil_or_concat ys with rfl | ⟨front, last, rfl⟩
  · simp
  · simp [lastIdOf, ← List.append_assoc]

/-- The consumer has everything after a read. -/
theorem Inv.xread (hs : s.Inv key) :
    ∃ s', s.step key .xread = some s' ∧ s'.Inv key ∧ s'.received = s'.appended := by
  have hparse := ReadStreamId.fromString_toString (lastIdOf s.received)
  have hsorted := Values.pairwise_entriesAt s.storage.values key
  rw [hs.entries] at hsorted
  have hrest := filter_lastIdOf hsorted hs.positive hs.seen
  let rest := s.appended.filter fun entry => lastIdOf s.received < entry.1
  have hread : ∃ result, s.storage.readStreams
      [(key, { toStreamId := lastIdOf s.received })] = some result ∧
      result.flatMap Prod.snd = rest := by
    cases hlookup : s.storage.values.lookup key with
    | none =>
        have hempty : s.appended = [] := by
          rw [← hs.entries, Values.entriesAt, hlookup]
        exact ⟨[], by simp [Storage.readStreams, hlookup], by simp [rest, hempty]⟩
    | some value =>
        obtain ⟨-, stream, rfl⟩ := hs.stream value hlookup
        have hentries : stream.data.entries = s.appended := by
          rw [← hs.entries, Values.entriesAt, hlookup]
        have hbehind := @StreamValue.xread_eq_filter
          { toStreamId := lastIdOf s.received } rfl stream
        rw [hentries] at hbehind
        simp only [Storage.readStreams, hlookup, Value.asStream?, Option.bind_eq_bind,
          Option.bind_some, hbehind]
        split
        · next hnil => exact ⟨[], rfl, hnil.symm⟩
        · exact ⟨_, rfl, by simp [rest]⟩
  obtain ⟨result, hresult, hentries⟩ := hread
  refine ⟨s.receive rest, ?_, ⟨hs.entries, hs.stream, hs.positive, ?_, ?_⟩, hrest⟩
  · rw [← hs.lastId] at hparse
    simp only [Consumer.step, hparse, Storage.xread, hresult, hentries,
      Option.bind_eq_bind, Option.bind_some, Option.pure_def, List.flatMap_cons,
      List.flatMap_nil, List.append_nil]
  · rw [receive, lastIdOf_append]
    cases rest.getLast? with
    | none => exact hs.lastId
    | some last => rfl
  · exact ⟨[], by simpa [receive] using hrest⟩

theorem Inv.step {a : ConsumerAction} (hs : s.Inv key) (hallowed : s.Timely key a)
    (h : s.step key a = some s') : s'.Inv key := by
  cases a with
  | xread =>
      obtain ⟨s₁, hread, hinv, -⟩ := hs.xread
      obtain rfl := Option.some.inj (hread.symm.trans h)
      exact hinv
  | get now key' =>
      obtain rfl := Option.some.inj h
      exact hs.other (lookup_get now key' fun value hvalue => (hs.stream value hvalue).2)
  | set now key' value expireMs =>
      obtain rfl := Option.some.inj h
      refine hs.other (AList.lookup_insert_ne (Ne.symm ?_))
      exact hallowed.1
  | xadd now key' inId values =>
      rw [Consumer.step] at h
      rcases hadd : s.storage.xadd now key' inId values with ⟨e | id, storage⟩
      · rw [hadd] at h
        obtain rfl := Option.some.inj h
        rw [Storage.xadd_error hadd]
        exact hs
      · rw [hadd] at h
        obtain rfl := Option.some.inj h
        by_cases hkey : key' = key
        · subst hkey
          simp only [if_true]
          exact hs.xadd (hallowed.1 rfl).2 (hallowed.2 rfl) hadd
        · simp only [hkey, if_false]
          obtain ⟨-, stream', -, -, hvalues⟩ := Storage.xadd_ok hadd
          refine hs.other ?_
          rw [hvalues, AList.lookup_insert_ne (Ne.symm hkey)]

/-- **A consumer sees every entry exactly once.**  As long as no `*` makes the stream in
the first millisecond of the clock, right after each read the consumer has received
exactly the entries that were appended, in their order. -/
theorem received_eq_appended {storage : Storage Unit}
    (habsent : storage.values.lookup key = none)
    (h : (machine storage key).Reachable (Timely key) s) :
    ∃ s', s.step key .xread = some s' ∧ s'.received = s'.appended := by
  have hinv : s.Inv key := by
    refine h.invariant ?_ fun s a s' _ hs hallowed htaken => hs.step hallowed htaken
    have hzero : ascii "0-0" = (lastIdOf []).toString := by decide +kernel
    refine ⟨?_, ?_, by simp [machine], hzero, List.nil_prefix⟩
    · simp [machine, Values.entriesAt, habsent]
    · simp [machine, habsent]
  obtain ⟨s', hread, -, heq⟩ := hinv.xread
  exact ⟨s', hread, heq⟩

/-- Generated and partial ids, with a read between them. -/
theorem received_eq_appended_interleaved :
    let run := (machine {} [107]).run (Timely [107]) (machine {} [107]).init
      [.xadd (5 * 10 ^ 6) [107] { generalWildcard := true } [([102], [49])], .xread,
        .xadd (4 * 10 ^ 6) [107] { generalWildcard := true } [([102], [50])],
        .xadd 1 [107] { ms := 7, idWildcard := true } [([102], [51])]]
    ∃ h : run.isSome, ∃ s', (run.get h).step [107] .xread = some s' ∧
      s'.received = s'.appended :=
  ⟨by decide +kernel, received_eq_appended rfl (Machine.reachable_of_run (by decide +kernel))⟩

/-- A `*` at the time 0 makes the entry 0-0, and a consumer that starts at 0-0 never gets it.
-/
theorem not_received_eq_appended :
    ¬ ∀ (storage : Storage Unit) (key : Bytes) (s s' : Consumer),
      storage.values.lookup key = none → (machine storage key).Reachable (Assumed key) s →
      s.step key .xread = some s' → s'.received = s'.appended := by
  intro h
  have hrun : (((machine {} [107]).run (Assumed [107]) (machine {} [107]).init
      [.xadd 1 [107] { generalWildcard := true } [([102], [49])]]).bind fun s =>
        (s.step [107] .xread).map fun s' => decide (s'.received.length = s'.appended.length)) =
      some false := by
    decide +kernel
  obtain ⟨s, hreached, hread⟩ := Option.bind_eq_some_iff.mp hrun
  obtain ⟨s', hread, hlength⟩ := Option.map_eq_some_iff.mp hread
  have heq := h {} [107] s s' rfl (Machine.Reachable.run .init hreached) hread
  exact of_decide_eq_false hlength (congrArg List.length heq)

end Consumer

end BuildYourOwnRedis
