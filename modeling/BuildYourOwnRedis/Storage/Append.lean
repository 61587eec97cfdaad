/-
  Storage/Append.lean --- the ids that `StreamValue::append` gives to entries.

  `nextId_spec` is all that the branches of `append` have in common: a new id lies behind
  the last one, unless the sequence number had to be counted up and was already the
  greatest `std::size_t`.  Then it starts at zero again, and the hinted insertion of the
  `std::map` puts the entry before the last one, or drops it.
-/
import BuildYourOwnRedis.Storage.Value

set_option autoImplicit false

namespace BuildYourOwnRedis

open Foundation

/-- The parts of an id that the caller has fixed: none with `*`, the milliseconds with `ms-*`,
and both otherwise. -/
def InputStreamId.Fixes (inId : InputStreamId) (id : StreamId) : Prop :=
  inId.generalWildcard = false →
    id.ms = inId.ms ∧ (inId.idWildcard = false → id.id = inId.id)

namespace StreamValue

/-- The sequence number must be counted up, behind the greatest one.  The addition wraps around
then, and the new id is below all others. -/
def Exhausted (now : Timepoint) (inId : InputStreamId) (lastId : StreamId) : Prop :=
  lastId.id.toNat = 2 ^ 64 - 1 ∧
    if inId.generalWildcard then milliseconds now ≤ lastId.ms
    else inId.idWildcard ∧ inId.ms = lastId.ms

instance (now : Timepoint) (inId : InputStreamId) (lastId : StreamId) :
    Decidable (Exhausted now inId lastId) := inferInstanceAs (Decidable (_ ∧ _))

/-- The same for the last entry of a stream. -/
def Wraps (now : Timepoint) (inId : InputStreamId) (stream : StreamValue) : Prop :=
  ∃ last ∈ stream.data.last?, Exhausted now inId last.1

instance (now : Timepoint) (inId : InputStreamId) (stream : StreamValue) :
    Decidable (Wraps now inId stream) :=
  match h : stream.data.last? with
  | none => isFalse (by simp [Wraps, h])
  | some last => decidable_of_iff (Exhausted now inId last.1) (by simp [Wraps, h])

/-- The streams that appends lead to. -/
inductive Appended : StreamValue → Prop where
  | empty : Appended {}
  | append {stream stream' : StreamValue} {now : Timepoint} {inId : InputStreamId}
      {values : StreamPartValue} {id : StreamId} (before : Appended stream)
      (happend : stream.append now inId values = .ok (id, stream')) : Appended stream'

/-- A new entry with this id is behind all the others, which are what they were.  This is what
a reader that asks for the entries behind an id relies on. -/
structure PutsLast (inId : InputStreamId) (values : StreamPartValue) (id : StreamId)
    (stream stream' : StreamValue) : Prop where
  above : ∀ entry ∈ stream.data.entries, entry.1 < id
  fixes : inId.Fixes id
  entries : stream'.data.entries = stream.data.entries ++ [(id, values)]

/-! ## New ids -/

theorem lt_succ_iff (ms seq : UInt64) :
    ({ ms := ms, id := seq } : StreamId) < { ms := ms, id := seq + 1 } ↔
      seq.toNat ≠ 2 ^ 64 - 1 := by
  have hlt := seq.toNat_lt
  rw [StreamId.lt_iff_toNat, UInt64.toNat_add, UInt64.toNat_one]
  by_cases hmax : seq.toNat = 2 ^ 64 - 1
  · simp [hmax]
  · rw [Nat.mod_eq_of_lt (by omega)]
    simpa using hmax

theorem lt_of_ms_lt {a b : StreamId} (h : a.ms < b.ms) : a < b := Or.inl h

/-- The id of an entry that is not the first: it is as the caller wants it, and above the last
id unless the sequence number had to be counted up and could not. -/
theorem nextId_spec {now : Timepoint} {inId : InputStreamId} {lastId id : StreamId}
    (h : nextId now inId lastId = .ok id) :
    inId.Fixes id ∧ (lastId < id ↔ ¬ Exhausted now inId lastId) := by
  unfold nextId at h
  unfold InputStreamId.Fixes Exhausted
  cases hgeneral : inId.generalWildcard with
  | true =>
      simp only [hgeneral, if_true] at h
      refine ⟨by simp, ?_⟩
      split at h
      · next hle =>
          obtain rfl := Except.ok.inj h
          rw [lt_succ_iff]
          simp [hle]
      · next hgt =>
          obtain rfl := Except.ok.inj h
          simp only [if_true, hgt, and_false, not_false_eq_true, iff_true]
          exact lt_of_ms_lt (UInt64.not_le.mp hgt)
  | false =>
      simp only [hgeneral, Bool.false_eq_true, if_false, true_implies] at h ⊢
      cases hwildcard : inId.idWildcard with
      | true =>
          simp only [hwildcard, if_true] at h
          split at h
          · cases h
          · next hge =>
              split at h
              · next heq =>
                  obtain rfl := Except.ok.inj h
                  refine ⟨by simp, ?_⟩
                  rw [heq, lt_succ_iff]
                  simp
              · next hne =>
                  obtain rfl := Except.ok.inj h
                  refine ⟨by simp, ?_⟩
                  simp only [hne, and_false, not_false_eq_true, iff_true]
                  exact lt_of_ms_lt (UInt64.lt_of_le_of_ne (UInt64.not_lt.mp hge) (Ne.symm hne))
      | false =>
          simp only [hwildcard, Bool.false_eq_true, if_false] at h
          split at h
          · cases h
          · next hge =>
              split at h
              · cases h
              · next hgt =>
                  obtain rfl := Except.ok.inj h
                  refine ⟨by simp, ?_⟩
                  simp only [Bool.false_eq_true, false_and, and_false, not_false_eq_true,
                    iff_true, StreamId.lt_def]
                  rcases UInt64.lt_or_eq_of_le (UInt64.not_lt.mp hge) with hlt | heq
                  · exact Or.inl hlt
                  · refine Or.inr ⟨heq, UInt64.not_le.mp fun hle => hgt ⟨heq.symm, hle⟩⟩

theorem firstId_fixes (now : Timepoint) (inId : InputStreamId) :
    inId.Fixes (firstId now inId) := by
  intro hgeneral
  unfold firstId
  simp only [hgeneral, Bool.false_eq_true, if_false]
  split
  · next hwildcard =>
      split
      · next hzero => exact ⟨hzero.symm, by simp [hwildcard]⟩
      · exact ⟨rfl, by simp [hwildcard]⟩
  · exact ⟨rfl, fun _ => rfl⟩

/-! ## Appending -/

/-- An append that succeeds has a new id and puts the entry where the map wants it. -/
theorem append_cases {now : Timepoint} {inId : InputStreamId} {values : StreamPartValue}
    {stream stream' : StreamValue} {id : StreamId}
    (h : stream.append now inId values = .ok (id, stream')) :
    inId.isNull = false ∧ stream' = { data := stream.data.emplace id values } ∧
      (stream.data.last? = none ∧ id = firstId now inId ∨
        ∃ last, stream.data.last? = some last ∧ nextId now inId last.1 = .ok id) := by
  unfold append at h
  cases hnull : inId.isNull with
  | true => simp [hnull] at h
  | false =>
      simp only [hnull, Bool.false_eq_true, if_false] at h
      cases hlast : stream.data.last? with
      | none =>
          rw [hlast] at h
          obtain ⟨rfl, rfl⟩ := Prod.mk.inj (Except.ok.inj h)
          exact ⟨rfl, rfl, .inl ⟨rfl, rfl⟩⟩
      | some last =>
          rw [hlast] at h
          simp only at h
          cases hnext : nextId now inId last.1 with
          | error e => simp [hnext] at h
          | ok id' =>
              rw [hnext] at h
              obtain ⟨rfl, rfl⟩ := Prod.mk.inj (Except.ok.inj h)
              exact ⟨rfl, rfl, .inr ⟨last, rfl, hnext⟩⟩

/-- **Stream ids.**  An append that reports success puts its entry, with an id that is greater
than all others and as the caller wants it, behind all entries, if and only if the sequence
number does not wrap.  The stream is one that appends lead to, and nothing is asked of the
clock. -/
theorem append_putsLast_iff {now : Timepoint} {inId : InputStreamId}
    {values : StreamPartValue} {stream stream' : StreamValue} {id : StreamId}
    (h : stream.append now inId values = .ok (id, stream')) :
    PutsLast inId values id stream stream' ↔ ¬ Wraps now inId stream := by
  obtain ⟨-, rfl, hcases⟩ := append_cases h
  rcases hcases with ⟨hlast, rfl⟩ | ⟨last, hlast, hnext⟩
  · have hempty : stream.data.entries = [] := List.getLast?_eq_none_iff.mp hlast
    have habove : ∀ entry ∈ stream.data.entries, entry.1 < firstId now inId := by
      simp [hempty]
    refine ⟨fun _ => by simp [Wraps, hlast], fun _ => ?_⟩
    exact ⟨habove, firstId_fixes now inId, SortedMap.entries_emplace_of_lt values habove⟩
  · obtain ⟨hfixes, hlt⟩ := nextId_spec hnext
    have hwraps : Wraps now inId stream ↔ Exhausted now inId last.1 := by
      simp [Wraps, hlast]
    rw [hwraps, ← hlt]
    constructor
    · intro hputs
      exact hputs.above last (List.mem_of_getLast? hlast)
    · intro habove
      have hall := SortedMap.lt_of_last? hlast habove
      exact ⟨hall, hfixes, SortedMap.entries_emplace_of_lt values hall⟩

/-- A `ms-*` behind an entry of the same millisecond. -/
theorem append_putsLast_iff_counted :
    let stream : StreamValue := { data := SortedMap.empty.emplace ⟨5, 7⟩ [] }
    let stream' : StreamValue := { data := stream.data.emplace ⟨5, 8⟩ [] }
    stream.append 0 { ms := 5, idWildcard := true } [] = .ok (⟨5, 8⟩, stream') ∧
      (PutsLast { ms := 5, idWildcard := true } [] ⟨5, 8⟩ stream stream' ↔
        ¬ Wraps 0 { ms := 5, idWildcard := true } stream) :=
  ⟨by decide +kernel, append_putsLast_iff (by decide +kernel)⟩

/-- The sequence number wraps: behind 5-(2^64-1) an entry of `5-*` gets the id 5-0, and the map
puts it before the other. -/
theorem not_append_putsLast :
    ¬ ∀ (now : Timepoint) (inId : InputStreamId) (values : StreamPartValue)
      (stream stream' : StreamValue) (id : StreamId), Appended stream →
      stream.append now inId values = .ok (id, stream') →
      PutsLast inId values id stream stream' := by
  intro h
  let stream : StreamValue :=
    { data := SortedMap.empty.emplace ⟨5, 18446744073709551615⟩ [] }
  let stream' : StreamValue := { data := stream.data.emplace ⟨5, 0⟩ [] }
  have hreached : Appended stream :=
    @Appended.append {} stream 0 { ms := 5, id := 18446744073709551615 } []
      ⟨5, 18446744073709551615⟩ .empty (by decide +kernel)
  have hputs := h 0 { ms := 5, idWildcard := true } [] stream stream' ⟨5, 0⟩ hreached
    (by decide +kernel)
  exact absurd hputs.entries (by decide +kernel)

end StreamValue

end BuildYourOwnRedis
