/-
  Storage/Value.lean --- the values of a storage: `StringValue` and `StreamValue`.

  The entries of a stream are a `std::map` with the ids as keys.  The creation time of a
  string is stored by the sources and read by nothing; it is left out.
-/
import BuildYourOwnRedis.Foundation.SortedMap
import BuildYourOwnRedis.Command.Command
import BuildYourOwnRedis.Rdb.RdbParser

set_option autoImplicit false

namespace BuildYourOwnRedis

open Foundation

/-- `StorageType`. -/
inductive StorageType where
  | none
  | string
  | stream
  deriving DecidableEq, Repr

/-- `to_string(StorageType)`. -/
def StorageType.toString : StorageType → Bytes
  | .none => ascii "none"
  | .string => ascii "string"
  | .stream => ascii "stream"

/-- `StreamErrorType`, less `None`: where the sources return an id and `None`, there is an id
here and no error. -/
inductive StreamErrorType where
  | mustBeNotZeroId
  | mustBeMoreThanTop
  | wrongKeyType
  deriving DecidableEq, Repr

/-- `to_string(StreamErrorType)`. -/
def StreamErrorType.toString : StreamErrorType → Bytes
  | .mustBeNotZeroId => ascii "ERR The ID specified in XADD must be greater than 0-0"
  | .mustBeMoreThanTop => ascii
      "ERR The ID specified in XADD is equal or smaller than the target stream top item"
  | .wrongKeyType => ascii
      "WRONGTYPE Operation against a key holding the wrong kind of value"

/-- `StreamDataType`, a `std::map`: the entries in ascending order of their ids, each id once.
The order is a field of the type, so no operation can break it. -/
abbrev StreamDataType : Type := SortedMap StreamId StreamPartValue

/-- `StreamRange`: what lies between its two iterators. -/
abbrev StreamRange : Type := List (StreamId × StreamPartValue)

/-- `StringValue`.  Without an expiry the string is there until it is overwritten; with one it
is stored until it is asked for behind that time. -/
structure StringValue where
  data : Bytes
  expireTime : Option Timepoint := none
  deriving DecidableEq, Repr

/-- `StreamValue`.  A stream is never empty once it is stored, since XADD makes it together
with its first entry. -/
structure StreamValue where
  data : StreamDataType := SortedMap.empty
  deriving DecidableEq

namespace StreamValue

/-- Milliseconds since the epoch, as a `std::size_t`. -/
def milliseconds (now : Timepoint) : UInt64 := toSizeT (Int.tdiv now (10 ^ 6))

/-- The id that `append` gives a new entry behind the entry `lastId`. -/
def nextId (now : Timepoint) (inId : InputStreamId) (lastId : StreamId) :
    Except StreamErrorType StreamId :=
  if inId.generalWildcard then
    if milliseconds now ≤ lastId.ms then .ok { ms := lastId.ms, id := lastId.id + 1 }
    else .ok { ms := milliseconds now, id := 0 }
  else if inId.idWildcard then
    if inId.ms < lastId.ms then .error .mustBeMoreThanTop
    else if inId.ms = lastId.ms then .ok { ms := inId.ms, id := lastId.id + 1 }
    else .ok { ms := inId.ms, id := 0 }
  else if inId.ms < lastId.ms then .error .mustBeMoreThanTop
  else if inId.ms = lastId.ms ∧ inId.id ≤ lastId.id then .error .mustBeMoreThanTop
  else .ok { ms := inId.ms, id := inId.id }

/-- The id that `append` gives the first entry. -/
def firstId (now : Timepoint) (inId : InputStreamId) : StreamId :=
  if inId.generalWildcard then { ms := milliseconds now, id := 0 }
  else if inId.idWildcard then
    if inId.ms = 0 then { ms := 0, id := 1 } else { ms := inId.ms, id := 0 }
  else { ms := inId.ms, id := inId.id }

/-- `StreamValue::append`.  The id 0-0 is refused first, then an id that is not behind the last
entry; what is left of the id is filled in from the last entry and the clock.  The entry is put
in by `emplace`, which does nothing where the id is there already. -/
def append (now : Timepoint) (inId : InputStreamId) (values : StreamPartValue)
    (stream : StreamValue) : Except StreamErrorType (StreamId × StreamValue) :=
  if inId.isNull then .error .mustBeNotZeroId
  else
    match stream.data.last? with
    | some (lastId, _) =>
        match nextId now inId lastId with
        | .error e => .error e
        | .ok id => .ok (id, { data := stream.data.emplace id values })
    | none =>
        .ok (firstId now inId, { data := stream.data.emplace (firstId now inId) values })

/-- `StreamValue::xrange`.  Where the end lies before the begin, the loop over the range
runs past the end of the map, which is undefined. -/
def xrange (leftId rightId : BoundStreamId) (stream : StreamValue) : Option StreamRange :=
  let fromBegin := if leftId.isLeftUnbound then stream.data.entries
    else stream.data.lowerBound leftId.toStreamId
  let fromEnd := if rightId.isRightUnbound then []
    else stream.data.upperBound rightId.toStreamId
  if fromEnd.length ≤ fromBegin.length then
    some (fromBegin.take (fromBegin.length - fromEnd.length))
  else none

/-- No stored id lies above the right bound and below the left one.  This is all that the loop
of XRANGE needs to stay in the map; the bounds themselves may be in any order. -/
def Spans (leftId rightId : BoundStreamId) (stream : StreamValue) : Prop :=
  leftId.isLeftUnbound = true ∨ rightId.isRightUnbound = true ∨
    ∀ entry ∈ stream.data.entries,
      rightId.toStreamId < entry.1 → leftId.toStreamId ≤ entry.1

theorem xrange_isSome_iff {leftId rightId : BoundStreamId} {stream : StreamValue} :
    (stream.xrange leftId rightId).isSome ↔ stream.Spans leftId rightId := by
  have hshorter := (List.dropWhile_sublist (l := stream.data.entries) fun x =>
    decide (x.1 ≤ rightId.toStreamId)).length_le
  unfold xrange Spans
  cases hleft : leftId.isLeftUnbound with
  | true =>
      cases hright : rightId.isRightUnbound with
      | true => simp
      | false => simpa [SortedMap.upperBound] using hshorter
  | false =>
      cases hright : rightId.isRightUnbound with
      | true => simp
      | false =>
          simp only [Bool.false_eq_true, if_false, false_or,
            ← SortedMap.upperBound_length_le_iff]
          split
          · next hle => exact iff_of_true rfl hle
          · next hgt => exact iff_of_false (by simp) hgt

/-- `StreamValue::xread`: the entries behind the id, which need not be stored itself.  `$`
gives nothing, as it asks for what is yet to come. -/
def xread (id : ReadStreamId) (stream : StreamValue) : StreamRange :=
  if id.isNextExpected then []
  else
    match stream.data.lowerBound id.toStreamId with
    | [] => []
    | entry :: entries => if entry.1 = id.toStreamId then entries else entry :: entries

/-- `StreamValue::last_id`.  An empty stream gives 0-0, which is below every entry to come. -/
def lastId (stream : StreamValue) : StreamId :=
  match stream.data.last? with
  | some (id, _) => id
  | none => {}

/-- A read gives the entries behind the id, in ascending order. -/
theorem xread_eq_filter {id : ReadStreamId} (h : id.isNextExpected = false)
    (stream : StreamValue) :
    stream.xread id = stream.data.entries.filter fun entry => id.toStreamId < entry.1 := by
  have hlower := stream.data.lowerBound_eq_filter id.toStreamId
  have hsorted := stream.data.sorted.filter fun x => decide (id.toStreamId ≤ x.1)
  have hfilter : (stream.data.entries.filter fun entry => decide (id.toStreamId < entry.1)) =
      (stream.data.lowerBound id.toStreamId).filter
        fun entry => decide (id.toStreamId < entry.1) := by
    rw [hlower, List.filter_filter]
    refine List.filter_congr fun x _ => ?_
    by_cases hlt : id.toStreamId < x.1
    · simp [hlt, le_of_lt hlt]
    · simp [hlt]
  rw [← hlower] at hsorted
  rw [hfilter, xread, h]
  simp only [Bool.false_eq_true, if_false]
  have hge : ∀ x ∈ stream.data.lowerBound id.toStreamId, id.toStreamId ≤ x.1 := by
    intro x hx
    rw [hlower] at hx
    simpa using (List.mem_filter.mp hx).2
  cases hfrom : stream.data.lowerBound id.toStreamId with
  | nil => rfl
  | cons entry entries =>
      rw [hfrom] at hsorted hge
      obtain ⟨hfirst, -⟩ := List.pairwise_cons.mp hsorted
      have hlater : (entries.filter fun entry => decide (id.toStreamId < entry.1)) =
          entries := by
        refine List.filter_eq_self.mpr fun x hx => ?_
        exact decide_eq_true (lt_of_le_of_lt (hge entry (by simp)) (hfirst x hx))
      by_cases heq : entry.1 = id.toStreamId
      · simp [heq, hlater]
      · have hlt : id.toStreamId < entry.1 := lt_of_le_of_ne (hge entry (by simp)) (Ne.symm heq)
        simp [heq, hlt, hlater]

end StreamValue

/-- `Value` and the classes derived from it.  The sources hold a base pointer and cast it down
by hand; here the constructor tells what a cast would find. -/
inductive Value where
  | string (value : StringValue)
  | stream (value : StreamValue)
  deriving DecidableEq

/-- `Value::type`. -/
def Value.type : Value → StorageType
  | .string _ => .string
  | .stream _ => .stream

/-- `static_cast<StreamValue&>`: undefined for another value. -/
def Value.asStream? : Value → Option StreamValue
  | .stream value => some value
  | .string _ => none

end BuildYourOwnRedis
