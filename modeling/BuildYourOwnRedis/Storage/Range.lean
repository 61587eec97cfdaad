/-
  Storage/Range.lean --- the loop over the entries between the iterators of XRANGE.

  An iterator is a position in the entries of the map, the last of which is its end.  The
  two searches of `StreamValue::xrange` do not look at each other, so the end of a range
  can lie before its begin; the loop that walks from one to the other then leaves the map.
-/
import BuildYourOwnRedis.Storage.Append

set_option autoImplicit false

namespace BuildYourOwnRedis

open Foundation

/-! ## Bounds -/

namespace BoundStreamId

/-- An id is at least the left bound. -/
def AtLeast (leftId : BoundStreamId) (id : StreamId) : Prop :=
  leftId.isLeftUnbound = true ∨ leftId.toStreamId ≤ id

/-- An id is at most the right bound. -/
def AtMost (rightId : BoundStreamId) (id : StreamId) : Prop :=
  rightId.isRightUnbound = true ∨ id ≤ rightId.toStreamId

instance (leftId : BoundStreamId) (id : StreamId) : Decidable (leftId.AtLeast id) :=
  inferInstanceAs (Decidable (_ ∨ _))

instance (rightId : BoundStreamId) (id : StreamId) : Decidable (rightId.AtMost id) :=
  inferInstanceAs (Decidable (_ ∨ _))

/-- The left bound lies above the right one.  The interval is empty then, and so should the
reply be. -/
def Above (leftId rightId : BoundStreamId) : Prop :=
  leftId.isLeftUnbound = false ∧ rightId.isRightUnbound = false ∧
    rightId.toStreamId < leftId.toStreamId

/-- No id is in an interval whose bounds are the wrong way round. -/
theorem Above.not_between {leftId rightId : BoundStreamId} (h : leftId.Above rightId)
    (id : StreamId) : ¬ (leftId.AtLeast id ∧ rightId.AtMost id) := by
  obtain ⟨hleft, hright, hlt⟩ := h
  rintro ⟨hleast, hmost⟩
  have hleast : leftId.toStreamId ≤ id := by simpa [AtLeast, hleft] using hleast
  have hmost : id ≤ rightId.toStreamId := by simpa [AtMost, hright] using hmost
  exact absurd (lt_of_le_of_lt (le_trans hleast hmost) hlt) (lt_irrefl _)

end BoundStreamId

namespace StreamValue

/-! ## The loop -/

/-- The position of `begin_it`. -/
def beginIt (leftId : BoundStreamId) (stream : StreamValue) : Nat :=
  if leftId.isLeftUnbound then 0
  else stream.data.lowerPosition leftId.toStreamId

/-- The position of `end_it`. -/
def endIt (rightId : BoundStreamId) (stream : StreamValue) : Nat :=
  if rightId.isRightUnbound then stream.data.entries.length
  else stream.data.upperPosition rightId.toStreamId

/-- `for (const auto& [id, values]: result)`: take the entry at the position and move on,
until the end iterator is met.  There is no entry at the end of the map. -/
def visitFrom (endIt : Nat) : Nat → StreamRange → Option StreamRange
  | it, [] => if it = endIt then some [] else none
  | it, entry :: entries =>
      if it = endIt then some [] else (visitFrom endIt (it + 1) entries).map (entry :: ·)

/-- The entries that the reply to XRANGE is made of. -/
def visit (leftId rightId : BoundStreamId) (stream : StreamValue) : Option StreamRange :=
  visitFrom (stream.endIt rightId) (stream.beginIt leftId)
    (stream.data.entries.drop (stream.beginIt leftId))

theorem visitFrom_eq (endIt it : Nat) (entries : StreamRange) :
    visitFrom endIt it entries =
      if it ≤ endIt ∧ endIt ≤ it + entries.length then some (entries.take (endIt - it))
      else none := by
  induction entries generalizing it with
  | nil =>
      simp only [visitFrom, List.length_nil, Nat.add_zero, List.take_nil]
      by_cases heq : it = endIt
      · simp [heq]
      · rw [if_neg heq, if_neg (by omega)]
  | cons entry entries ih =>
      rw [visitFrom, ih (it + 1)]
      simp only [List.length_cons]
      by_cases heq : it = endIt
      · subst heq
        simp
      · rw [if_neg heq]
        by_cases hin : it + 1 ≤ endIt ∧ endIt ≤ it + 1 + entries.length
        · have hpos : endIt - it = (endIt - (it + 1)) + 1 := by omega
          rw [if_pos hin, if_pos (by omega), hpos]
          rfl
        · rw [if_neg hin, if_neg (by omega)]
          rfl

/-! ## The interval -/

theorem drop_beginIt (leftId : BoundStreamId) (stream : StreamValue) :
    stream.data.entries.drop (stream.beginIt leftId) =
      if leftId.isLeftUnbound then stream.data.entries
      else stream.data.lowerBound leftId.toStreamId := by
  unfold beginIt
  split
  · rfl
  · exact stream.data.drop_lowerPosition leftId.toStreamId

theorem drop_endIt (rightId : BoundStreamId) (stream : StreamValue) :
    stream.data.entries.drop (stream.endIt rightId) =
      if rightId.isRightUnbound then []
      else stream.data.upperBound rightId.toStreamId := by
  unfold endIt
  split
  · exact List.drop_length
  · exact stream.data.drop_upperPosition rightId.toStreamId

theorem beginIt_le (leftId : BoundStreamId) (stream : StreamValue) :
    stream.beginIt leftId ≤ stream.data.entries.length := by
  unfold beginIt
  split
  · exact Nat.zero_le _
  · exact List.findIdx_le_length

theorem endIt_le (rightId : BoundStreamId) (stream : StreamValue) :
    stream.endIt rightId ≤ stream.data.entries.length := by
  unfold endIt
  split
  · exact le_rfl
  · exact List.findIdx_le_length

/-- The loop visits what `xrange` is the list of. -/
theorem visit_eq_xrange (leftId rightId : BoundStreamId) (stream : StreamValue) :
    stream.visit leftId rightId = stream.xrange leftId rightId := by
  have hbegin := beginIt_le leftId stream
  have hend := endIt_le rightId stream
  rw [visit, visitFrom_eq, xrange, ← drop_beginIt, ← drop_endIt]
  simp only [List.length_drop]
  by_cases hle : stream.beginIt leftId ≤ stream.endIt rightId
  · rw [if_pos (by omega), if_pos (by omega)]
    congr 2
    omega
  · rw [if_neg (by omega), if_neg (by omega)]

/-- From the begin iterator on, every id is at least the left bound, and no other is. -/
theorem drop_beginIt_eq_filter (leftId : BoundStreamId) (stream : StreamValue) :
    stream.data.entries.drop (stream.beginIt leftId) =
      stream.data.entries.filter fun entry => decide (leftId.AtLeast entry.1) := by
  rw [drop_beginIt]
  cases hleft : leftId.isLeftUnbound with
  | true => simp [BoundStreamId.AtLeast, hleft]
  | false => simp [BoundStreamId.AtLeast, hleft, SortedMap.lowerBound_eq_filter]

/-- Up to the end iterator, every id is at most the right bound. -/
theorem atMost_of_mem_take {rightId : BoundStreamId} {stream : StreamValue}
    {entry : StreamId × StreamPartValue}
    (h : entry ∈ stream.data.entries.take (stream.endIt rightId)) :
    rightId.AtMost entry.1 := by
  cases hright : rightId.isRightUnbound with
  | true => exact Or.inl hright
  | false =>
      simp only [endIt, hright, Bool.false_eq_true, if_false] at h
      exact Or.inr (SortedMap.le_of_mem_take_upperPosition h)

/-- From the end iterator on, no id is. -/
theorem not_atMost_of_mem_drop {rightId : BoundStreamId} {stream : StreamValue}
    {entry : StreamId × StreamPartValue}
    (h : entry ∈ stream.data.entries.drop (stream.endIt rightId)) :
    ¬ rightId.AtMost entry.1 := by
  rw [drop_endIt] at h
  cases hright : rightId.isRightUnbound with
  | true => simp [hright] at h
  | false =>
      simp only [hright, Bool.false_eq_true, if_false, SortedMap.upperBound_eq_filter,
        List.mem_filter, decide_eq_true_eq] at h
      simp only [BoundStreamId.AtMost, hright, Bool.false_eq_true, false_or, not_le]
      exact h.2

/-- Where the end does not lie before the begin, the entries between them are those
between the bounds. -/
theorem drop_take_eq_filter {leftId rightId : BoundStreamId} {stream : StreamValue}
    (hle : stream.beginIt leftId ≤ stream.endIt rightId) :
    (stream.data.entries.drop (stream.beginIt leftId)).take
        (stream.endIt rightId - stream.beginIt leftId) =
      stream.data.entries.filter fun entry =>
        decide (leftId.AtLeast entry.1 ∧ rightId.AtMost entry.1) := by
  have hfilter : (stream.data.entries.filter fun entry =>
      decide (leftId.AtLeast entry.1 ∧ rightId.AtMost entry.1)) =
      (stream.data.entries.drop (stream.beginIt leftId)).filter
        fun entry => decide (rightId.AtMost entry.1) := by
    rw [drop_beginIt_eq_filter, List.filter_filter]
    exact List.filter_congr fun entry _ => by rw [Bool.decide_and, Bool.and_comm]
  have hkept : ((stream.data.entries.drop (stream.beginIt leftId)).take
      (stream.endIt rightId - stream.beginIt leftId)).filter
        (fun entry => decide (rightId.AtMost entry.1)) =
      (stream.data.entries.drop (stream.beginIt leftId)).take
        (stream.endIt rightId - stream.beginIt leftId) := by
    refine List.filter_eq_self.mpr fun entry hentry => decide_eq_true ?_
    rw [← List.drop_take] at hentry
    exact atMost_of_mem_take (List.mem_of_mem_drop hentry)
  have hdropped : ((stream.data.entries.drop (stream.beginIt leftId)).drop
      (stream.endIt rightId - stream.beginIt leftId)).filter
        (fun entry => decide (rightId.AtMost entry.1)) = [] := by
    refine List.filter_eq_nil_iff.mpr fun entry hentry => ?_
    rw [List.drop_drop, Nat.add_sub_cancel' hle] at hentry
    simpa using not_atMost_of_mem_drop hentry
  rw [hfilter]
  conv_rhs => rw [← List.take_append_drop (stream.endIt rightId - stream.beginIt leftId)
    (stream.data.entries.drop (stream.beginIt leftId)), List.filter_append, hkept, hdropped,
    List.append_nil]

/-- The loop visits the entries of the interval, each once and in ascending order, and
none if the bounds are the wrong way round. -/
structure VisitsInterval (leftId rightId : BoundStreamId) (stream : StreamValue)
    (visited : StreamRange) : Prop where
  exact : ∀ entry, entry ∈ visited ↔ entry ∈ stream.data.entries ∧
    leftId.AtLeast entry.1 ∧ rightId.AtMost entry.1
  ascending : visited.Pairwise fun x y => x.1 < y.1
  empty : leftId.Above rightId → visited = []

theorem visitsInterval_filter (leftId rightId : BoundStreamId) (stream : StreamValue) :
    VisitsInterval leftId rightId stream (stream.data.entries.filter fun entry =>
      decide (leftId.AtLeast entry.1 ∧ rightId.AtMost entry.1)) := by
  refine ⟨fun entry => by simp, stream.data.sorted.filter _, fun habove => ?_⟩
  refine List.filter_eq_nil_iff.mpr fun entry _ => ?_
  rw [decide_eq_true_eq]
  exact habove.not_between entry.1

/-- **XRANGE.**  The reply loop stays in the map and visits exactly the interval, if and only
if no entry lies above the right bound and below the left one.  The loop is the one over the
iterators of the sources, which compares them for equality only. -/
theorem visit_interval_iff (leftId rightId : BoundStreamId) (stream : StreamValue) :
    (∃ visited, stream.visit leftId rightId = some visited ∧
      VisitsInterval leftId rightId stream visited) ↔ stream.Spans leftId rightId := by
  rw [← xrange_isSome_iff, ← visit_eq_xrange]
  constructor
  · rintro ⟨visited, hvisit, -⟩
    exact hvisit ▸ rfl
  · intro hsome
    have hvisit := visitFrom_eq (stream.endIt rightId) (stream.beginIt leftId)
      (stream.data.entries.drop (stream.beginIt leftId))
    rw [← visit] at hvisit
    split at hvisit
    · next hin =>
        rw [drop_take_eq_filter hin.1] at hvisit
        exact ⟨_, hvisit, visitsInterval_filter leftId rightId stream⟩
    · rw [hvisit] at hsome
      cases hsome

/-- A left bound above the right one, with an entry between them: the loop starts behind the
place where it is to end and leaves the map. -/
theorem not_visit_interval :
    ¬ ∀ (leftText rightText : Bytes) (leftId rightId : BoundStreamId) (stream : StreamValue),
      BoundStreamId.fromString leftText = .ok leftId →
      BoundStreamId.fromString rightText = .ok rightId → Appended stream →
      ∃ visited, stream.visit leftId rightId = some visited ∧
        VisitsInterval leftId rightId stream visited := by
  intro h
  let stream : StreamValue := { data := SortedMap.empty.emplace ⟨5, 0⟩ [] }
  have hreached : Appended stream :=
    @Appended.append {} stream 0 { ms := 5 } [] ⟨5, 0⟩ .empty (by decide +kernel)
  obtain ⟨visited, hvisit, -⟩ := h (ascii "7") (ascii "3") { ms := 7 } { ms := 3 } stream
    (by decide +kernel) (by decide +kernel) hreached
  have hnone : stream.visit { ms := 7 } { ms := 3 } = none := by decide +kernel
  rw [hnone] at hvisit
  cases hvisit

end StreamValue

end BuildYourOwnRedis
