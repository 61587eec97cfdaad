/-
  Foundation/SortedMap.lean --- ordered maps as sorted association lists.

  The order of the keys is part of the value, so an unsorted map cannot be built.  The
  two searches give what an iterator to the found place ranges over, up to the end.
-/
import Mathlib

set_option autoImplicit false

namespace BuildYourOwnRedis.Foundation

/-- A map whose entries are in ascending order of their keys. -/
structure SortedMap (α β : Type) [LinearOrder α] where
  entries : List (α × β)
  sorted : entries.Pairwise fun x y => x.1 < y.1

namespace SortedMap

variable {α β : Type} [LinearOrder α]

instance [DecidableEq β] : DecidableEq (SortedMap α β) := fun m m' =>
  decidable_of_iff (m.entries = m'.entries) (by cases m; cases m'; simp)

theorem ext_entries {m m' : SortedMap α β} (h : m.entries = m'.entries) : m = m' := by
  cases m
  cases m'
  simpa using h

/-- No entries. -/
def empty : SortedMap α β := ⟨[], .nil⟩

/-- Insert into a sorted list; an entry with the same key stays as it is. -/
def insertSorted (k : α) (v : β) : List (α × β) → List (α × β)
  | [] => [(k, v)]
  | x :: xs =>
      if x.1 < k then x :: insertSorted k v xs
      else if x.1 = k then x :: xs
      else (k, v) :: x :: xs

theorem key_of_mem_insertSorted {k : α} {v : β} {xs : List (α × β)} {y : α × β}
    (h : y ∈ insertSorted k v xs) : y.1 = k ∨ y ∈ xs := by
  induction xs with
  | nil =>
      obtain rfl := List.mem_singleton.mp h
      exact Or.inl rfl
  | cons x xs ih =>
      simp only [insertSorted] at h
      split at h
      · rcases List.mem_cons.mp h with rfl | h
        · exact Or.inr (by simp)
        · rcases ih h with h | h
          · exact Or.inl h
          · exact Or.inr (List.mem_cons_of_mem _ h)
      split at h
      · exact Or.inr h
      · rcases List.mem_cons.mp h with rfl | h
        · exact Or.inl rfl
        · exact Or.inr h

theorem sorted_insertSorted (k : α) (v : β) {xs : List (α × β)}
    (h : xs.Pairwise fun x y => x.1 < y.1) :
    (insertSorted k v xs).Pairwise fun x y => x.1 < y.1 := by
  induction xs with
  | nil => simp [insertSorted]
  | cons x xs ih =>
      obtain ⟨hx, hxs⟩ := List.pairwise_cons.mp h
      simp only [insertSorted]
      split
      · next hlt =>
          refine List.pairwise_cons.mpr ⟨fun y hy => ?_, ih hxs⟩
          rcases key_of_mem_insertSorted hy with hk | hy
          · rwa [hk]
          · exact hx y hy
      split
      · exact h
      · next hlt hne =>
          have hgt : k < x.1 := lt_of_le_of_ne (not_lt.mp hlt) (Ne.symm hne)
          refine List.pairwise_cons.mpr ⟨fun y hy => ?_, h⟩
          rcases List.mem_cons.mp hy with rfl | hy
          · exact hgt
          · exact lt_trans hgt (hx y hy)

/-- `emplace`. -/
def emplace (m : SortedMap α β) (k : α) (v : β) : SortedMap α β :=
  ⟨insertSorted k v m.entries, sorted_insertSorted k v m.sorted⟩

/-- From the first key that is not less than `k`. -/
def lowerBound (m : SortedMap α β) (k : α) : List (α × β) :=
  m.entries.dropWhile fun x => x.1 < k

/-- From the first key that is greater than `k`. -/
def upperBound (m : SortedMap α β) (k : α) : List (α × β) :=
  m.entries.dropWhile fun x => x.1 ≤ k

/-- The position of the first key that is not less than `k`. -/
def lowerPosition (m : SortedMap α β) (k : α) : Nat :=
  m.entries.findIdx fun x => !decide (x.1 < k)

/-- The position of the first key that is greater than `k`. -/
def upperPosition (m : SortedMap α β) (k : α) : Nat :=
  m.entries.findIdx fun x => !decide (x.1 ≤ k)

theorem drop_lowerPosition (m : SortedMap α β) (k : α) :
    m.entries.drop (m.lowerPosition k) = m.lowerBound k :=
  List.dropWhile_eq_drop_findIdx_not.symm

theorem drop_upperPosition (m : SortedMap α β) (k : α) :
    m.entries.drop (m.upperPosition k) = m.upperBound k :=
  List.dropWhile_eq_drop_findIdx_not.symm

theorem le_of_mem_take_upperPosition {m : SortedMap α β} {k : α} {x : α × β}
    (h : x ∈ m.entries.take (m.upperPosition k)) : x.1 ≤ k := by
  rw [upperPosition, ← List.takeWhile_eq_take_findIdx_not] at h
  have hle := List.mem_takeWhile_imp h
  exact of_decide_eq_true hle

/-- The last entry. -/
def last? (m : SortedMap α β) : Option (α × β) := m.entries.getLast?

/-- In a sorted list what is left of the front part is what does not belong to it. -/
theorem dropWhile_eq_filter {p : α × β → Bool} {xs : List (α × β)}
    (h : xs.Pairwise fun x y => x.1 < y.1)
    (hp : ∀ x y : α × β, x.1 < y.1 → p x = false → p y = false) :
    xs.dropWhile p = xs.filter fun x => !p x := by
  induction xs with
  | nil => rfl
  | cons x xs ih =>
      obtain ⟨hx, hxs⟩ := List.pairwise_cons.mp h
      cases hpx : p x with
      | true => simp [hpx, ih hxs]
      | false =>
          have hall : ∀ y ∈ xs, p y = false := fun y hy => hp x y (hx y hy) hpx
          have hkeep : (xs.filter fun y => !p y) = xs :=
            List.filter_eq_self.mpr fun y hy => by simp [hall y hy]
          simp [hpx, hkeep]

theorem lowerBound_eq_filter (m : SortedMap α β) (k : α) :
    m.lowerBound k = m.entries.filter fun x => k ≤ x.1 := by
  rw [lowerBound, dropWhile_eq_filter m.sorted]
  · refine List.filter_congr fun x _ => ?_
    rw [← decide_not]
    exact decide_eq_decide.mpr not_lt
  · intro x y hlt hx
    simp only [decide_eq_false_iff_not, not_lt] at hx ⊢
    exact le_trans hx (le_of_lt hlt)

theorem upperBound_eq_filter (m : SortedMap α β) (k : α) :
    m.upperBound k = m.entries.filter fun x => k < x.1 := by
  rw [upperBound, dropWhile_eq_filter m.sorted]
  · refine List.filter_congr fun x _ => ?_
    rw [← decide_not]
    exact decide_eq_decide.mpr not_le
  · intro x y hlt hx
    simp only [decide_eq_false_iff_not, not_le] at hx ⊢
    exact lt_trans hx hlt

/-- The end of a range is not before its begin: no key is above the right bound and below
the left one. -/
theorem upperBound_length_le_iff (m : SortedMap α β) (left right : α) :
    (m.upperBound right).length ≤ (m.lowerBound left).length ↔
      ∀ x ∈ m.entries, right < x.1 → left ≤ x.1 := by
  rw [upperBound_eq_filter, lowerBound_eq_filter, ← List.countP_eq_length_filter,
    ← List.countP_eq_length_filter]
  constructor
  · intro hle x hx hright
    by_contra hleft
    have hlt := not_le.mp hleft
    -- what is behind the left bound is behind `x`, and so behind the right bound
    have hsplit : (m.entries.filter fun y => decide (right < y.1)).filter
        (fun y => decide (left ≤ y.1)) = m.entries.filter fun y => decide (left ≤ y.1) := by
      rw [List.filter_filter]
      refine List.filter_congr fun y _ => ?_
      by_cases hy : left ≤ y.1
      · simp [hy, lt_trans hright (lt_of_lt_of_le hlt hy)]
      · simp [hy]
    have hfewer : ((m.entries.filter fun y => decide (right < y.1)).filter
        fun y => decide (left ≤ y.1)).length <
        (m.entries.filter fun y => decide (right < y.1)).length :=
      List.length_filter_lt_length_iff_exists.mpr
        ⟨x, List.mem_filter.mpr ⟨hx, decide_eq_true hright⟩, by simpa using hlt⟩
    rw [hsplit, ← List.countP_eq_length_filter, ← List.countP_eq_length_filter] at hfewer
    omega
  · intro h
    refine List.countP_mono_left fun x hx hright => ?_
    exact decide_eq_true (h x hx (of_decide_eq_true hright))

/-- The last key is the greatest. -/
theorem lt_of_last? {m : SortedMap α β} {last : α × β} (h : m.last? = some last) {k : α}
    (hlt : last.1 < k) : ∀ x ∈ m.entries, x.1 < k := by
  intro x hx
  obtain ⟨front, hfront⟩ := List.getLast?_eq_some_iff.mp h
  have hsorted := m.sorted
  rw [hfront] at hx hsorted
  rcases List.mem_append.mp hx with hx | hx
  · exact lt_trans ((List.pairwise_append.mp hsorted).2.2 x hx last (by simp)) hlt
  · rwa [List.mem_singleton.mp hx]

/-- A key above all others goes to the end. -/
theorem entries_emplace_of_lt {m : SortedMap α β} {k : α} (v : β)
    (h : ∀ x ∈ m.entries, x.1 < k) : (m.emplace k v).entries = m.entries ++ [(k, v)] := by
  obtain ⟨xs, hsorted⟩ := m
  simp only [emplace] at h ⊢
  clear hsorted
  induction xs with
  | nil => rfl
  | cons x xs ih =>
      have hx : x.1 < k := h x (by simp)
      simp only [insertSorted, hx, if_true, List.cons_append]
      rw [ih fun y hy => h y (by simp [hy])]

/-- A key is there once it has been inserted. -/
theorem mem_emplace (m : SortedMap α β) (k : α) (v : β) :
    k ∈ (m.emplace k v).entries.map Prod.fst := by
  obtain ⟨xs, hsorted⟩ := m
  simp only [emplace]
  clear hsorted
  induction xs with
  | nil => simp [insertSorted]
  | cons x xs ih =>
      simp only [insertSorted]
      split
      · exact List.mem_cons_of_mem _ ih
      split
      · next heq => exact heq ▸ List.mem_cons_self ..
      · exact List.mem_cons_self ..

/-- A key that is there keeps its entry. -/
theorem emplace_of_mem {m : SortedMap α β} {k : α} (v : β)
    (h : k ∈ m.entries.map Prod.fst) : m.emplace k v = m := by
  obtain ⟨xs, hsorted⟩ := m
  apply ext_entries
  simp only [emplace] at h ⊢
  induction xs with
  | nil => cases h
  | cons x xs ih =>
      obtain ⟨hx, hxs⟩ := List.pairwise_cons.mp hsorted
      simp only [insertSorted]
      rcases List.mem_cons.mp h with rfl | h
      · rw [if_neg (lt_irrefl _), if_pos rfl]
      · obtain ⟨y, hy, rfl⟩ := List.mem_map.mp h
        rw [if_pos (hx y hy), ih hxs h]

end SortedMap

end BuildYourOwnRedis.Foundation
