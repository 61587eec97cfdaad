/-
  Rdb/Lasting.lean --- dumps that mean the same at every time.

  The parser takes entries off the stream without a look at the clock; the clock decides
  only which of them are passed on.  So a dump in which no string has a deadline is loaded
  in the same way whenever that happens.
-/
import BuildYourOwnRedis.Rdb.RdbFile

set_option autoImplicit false

namespace BuildYourOwnRedis

open Foundation

namespace RdbFile

open RdbParser

/-- Whatever the clock says, the same entries are met, and the end is the same.  The clock only
decides which of the entries met are restored. -/
def Timeless {α : Type} (parse : (Nat → Timepoint) → Progress → Outcome α) : Prop :=
  ∃ (entries : List Entry) (result : Except RdbParseError α), ∀ clock progress,
    parse clock progress = (entries.foldl (Progress.meet clock) progress, result)

theorem timeless_end {α : Type} (result : Except RdbParseError α) :
    Timeless fun _ progress => (progress, result) :=
  ⟨[], result, fun _ _ => rfl⟩

theorem timeless_parseEntries (fuel : Nat) (input : Bytes) :
    Timeless fun clock progress => parseEntries clock fuel progress input := by
  induction fuel generalizing input with
  | zero => exact timeless_end _
  | succ fuel ih =>
      simp only [parseEntries]
      cases parseNextEntry.run input with
      | error e => exact timeless_end _
      | ok next =>
          obtain ⟨entry, rest⟩ := next
          cases entry with
          | none => exact timeless_end _
          | some entry =>
              obtain ⟨entries, result, hrest⟩ := ih rest
              exact ⟨entry :: entries, result, fun clock progress => hrest clock _⟩

theorem timeless_parseDb (input : Bytes) :
    Timeless fun clock progress => parseDb clock progress input := by
  simp only [parseDb]
  cases parseDbHeader.run input with
  | error e => exact timeless_end _
  | ok header => exact timeless_parseEntries _ _

theorem timeless_parseSections (rdbVersion : Int) (fuel : Nat) (input : Bytes) :
    Timeless fun clock progress => parseSections clock rdbVersion fuel progress input := by
  induction fuel generalizing input with
  | zero => exact timeless_end _
  | succ fuel ih =>
      simp only [parseSections]
      cases parseOpCode.run input with
      | error e => exact timeless_end _
      | ok op =>
          obtain ⟨opcode, input⟩ := op
          cases opcode with
          | aux =>
              simp only
              cases parseAuxField.run input with
              | error e => exact timeless_end _
              | ok field => exact ih field.2
          | selectDb =>
              obtain ⟨entries, result, hdb⟩ := timeless_parseDb input
              simp only [hdb]
              cases result with
              | error e => exact ⟨entries, .error e, fun _ _ => rfl⟩
              | ok rest =>
                  obtain ⟨more, result, hrest⟩ := ih rest
                  refine ⟨entries ++ more, result, fun clock progress => ?_⟩
                  rw [List.foldl_append]
                  exact hrest clock _
          | eof =>
              simp only
              cases (parseEnd rdbVersion).run input with
              | error e => exact timeless_end _
              | ok rest => exact timeless_end _
          | expireTime | expireTimeMs | resizeDb => exact timeless_end _

/-- The entries of a dump do not depend on the clock. -/
theorem parse_foldl (dump : Bytes) :
    ∃ (entries : List Entry) (result : Except RdbParseError Unit),
      ∀ clock, parse clock dump = (entries.foldl (Progress.meet clock) {}, result) := by
  unfold parse
  cases parseHeader.run dump with
  | error e => exact ⟨[], .error e, fun _ => rfl⟩
  | ok header =>
      obtain ⟨entries, result, hall⟩ :=
        timeless_parseSections header.1 (header.2.length + 1) header.2
      exact ⟨entries, result, fun clock => hall clock {}⟩

theorem rdbParse_of_parse {dump : Bytes} {entries : List Entry}
    {result : Except RdbParseError Unit}
    (h : ∀ clock, parse clock dump = (entries.foldl (Progress.meet clock) {}, result))
    (clock : Nat → Timepoint) : rdbParse clock dump = (passedOn clock 0 entries, result) := by
  simp only [rdbParse, h, foldl_meet, List.nil_append]

theorem foldl_met (clock : Nat → Timepoint) (entries : List Entry) (progress : Progress) :
    (entries.foldl (Progress.meet clock) progress).met = progress.met + entries.length := by
  induction entries generalizing progress with
  | nil => rfl
  | cons entry entries ih =>
      rw [List.foldl_cons, ih, List.length_cons]
      simp only [Progress.meet]
      omega

/-- An entry with a deadline is passed on before it. -/
theorem mem_passedOn {entry : Entry} {deadline : Timepoint}
    (hdeadline : entry.expireTime = some deadline) {entries : List Entry}
    (h : entry ∈ entries) (n : Nat) :
    ⟨entry.key, entry.value, entry.expireTime⟩ ∈
      passedOn (fun _ => deadline - 1) n entries := by
  induction entries generalizing n with
  | nil => cases h
  | cons first entries ih =>
      rcases List.mem_cons.mp h with rfl | h
      · simp [passedOn, hdeadline]
      · simp only [passedOn]
        split
        · exact List.mem_cons_of_mem _ (ih h _)
        · exact ih h _

theorem passedOn_of_none (clock : Nat → Timepoint) {entries : List Entry}
    (h : ∀ entry ∈ entries, entry.expireTime = none) (n : Nat) :
    passedOn clock n entries =
      entries.map fun entry => ⟨entry.key, entry.value, entry.expireTime⟩ := by
  induction entries generalizing n with
  | nil => rfl
  | cons first entries ih =>
      have hfirst := h first List.mem_cons_self
      have hrest := fun n => ih (fun entry hentry => h entry (List.mem_cons_of_mem _ hentry)) n
      simp [passedOn, hfirst, hrest]

end RdbFile

/-- No string of a dump has a deadline. -/
def Lasting (dump : Bytes) : Prop :=
  ∀ clock, ∀ r ∈ (rdbParse clock dump).1, r.expireTime = none

/-- Such a dump is loaded in the same way at every time. -/
theorem Lasting.rdbParse_eq {dump : Bytes} (h : Lasting dump) (clock clock' : Nat → Timepoint) :
    rdbParse clock dump = rdbParse clock' dump := by
  obtain ⟨entries, result, hparse⟩ := RdbFile.parse_foldl dump
  have hall := RdbFile.rdbParse_of_parse hparse
  have hnone : ∀ entry ∈ entries, entry.expireTime = none := by
    intro entry hentry
    cases hdeadline : entry.expireTime with
    | none => rfl
    | some deadline =>
        have hmem := RdbFile.mem_passedOn hdeadline hentry 0
        have hlast := h (fun _ => deadline - 1) _ (by rw [hall]; exact hmem)
        exact hdeadline.symm.trans hlast
  rw [hall, hall, RdbFile.passedOn_of_none clock hnone, RdbFile.passedOn_of_none clock' hnone]

/-- A dump without entries. -/
theorem lasting_of_met_eq_zero {dump : Bytes}
    (h : (RdbParser.parse (fun _ => 0) dump).1.met = 0) : Lasting dump := by
  obtain ⟨entries, result, hparse⟩ := RdbFile.parse_foldl dump
  rw [hparse, RdbFile.foldl_met] at h
  obtain rfl := List.eq_nil_of_length_eq_zero (Nat.eq_zero_of_add_eq_zero_left h)
  intro clock r hr
  rw [RdbFile.rdbParse_of_parse hparse] at hr
  cases hr

end BuildYourOwnRedis
