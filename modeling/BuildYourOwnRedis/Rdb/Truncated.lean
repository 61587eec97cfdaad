/-
  Rdb/Truncated.lean --- dumps that end too early.

  Every part of the parser takes the same off a longer stream, or throws on the shorter
  one (`Steady`, as it is `Local`), but for the look-ahead of `parse_db`: at the end of the
  stream it gives 0xFF, where the longer stream may have an entry.  It leaves the loop then,
  and the opcode that is read next is missing; so the shorter run stops for good there too.
-/
import BuildYourOwnRedis.Rdb.RdbParser

set_option autoImplicit false

namespace BuildYourOwnRedis

open Foundation

namespace RdbParser

open Reader

/-! ## The ends of a dump -/

theorem local_parseHeader : Local parseHeader := by
  refine (local_parseString 5).bind fun redisMagic => ?_
  split
  · exact local_fail _
  · refine (local_parseString 4).bind fun rdbVersion => ?_
    split
    · exact local_pure _
    · exact local_fail _

theorem local_parseEnd (rdbVersion : Int) : Local (parseEnd rdbVersion) := by
  unfold parseEnd
  split
  · exact (local_parseString 8).bind fun _ => local_pure _
  · exact local_pure _

/-! ## The look-ahead -/

/-- A byte that is there is seen in the longer stream as well. -/
theorem run_peekUInt8 {b : Byte} {input : Bytes} :
    peekUInt8.run (b :: input) = .ok (b, b :: input) := rfl

/-- A deadline without an entry throws, also at the end of the stream. -/
theorem steady_parseExpiringEntry (expireTime : Timepoint) :
    Steady (parseExpiringEntry expireTime) := by
  intro input entry rest h more
  cases input with
  | nil => cases h
  | cons b input =>
      rw [parseExpiringEntry, run_bind, run_peekUInt8] at h
      rw [parseExpiringEntry, run_bind, List.cons_append, run_peekUInt8]
      refine Steady.bind (local_parseEntry b).steady (fun entry => ?_) _ _ _ h more
      cases entry with
      | none => exact (local_fail _).steady
      | some entry => exact (local_pure _).steady

/-- So it is with the whole turn of the loop when a byte is there, since the next byte decides
what the turn does. -/
theorem run_parseNextEntry_append {b : Byte} {input rest : Bytes} {entry : Option Entry}
    (h : parseNextEntry.run (b :: input) = .ok (entry, rest)) (more : Bytes) :
    parseNextEntry.run (b :: input ++ more) = .ok (entry, rest ++ more) := by
  rw [parseNextEntry, run_bind, run_peekUInt8] at h
  rw [parseNextEntry, run_bind, List.cons_append, run_peekUInt8]
  refine (?_ : Steady _) _ _ _ h more
  split
  · exact local_parseUInt8.steady.bind fun _ => (local_parseLittleEndian 4).steady.bind fun _ =>
      steady_parseExpiringEntry _
  split
  · exact local_parseUInt8.steady.bind fun _ => (local_parseLittleEndian 8).steady.bind fun _ =>
      steady_parseExpiringEntry _
  · exact (local_parseEntry b).steady

theorem never_bind {α β : Type} {r : Parse α} {f : α → Parse β} {b : β}
    (h : ∀ a input rest, (f a).run input ≠ .ok (b, rest)) (input rest : Bytes) :
    (r >>= f).run input ≠ .ok (b, rest) := by
  rw [run_bind]
  split
  · exact h _ _ _
  · nofun

/-- A deadline announces an entry. -/
theorem never_parseExpiringEntry (expireTime : Timepoint) (input rest : Bytes) :
    (parseExpiringEntry expireTime).run input ≠ .ok (none, rest) := by
  refine never_bind (fun next => never_bind fun entry => ?_) input rest
  cases entry with
  | none => exact fun _ _ => nofun
  | some entry =>
      intro input rest h
      cases h

theorem parseEntry_none {type : Byte} {input rest : Bytes}
    (h : (parseEntry type).run input = .ok (none, rest)) : rest = input := by
  unfold parseEntry at h
  split at h
  · exact (Prod.mk.inj (Except.ok.inj h)).2.symm
  · refine absurd h (never_bind (fun _ => never_bind fun _ => never_bind fun _ => ?_) _ _)
    intro input rest h
    cases h

/-- The turn that leaves the loop takes nothing. -/
theorem parseNextEntry_none {input rest : Bytes}
    (h : parseNextEntry.run input = .ok (none, rest)) : rest = input := by
  rw [parseNextEntry, run_bind] at h
  simp only [peekUInt8, StateT.run] at h
  split at h
  · refine absurd h (never_bind (fun _ => never_bind fun _ => ?_) _ _)
    exact never_parseExpiringEntry _
  split at h
  · refine absurd h (never_bind (fun _ => never_bind fun _ => ?_) _ _)
    exact never_parseExpiringEntry _
  · exact parseEntry_none h

/-! ## The loop of `parse_db` -/

variable (clock : Nat → Timepoint)

/-- The loop only adds calls of `restore`. -/
theorem restored_parseEntries (fuel : Nat) (progress : Progress) (input : Bytes) :
    progress.restored <+: (parseEntries clock fuel progress input).1.restored := by
  induction fuel generalizing progress input with
  | zero => exact List.prefix_rfl
  | succ fuel ih =>
      rw [parseEntries]
      split
      · exact List.prefix_rfl
      · exact List.prefix_rfl
      · next entry rest hnext =>
          refine List.IsPrefix.trans ?_ (ih _ rest)
          unfold Progress.meet
          simp only
          split
          · exact List.prefix_append _ _
          · exact List.prefix_rfl

theorem restored_parseDb (progress : Progress) (input : Bytes) :
    progress.restored <+: (parseDb clock progress input).1.restored := by
  unfold parseDb
  split
  · exact List.prefix_rfl
  · exact restored_parseEntries clock _ _ _

/-- With more of the stream the loop gets to the same place, or the shorter run has come
to its end. -/
theorem parseEntries_append {fuel fuel' : Nat} {progress : Progress} {input more : Bytes}
    (hfuel : input.length < fuel) (hfuel' : (input ++ more).length < fuel') :
    (∃ progress' b rest,
      parseEntries clock fuel progress input = (progress', .ok (b :: rest)) ∧
      parseEntries clock fuel' progress (input ++ more) = (progress', .ok (b :: rest ++ more))) ∨
    (parseEntries clock fuel progress input).1.restored <+:
      (parseEntries clock fuel' progress (input ++ more)).1.restored ∧
      ∀ rest, (parseEntries clock fuel progress input).2 = .ok rest → rest = [] := by
  induction fuel generalizing fuel' progress input with
  | zero => omega
  | succ fuel ih =>
      cases input with
      | nil =>
          -- the look-ahead gives 0xFF
          have hend : parseEntries clock (fuel + 1) progress [] = (progress, .ok []) := rfl
          rw [hend]
          exact .inr ⟨restored_parseEntries clock _ _ _, fun rest h => (Except.ok.inj h).symm⟩
      | cons b input =>
          obtain ⟨fuel', rfl⟩ : ∃ k, fuel' = k + 1 := ⟨fuel' - 1, by omega⟩
          cases hnext : parseNextEntry.run (b :: input) with
          | error e =>
              have hstop : parseEntries clock (fuel + 1) progress (b :: input) =
                  (progress, .error e) := by rw [parseEntries, hnext]
              rw [hstop]
              exact .inr ⟨restored_parseEntries clock _ _ _, fun rest h => by cases h⟩
          | ok next =>
              obtain ⟨entry, rest⟩ := next
              have hmore := run_parseNextEntry_append hnext more
              cases entry with
              | none =>
                  obtain rfl := parseNextEntry_none hnext
                  refine .inl ⟨progress, b, input, ?_, ?_⟩
                  · rw [parseEntries, hnext]
                  · rw [parseEntries, hmore]
              | some entry =>
                  have hlt := parseNextEntry_some hnext
                  simp only [parseEntries, hnext, hmore]
                  simp only [List.length_append] at hfuel' ⊢
                  exact ih (by omega) (by rw [List.length_append]; omega)

/-- The same of a whole database: the run on the shorter stream ends as the longer one does and
leaves a byte at least, or it has restored a beginning. -/
theorem parseDb_append (progress : Progress) (input more : Bytes) :
    (∃ progress' b rest, parseDb clock progress input = (progress', .ok (b :: rest)) ∧
      parseDb clock progress (input ++ more) = (progress', .ok (b :: rest ++ more))) ∨
    (parseDb clock progress input).1.restored <+:
      (parseDb clock progress (input ++ more)).1.restored ∧
      ∀ rest, (parseDb clock progress input).2 = .ok rest → rest = [] := by
  cases hheader : parseDbHeader.run input with
  | error e =>
      have hstop : parseDb clock progress input = (progress, .error e) := by
        rw [parseDb, hheader]
      rw [hstop]
      exact .inr ⟨restored_parseDb clock _ _, fun rest h => by cases h⟩
  | ok header =>
      obtain ⟨_, rest⟩ := header
      have hmore := local_parseDbHeader.steady _ _ _ hheader more
      simp only [parseDb, hheader, hmore]
      exact parseEntries_append clock (Nat.lt_succ_self _) (Nat.lt_succ_self _)

/-! ## The loop of `parse` -/

/-- The loop of `parse`, with what it leaves of the stream. -/
def parseSectionsTo (clock : Nat → Timepoint) (rdbVersion : Int) :
    Nat → Progress → Bytes → Outcome Bytes
  | 0, progress, from_ => (progress, .ok from_)
  | fuel + 1, progress, from_ =>
      match parseOpCode.run from_ with
      | .error e => (progress, .error e)
      | .ok (opcode, from_) =>
          match opcode with
          | .aux =>
              match parseAuxField.run from_ with
              | .error e => (progress, .error e)
              | .ok (_, from_) => parseSectionsTo clock rdbVersion fuel progress from_
          | .selectDb =>
              match parseDb clock progress from_ with
              | (progress, .error e) => (progress, .error e)
              | (progress, .ok from_) => parseSectionsTo clock rdbVersion fuel progress from_
          | .eof =>
              match (parseEnd rdbVersion).run from_ with
              | .error e => (progress, .error e)
              | .ok (_, from_) => (progress, .ok from_)
          | .expireTime => (progress, .error ⟨ascii "Unexpected section 0x" ++ toHex 2⟩)
          | .expireTimeMs => (progress, .error ⟨ascii "Unexpected section 0x" ++ toHex 3⟩)
          | .resizeDb => (progress, .error ⟨ascii "Unexpected section 0x" ++ toHex 4⟩)

/-- `RDBParser::parse`, with what it leaves of the stream. -/
def parseTo (clock : Nat → Timepoint) (from_ : Bytes) : Outcome Bytes :=
  match parseHeader.run from_ with
  | .error e => ({}, .error e)
  | .ok (rdbVersion, from_) => parseSectionsTo clock rdbVersion (from_.length + 1) {} from_

/-- An outcome without the rest of the stream. -/
def Outcome.done {α : Type} (outcome : Outcome α) : Outcome Unit :=
  (outcome.1, outcome.2.map fun _ => ())

theorem parseSections_eq (rdbVersion : Int) (fuel : Nat) (progress : Progress) (input : Bytes) :
    parseSections clock rdbVersion fuel progress input =
      (parseSectionsTo clock rdbVersion fuel progress input).done := by
  induction fuel generalizing progress input with
  | zero => rfl
  | succ fuel ih =>
      rw [parseSections, parseSectionsTo]
      cases parseOpCode.run input with
      | error e => rfl
      | ok op =>
          obtain ⟨opcode, rest⟩ := op
          cases opcode with
          | aux =>
              simp only
              cases parseAuxField.run rest with
              | error e => rfl
              | ok field => exact ih progress field.2
          | selectDb =>
              simp only
              obtain ⟨progress', result⟩ := parseDb clock progress rest
              cases result with
              | error e => rfl
              | ok rest' => exact ih progress' rest'
          | eof =>
              simp only
              cases (parseEnd rdbVersion).run rest with
              | error e => rfl
              | ok rest' => rfl
          | expireTime | expireTimeMs | resizeDb => rfl

theorem parse_eq (input : Bytes) : parse clock input = (parseTo clock input).done := by
  unfold parse parseTo
  cases parseHeader.run input with
  | error e => rfl
  | ok header => exact parseSections_eq clock _ _ _ _

theorem restored_parseSectionsTo (rdbVersion : Int) (fuel : Nat) (progress : Progress)
    (input : Bytes) :
    progress.restored <+: (parseSectionsTo clock rdbVersion fuel progress input).1.restored := by
  induction fuel generalizing progress input with
  | zero => exact List.prefix_rfl
  | succ fuel ih =>
      rw [parseSectionsTo]
      cases parseOpCode.run input with
      | error e => exact List.prefix_rfl
      | ok op =>
          obtain ⟨opcode, rest⟩ := op
          cases opcode with
          | aux =>
              simp only
              cases parseAuxField.run rest with
              | error e => exact List.prefix_rfl
              | ok field => exact ih progress field.2
          | selectDb =>
              refine (restored_parseDb clock progress rest).trans ?_
              simp only
              obtain ⟨progress', result⟩ := parseDb clock progress rest
              cases result with
              | error e => exact List.prefix_rfl
              | ok rest' => exact ih progress' rest'
          | eof =>
              simp only
              cases (parseEnd rdbVersion).run rest with
              | error e => exact List.prefix_rfl
              | ok rest' => exact List.prefix_rfl
          | expireTime | expireTimeMs | resizeDb => exact List.prefix_rfl

theorem length_parseDb {progress progress' : Progress} {input rest : Bytes}
    (h : parseDb clock progress input = (progress', .ok rest)) :
    rest.length ≤ input.length := by
  rw [parseDb] at h
  split at h
  · cases h
  · next input' hheader =>
      exact Nat.le_trans (length_parseEntries h) (local_parseDbHeader.shrinks _ _ _ hheader)

/-- How the run on a part of the stream stands to the run on all of it: it ends alike and
leaves what is missing, or it fails and has restored a beginning of what the other restores. -/
def Falls (more : Bytes) (short long : Outcome Bytes) : Prop :=
  (∃ progress rest, short = (progress, .ok rest) ∧ long = (progress, .ok (rest ++ more))) ∨
    (∃ e, short.2 = .error e) ∧ short.1.restored <+: long.1.restored

theorem falls_error {more : Bytes} {progress : Progress} {e : RdbParseError}
    {long : Outcome Bytes} (h : progress.restored <+: long.1.restored) :
    Falls more (progress, .error e) long :=
  .inr ⟨⟨e, rfl⟩, h⟩

/-- The shorter run goes the same way as the longer one, or throws. -/
theorem parseSectionsTo_append (rdbVersion : Int) {fuel fuel' : Nat} {progress : Progress}
    {input more : Bytes} (hfuel : input.length < fuel)
    (hfuel' : (input ++ more).length < fuel') :
    Falls more (parseSectionsTo clock rdbVersion fuel progress input)
      (parseSectionsTo clock rdbVersion fuel' progress (input ++ more)) := by
  induction fuel generalizing fuel' progress input with
  | zero => omega
  | succ fuel ih =>
      obtain ⟨fuel', rfl⟩ : ∃ k, fuel' = k + 1 := ⟨fuel' - 1, by omega⟩
      rw [List.length_append] at hfuel'
      have hall := restored_parseSectionsTo clock rdbVersion (fuel' + 1) progress (input ++ more)
      cases hop : parseOpCode.run input with
      | error e =>
          have hstop : parseSectionsTo clock rdbVersion (fuel + 1) progress input =
              (progress, .error e) := by rw [parseSectionsTo, hop]
          rw [hstop]
          exact falls_error hall
      | ok op =>
          obtain ⟨opcode, rest⟩ := op
          have hmore := local_parseOpCode.steady _ _ _ hop more
          have hlt := consumes_parseOpCode _ _ _ hop
          rw [parseSectionsTo, hmore] at hall
          rw [parseSectionsTo, parseSectionsTo, hop, hmore]
          cases opcode with
          | aux =>
              simp only at hall ⊢
              cases haux : parseAuxField.run rest with
              | error e => exact falls_error hall
              | ok field =>
                  obtain ⟨_, rest'⟩ := field
                  have hle := local_parseAuxField.shrinks _ _ _ haux
                  rw [local_parseAuxField.steady _ _ _ haux more]
                  exact ih (by omega) (by rw [List.length_append]; omega)
          | selectDb =>
              simp only
              rcases parseDb_append clock progress rest more with
                ⟨progress', b, rest', hshort, hlong⟩ | ⟨hbefore, hend⟩
              · have hle := length_parseDb clock hshort
                rw [hshort, hlong]
                exact ih (by omega) (by rw [List.length_append]; omega)
              · -- what is behind the database in the longer run only adds calls
                have hlong : (parseDb clock progress rest).1.restored <+:
                    (match parseDb clock progress (rest ++ more) with
                    | (progress, .error e) => (progress, .error e)
                    | (progress, .ok from_) =>
                        parseSectionsTo clock rdbVersion fuel' progress from_ :
                      Outcome Bytes).1.restored := by
                  apply hbefore.trans
                  obtain ⟨progress', result⟩ := parseDb clock progress (rest ++ more)
                  cases result with
                  | error e => exact List.prefix_rfl
                  | ok rest' => exact restored_parseSectionsTo clock _ _ _ _
                generalize parseDb clock progress rest = short at hend hlong ⊢
                obtain ⟨progress', result⟩ := short
                cases result with
                | error e => exact falls_error hlong
                | ok rest' =>
                    obtain rfl := hend rest' rfl
                    obtain ⟨fuel, rfl⟩ : ∃ k, fuel = k + 1 := ⟨fuel - 1, by omega⟩
                    exact falls_error hlong
          | eof =>
              simp only at hall ⊢
              cases hend : (parseEnd rdbVersion).run rest with
              | error e => exact falls_error hall
              | ok rest' =>
                  rw [(local_parseEnd _).steady _ _ _ hend more]
                  exact .inl ⟨progress, rest'.2, rfl, rfl⟩
          | expireTime | expireTimeMs | resizeDb => exact falls_error List.prefix_rfl

theorem parseTo_append (input more : Bytes) :
    Falls more (parseTo clock input) (parseTo clock (input ++ more)) := by
  unfold parseTo
  cases hheader : parseHeader.run input with
  | error e =>
      apply falls_error
      exact List.nil_prefix
  | ok header =>
      rw [local_parseHeader.steady _ _ _ hheader more]
      exact parseSectionsTo_append clock _ (Nat.lt_succ_self _) (Nat.lt_succ_self _)

/-- A successful parse takes these bytes off the front of the dump.  What stands behind the end
of the file is not looked at. -/
def Takes (clock : Nat → Timepoint) (dump taken : Bytes) : Prop :=
  ∃ progress rest, parseTo clock dump = (progress, .ok rest) ∧ dump = taken ++ rest

end RdbParser

open RdbParser

/-- **A dump that ends too early.**  What is restored from a part of it is the beginning of
what is restored from all of it, and a part of what a successful parse takes is refused.  Both
runs have the same clock, read once for each entry that is met. -/
theorem rdbParse_truncated (clock : Nat → Timepoint) {dump whole : Bytes} (h : dump <+: whole) :
    (rdbParse clock dump).1 <+: (rdbParse clock whole).1 ∧
      ∀ taken, Takes clock whole taken → dump <+: taken → dump ≠ taken →
        ∃ e, (rdbParse clock dump).2 = .error e := by
  obtain ⟨more, rfl⟩ := h
  simp only [rdbParse, parse_eq, Outcome.done]
  rcases parseTo_append clock dump more with
    ⟨progress, rest, hshort, hlong⟩ | ⟨⟨e, herror⟩, hbefore⟩
  · rw [hshort, hlong]
    refine ⟨List.prefix_rfl, ?_⟩
    rintro taken ⟨_, rest', hparse, hsplit⟩ hpart hne
    rw [hlong] at hparse
    obtain rfl := Except.ok.inj (Prod.mk.inj hparse).2
    -- the shorter run has taken the same, so the part is all of it
    have htaken : dump = taken ++ rest := by
      rw [← List.append_assoc] at hsplit
      exact List.append_cancel_right hsplit
    have hback : taken <+: dump := ⟨rest, htaken.symm⟩
    exact absurd (hpart.eq_of_length_le hback.length_le) hne
  · rw [herror]
    exact ⟨hbefore, fun _ _ _ _ => ⟨e, rfl⟩⟩

/-- A dump of version 3 with one entry. -/
def smallDump : Bytes :=
  ascii "REDIS0003" ++ [0xFE, 0, 0xFB, 1, 0, 0, 1] ++ ascii "k" ++ [1] ++ ascii "v" ++ [0xFF]

/-- It is cut where the parser looks for the next entry. -/
theorem rdbParse_truncated_small :
    (rdbParse (fun _ => 0) (smallDump.take 19)).1 <+: (rdbParse (fun _ => 0) smallDump).1 ∧
      ∀ taken, Takes (fun _ => 0) smallDump taken → smallDump.take 19 <+: taken →
        smallDump.take 19 ≠ taken →
          ∃ e, (rdbParse (fun _ => 0) (smallDump.take 19)).2 = .error e :=
  rdbParse_truncated (fun _ => 0) (List.take_prefix 19 smallDump)

example : (rdbParse (fun _ => 0) (smallDump.take 19)) =
    ([⟨ascii "k", ascii "v", none⟩], .error invalidInputStream) := by decide +kernel

end BuildYourOwnRedis
