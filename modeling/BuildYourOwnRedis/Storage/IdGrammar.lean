/-
  Storage/IdGrammar.lean --- which texts the parsers of stream ids take, and that a
  printed id reads back.

  The grammar names no parser.  It stands over a form of numbers: the plain runs of
  digits (`DigitsText`), or those with a plus sign allowed in front (`UInt64Text`), which
  is what `parseUInt64` reads where nothing stands behind the digits.
-/
import BuildYourOwnRedis.Numerals
import BuildYourOwnRedis.Storage.StreamId

set_option autoImplicit false

namespace BuildYourOwnRedis

open Foundation

/-! ## The grammar -/

section Grammar

variable (Num : UInt64 → Bytes → Prop)

/-- The texts of a `StreamId`: one number, or two with a `-` between them. -/
inductive StreamIdText : StreamId → Bytes → Prop where
  | short {ms : UInt64} {text : Bytes} (h : Num ms text) : StreamIdText { ms := ms } text
  | full {ms id : UInt64} {first second : Bytes} (h : Num ms first) (h' : Num id second) :
      StreamIdText { ms := ms, id := id } (first ++ [minusByte] ++ second)

/-- The texts of an `InputStreamId`: `0`, `*`, `ms-*` and `ms-seq`. -/
inductive InputStreamIdText : InputStreamId → Bytes → Prop where
  | zero : InputStreamIdText {} (ascii "0")
  | general : InputStreamIdText { generalWildcard := true } (ascii "*")
  | wildcard {ms : UInt64} {first : Bytes} (h : Num ms first) :
      InputStreamIdText { ms := ms, idWildcard := true } (first ++ [minusByte] ++ ascii "*")
  | full {ms id : UInt64} {first second : Bytes} (h : Num ms first) (h' : Num id second) :
      InputStreamIdText { ms := ms, id := id } (first ++ [minusByte] ++ second)

/-- The texts of a `BoundStreamId`: `-`, `+` and those of a `StreamId`. -/
inductive BoundStreamIdText : BoundStreamId → Bytes → Prop where
  | left : BoundStreamIdText { isLeftUnbound := true } (ascii "-")
  | right : BoundStreamIdText { isRightUnbound := true } (ascii "+")
  | id {id : StreamId} {text : Bytes} (h : StreamIdText Num id text) :
      BoundStreamIdText { toStreamId := id } text

/-- The texts of a `ReadStreamId`: `$` and those of a `StreamId`. -/
inductive ReadStreamIdText : ReadStreamId → Bytes → Prop where
  | next : ReadStreamIdText { isNextExpected := true } (ascii "$")
  | id {id : StreamId} {text : Bytes} (h : StreamIdText Num id text) :
      ReadStreamIdText { toStreamId := id } text

/-- The four parsers take this text as the grammar says: each returns an id exactly if the text
is one of its texts, and then the id that the text stands for. -/
structure ParsedByGrammar (text : Bytes) : Prop where
  streamId : ∀ id, StreamId.fromString text = .ok id ↔ StreamIdText Num id text
  inputStreamId : ∀ id, InputStreamId.fromString text = .ok id ↔ InputStreamIdText Num id text
  boundStreamId : ∀ id, BoundStreamId.fromString text = .ok id ↔ BoundStreamIdText Num id text
  readStreamId : ∀ id, ReadStreamId.fromString text = .ok id ↔ ReadStreamIdText Num id text

end Grammar

/-- In a part of this id something stands behind the digits of a number. -/
def idTrails (text : Bytes) : Bool :=
  match splitAtDelim [minusByte] text with
  | none => hasTrailing text
  | some (first, second) => hasTrailing first || hasTrailing second

/-! ## `StreamId` -/

section

variable {text first second : Bytes} {ms id : UInt64}

theorem UInt64Text.not_minus (h : UInt64Text ms first) : minusByte ∉ first :=
  h.not_mem (by decide) (by decide)

theorem idTrails_short (hcut : splitAtDelim [minusByte] text = none)
    (h : idTrails text = false) : hasTrailing text = false := by
  simpa only [idTrails, hcut] using h

theorem idTrails_full (hcut : splitAtDelim [minusByte] text = some (first, second))
    (h : idTrails text = false) : hasTrailing first = false ∧ hasTrailing second = false := by
  simpa only [idTrails, hcut, Bool.or_eq_false_iff] using h

/-- A text of two parts is cut between them. -/
theorem UInt64Text.cut (h : UInt64Text ms first) (second : Bytes) :
    splitAtDelim [minusByte] (first ++ [minusByte] ++ second) = some (first, second) :=
  splitAtDelim_single second h.not_minus

theorem parseUInt64_zero : parseUInt64 (ascii "0") = some 0 := by decide

/-- The shortcut for `0` does what the rest would do. -/
theorem StreamId.fromString_short (hcut : splitAtDelim [minusByte] text = none)
    (h : parseUInt64 text = some ms) : StreamId.fromString text = .ok { ms := ms } := by
  have hne : text ≠ [] := by
    rintro rfl
    simp [parseUInt64] at h
  by_cases hzero : text = ascii "0"
  · rw [hzero, parseUInt64_zero] at h
    obtain rfl := Option.some.inj h
    rw [fromString, if_neg hne, if_pos hzero]
  · rw [fromString, if_neg hne, if_neg hzero]
    simp only [hcut, h]

theorem StreamId.fromString_full (hcut : splitAtDelim [minusByte] text = some (first, second))
    (hms : parseUInt64 first = some ms) (hid : parseUInt64 second = some id) :
    StreamId.fromString text = .ok { ms := ms, id := id } := by
  have hmem : minusByte ∈ text := by
    rw [splitAtDelim_eq_append hcut]
    simp
  have hne : text ≠ [] := by
    rintro rfl
    cases hmem
  have hzero : text ≠ ascii "0" := by
    rintro rfl
    exact absurd hmem (by decide)
  rw [fromString, if_neg hne, if_neg hzero]
  simp only [hcut, hms, hid]

/-- What `StreamId::from_string` has read: a number alone, or two with a `-` between them. -/
theorem StreamId.fromString_cases {a : StreamId} (h : StreamId.fromString text = .ok a) :
    (splitAtDelim [minusByte] text = none ∧ ∃ ms, parseUInt64 text = some ms ∧
      a = { ms := ms }) ∨
    ∃ first second ms id, splitAtDelim [minusByte] text = some (first, second) ∧
      parseUInt64 first = some ms ∧ parseUInt64 second = some id ∧
      a = { ms := ms, id := id } := by
  unfold StreamId.fromString at h
  split at h
  · cases h
  · split at h
    · next hzero =>
        obtain rfl := Except.ok.inj h
        subst hzero
        exact .inl ⟨by decide, 0, parseUInt64_zero, rfl⟩
    · cases hcut : splitAtDelim [minusByte] text with
      | none =>
          simp only [hcut] at h
          split at h
          · cases h
          · next ms hms => exact .inl ⟨rfl, ms, hms, (Except.ok.inj h).symm⟩
      | some cut =>
          obtain ⟨first, second⟩ := cut
          simp only [hcut] at h
          split at h
          · cases h
          · next ms hms =>
              split at h
              · cases h
              · next id hid =>
                  exact .inr ⟨first, second, ms, id, rfl, hms, hid, (Except.ok.inj h).symm⟩

/-- `StreamId` takes every text of the grammar. -/
theorem StreamIdText.parse {a : StreamId} (h : StreamIdText UInt64Text a text) :
    StreamId.fromString text = .ok a := by
  cases h with
  | short h =>
      exact StreamId.fromString_short (splitAtDelim_single_eq_none h.not_minus) h.parse
  | full h h' => exact StreamId.fromString_full (h.cut _) h.parse h'.parse

theorem streamId_iff (hend : idTrails text = false) (a : StreamId) :
    StreamId.fromString text = .ok a ↔ StreamIdText UInt64Text a text := by
  refine ⟨fun h => ?_, StreamIdText.parse⟩
  obtain ⟨hcut, ms, hms, rfl⟩ | ⟨first, second, ms, id, hcut, hms, hid, rfl⟩ :=
    StreamId.fromString_cases h
  · exact .short ((parseUInt64_eq_some_iff (idTrails_short hcut hend)).mp hms)
  · obtain ⟨hfirst, hsecond⟩ := idTrails_full hcut hend
    rw [splitAtDelim_eq_append hcut]
    exact .full ((parseUInt64_eq_some_iff hfirst).mp hms)
      ((parseUInt64_eq_some_iff hsecond).mp hid)

end

/-! ## `InputStreamId` -/

section

variable {text first second : Bytes} {ms id : UInt64}

/-- A text with a `-` in it is neither of the two short ones. -/
theorem InputStreamId.fromString_cut
    (hcut : splitAtDelim [minusByte] text = some (first, second))
    (hms : parseUInt64 first = some ms) :
    InputStreamId.fromString text =
      if second = ascii "*" then .ok { ms := ms, idWildcard := true }
      else match parseUInt64 second with
        | none => .error
            (ascii "unexpected second part of StreamId: should be number: " ++ text)
        | some id => .ok { ms := ms, id := id } := by
  have hmem : minusByte ∈ text := by
    rw [splitAtDelim_eq_append hcut]
    simp
  have hzero : text ≠ ascii "0" := by
    rintro rfl
    exact absurd hmem (by decide)
  have hstar : text ≠ ascii "*" := by
    rintro rfl
    exact absurd hmem (by decide)
  rw [fromString, if_neg hzero, if_neg hstar]
  cases hid : parseUInt64 second <;> simp only [hcut, hms, hid]

theorem parseUInt64_star : parseUInt64 (ascii "*") = none := by decide

/-- What `InputStreamId::from_string` has read: one of the texts `0` and `*`, or a number with
a `-` behind it and then a `*` or a number. -/
theorem InputStreamId.fromString_cases {a : InputStreamId}
    (h : InputStreamId.fromString text = .ok a) :
    text = ascii "0" ∧ a = {} ∨ text = ascii "*" ∧ a = { generalWildcard := true } ∨
    ∃ first second ms, splitAtDelim [minusByte] text = some (first, second) ∧
      parseUInt64 first = some ms ∧
      (second = ascii "*" ∧ a = { ms := ms, idWildcard := true } ∨
        ∃ id, parseUInt64 second = some id ∧ a = { ms := ms, id := id }) := by
  have hall := h
  unfold InputStreamId.fromString at h
  split at h
  · next hzero => exact .inl ⟨hzero, (Except.ok.inj h).symm⟩
  · split at h
    · next hstar => exact .inr (.inl ⟨hstar, (Except.ok.inj h).symm⟩)
    · cases hcut : splitAtDelim [minusByte] text with
      | none =>
          simp only [hcut] at h
          cases h
      | some cut =>
          obtain ⟨first, second⟩ := cut
          cases hms : parseUInt64 first with
          | none =>
              simp only [hcut, hms] at h
              cases h
          | some ms =>
              refine .inr (.inr ⟨first, second, ms, rfl, hms, ?_⟩)
              rw [InputStreamId.fromString_cut hcut hms] at hall
              split at hall
              · next hstar => exact .inl ⟨hstar, (Except.ok.inj hall).symm⟩
              · split at hall
                · cases hall
                · next id hid => exact .inr ⟨id, hid, (Except.ok.inj hall).symm⟩

theorem InputStreamIdText.parse {a : InputStreamId} (h : InputStreamIdText UInt64Text a text) :
    InputStreamId.fromString text = .ok a := by
  cases h with
  | zero => rfl
  | general => rfl
  | wildcard h => rw [InputStreamId.fromString_cut (h.cut _) h.parse, if_pos rfl]
  | @full ms id first second h h' =>
      have hstar : second ≠ ascii "*" := by
        rintro rfl
        cases h'.parse.symm.trans parseUInt64_star
      rw [InputStreamId.fromString_cut (h.cut _) h.parse, if_neg hstar, h'.parse]

theorem inputStreamId_iff (hend : idTrails text = false) (a : InputStreamId) :
    InputStreamId.fromString text = .ok a ↔ InputStreamIdText UInt64Text a text := by
  refine ⟨fun h => ?_, InputStreamIdText.parse⟩
  obtain ⟨rfl, rfl⟩ | ⟨rfl, rfl⟩ | ⟨first, second, ms, hcut, hms, hrest⟩ :=
    InputStreamId.fromString_cases h
  · exact .zero
  · exact .general
  · obtain ⟨hfirst, hsecond⟩ := idTrails_full hcut hend
    have hms := (parseUInt64_eq_some_iff hfirst).mp hms
    rw [splitAtDelim_eq_append hcut]
    obtain ⟨rfl, rfl⟩ | ⟨id, hid, rfl⟩ := hrest
    · exact .wildcard hms
    · exact .full hms ((parseUInt64_eq_some_iff hsecond).mp hid)

end

/-! ## `BoundStreamId` and `ReadStreamId` -/

section

variable {text : Bytes}

/-- What `BoundStreamId::from_string` has read: one of the texts `-` and `+`, or what a
`StreamId` reads. -/
theorem BoundStreamId.fromString_cases {a : BoundStreamId}
    (h : BoundStreamId.fromString text = .ok a) :
    text = ascii "-" ∧ a = { isLeftUnbound := true } ∨
    text = ascii "+" ∧ a = { isRightUnbound := true } ∨
    ∃ id, StreamId.fromString text = .ok id ∧ a = { toStreamId := id } := by
  unfold BoundStreamId.fromString at h
  split at h
  · next hleft => exact .inl ⟨hleft, (Except.ok.inj h).symm⟩
  · split at h
    · next hright => exact .inr (.inl ⟨hright, (Except.ok.inj h).symm⟩)
    · split at h
      · next id hid => exact .inr (.inr ⟨id, hid, (Except.ok.inj h).symm⟩)
      · cases h

theorem BoundStreamId.fromString_of_streamId {id : StreamId}
    (h : StreamId.fromString text = .ok id) :
    BoundStreamId.fromString text = .ok { toStreamId := id } := by
  have hleft : text ≠ ascii "-" := by
    rintro rfl
    exact absurd h nofun
  have hright : text ≠ ascii "+" := by
    rintro rfl
    exact absurd h nofun
  rw [BoundStreamId.fromString, if_neg hleft, if_neg hright, h]

theorem boundStreamId_iff (hend : idTrails text = false) (a : BoundStreamId) :
    BoundStreamId.fromString text = .ok a ↔ BoundStreamIdText UInt64Text a text := by
  constructor
  · intro h
    obtain ⟨rfl, rfl⟩ | ⟨rfl, rfl⟩ | ⟨id, hid, rfl⟩ := BoundStreamId.fromString_cases h
    · exact .left
    · exact .right
    · exact .id ((streamId_iff hend id).mp hid)
  · intro h
    cases h with
    | left => rfl
    | right => rfl
    | id h => exact BoundStreamId.fromString_of_streamId h.parse

/-- What `ReadStreamId::from_string` has read: the text `$`, or what a `StreamId` reads. -/
theorem ReadStreamId.fromString_cases {a : ReadStreamId}
    (h : ReadStreamId.fromString text = .ok a) :
    text = ascii "$" ∧ a = { isNextExpected := true } ∨
    ∃ id, StreamId.fromString text = .ok id ∧ a = { toStreamId := id } := by
  unfold ReadStreamId.fromString at h
  split at h
  · next hnext => exact .inl ⟨hnext, (Except.ok.inj h).symm⟩
  · split at h
    · next id hid => exact .inr ⟨id, hid, (Except.ok.inj h).symm⟩
    · cases h

theorem ReadStreamId.fromString_of_streamId {id : StreamId}
    (h : StreamId.fromString text = .ok id) :
    ReadStreamId.fromString text = .ok { toStreamId := id } := by
  have hnext : text ≠ ascii "$" := by
    rintro rfl
    exact absurd h nofun
  rw [ReadStreamId.fromString, if_neg hnext, h]

theorem readStreamId_iff (hend : idTrails text = false) (a : ReadStreamId) :
    ReadStreamId.fromString text = .ok a ↔ ReadStreamIdText UInt64Text a text := by
  constructor
  · intro h
    obtain ⟨rfl, rfl⟩ | ⟨id, hid, rfl⟩ := ReadStreamId.fromString_cases h
    · exact .next
    · exact .id ((streamId_iff hend id).mp hid)
  · intro h
    cases h with
    | next => rfl
    | id h => exact ReadStreamId.fromString_of_streamId h.parse

end

/-! ## The parsers against the grammar -/

/-- **Where nothing stands behind the digits of a number, the four parsers take the texts of
the grammar, as what they stand for, and no others.**  A number of the grammar may have a plus
sign, since `parseUInt64` skips one. -/
theorem ids_parsedByGrammar {text : Bytes} (hend : idTrails text = false) :
    ParsedByGrammar UInt64Text text where
  streamId := streamId_iff hend
  inputStreamId := inputStreamId_iff hend
  boundStreamId := boundStreamId_iff hend
  readStreamId := readStreamId_iff hend

theorem ids_parsedByGrammar_wildcard : ParsedByGrammar UInt64Text (ascii "+5-*") :=
  ids_parsedByGrammar (by decide)

/-- The plus sign that `parseUInt64` skips is no digit, so a grammar with digits alone does not
have `+5`, which is read as 5-0. -/
theorem not_parsedByGrammar_plus : ¬ ParsedByGrammar DigitsText (ascii "+5") := by
  intro h
  have hread : StreamId.fromString (ascii "+5") = .ok { ms := 5 } := by decide
  have hplus : isNumber (ascii "+5") = false := by decide
  have hminus : minusByte ∉ ascii "+5" := by decide
  have htext := (h.streamId _).mp hread
  generalize ascii "+5" = text at hplus hminus htext
  cases htext with
  | short h => exact Bool.noConfusion (h.1.symm.trans hplus)
  | full h h' => exact hminus (by simp)

/-! ## Printed ids -/

/-- What this `from_string` reads, it reads again from what `to_string` prints.  The text need
not be the same one: numbers may have had leading zeros or a plus sign. -/
def Rereads {α : Type} (fromString : Bytes → Except Bytes α) (toString : α → Bytes) : Prop :=
  ∀ text a, fromString text = .ok a → fromString (toString a) = .ok a

/-- The four parsers read this text as these two parts, with no wildcard and no bound. -/
structure ReadByAll (text : Bytes) (a : StreamId) : Prop where
  streamId : StreamId.fromString text = .ok a
  inputStreamId : InputStreamId.fromString text = .ok { toStreamId := a }
  boundStreamId : BoundStreamId.fromString text = .ok { toStreamId := a }
  readStreamId : ReadStreamId.fromString text = .ok { toStreamId := a }

/-- What `to_string` prints is a text of the id. -/
theorem inputStreamIdText_toString (a : StreamId) :
    InputStreamIdText UInt64Text { toStreamId := a } a.toString :=
  .full (.unsigned (digitsText_decimal a.ms)) (.unsigned (digitsText_decimal a.id))

theorem readByAll_toString (a : StreamId) : ReadByAll a.toString a where
  streamId := StreamId.fromString_toString a
  inputStreamId := (inputStreamIdText_toString a).parse
  boundStreamId := BoundStreamId.fromString_of_streamId (StreamId.fromString_toString a)
  readStreamId := ReadStreamId.fromString_toString a

/-- Two ids that are printed alike are read alike, so they are the same. -/
theorem StreamId.toString_injective {a b : StreamId} (h : a.toString = b.toString) : a = b := by
  have ha := StreamId.fromString_toString a
  rw [h] at ha
  exact Except.ok.inj (ha.symm.trans (StreamId.fromString_toString b))

/-- An `InputStreamId` that was read is read again from what it prints. -/
theorem InputStreamId.reread {text : Bytes} {a : InputStreamId}
    (h : InputStreamId.fromString text = .ok a) :
    InputStreamId.fromString a.toString = .ok a := by
  obtain ⟨-, rfl⟩ | ⟨-, rfl⟩ | ⟨-, -, ms, -, -, ⟨-, rfl⟩ | ⟨id, -, rfl⟩⟩ :=
    InputStreamId.fromString_cases h
  · rfl
  · rfl
  · have hprint : InputStreamId.toString { ms := ms, idWildcard := true } =
        decimal ms.toNat ++ [minusByte] ++ ascii "*" := by
      rw [List.append_assoc]
      rfl
    rw [hprint]
    exact (InputStreamIdText.wildcard (.unsigned (digitsText_decimal ms))).parse
  · exact (readByAll_toString { ms := ms, id := id }).inputStreamId

theorem BoundStreamId.reread {text : Bytes} {a : BoundStreamId}
    (h : BoundStreamId.fromString text = .ok a) :
    BoundStreamId.fromString a.toString = .ok a := by
  obtain ⟨-, rfl⟩ | ⟨-, rfl⟩ | ⟨id, -, rfl⟩ := BoundStreamId.fromString_cases h
  · rfl
  · rfl
  · exact (readByAll_toString id).boundStreamId

theorem ReadStreamId.reread {text : Bytes} {a : ReadStreamId}
    (h : ReadStreamId.fromString text = .ok a) :
    ReadStreamId.fromString a.toString = .ok a := by
  obtain ⟨-, rfl⟩ | ⟨id, -, rfl⟩ := ReadStreamId.fromString_cases h
  · rfl
  · exact (readByAll_toString id).readStreamId

/-- **An id of any of the four kinds that was read is read again from what it prints; the four
parsers agree on a printed `StreamId`, and no two print alike.**  Nothing is asked of the id,
since its numbers are of 64 bits. -/
theorem ids_readBack :
    Rereads StreamId.fromString StreamId.toString ∧
    Rereads InputStreamId.fromString InputStreamId.toString ∧
    Rereads BoundStreamId.fromString BoundStreamId.toString ∧
    Rereads ReadStreamId.fromString ReadStreamId.toString ∧
    (∀ a : StreamId, ReadByAll a.toString a) ∧
    ∀ a b : StreamId, a = b ↔ a.toString = b.toString := by
  refine ⟨?_, fun _ _ => InputStreamId.reread, fun _ _ => BoundStreamId.reread,
    fun _ _ => ReadStreamId.reread, readByAll_toString, ?_⟩
  · intro _ a _
    exact StreamId.fromString_toString a
  · intro a b
    constructor
    · rintro rfl
      rfl
    · exact StreamId.toString_injective

end BuildYourOwnRedis
