/-
  Storage/StreamId.lean --- the identifiers of stream entries: `StreamId` and the three
  forms in which commands name them (`InputStreamId` of XADD, `BoundStreamId` of
  XRANGE, `ReadStreamId` of XREAD).

  The `from_string` functions throw `StreamIdParseError`; its text is the error here.
-/
import BuildYourOwnRedis.Utils

set_option autoImplicit false

namespace BuildYourOwnRedis

open Foundation

/-- `StreamId`: two numbers of type `std::size_t`, compared lexicographically.  A default
constructed one is 0-0, below which there is none. -/
structure StreamId where
  ms : UInt64 := 0
  id : UInt64 := 0
  deriving DecidableEq, Repr, Inhabited

namespace StreamId

/-- `StreamId::operator<`. -/
instance : LT StreamId where
  lt a b := a.ms < b.ms ∨ a.ms = b.ms ∧ a.id < b.id

instance (a b : StreamId) : Decidable (a < b) :=
  inferInstanceAs (Decidable (_ ∨ _))

/-- `StreamId::is_null`. -/
def isNull (a : StreamId) : Bool := a.ms == 0 && a.id == 0

/-- `StreamId::to_string`, in decimal with a `-` between them.  This is how ids come back to a
client, and what a client passes on to the next XREAD. -/
def toString (a : StreamId) : Bytes :=
  decimal a.ms.toNat ++ [minusByte] ++ decimal a.id.toNat

/-- `StreamId::from_string` on a default constructed object.  A text without `-` is the first
part alone; the second part is 0 then.  The error is the text of the exception. -/
def fromString (text : Bytes) : Except Bytes StreamId :=
  if text = [] then .error (ascii "empty StreamId is not allowed")
  else if text = ascii "0" then .ok {}
  else
    -- without a delimiter all of the text is the first part
    let ms := match splitAtDelim [minusByte] text with
      | some (ms, _) => ms
      | none => text
    match parseUInt64 ms with
    | none => .error
        (ascii "unexpected first part of StreamId: should be number: " ++ text)
    | some ms =>
        match splitAtDelim [minusByte] text with
        | none => .ok { ms := ms }
        | some (_, id) =>
            match parseUInt64 id with
            | none => .error
                (ascii "unexpected second part of StreamId: should be number: " ++ text)
            | some id => .ok { ms := ms, id := id }

theorem lt_def (a b : StreamId) : a < b ↔ a.ms < b.ms ∨ a.ms = b.ms ∧ a.id < b.id :=
  Iff.rfl

/-- The order of two numbers, lexicographically. -/
theorem lt_iff_toNat (a b : StreamId) :
    a < b ↔ a.ms.toNat < b.ms.toNat ∨
      a.ms.toNat = b.ms.toNat ∧ a.id.toNat < b.id.toNat := by
  rw [lt_def, UInt64.lt_iff_toNat_lt, UInt64.lt_iff_toNat_lt, UInt64.toNat_inj]

theorem lt_irrefl (a : StreamId) : ¬ a < a := by
  rw [lt_iff_toNat]
  omega

theorem lt_trichotomy (a b : StreamId) : a < b ∨ a = b ∨ b < a := by
  obtain ⟨ams, aid⟩ := a
  obtain ⟨bms, bid⟩ := b
  simp only [lt_iff_toNat, StreamId.mk.injEq, ← UInt64.toNat_inj]
  omega

/-- The order of a `std::map` with these keys. -/
instance : LinearOrder StreamId where
  le a b := ¬ b < a
  le_refl := lt_irrefl
  le_trans a b c := by
    simp only [lt_iff_toNat]
    omega
  lt_iff_le_not_ge a b := by
    simp only [lt_iff_toNat]
    omega
  le_antisymm a b hab hba := by
    rcases lt_trichotomy a b with h | h | h
    · exact absurd h hba
    · exact h
    · exact absurd h hab
  le_total a b := by
    simp only [lt_iff_toNat]
    omega
  toDecidableLE a b := inferInstanceAs (Decidable (¬ b < a))

/-- A printed id does not hold the delimiter inside its first part. -/
theorem splitAtDelim_toString (a : StreamId) :
    splitAtDelim [minusByte] a.toString =
      some (decimal a.ms.toNat, decimal a.id.toNat) :=
  splitAtDelim_single _ (not_mem_decimal (by decide))

/-- A printed id reads back unchanged. -/
theorem fromString_toString (a : StreamId) : fromString a.toString = .ok a := by
  have hne : a.toString ≠ [] := by simp [toString]
  have hzero : a.toString ≠ ascii "0" := by
    intro h
    have hmem : minusByte ∈ a.toString := by simp [toString]
    rw [h] at hmem
    exact absurd hmem (by decide)
  simp only [fromString, hne, hzero, if_false, splitAtDelim_toString, parseUInt64_decimal]

end StreamId

/-! ## The id of XADD -/

/-- `InputStreamId`, what XADD is given: the sequence number can be left to the stream, or the
whole id to the stream and the clock. -/
structure InputStreamId extends StreamId where
  idWildcard : Bool := false
  generalWildcard : Bool := false
  deriving DecidableEq, Repr, Inhabited

namespace InputStreamId

/-- `InputStreamId::is_full_defined`. -/
def isFullDefined (a : InputStreamId) : Bool := !a.generalWildcard && !a.idWildcard

/-- `InputStreamId::is_null`.  An id with a wildcard is not null, whatever its numbers are: it
has none yet. -/
def isNull (a : InputStreamId) : Bool := a.isFullDefined && a.toStreamId.isNull

/-- `InputStreamId::to_string`. -/
def toString (a : InputStreamId) : Bytes :=
  if a.generalWildcard then ascii "*"
  else if a.idWildcard then decimal a.ms.toNat ++ ascii "-*"
  else a.toStreamId.toString

/-- `InputStreamId::from_string` on a default constructed object.  Other than for a `StreamId`,
a first part alone is no id, except for the text `0`. -/
def fromString (text : Bytes) : Except Bytes InputStreamId :=
  if text = ascii "0" then .ok {}
  else if text = ascii "*" then .ok { generalWildcard := true }
  else
    match splitAtDelim [minusByte] text with
    | none => .error (ascii "unexpected StreamId composition: " ++ text)
    | some (ms, id) =>
        match parseUInt64 ms with
        | none => .error
            (ascii "unexpected first part of StreamId: should be number: " ++ text)
        | some ms =>
            if id = ascii "*" then .ok { ms := ms, idWildcard := true }
            else
              match parseUInt64 id with
              | none => .error
                  (ascii "unexpected second part of StreamId: should be number: " ++ text)
              | some id => .ok { ms := ms, id := id }

end InputStreamId

/-! ## The bounds of XRANGE -/

/-- `BoundStreamId`, what XRANGE is given: `-` and `+` stand for the ends of the stream.  Each
is looked at on its own side only; on the other one it is 0-0. -/
structure BoundStreamId extends StreamId where
  isLeftUnbound : Bool := false
  isRightUnbound : Bool := false
  deriving DecidableEq, Repr, Inhabited

namespace BoundStreamId

/-- `BoundStreamId::to_string`. -/
def toString (a : BoundStreamId) : Bytes :=
  if a.isLeftUnbound then ascii "-"
  else if a.isRightUnbound then ascii "+"
  else a.toStreamId.toString

/-- `BoundStreamId::from_string` on a default constructed object. -/
def fromString (text : Bytes) : Except Bytes BoundStreamId :=
  if text = ascii "-" then .ok { isLeftUnbound := true }
  else if text = ascii "+" then .ok { isRightUnbound := true }
  else
    match StreamId.fromString text with
    | .ok id => .ok { toStreamId := id }
    | .error what => .error what

end BoundStreamId

/-! ## The starting id of XREAD -/

/-- `ReadStreamId`, what XREAD is given: `$` stands for whatever is the last id when the reader
blocks. -/
structure ReadStreamId extends StreamId where
  isNextExpected : Bool := false
  deriving DecidableEq, Repr, Inhabited

namespace ReadStreamId

/-- `ReadStreamId::to_string`. -/
def toString (a : ReadStreamId) : Bytes :=
  if a.isNextExpected then ascii "$" else a.toStreamId.toString

/-- `ReadStreamId::from_string` on a default constructed object. -/
def fromString (text : Bytes) : Except Bytes ReadStreamId :=
  if text = ascii "$" then .ok { isNextExpected := true }
  else
    match StreamId.fromString text with
    | .ok id => .ok { toStreamId := id }
    | .error what => .error what

/-- A `StreamId` that was printed is read as itself, not as `$`. -/
theorem fromString_toString (a : StreamId) :
    fromString a.toString = .ok { toStreamId := a } := by
  have hdollar : a.toString ≠ ascii "$" := by
    intro h
    have hmem : minusByte ∈ a.toString := by simp [StreamId.toString]
    rw [h] at hmem
    exact absurd hmem (by decide)
  simp only [fromString, hdollar, if_false, StreamId.fromString_toString]

end ReadStreamId

end BuildYourOwnRedis
