/-
  Rdb/RdbParser.lean --- `rdb_parser.cpp`: loading a dump.

  The stream is the list of the bytes that are still unread.  A `read` that runs into
  the end fails the stream, and every read is followed by the check that throws
  `RDBParseError`.  `peek` at the end gives 0xFF and fails only the next read.

  The calls of `restore` are the result; the ones made before an exception stay made.
  `Clock::now()` is read once for every entry; `clock n` is the reading at entry `n`.
-/
import BuildYourOwnRedis.Foundation.Reader
import BuildYourOwnRedis.Utils

set_option autoImplicit false

namespace BuildYourOwnRedis

open Foundation

/-- Nanoseconds since the epoch: a `std::chrono::system_clock::time_point`. -/
abbrev Timepoint : Type := Int

/-- The count of a time point is a `std::int64_t`; a product that does not fit wraps. -/
def toInt64 (n : Int) : Int := (n + 2 ^ 63) % 2 ^ 64 - 2 ^ 63

/-- `Timepoint(std::chrono::seconds(n))`. -/
def timepointOfSeconds (n : Nat) : Timepoint := toInt64 (n * 10 ^ 9)

/-- `Timepoint(std::chrono::milliseconds(n))`. -/
def timepointOfMilliseconds (n : Nat) : Timepoint := toInt64 (toInt64 n * 10 ^ 6)

/-- A call of `IRDBParserListener::restore`, with its three arguments.  The listener is the
storage, which stores a string in each call. -/
structure Restored where
  key : Bytes
  value : Bytes
  expireTime : Option Timepoint
  deriving DecidableEq, Repr

/-- `RDBParseError`. -/
structure RdbParseError where
  what : Bytes
  deriving DecidableEq, Repr

namespace RdbParser

/-- `OpCode`, in the order of the source: the text of an error names the number. -/
inductive OpCode where
  | aux
  | selectDb
  | expireTime
  | expireTimeMs
  | resizeDb
  | eof
  deriving DecidableEq, Repr

/-- `LengthEncoding`. -/
inductive LengthEncoding where
  | length (length : UInt32)
  | special (special : Byte)
  deriving DecidableEq, Repr

/-- `Entry`. -/
structure Entry where
  key : Bytes
  value : Bytes
  expireTime : Option Timepoint := none
  deriving DecidableEq, Repr

/-- A part of the parser: it takes a value off the stream or throws. -/
abbrev Parse (α : Type) : Type := Reader Byte RdbParseError α

/-- `throw RDBParseError(..)`. -/
def fail {α : Type} (what : Bytes) : Parse α := fun _ => .error ⟨what⟩

/-- `"Invalid input stream"`. -/
def invalidInputStream : RdbParseError := ⟨ascii "Invalid input stream"⟩

/-- `to_hex` of a `std::uint8_t`, which a stream prints as a character: the text of an error
holds the byte itself behind a `0`. -/
def toHex (b : Byte) : Bytes := ascii "0" ++ [b]

/-! ## Reading fields -/

/-- `parse_string`. -/
def parseString (count : Nat) : Parse Bytes := fun from_ =>
  if from_.length < count then .error invalidInputStream
  else .ok (from_.take count, from_.drop count)

/-- `peek_uint8`. -/
def peekUInt8 : Parse Byte := fun from_ => .ok (from_.headD 0xFF, from_)

/-- `parse_uint8`. -/
def parseUInt8 : Parse Byte := fun from_ =>
  match from_ with
  | [] => .error invalidInputStream
  | b :: rest => .ok (b, rest)

/-- The reads of an integer; the machine is little-endian. -/
def parseLittleEndian (width : Nat) : Parse Nat := do
  let bytes ← parseString width
  return littleEndian bytes

/-- `parse_int8`. -/
def parseInt8 : Parse Int := signed 1 <$> parseLittleEndian 1

/-- `parse_int16`. -/
def parseInt16 : Parse Int := signed 2 <$> parseLittleEndian 2

/-- `parse_int32`. -/
def parseInt32 : Parse Int := signed 4 <$> parseLittleEndian 4

/-- `parse_uint32`. -/
def parseUInt32 : Parse Nat := parseLittleEndian 4

/-- `parse_uint64`. -/
def parseUInt64 : Parse Nat := parseLittleEndian 8

/-- `parse_op_code`. -/
def parseOpCode : Parse OpCode := do
  let ch ← parseUInt8
  if ch = 0xFF then return .eof
  else if ch = 0xFA then return .aux
  else if ch = 0xFB then return .resizeDb
  else if ch = 0xFC then return .expireTimeMs
  else if ch = 0xFE then return .selectDb
  else if ch = 0xFD then return .expireTime
  else fail (ascii "Unexpected opcode 0x" ++ toHex ch)

/-- `parse_length_encoding`.  In the second class `+` binds before `<<`: the shift is by
8 plus the next byte.  A shift by 32 or more, which the language leaves undefined, is
taken modulo 32 as the machine does. -/
def parseLengthEncoding : Parse LengthEncoding := do
  let ch ← parseUInt8
  let type := (ch &&& 0xc0) >>> 6
  if type = 0 then return .length (ch &&& 0x3f).toUInt32
  else if type = 1 then
    let next ← parseUInt8
    return .length ((ch &&& 0x3f).toUInt32 <<< (8 + next.toUInt32))
  else if type = 2 then
    let length ← parseUInt32
    return .length (UInt32.ofNat length)
  else return .special (ch &&& 0x3f)

/-- `parse_string_encoded`: the bytes behind a length, or the decimal text of an integer of
one, two or four bytes. -/
def parseStringEncoded : Parse Bytes := do
  match ← parseLengthEncoding with
  | .length length => parseString length.toNat
  | .special special =>
      if special = 0 then decimalInt <$> parseInt8
      else if special = 1 then decimalInt <$> parseInt16
      else if special = 2 then decimalInt <$> parseInt32
      else fail (ascii "Unknown string encoding special type")

/-- `parse_aux_field`: key and value are only printed. -/
def parseAuxField : Parse Unit := do
  let _ ← parseStringEncoded
  let _ ← parseStringEncoded
  return ()

/-! ## A database -/

/-- `parse_entry`.  Strings are the only type that is known.  For any other no byte is taken
and there is no entry: this is how the entries of a database end, and an error behind a
deadline. -/
def parseEntry (type : Byte) : Parse (Option Entry) :=
  if type ≠ 0x00 then return none
  else do
    let _ ← parseUInt8
    let key ← parseStringEncoded
    let value ← parseStringEncoded
    return some { key := key, value := value }

/-- The entry that a deadline announces. -/
def parseExpiringEntry (expireTime : Timepoint) : Parse (Option Entry) := do
  let next ← peekUInt8
  match ← parseEntry next with
  | none => fail (ascii "Expected entry")
  | some entry => return some { entry with expireTime := some expireTime }

/-- The part of the loop of `parse_db` up to the entry; `none` leaves the loop. -/
def parseNextEntry : Parse (Option Entry) := do
  let next ← peekUInt8
  if next = 0xFD then
    let _ ← parseUInt8
    let expireTimeS ← parseUInt32
    parseExpiringEntry (timepointOfSeconds expireTimeS)
  else if next = 0xFC then
    let _ ← parseUInt8
    let expireTimeMs ← parseUInt64
    parseExpiringEntry (timepointOfMilliseconds expireTimeMs)
  else parseEntry next

/-- The start of `parse_db`.  Where no 0xFB section follows the number, the opcode that
was read instead of it is dropped. -/
def parseDbHeader : Parse Unit := do
  let _ ← parseUInt8
  let opcode ← parseOpCode
  if opcode = .resizeDb then
    let _ ← parseLengthEncoding
    let _ ← parseLengthEncoding
    return ()
  else return ()

/-- The calls of `restore` so far and the number of entries met.  The clock is read once for
each entry met, also for one that has expired and is dropped. -/
structure Progress where
  restored : List Restored := []
  met : Nat := 0
  deriving DecidableEq, Repr

/-- An entry is passed on when it has no deadline or the deadline is later than now. -/
def Progress.meet (clock : Nat → Timepoint) (progress : Progress) (entry : Entry) :
    Progress where
  restored :=
    if entry.expireTime.all (fun deadline => deadline > clock progress.met) then
      progress.restored ++ [⟨entry.key, entry.value, entry.expireTime⟩]
    else progress.restored
  met := progress.met + 1

/-- Where a loop of the parser got to: how it ended, and the progress until then. -/
abbrev Outcome (α : Type) : Type := Progress × Except RdbParseError α

/-- The loop of `parse_db`; every turn that does not leave it takes an entry off the
stream. -/
def parseEntries (clock : Nat → Timepoint) : Nat → Progress → Bytes → Outcome Bytes
  | 0, progress, from_ => (progress, .ok from_)
  | fuel + 1, progress, from_ =>
      match parseNextEntry.run from_ with
      | .error e => (progress, .error e)
      | .ok (none, from_) => (progress, .ok from_)
      | .ok (some entry, from_) => parseEntries clock fuel (progress.meet clock entry) from_

/-- `parse_db`: the header of a database and then its entries.  What has been restored before
an error stays restored, so it is part of the outcome. -/
def parseDb (clock : Nat → Timepoint) (progress : Progress) (from_ : Bytes) :
    Outcome Bytes :=
  match parseDbHeader.run from_ with
  | .error e => (progress, .error e)
  | .ok (_, from_) => parseEntries clock (from_.length + 1) progress from_

/-! ## A dump -/

/-- The start of `parse`. -/
def parseHeader : Parse Int := do
  let redisMagic ← parseString 5
  if redisMagic ≠ ascii "REDIS" then fail (ascii "Missing magic")
  else
    let rdbVersion ← parseString 4
    match parseInt rdbVersion with
    | some rdbVersion => return rdbVersion
    | none => fail (ascii "Missing rdb version")

/-- `OP_EOF`: a checksum follows since version 5. -/
def parseEnd (rdbVersion : Int) : Parse Unit := do
  if rdbVersion ≥ 5 then
    let _ ← parseString 8
    return ()
  else return ()

/-- The loop of `parse`; every turn takes an opcode off the stream. -/
def parseSections (clock : Nat → Timepoint) (rdbVersion : Int) :
    Nat → Progress → Bytes → Outcome Unit
  | 0, progress, _ => (progress, .ok ())
  | fuel + 1, progress, from_ =>
      match parseOpCode.run from_ with
      | .error e => (progress, .error e)
      | .ok (opcode, from_) =>
          match opcode with
          | .aux =>
              match parseAuxField.run from_ with
              | .error e => (progress, .error e)
              | .ok (_, from_) => parseSections clock rdbVersion fuel progress from_
          | .selectDb =>
              match parseDb clock progress from_ with
              | (progress, .error e) => (progress, .error e)
              | (progress, .ok from_) => parseSections clock rdbVersion fuel progress from_
          | .eof =>
              match (parseEnd rdbVersion).run from_ with
              | .error e => (progress, .error e)
              | .ok _ => (progress, .ok ())
          | .expireTime => (progress, .error ⟨ascii "Unexpected section 0x" ++ toHex 2⟩)
          | .expireTimeMs => (progress, .error ⟨ascii "Unexpected section 0x" ++ toHex 3⟩)
          | .resizeDb => (progress, .error ⟨ascii "Unexpected section 0x" ++ toHex 4⟩)

/-- `RDBParser::parse`: the header, then sections until the end of the file.  Each section
takes at least a byte, so the length of the dump is fuel enough. -/
def parse (clock : Nat → Timepoint) (from_ : Bytes) : Outcome Unit :=
  match parseHeader.run from_ with
  | .error e => ({}, .error e)
  | .ok (rdbVersion, from_) => parseSections clock rdbVersion (from_.length + 1) {} from_

/-! ## What the parts take -/

open Reader

theorem local_fail {α : Type} (what : Bytes) : Local (fail what : Parse α) := nofun

theorem local_parseString (count : Nat) : Local (parseString count) := by
  intro input b rest h
  simp only [parseString, StateT.run] at h
  split at h
  · cases h
  · next hlen =>
      obtain ⟨rfl, rfl⟩ := Prod.mk.inj (Except.ok.inj h)
      have htaken : (input.take count).length = count :=
        List.length_take_of_le (Nat.le_of_not_lt hlen)
      refine ⟨input.take count, (List.take_append_drop count input).symm, fun more => ?_⟩
      simp only [parseString, StateT.run]
      rw [if_neg (by rw [List.length_append]; omega), List.take_append_of_le_length htaken.ge,
        List.take_of_length_le htaken.le, List.drop_left' htaken]

theorem local_parseUInt8 : Local parseUInt8 := by
  intro input b rest h
  cases input with
  | nil => cases h
  | cons b' input =>
      obtain ⟨rfl, rfl⟩ := Prod.mk.inj (Except.ok.inj h)
      exact ⟨[b'], rfl, fun _ => rfl⟩

theorem local_parseLittleEndian (width : Nat) : Local (parseLittleEndian width) :=
  (local_parseString width).bind fun _ => local_pure _

theorem local_parseOpCode : Local parseOpCode := by
  refine local_parseUInt8.bind fun ch => ?_
  repeat' split
  all_goals first | exact local_pure _ | exact local_fail _

theorem local_parseLengthEncoding : Local parseLengthEncoding := by
  refine local_parseUInt8.bind fun ch => ?_
  simp only
  split
  · exact local_pure _
  split
  · exact local_parseUInt8.bind fun _ => local_pure _
  split
  · exact (local_parseLittleEndian 4).bind fun _ => local_pure _
  · exact local_pure _

theorem local_parseStringEncoded : Local parseStringEncoded := by
  refine local_parseLengthEncoding.bind fun encoding => ?_
  cases encoding with
  | length length => exact local_parseString _
  | special special =>
      simp only
      split
      · exact ((local_parseLittleEndian 1).map _).map _
      split
      · exact ((local_parseLittleEndian 2).map _).map _
      split
      · exact ((local_parseLittleEndian 4).map _).map _
      · exact local_fail _

theorem local_parseAuxField : Local parseAuxField :=
  local_parseStringEncoded.bind fun _ => local_parseStringEncoded.bind fun _ => local_pure _

theorem local_parseDbHeader : Local parseDbHeader := by
  refine local_parseUInt8.bind fun _ => local_parseOpCode.bind fun opcode => ?_
  split
  · exact local_parseLengthEncoding.bind fun _ =>
      local_parseLengthEncoding.bind fun _ => local_pure _
  · exact local_pure _

theorem local_parseEntry (type : Byte) : Local (parseEntry type) := by
  unfold parseEntry
  split
  · exact local_pure _
  · exact local_parseUInt8.bind fun _ => local_parseStringEncoded.bind fun _ =>
      local_parseStringEncoded.bind fun _ => local_pure _

/-! ## The loops end

Every turn takes at least one byte, so the fuel of the loops is never used up. -/

theorem consumes_parseUInt8 : Consumes parseUInt8 := by
  intro input b rest h
  cases input with
  | nil => cases h
  | cons b' input =>
      obtain ⟨-, rfl⟩ := Prod.mk.inj (Except.ok.inj h)
      exact Nat.lt_succ_self _

theorem consumes_parseOpCode : Consumes parseOpCode := by
  refine consumes_parseUInt8.bind fun ch => Local.shrinks ?_
  repeat' split
  all_goals first | exact local_pure _ | exact local_fail _

theorem shrinks_peekUInt8 : Shrinks peekUInt8 := by
  intro input b rest h
  obtain ⟨-, rfl⟩ := Prod.mk.inj (Except.ok.inj h)
  exact Nat.le_refl _

theorem shrinks_parseExpiringEntry (expireTime : Timepoint) :
    Shrinks (parseExpiringEntry expireTime) := by
  refine shrinks_peekUInt8.bind fun next => (local_parseEntry next).shrinks.bind fun entry => ?_
  cases entry with
  | none => exact (local_fail _).shrinks
  | some entry => exact (local_pure _).shrinks

theorem shrinks_parseNextEntry : Shrinks parseNextEntry := by
  refine shrinks_peekUInt8.bind fun next => ?_
  split
  · exact local_parseUInt8.shrinks.bind fun _ =>
      (local_parseLittleEndian 4).shrinks.bind fun _ => shrinks_parseExpiringEntry _
  split
  · exact local_parseUInt8.shrinks.bind fun _ =>
      (local_parseLittleEndian 8).shrinks.bind fun _ => shrinks_parseExpiringEntry _
  · exact (local_parseEntry next).shrinks

theorem parseEntry_some {type : Byte} {input rest : Bytes} {entry : Entry}
    (h : (parseEntry type).run input = .ok (some entry, rest)) :
    rest.length < input.length := by
  unfold parseEntry at h
  split at h
  · cases h
  · refine consumes_parseUInt8.bind (fun _ => Local.shrinks ?_) input _ rest h
    exact local_parseStringEncoded.bind fun _ =>
      local_parseStringEncoded.bind fun _ => local_pure _

/-- A turn of the loop of `parse_db` that meets an entry takes at least its type byte. -/
theorem parseNextEntry_some {input rest : Bytes} {entry : Entry}
    (h : parseNextEntry.run input = .ok (some entry, rest)) : rest.length < input.length := by
  rw [parseNextEntry, run_bind] at h
  simp only [peekUInt8, StateT.run] at h
  split at h
  · refine consumes_parseUInt8.bind (fun _ => ?_) input _ rest h
    exact (local_parseLittleEndian 4).shrinks.bind fun _ => shrinks_parseExpiringEntry _
  split at h
  · refine consumes_parseUInt8.bind (fun _ => ?_) input _ rest h
    exact (local_parseLittleEndian 8).shrinks.bind fun _ => shrinks_parseExpiringEntry _
  · exact parseEntry_some h

/-- What the loop of `parse_db` leaves is no longer than what it got. -/
theorem length_parseEntries {clock : Nat → Timepoint} {fuel : Nat}
    {progress progress' : Progress} {input rest : Bytes}
    (h : parseEntries clock fuel progress input = (progress', .ok rest)) :
    rest.length ≤ input.length := by
  induction fuel generalizing progress input with
  | zero =>
      obtain ⟨-, hrest⟩ := Prod.mk.inj h
      rw [Except.ok.inj hrest]
  | succ fuel ih =>
      rw [parseEntries] at h
      split at h
      · cases h
      · next input' hnext =>
          obtain ⟨-, hrest⟩ := Prod.mk.inj h
          rw [← Except.ok.inj hrest]
          exact shrinks_parseNextEntry _ _ _ hnext
      · next entry input' hnext =>
          exact Nat.le_trans (ih h) (Nat.le_of_lt (parseNextEntry_some hnext))

/-- Fuel beyond the length of the stream makes no difference to the loop of `parse_db`. -/
theorem parseEntries_fuel (clock : Nat → Timepoint) {fuel fuel' : Nat} (progress : Progress)
    {input : Bytes} (hfuel : input.length < fuel) (hfuel' : input.length < fuel') :
    parseEntries clock fuel progress input = parseEntries clock fuel' progress input := by
  induction fuel generalizing fuel' progress input with
  | zero => omega
  | succ fuel ih =>
      obtain ⟨fuel', rfl⟩ : ∃ k, fuel' = k + 1 := ⟨fuel' - 1, by omega⟩
      rw [parseEntries, parseEntries]
      split
      · rfl
      · rfl
      · next entry input' hnext =>
          have hlt := parseNextEntry_some hnext
          exact ih _ (by omega) (by omega)

/-- The same of the loop of `parse`. -/
theorem parseSections_fuel (clock : Nat → Timepoint) (rdbVersion : Int) {fuel fuel' : Nat}
    (progress : Progress) {input : Bytes} (hfuel : input.length < fuel)
    (hfuel' : input.length < fuel') :
    parseSections clock rdbVersion fuel progress input =
      parseSections clock rdbVersion fuel' progress input := by
  induction fuel generalizing fuel' progress input with
  | zero => omega
  | succ fuel ih =>
      obtain ⟨fuel', rfl⟩ : ∃ k, fuel' = k + 1 := ⟨fuel' - 1, by omega⟩
      rw [parseSections, parseSections]
      split
      · rfl
      · next opcode input₁ hop =>
          have hlt := consumes_parseOpCode _ _ _ hop
          cases opcode with
          | aux =>
              simp only
              split
              · rfl
              · next input₂ haux =>
                  have hle := local_parseAuxField.shrinks _ _ _ haux
                  exact ih _ (by omega) (by omega)
          | selectDb =>
              simp only
              split
              · rfl
              · next progress' input₂ hdb =>
                  have hle : input₂.length ≤ input₁.length := by
                    rw [parseDb] at hdb
                    split at hdb
                    · cases hdb
                    · next input₃ hheader =>
                        exact Nat.le_trans (length_parseEntries hdb)
                          (local_parseDbHeader.shrinks _ _ _ hheader)
                  exact ih _ (by omega) (by omega)
          | eof | expireTime | expireTimeMs | resizeDb => rfl

end RdbParser

/-- `RDBParse`: the calls of `restore` in order, and how it ended.  `clock n` is the reading of
the clock for the n-th entry. -/
def rdbParse (clock : Nat → Timepoint) (from_ : Bytes) :
    List Restored × Except RdbParseError Unit :=
  let (progress, result) := RdbParser.parse clock from_
  (progress.restored, result)

end BuildYourOwnRedis
