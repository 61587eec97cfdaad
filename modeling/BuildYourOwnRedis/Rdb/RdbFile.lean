/-
  Rdb/RdbFile.lean --- dumps as they are written, and what loading makes of them.

  `RdbFile` is the format: every field carries its bounds, so every value is a dump.
  `RdbFile.bytes` writes it and `RdbFile.restores` says which entries loading must
  restore.  The parser keeps in step with the file as long as three parts of the format
  are absent that it misreads:

    * a 14-bit length whose low byte is not 0 (the shift of `parse_length_encoding`),
    * a 32-bit length whose bytes differ from themselves in reverse order (it is read in
      the order of the machine),
    * a database without the 0xFB section (`parse_db` drops the opcode it finds there),

  and it restores the right deadlines as long as no deadline in milliseconds is beyond
  the range of a time point.
-/
import BuildYourOwnRedis.Rdb.RdbParser

set_option autoImplicit false

namespace BuildYourOwnRedis

open Foundation

/-! ## The format -/

/-- A length in one of the three classes of the format.  A writer may choose a longer class
than it needs, so the class is part of the value. -/
inductive RdbLength where
  | sixBit (n : Nat) (h : n < 2 ^ 6)
  | fourteenBit (n : Nat) (h : n < 2 ^ 14)
  | thirtyTwoBit (n : Nat) (h : n < 2 ^ 32)

namespace RdbLength

/-- The number. -/
def value : RdbLength → Nat
  | .sixBit n _ => n
  | .fourteenBit n _ => n
  | .thirtyTwoBit n _ => n

/-- The high part comes first. -/
def bytes : RdbLength → Bytes
  | .sixBit n _ => [UInt8.ofNat n]
  | .fourteenBit n _ => [UInt8.ofNat (0x40 + n / 256), UInt8.ofNat n]
  | .thirtyTwoBit n _ => 0x80 :: (toLittleEndian 4 n).reverse

/-- The classes and lengths that the parser reads as they were written.  In the 14-bit class
the amount of the shift takes in the second byte, by the precedence of the operators; in the
32-bit class the four bytes are taken in the order of the machine. -/
def ReadRight : RdbLength → Prop
  | .sixBit _ _ => True
  | .fourteenBit n _ => n % 256 = 0
  | .thirtyTwoBit n _ => (toLittleEndian 4 n).reverse = toLittleEndian 4 n

end RdbLength

/-- A string: its length and its bytes, or an integer that stands for its text.  Each
constructor carries the bounds of what it can hold. -/
inductive RdbString where
  | plain (data : Bytes) (length : RdbLength) (h : length.value = data.length)
  | int8 (value : Int) (h : -2 ^ 7 ≤ value ∧ value < 2 ^ 7)
  | int16 (value : Int) (h : -2 ^ 15 ≤ value ∧ value < 2 ^ 15)
  | int32 (value : Int) (h : -2 ^ 31 ≤ value ∧ value < 2 ^ 31)

namespace RdbString

/-- The text. -/
def value : RdbString → Bytes
  | .plain data _ _ => data
  | .int8 value _ => decimalInt value
  | .int16 value _ => decimalInt value
  | .int32 value _ => decimalInt value

/-- The encoding. -/
def bytes : RdbString → Bytes
  | .plain data length _ => length.bytes ++ data
  | .int8 value _ => 0xC0 :: toTwosComplement 1 value
  | .int16 value _ => 0xC1 :: toTwosComplement 2 value
  | .int32 value _ => 0xC2 :: toTwosComplement 4 value

/-- The strings that the parser reads as they were written. -/
def ReadRight : RdbString → Prop
  | .plain _ length _ => length.ReadRight
  | .int8 _ _ | .int16 _ _ | .int32 _ _ => True

end RdbString

/-- The deadline of an entry. -/
inductive RdbDeadline where
  | seconds (n : Nat) (h : n < 2 ^ 32)
  | milliseconds (n : Nat) (h : n < 2 ^ 64)

namespace RdbDeadline

/-- The point in time. -/
def timepoint : RdbDeadline → Timepoint
  | .seconds n _ => n * 10 ^ 9
  | .milliseconds n _ => n * 10 ^ 6

/-- The opcode and the number. -/
def bytes : RdbDeadline → Bytes
  | .seconds n _ => 0xFD :: toLittleEndian 4 n
  | .milliseconds n _ => 0xFC :: toLittleEndian 8 n

/-- What the parser makes of it. -/
def parsed : RdbDeadline → Timepoint
  | .seconds n _ => timepointOfSeconds n
  | .milliseconds n _ => timepointOfMilliseconds n

/-- A time point counts nanoseconds in 64 bits. -/
def Fits (deadline : RdbDeadline) : Prop := deadline.timepoint < 2 ^ 63

end RdbDeadline

/-- An entry of a database: a string value. -/
structure RdbEntry where
  deadline : Option RdbDeadline
  key : RdbString
  value : RdbString

namespace RdbEntry

/-- Deadline, type byte, key and value. -/
def bytes (entry : RdbEntry) : Bytes :=
  (entry.deadline.map RdbDeadline.bytes).getD [] ++
    (0x00 :: (entry.key.bytes ++ entry.value.bytes))

/-- The call of `restore` that the entry stands for. -/
def restored (entry : RdbEntry) : Restored :=
  ⟨entry.key.value, entry.value.value, entry.deadline.map RdbDeadline.timepoint⟩

/-- The entry has no deadline, or it is later than now. -/
def Live (now : Timepoint) (entry : RdbEntry) : Prop :=
  ∀ deadline ∈ entry.deadline, deadline.timepoint > now

instance (now : Timepoint) (entry : RdbEntry) : Decidable (entry.Live now) :=
  inferInstanceAs (Decidable (∀ deadline ∈ entry.deadline, deadline.timepoint > now))

/-- What the parser makes of it. -/
def parsed (entry : RdbEntry) : RdbParser.Entry :=
  ⟨entry.key.value, entry.value.value, entry.deadline.map RdbDeadline.parsed⟩

end RdbEntry

/-- A database. -/
structure RdbDb where
  number : Nat
  number_lt : number < 64
  /-- the 0xFB section: the sizes of the two tables -/
  resize : Option (RdbLength × RdbLength)
  entries : List RdbEntry

namespace RdbDb

/-- What stands between the opcode 0xFE and the entries. -/
def header (db : RdbDb) : Bytes :=
  UInt8.ofNat db.number ::
    (db.resize.map fun (size, expireSize) => 0xFB :: (size.bytes ++ expireSize.bytes)).getD []

/-- Opcode, header and entries. -/
def bytes (db : RdbDb) : Bytes :=
  0xFE :: (db.header ++ db.entries.flatMap RdbEntry.bytes)

end RdbDb

/-- A dump, as the format describes it: auxiliary fields, databases and a checksum, of which
only the length matters.  What the fields demand is what every writer obeys. -/
structure RdbFile where
  version : Bytes
  version_length : version.length = 4
  version_digits : ∀ b ∈ version, isDigit b = true
  version_ge : 5 ≤ decimalValue version
  aux : List (RdbString × RdbString)
  dbs : List RdbDb
  checksum : Bytes
  checksum_length : checksum.length = 8

namespace RdbFile

/-- One aux field. -/
def auxBytes (field : RdbString × RdbString) : Bytes :=
  0xFA :: (field.1.bytes ++ field.2.bytes)

/-- The dump. -/
def bytes (file : RdbFile) : Bytes :=
  ascii "REDIS" ++ (file.version ++ (file.aux.flatMap auxBytes ++
    (file.dbs.flatMap RdbDb.bytes ++ (0xFF :: file.checksum))))

/-- All entries in the order of the file. -/
def entries (file : RdbFile) : List RdbEntry := file.dbs.flatMap RdbDb.entries

/-- The live ones among the entries from the `n`-th on. -/
def restoresFrom (clock : Nat → Timepoint) : Nat → List RdbEntry → List Restored
  | _, [] => []
  | n, entry :: entries =>
      if entry.Live (clock n) then entry.restored :: restoresFrom clock (n + 1) entries
      else restoresFrom clock (n + 1) entries

/-- What loading must restore. -/
def restores (file : RdbFile) (clock : Nat → Timepoint) : List Restored :=
  restoresFrom clock 0 file.entries

/-- None of the parts that the parser misreads.  Behind such a part it would go on at a wrong
place, so nothing is said of the rest of the file then. -/
structure InStep (file : RdbFile) : Prop where
  aux : ∀ field ∈ file.aux, field.1.ReadRight ∧ field.2.ReadRight
  resize : ∀ db ∈ file.dbs, db.resize.isSome
  entries : ∀ entry ∈ file.entries, entry.key.ReadRight ∧ entry.value.ReadRight

/-- Every deadline is in the range of a time point. -/
def DeadlinesFit (file : RdbFile) : Prop :=
  ∀ entry ∈ file.entries, ∀ deadline ∈ entry.deadline, deadline.Fits

/-- Loading undoes writing, at every clock: `restore` is called once for each live entry, in
order and with its deadline, and the end of the file is reached. -/
def Loads (file : RdbFile) : Prop :=
  ∀ clock, rdbParse clock file.bytes = (file.restores clock, .ok ())

end RdbFile

/-! ## Numbers -/

/-- A number of at most 14 bits is its high part shifted only if its low byte is 0. -/
theorem low_eq_zero_of_shift {high low s : Nat} (hlow : low < 256)
    (h : high * 2 ^ s % 2 ^ 32 = 256 * high + low) : low = 0 := by
  by_cases hs : s < 8
  · -- the shifted part stays below 256 times the high part
    have hpow : 2 ^ s ≤ 2 ^ 7 := Nat.pow_le_pow_right (by decide) (by omega)
    have hle : high * 2 ^ s ≤ high * 2 ^ 7 := Nat.mul_le_mul_left high hpow
    have hmod : high * 2 ^ s % 2 ^ 32 ≤ high * 2 ^ s := Nat.mod_le _ _
    omega
  · -- the shifted part is a multiple of 256, whatever is cut off above
    have hpow : 2 ^ 8 ∣ high * 2 ^ s :=
      Nat.dvd_mul_left_of_dvd (Nat.pow_dvd_pow 2 (by omega)) high
    have hdvd : 2 ^ 8 ∣ high * 2 ^ s % 2 ^ 32 :=
      (Nat.dvd_mod_iff (Nat.pow_dvd_pow 2 (by decide))).mpr hpow
    rw [h] at hdvd
    omega

/-- The operator `+` binds more strongly than `<<`, so the low byte is added to the amount of
the shift.  This gives the length only when the low byte is 0. -/
theorem shiftLeft_eq_iff {high low : Nat} (hhigh : high < 64) (hlow : low < 256) :
    (UInt32.ofNat high <<< (8 + UInt32.ofNat low)).toNat = 256 * high + low ↔ low = 0 := by
  have hshift : (8 + UInt32.ofNat low).toNat = 8 + low := by
    rw [UInt32.toNat_add, UInt32.toNat_ofNat_of_lt' (by simp only [UInt32.size]; omega)]
    exact Nat.mod_eq_of_lt (by simp; omega)
  have hvalue : (UInt32.ofNat high).toNat = high :=
    UInt32.toNat_ofNat_of_lt' (by simp only [UInt32.size]; omega)
  rw [UInt32.toNat_shiftLeft, hshift, hvalue, Nat.shiftLeft_eq]
  constructor
  · exact low_eq_zero_of_shift hlow
  · rintro rfl
    have hzero : (8 + 0) % 32 = 8 := rfl
    rw [hzero]
    omega

namespace RdbLength

/-- The length that the parser takes from the prefix. -/
def parsed : RdbLength → UInt32
  | .sixBit n _ => UInt32.ofNat n
  | .fourteenBit n _ => UInt32.ofNat (n / 256) <<< (8 + UInt32.ofNat (n % 256))
  | .thirtyTwoBit n _ => UInt32.ofNat (littleEndian (toLittleEndian 4 n).reverse)

/-- It is the length that was written exactly for the lengths that are read right. -/
theorem parsed_eq_iff (length : RdbLength) :
    length.parsed.toNat = length.value ↔ length.ReadRight := by
  cases length with
  | sixBit n h =>
      have hvalue : (UInt32.ofNat n).toNat = n := UInt32.toNat_ofNat_of_lt'
        (by simp only [UInt32.size]; omega)
      simp only [parsed, value, ReadRight, hvalue]
  | fourteenBit n h =>
      have hiff := shiftLeft_eq_iff (show n / 256 < 64 by omega) (Nat.mod_lt n (by decide))
      rw [Nat.div_add_mod] at hiff
      exact hiff
  | thirtyTwoBit n h =>
      have hlt := littleEndian_lt (toLittleEndian 4 n).reverse
      rw [List.length_reverse, length_toLittleEndian] at hlt
      have hparsed : (UInt32.ofNat (littleEndian (toLittleEndian 4 n).reverse)).toNat =
          littleEndian (toLittleEndian 4 n).reverse := UInt32.toNat_ofNat_of_lt' hlt
      have hvalue : littleEndian (toLittleEndian 4 n) = n := littleEndian_toLittleEndian h
      simp only [parsed, value, ReadRight, hparsed]
      constructor
      · intro heq
        refine littleEndian_injective (by simp) ?_
        rw [heq, hvalue]
      · intro heq
        rw [heq, hvalue]

end RdbLength

namespace RdbParser

open Reader

/-! ## Fields -/

theorem reads_parseString (data : Bytes) : Reads (parseString data.length) data data := by
  intro rest
  simp only [parseString, StateT.run, List.length_append]
  rw [if_neg (by omega), List.take_left, List.drop_left]

theorem reads_parseUInt8 (b : Byte) : Reads parseUInt8 [b] b :=
  fun _ => rfl

theorem reads_parseLittleEndian {width : Nat} {data : Bytes} (h : data.length = width) :
    Reads (parseLittleEndian width) data (littleEndian data) := by
  subst h
  exact (reads_parseString data).bind_pure (reads_pure _)

theorem firstByte_sixBit : ∀ n < 64, (UInt8.ofNat n &&& 0xc0) >>> 6 = 0 ∧
    (UInt8.ofNat n &&& 0x3f).toUInt32 = UInt32.ofNat n := by
  decide +kernel

theorem firstByte_fourteenBit : ∀ n < 64, (UInt8.ofNat (0x40 + n) &&& 0xc0) >>> 6 = 1 ∧
    (UInt8.ofNat (0x40 + n) &&& 0x3f).toUInt32 = UInt32.ofNat n := by
  decide +kernel

/-- A length prefix is taken whole in every class, whatever length results. -/
theorem reads_parseLengthEncoding (length : RdbLength) :
    Reads parseLengthEncoding length.bytes (.length length.parsed) := by
  cases length with
  | sixBit n h =>
      obtain ⟨htype, hvalue⟩ := firstByte_sixBit n h
      refine (reads_parseUInt8 (UInt8.ofNat n)).bind_pure ?_
      simp only [htype, hvalue]
      exact reads_pure _
  | fourteenBit n h =>
      obtain ⟨htype, hvalue⟩ := firstByte_fourteenBit (n / 256) (by omega)
      refine (reads_parseUInt8 (UInt8.ofNat (0x40 + n / 256))).bind ?_
      simp only [htype, hvalue]
      refine (reads_parseUInt8 (UInt8.ofNat n)).bind_pure ?_
      have hlow : (UInt8.ofNat n).toUInt32 = UInt32.ofNat (n % 256) := by
        rw [← UInt32.toNat_inj, UInt8.toNat_toUInt32, UInt8.toNat_ofNat',
          UInt32.toNat_ofNat_of_lt' (by simp only [UInt32.size]; omega)]
      rw [hlow]
      exact reads_pure _
  | thirtyTwoBit n h =>
      refine @Reads.bind _ _ _ _ _ _ [0x80] (toLittleEndian 4 n).reverse _ _
        (reads_parseUInt8 0x80) ?_
      refine (reads_parseLittleEndian (by simp)).bind_pure ?_
      exact reads_pure _

/-! ## Strings -/

theorem run_plain (data : Bytes) (length : RdbLength) (rest : Bytes) :
    parseStringEncoded.run (length.bytes ++ data ++ rest) =
      (parseString length.parsed.toNat).run (data ++ rest) := by
  rw [parseStringEncoded, run_bind, List.append_assoc, reads_parseLengthEncoding length]

/-- An integer of so many bytes. -/
theorem reads_parseInt {width : Nat} {value : Int} (hlow : -(256 ^ width : Nat) ≤ 2 * value)
    (hhigh : 2 * value < (256 ^ width : Nat)) :
    Reads (signed width <$> parseLittleEndian width) (toTwosComplement width value) value := by
  have hread := (reads_parseLittleEndian (length_toTwosComplement width value)).map
    (signed width)
  rwa [signed_toTwosComplement hlow hhigh] at hread

theorem reads_parseStringEncoded {s : RdbString} (h : s.ReadRight) :
    Reads parseStringEncoded s.bytes s.value := by
  cases s with
  | plain data length hlength =>
      intro rest
      have hparsed : length.parsed.toNat = data.length := by
        rw [length.parsed_eq_iff.mpr h, hlength]
      rw [RdbString.bytes, run_plain, hparsed]
      exact reads_parseString data rest
  | int8 value hvalue =>
      exact @Reads.bind _ _ _ _ _ _ [0xC0] _ _ _ (fun _ => rfl)
        ((reads_parseInt (by omega) (by omega)).map decimalInt)
  | int16 value hvalue =>
      exact @Reads.bind _ _ _ _ _ _ [0xC1] _ _ _ (fun _ => rfl)
        ((reads_parseInt (by omega) (by omega)).map decimalInt)
  | int32 value hvalue =>
      exact @Reads.bind _ _ _ _ _ _ [0xC2] _ _ _ (fun _ => rfl)
        ((reads_parseInt (by omega) (by omega)).map decimalInt)

/-- **Strings.**  A string is taken off the stream as it was written exactly when its
length prefix is read right. -/
theorem reads_parseStringEncoded_iff (s : RdbString) :
    Reads parseStringEncoded s.bytes s.value ↔ s.ReadRight := by
  refine ⟨fun h => ?_, reads_parseStringEncoded⟩
  cases s with
  | int8 _ _ => trivial
  | int16 _ _ => trivial
  | int32 _ _ => trivial
  | plain data length hlength =>
      have hrun := h []
      rw [RdbString.bytes, run_plain] at hrun
      simp only [parseString, StateT.run] at hrun
      split at hrun
      · cases hrun
      · next hshort =>
          have htake := congrArg List.length (Prod.mk.inj (Except.ok.inj hrun)).1
          rw [List.length_take] at htake
          refine length.parsed_eq_iff.mp ?_
          rw [hlength,
            show data.length = (RdbString.plain data length hlength).value.length from rfl]
          omega

/-! ## Entries -/

/-- Looking at the next byte takes nothing off the stream. -/
theorem Reads.peek {β : Type} {f : Byte → Parse β} {b : Byte} {encoding : Bytes} {c : β}
    (h : Reads (f b) (b :: encoding) c) : Reads (peekUInt8 >>= f) (b :: encoding) c :=
  fun rest => h rest

theorem reads_parseEntry {key value : RdbString} (hkey : key.ReadRight)
    (hvalue : value.ReadRight) :
    Reads (parseEntry 0x00) (0x00 :: (key.bytes ++ value.bytes))
      (some { key := key.value, value := value.value }) := by
  refine @Reads.bind _ _ _ _ _ _ [0x00] _ _ _ (reads_parseUInt8 0x00) ?_
  refine (reads_parseStringEncoded hkey).bind ?_
  exact (reads_parseStringEncoded hvalue).bind_pure (reads_pure _)

theorem reads_parseExpiringEntry (expireTime : Timepoint) {key value : RdbString}
    (hkey : key.ReadRight) (hvalue : value.ReadRight) :
    Reads (parseExpiringEntry expireTime) (0x00 :: (key.bytes ++ value.bytes))
      (some { key := key.value, value := value.value, expireTime := some expireTime }) :=
  Reads.peek ((reads_parseEntry hkey hvalue).bind_pure (reads_pure _))

theorem reads_parseNextEntry {entry : RdbEntry} (hkey : entry.key.ReadRight)
    (hvalue : entry.value.ReadRight) :
    Reads parseNextEntry entry.bytes (some entry.parsed) := by
  obtain ⟨deadline, key, value⟩ := entry
  cases deadline with
  | none => exact Reads.peek (reads_parseEntry hkey hvalue)
  | some deadline =>
      cases deadline with
      | seconds n h =>
          refine Reads.peek ?_
          refine @Reads.bind _ _ _ _ _ _ [0xFD] _ _ _ (reads_parseUInt8 0xFD) ?_
          refine (reads_parseLittleEndian (length_toLittleEndian 4 n)).bind ?_
          rw [littleEndian_toLittleEndian h]
          exact reads_parseExpiringEntry _ hkey hvalue
      | milliseconds n h =>
          refine Reads.peek ?_
          refine @Reads.bind _ _ _ _ _ _ [0xFC] _ _ _ (reads_parseUInt8 0xFC) ?_
          refine (reads_parseLittleEndian (length_toLittleEndian 8 n)).bind ?_
          rw [littleEndian_toLittleEndian h]
          exact reads_parseExpiringEntry _ hkey hvalue

/-- A byte that starts no entry ends a database. -/
def EndsDb (b : Byte) : Prop := b = 0xFE ∨ b = 0xFF

theorem parseNextEntry_of_endsDb {b : Byte} (h : EndsDb b) (rest : Bytes) :
    parseNextEntry.run (b :: rest) = .ok (none, b :: rest) := by
  rcases h with rfl | rfl <;> rfl

/-- The loop of `parse_db` meets the entries in order and stops behind the last, at a byte that
begins no entry. -/
theorem parseEntries_eq (clock : Nat → Timepoint) (entries : List RdbEntry)
    (hright : ∀ entry ∈ entries, entry.key.ReadRight ∧ entry.value.ReadRight) (fuel : Nat)
    (hfuel : entries.length < fuel) (progress : Progress) {b : Byte} (hend : EndsDb b)
    (rest : Bytes) :
    parseEntries clock fuel progress (entries.flatMap RdbEntry.bytes ++ b :: rest) =
      ((entries.map RdbEntry.parsed).foldl (Progress.meet clock) progress,
        .ok (b :: rest)) := by
  induction entries generalizing fuel progress with
  | nil =>
      obtain ⟨fuel, rfl⟩ : ∃ k, fuel = k + 1 := ⟨fuel - 1, by omega⟩
      simp only [List.flatMap_nil, List.nil_append, parseEntries, parseNextEntry_of_endsDb hend]
      rfl
  | cons entry entries ih =>
      obtain ⟨fuel, rfl⟩ : ∃ k, fuel = k + 1 := ⟨fuel - 1, by omega⟩
      obtain ⟨hkey, hvalue⟩ := hright entry (by simp)
      rw [List.flatMap_cons, List.append_assoc, parseEntries, reads_parseNextEntry hkey hvalue]
      exact ih (fun e he => hright e (by simp [he])) fuel
        (by rw [List.length_cons] at hfuel; omega) _

/-! ## Databases -/

/-- The header of a database is taken off the stream as it was written when it has the
0xFB section. -/
theorem reads_parseDbHeader {db : RdbDb} (h : db.resize.isSome) :
    Reads parseDbHeader db.header () := by
  obtain ⟨number, hnumber, resize, entries⟩ := db
  cases resize with
  | none => cases h
  | some sizes =>
      refine @Reads.bind _ _ _ _ _ _ [UInt8.ofNat number] _ _ _ (reads_parseUInt8 _) ?_
      refine @Reads.bind _ _ _ _ _ _ [0xFB] _ _ _ (fun _ => rfl) ?_
      refine (reads_parseLengthEncoding sizes.1).bind ?_
      exact (reads_parseLengthEncoding sizes.2).bind_pure (reads_pure _)

/-- **Headers.**  Without the 0xFB section more than the header is taken: the byte that is read
to look for the section is not put back. -/
theorem reads_parseDbHeader_iff (db : RdbDb) :
    Reads parseDbHeader db.header () ↔ db.resize.isSome := by
  refine ⟨fun h => ?_, reads_parseDbHeader⟩
  obtain ⟨number, hnumber, resize, entries⟩ := db
  cases resize with
  | some sizes => rfl
  | none => cases h []

/-- Parts of at least one byte each. -/
theorem length_le_length_flatMap {α : Type} {parts : List α} {encode : α → Bytes}
    (h : ∀ part, 0 < (encode part).length) : parts.length ≤ (parts.flatMap encode).length := by
  induction parts with
  | nil => simp
  | cons part parts ih =>
      have hpart := h part
      simp only [List.flatMap_cons, List.length_append, List.length_cons]
      omega

theorem parseDb_eq (clock : Nat → Timepoint) {db : RdbDb} (hresize : db.resize.isSome)
    (hright : ∀ entry ∈ db.entries, entry.key.ReadRight ∧ entry.value.ReadRight)
    (progress : Progress) {b : Byte} (hend : EndsDb b) (rest : Bytes) :
    parseDb clock progress (db.header ++ db.entries.flatMap RdbEntry.bytes ++ b :: rest) =
      ((db.entries.map RdbEntry.parsed).foldl (Progress.meet clock) progress,
        .ok (b :: rest)) := by
  have hlen : db.entries.length ≤ (db.entries.flatMap RdbEntry.bytes).length :=
    length_le_length_flatMap fun entry => by simp [RdbEntry.bytes]
  rw [parseDb, List.append_assoc, reads_parseDbHeader hresize]
  refine parseEntries_eq clock db.entries hright _ ?_ progress hend rest
  rw [List.length_append]
  omega

/-! ## The sections of a dump -/

theorem reads_parseAuxField {field : RdbString × RdbString} (hkey : field.1.ReadRight)
    (hvalue : field.2.ReadRight) :
    Reads parseAuxField (field.1.bytes ++ field.2.bytes) () :=
  (reads_parseStringEncoded hkey).bind
    ((reads_parseStringEncoded hvalue).bind_pure (reads_pure _))

/-- The databases, up to the end of the dump. -/
def dbsBytes (dbs : List RdbDb) (checksum : Bytes) : Bytes :=
  dbs.flatMap RdbDb.bytes ++ (0xFF :: checksum)

theorem dbsBytes_endsDb (dbs : List RdbDb) (checksum : Bytes) :
    ∃ b rest, EndsDb b ∧ dbsBytes dbs checksum = b :: rest := by
  cases dbs with
  | nil => exact ⟨0xFF, checksum, Or.inr rfl, rfl⟩
  | cons db dbs => exact ⟨0xFE, _, Or.inl rfl, rfl⟩

/-- The entries of databases in a row. -/
def dbsEntries (dbs : List RdbDb) : List RdbParser.Entry :=
  (dbs.flatMap RdbDb.entries).map RdbEntry.parsed

theorem parseSections_dbs (clock : Nat → Timepoint) {rdbVersion : Int}
    (hversion : 5 ≤ rdbVersion) {checksum : Bytes} (hchecksum : checksum.length = 8)
    (dbs : List RdbDb) (hresize : ∀ db ∈ dbs, db.resize.isSome)
    (hright : ∀ db ∈ dbs, ∀ entry ∈ db.entries,
      entry.key.ReadRight ∧ entry.value.ReadRight)
    (fuel : Nat) (hfuel : dbs.length < fuel) (progress : Progress) :
    parseSections clock rdbVersion fuel progress (dbsBytes dbs checksum) =
      ((dbsEntries dbs).foldl (Progress.meet clock) progress, .ok ()) := by
  induction dbs generalizing fuel progress with
  | nil =>
      obtain ⟨fuel, rfl⟩ : ∃ k, fuel = k + 1 := ⟨fuel - 1, by omega⟩
      have hend : (parseEnd rdbVersion).run checksum = .ok ((), []) := by
        have hstring := reads_parseString checksum []
        rw [hchecksum, List.append_nil] at hstring
        simp only [parseEnd, ge_iff_le, hversion, if_true, run_bind, hstring]
        rfl
      have hop : parseOpCode.run (0xFF :: checksum) = .ok (.eof, checksum) := rfl
      simp only [dbsBytes, List.flatMap_nil, List.nil_append, parseSections, hop, hend]
      rfl
  | cons db dbs ih =>
      obtain ⟨fuel, rfl⟩ : ∃ k, fuel = k + 1 := ⟨fuel - 1, by omega⟩
      obtain ⟨b, rest, hend, hrest⟩ := dbsBytes_endsDb dbs checksum
      have hbytes : dbsBytes (db :: dbs) checksum = 0xFE ::
          (db.header ++ db.entries.flatMap RdbEntry.bytes ++ b :: rest) := by
        rw [← hrest]
        simp [dbsBytes, RdbDb.bytes]
      have hop : parseOpCode.run (0xFE ::
          (db.header ++ db.entries.flatMap RdbEntry.bytes ++ b :: rest)) =
          .ok (.selectDb, db.header ++ db.entries.flatMap RdbEntry.bytes ++ b :: rest) := rfl
      simp only [hbytes, parseSections, hop, parseDb_eq clock (hresize db (by simp))
        (hright db (by simp)) progress hend rest]
      rw [← hrest, ih (fun d hd => hresize d (by simp [hd]))
        (fun d hd => hright d (by simp [hd])) fuel (by rw [List.length_cons] at hfuel; omega)]
      simp [dbsEntries]

theorem parseSections_aux (clock : Nat → Timepoint) (rdbVersion : Int)
    (aux : List (RdbString × RdbString))
    (hright : ∀ field ∈ aux, field.1.ReadRight ∧ field.2.ReadRight) (fuel : Nat)
    (progress : Progress) (rest : Bytes) :
    parseSections clock rdbVersion (aux.length + fuel) progress
        (aux.flatMap RdbFile.auxBytes ++ rest) =
      parseSections clock rdbVersion fuel progress rest := by
  induction aux with
  | nil => simp
  | cons field aux ih =>
      obtain ⟨hkey, hvalue⟩ := hright field (by simp)
      have hbytes : (field :: aux).flatMap RdbFile.auxBytes ++ rest = 0xFA ::
          (field.1.bytes ++ field.2.bytes ++ (aux.flatMap RdbFile.auxBytes ++ rest)) := by
        simp [RdbFile.auxBytes]
      have hop : parseOpCode.run (0xFA ::
          (field.1.bytes ++ field.2.bytes ++ (aux.flatMap RdbFile.auxBytes ++ rest))) =
          .ok (.aux,
            field.1.bytes ++ field.2.bytes ++ (aux.flatMap RdbFile.auxBytes ++ rest)) := rfl
      have hfuel : (field :: aux).length + fuel = (aux.length + fuel) + 1 := by
        rw [List.length_cons]
        omega
      rw [hfuel, hbytes, parseSections, hop]
      simp only [reads_parseAuxField hkey hvalue _]
      exact ih fun f hf => hright f (by simp [hf])

theorem reads_parseHeader (file : RdbFile) :
    Reads parseHeader (ascii "REDIS" ++ file.version) (decimalValue file.version : Int) := by
  refine (reads_parseString (ascii "REDIS")).bind ?_
  have hmagic : ¬ ascii "REDIS" ≠ ascii "REDIS" := fun h => h rfl
  simp only [hmagic, if_false]
  have hversion := reads_parseString file.version
  rw [file.version_length] at hversion
  refine hversion.bind_pure ?_
  have hne : file.version ≠ [] := by
    intro hnil
    have hlen := file.version_length
    rw [hnil] at hlen
    cases hlen
  rw [parseInt_digits hne file.version_digits (by rw [file.version_length]; decide)]
  exact reads_pure _

end RdbParser

namespace RdbFile

open RdbParser

/-- Every section takes at least one byte. -/
theorem length_sections (file : RdbFile) :
    file.aux.length + file.dbs.length ≤
      (file.aux.flatMap auxBytes ++ dbsBytes file.dbs file.checksum).length := by
  have haux : file.aux.length ≤ (file.aux.flatMap auxBytes).length :=
    length_le_length_flatMap fun field => by simp [auxBytes]
  have hdbs : file.dbs.length ≤ (file.dbs.flatMap RdbDb.bytes).length :=
    length_le_length_flatMap fun db => by simp [RdbDb.bytes]
  simp only [dbsBytes, List.length_append]
  omega

/-- A dump of which no part is misread is loaded to its end; the deadlines are the ones
that the parser makes of those that were written. -/
theorem rdbParse_bytes {file : RdbFile} (h : file.InStep) (clock : Nat → Timepoint) :
    rdbParse clock file.bytes =
      (((file.entries.map RdbEntry.parsed).foldl (Progress.meet clock) {}).restored,
        .ok ()) := by
  have hbytes : file.bytes = ascii "REDIS" ++ file.version ++
      (file.aux.flatMap auxBytes ++ dbsBytes file.dbs file.checksum) := by
    simp [bytes, dbsBytes]
  have hversion : (5 : Int) ≤ decimalValue file.version := by
    have := file.version_ge
    omega
  have hright : ∀ db ∈ file.dbs, ∀ entry ∈ db.entries,
      entry.key.ReadRight ∧ entry.value.ReadRight :=
    fun db hdb entry hentry => h.entries entry (List.mem_flatMap.mpr ⟨db, hdb, hentry⟩)
  have hlen := file.length_sections
  obtain ⟨fuel, hfuel⟩ : ∃ k, (file.aux.flatMap auxBytes ++
      dbsBytes file.dbs file.checksum).length + 1 = file.aux.length + k ∧
      file.dbs.length < k :=
    ⟨(file.aux.flatMap auxBytes ++ dbsBytes file.dbs file.checksum).length + 1 -
      file.aux.length, by omega, by omega⟩
  simp only [rdbParse, parse, hbytes, reads_parseHeader file _]
  rw [hfuel.1, parseSections_aux clock _ file.aux h.aux fuel,
    parseSections_dbs clock hversion file.checksum_length file.dbs h.resize hright fuel hfuel.2]
  rfl

end RdbFile

/-! ## Deadlines -/

theorem toInt64_of_fits {n : Int} (hlow : 0 ≤ n) (hhigh : n < 2 ^ 63) : toInt64 n = n := by
  rw [toInt64, Int.emod_eq_of_lt (by omega) (by omega)]
  omega

theorem toInt64_lt (n : Int) : toInt64 n < 2 ^ 63 := by
  have := Int.emod_lt_of_pos (n + 2 ^ 63) (show (0 : Int) < 2 ^ 64 by decide)
  rw [toInt64]
  omega

/-- The parser keeps a deadline exactly when it is in the range of a time point, which counts
nanoseconds in a signed 64-bit type. -/
theorem RdbDeadline.parsed_eq_iff (deadline : RdbDeadline) :
    deadline.parsed = deadline.timepoint ↔ deadline.Fits := by
  constructor
  · intro h
    rw [Fits, ← h]
    cases deadline with
    | seconds n hn => exact toInt64_lt _
    | milliseconds n hn => exact toInt64_lt _
  · intro h
    cases deadline with
    | seconds n hn => exact toInt64_of_fits (by omega) h
    | milliseconds n hn =>
        have hfits : (n : Int) * 10 ^ 6 < 2 ^ 63 := h
        have hcount : toInt64 n = n := toInt64_of_fits (by omega) (by omega)
        have hproduct : toInt64 ((n : Int) * 10 ^ 6) = n * 10 ^ 6 :=
          toInt64_of_fits (by omega) hfits
        calc toInt64 (toInt64 n * 10 ^ 6) = toInt64 ((n : Int) * 10 ^ 6) :=
              congrArg (fun k => toInt64 (k * 10 ^ 6)) hcount
          _ = (n : Int) * 10 ^ 6 := hproduct

theorem RdbEntry.parsed_of_fits {entry : RdbEntry}
    (h : ∀ deadline ∈ entry.deadline, deadline.Fits) :
    entry.parsed = ⟨entry.key.value, entry.value.value,
      entry.deadline.map RdbDeadline.timepoint⟩ := by
  obtain ⟨deadline, key, value⟩ := entry
  cases deadline with
  | none => simp only [parsed, Option.map_none]
  | some deadline =>
      simp only [parsed, Option.map_some, deadline.parsed_eq_iff.mpr (h deadline rfl)]

namespace RdbFile

open RdbParser

/-- What the loop of `parse_db` passes on from the `n`-th entry on. -/
def passedOn (clock : Nat → Timepoint) : Nat → List Entry → List Restored
  | _, [] => []
  | n, entry :: entries =>
      if entry.expireTime.all (fun deadline => deadline > clock n) then
        ⟨entry.key, entry.value, entry.expireTime⟩ :: passedOn clock (n + 1) entries
      else passedOn clock (n + 1) entries

theorem foldl_meet (clock : Nat → Timepoint) (entries : List Entry) (progress : Progress) :
    (entries.foldl (Progress.meet clock) progress).restored =
      progress.restored ++ passedOn clock progress.met entries := by
  induction entries generalizing progress with
  | nil => simp [passedOn]
  | cons entry entries ih =>
      rw [List.foldl_cons, ih]
      simp only [passedOn, Progress.meet]
      split <;> simp

theorem length_passedOn_le (clock : Nat → Timepoint) (n : Nat) (entries : List Entry) :
    (passedOn clock n entries).length ≤ entries.length := by
  induction entries generalizing n with
  | nil => simp [passedOn]
  | cons entry entries ih =>
      have hle := ih (n + 1)
      simp only [passedOn]
      split
      · simpa using hle
      · rw [List.length_cons]
        omega

/-- With deadlines in range exactly the live entries are passed on. -/
theorem passedOn_of_fits (clock : Nat → Timepoint) (n : Nat) {entries : List RdbEntry}
    (h : ∀ entry ∈ entries, ∀ deadline ∈ entry.deadline, deadline.Fits) :
    passedOn clock n (entries.map RdbEntry.parsed) = restoresFrom clock n entries := by
  induction entries generalizing n with
  | nil => rfl
  | cons entry entries ih =>
      have hlive : (entry.deadline.map RdbDeadline.timepoint).all
          (fun deadline => deadline > clock n) = true ↔ entry.Live (clock n) := by
        rw [RdbEntry.Live]
        cases entry.deadline <;> simp
      rw [List.map_cons, RdbEntry.parsed_of_fits (h entry (by simp))]
      simp only [passedOn, restoresFrom, hlive, ih (n + 1) fun e he => h e (by simp [he])]
      rfl

/-- The earliest time point. -/
def earliest : Nat → Timepoint := fun _ => -2 ^ 63

theorem restoresFrom_earliest (n : Nat) (entries : List RdbEntry) :
    restoresFrom earliest n entries = entries.map RdbEntry.restored := by
  induction entries generalizing n with
  | nil => rfl
  | cons entry entries ih =>
      have hlive : entry.Live (earliest n) := by
        intro deadline _
        cases deadline with
        | seconds k hk => exact (show (-2 ^ 63 : Int) < (k : Int) * 10 ^ 9 by omega)
        | milliseconds k hk => exact (show (-2 ^ 63 : Int) < (k : Int) * 10 ^ 6 by omega)
      rw [restoresFrom, if_pos hlive, ih, List.map_cons]

/-- A deadline out of range shows at the earliest clock: the entry is dropped or passed
on with another deadline. -/
theorem fits_of_passedOn_earliest (n : Nat) {entries : List RdbEntry}
    (h : passedOn earliest n (entries.map RdbEntry.parsed) =
      entries.map RdbEntry.restored) :
    ∀ entry ∈ entries, ∀ deadline ∈ entry.deadline, deadline.Fits := by
  induction entries generalizing n with
  | nil => simp
  | cons entry entries ih =>
      simp only [List.map_cons, passedOn] at h
      split at h
      · obtain ⟨hhead, htail⟩ := List.cons.inj h
        intro e he
        rcases List.mem_cons.mp he with rfl | he
        · intro deadline hdeadline
          have hexpire := congrArg Restored.expireTime hhead
          simp only [RdbEntry.parsed, RdbEntry.restored, Option.mem_def.mp hdeadline,
            Option.map_some] at hexpire
          exact deadline.parsed_eq_iff.mp (Option.some.inj hexpire)
        · exact ih (n + 1) htail e he
      · have hlen := congrArg List.length h
        have hle := length_passedOn_le earliest (n + 1) (entries.map RdbEntry.parsed)
        simp only [List.length_cons, List.length_map] at hlen hle
        omega

/-- **Loading undoes writing.**  A dump of which no part is misread is loaded right, at
every clock, exactly when every deadline is in the range of a time point.  A string is
misread exactly when its length prefix is, and the header of a database exactly when the
0xFB section is missing. -/
theorem loads_iff {file : RdbFile} (h : file.InStep) :
    (file.Loads ↔ file.DeadlinesFit) ∧
    (∀ s : RdbString, Reader.Reads parseStringEncoded s.bytes s.value ↔ s.ReadRight) ∧
    (∀ db : RdbDb, Reader.Reads parseDbHeader db.header () ↔ db.resize.isSome) := by
  refine ⟨?_, reads_parseStringEncoded_iff, reads_parseDbHeader_iff⟩
  have hloaded : ∀ clock, rdbParse clock file.bytes =
      (passedOn clock 0 (file.entries.map RdbEntry.parsed), .ok ()) := by
    intro clock
    rw [rdbParse_bytes h clock, foldl_meet]
    rfl
  constructor
  · intro hloads
    have heq := hloads earliest
    rw [hloaded, restores, restoresFrom_earliest] at heq
    exact fits_of_passedOn_earliest 0 (Prod.mk.inj heq).1
  · intro hfit clock
    rw [hloaded, passedOn_of_fits clock 0 hfit, restores]

/-- A short string. -/
def short (text : String) (h : (ascii text).length < 2 ^ 6) : RdbString :=
  .plain (ascii text) (.sixBit (ascii text).length h) rfl

/-- A dump with these aux fields and one database. -/
def ofEntries (aux : List (RdbString × RdbString)) (resize : Option (RdbLength × RdbLength))
    (entries : List RdbEntry) : RdbFile where
  version := ascii "0011"
  version_length := rfl
  version_digits := List.all_eq_true.mp (by decide)
  version_ge := by decide
  aux := aux
  dbs := [⟨0, by decide, resize, entries⟩]
  checksum := [1, 2, 3, 4, 5, 6, 7, 8]
  checksum_length := rfl

/-- An aux field, table sizes of two classes, and entries with and without a deadline, one
of them an integer. -/
theorem loads_iff_small :
    (ofEntries [(short "redis-bits" (by decide), .int8 64 (by decide))]
      (some (.sixBit 3 (by decide), .fourteenBit 77 (by decide)))
      [⟨none, short "a" (by decide), .int16 (-300) (by decide)⟩,
        ⟨some (.seconds 1700000000 (by decide)), short "b" (by decide),
          short "x" (by decide)⟩,
        ⟨some (.milliseconds 1700000000123 (by decide)), short "" (by decide),
          .plain [] (.thirtyTwoBit 0 (by decide)) rfl⟩]).Loads := by
  refine (loads_iff ⟨?_, ?_, ?_⟩).1.mpr ?_
  · simp [ofEntries, short, RdbString.ReadRight, RdbLength.ReadRight]
  · simp [ofEntries]
  · simp [ofEntries, entries, short, RdbString.ReadRight, RdbLength.ReadRight, toLittleEndian]
  · simp [DeadlinesFit, ofEntries, entries, RdbDeadline.Fits, RdbDeadline.timepoint]

/-- A dump whose only entry has a value of 65 bytes, with a 14-bit length. -/
def longValue : RdbFile :=
  ofEntries [] (some (.sixBit 1 (by decide), .sixBit 0 (by decide)))
    [⟨none, short "k" (by decide),
      .plain (List.replicate 65 97) (.fourteenBit 65 (by decide)) (by decide)⟩]

/-- A value of 65 bytes with a length of the 14-bit class.  The length is read as 0: the entry
is restored with an empty value, and the first byte of its value is taken for an opcode. -/
theorem not_loads_longValue :
    rdbParse (fun _ => 0) longValue.bytes =
      ([⟨ascii "k", [], none⟩], .error ⟨ascii "Unexpected opcode 0x0a"⟩) ∧
    longValue.restores (fun _ => 0) = [⟨ascii "k", List.replicate 65 97, none⟩] ∧
    ¬ longValue.Loads := by
  have hparsed : rdbParse (fun _ => 0) longValue.bytes =
      ([⟨ascii "k", [], none⟩], .error ⟨ascii "Unexpected opcode 0x0a"⟩) := by
    decide +kernel
  refine ⟨hparsed, by decide +kernel, fun h => ?_⟩
  have heq := (h fun _ => 0).symm.trans hparsed
  exact absurd (Prod.mk.inj heq).2 (by simp)

-- a misread aux field can go unnoticed: the bytes of the key are read as the value
example :
    rdbParse (fun _ => 0) (ofEntries
      [(.plain [2] (.fourteenBit 1 (by decide)) rfl, short "x" (by decide))]
      (some (.sixBit 0 (by decide), .sixBit 0 (by decide))) []).bytes = ([], .ok ()) := by
  decide +kernel

end RdbFile

end BuildYourOwnRedis
