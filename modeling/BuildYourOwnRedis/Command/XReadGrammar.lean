/-
  Command/XReadGrammar.lean --- which arrays of bulk strings are read as XREAD.

  The grammar is `XREAD`, any number of `BLOCK t`, `STREAMS`, and then as many ids as keys.
  The loop of `try_parse` may also end before it has met `STREAMS`: the check in front of it
  asks for three arguments, which two `BLOCK t` have, and the request stays empty.
-/
import BuildYourOwnRedis.Command.Defined

set_option autoImplicit false

namespace BuildYourOwnRedis

open Foundation

namespace Command

/-! ## The grammar -/

/-- This text is read as this id. -/
def ReadsAs (text : Bytes) (id : ReadStreamId) : Prop := ReadStreamId.fromString text = .ok id

/-- Any number of `BLOCK t`; of the timeout before them, the last one leaves its own. -/
inductive BlockTexts : Option UInt64 → Option UInt64 → List Bytes → Prop where
  | nil {blockMs : Option UInt64} : BlockTexts blockMs blockMs []
  | cons {before blockMs : Option UInt64} {timeoutMs : UInt64} {name timeout : Bytes}
      {texts : List Bytes} (hname : toLowerCase name = ascii "block")
      (htimeout : parseUInt64 timeout = some timeoutMs)
      (tail : BlockTexts (some timeoutMs) blockMs texts) :
      BlockTexts before blockMs (name :: timeout :: texts)

/-- The texts of a request: its keys, and then as many ids, at least one of each.  The i-th key
goes with the i-th id. -/
inductive RequestText : StreamsReadRequest → List Bytes → Prop where
  | mk {keys idTexts : List Bytes} {ids : List ReadStreamId} (hne : keys ≠ [])
      (hlength : keys.length = idTexts.length) (hids : List.Forall₂ ReadsAs idTexts ids) :
      RequestText (keys.zip ids) (keys ++ idTexts)

/-- The texts of XREAD: the name, any number of `BLOCK t`, `STREAMS`, and a request.  The words
in capitals may be in any letters. -/
inductive XReadText : StreamsReadRequest → Option UInt64 → List Bytes → Prop where
  | mk {name streams : Bytes} {blocks texts : List Bytes} {blockMs : Option UInt64}
      {request : StreamsReadRequest} (hname : toLowerCase name = ascii "xread")
      (hblocks : BlockTexts none blockMs blocks)
      (hstreams : toLowerCase streams = ascii "streams") (hrequest : RequestText request texts) :
      XReadText request blockMs (name :: blocks ++ streams :: texts)

/-- Nothing but `BLOCK t`. -/
def onlyBlocks : List Bytes → Bool
  | [] => true
  | [_] => false
  | name :: timeout :: texts =>
      toLowerCase name = ascii "block" && (parseUInt64 timeout).isSome && onlyBlocks texts

/-- XREAD with two or more `BLOCK t` and nothing else. -/
def isStreamless : List Bytes → Bool
  | [] => false
  | name :: args => toLowerCase name = ascii "xread" && 2 < args.length && onlyBlocks args

/-- This array is read as XREAD exactly if it is one of the grammar, and as what it
stands for there. -/
def XReadByGrammar (texts : List Bytes) : Prop :=
  ∀ request blockMs, tryParse (.array (texts.map .bulkString)) = .ok (.xread request blockMs) ↔
    XReadText request blockMs texts

/-! ## The arguments behind `STREAMS` -/

theorem bind_eq_ok {ε α β : Type} {r : Except ε α} {f : α → Except ε β} {b : β} :
    (r >>= f) = .ok b ↔ ∃ a, r = .ok a ∧ f a = .ok b := by
  cases r with
  | error fault => exact iff_of_false nofun (by simp)
  | ok a => exact ⟨fun h => ⟨a, rfl, h⟩, fun ⟨_, ha, hf⟩ => Except.ok.inj ha ▸ hf⟩

theorem map_eq_ok {ε α β : Type} {r : Except ε α} {f : α → β} {b : β} :
    r.map f = .ok b ↔ ∃ a, r = .ok a ∧ f a = b := by
  cases r with
  | error fault => exact iff_of_false nofun (by simp)
  | ok a => simp [Except.map]

theorem streamIdResult_eq_ok {α : Type} {r : Except Bytes α} {id : α} :
    streamIdResult r = .ok id ↔ r = .ok id := by
  cases r with
  | error what => exact iff_of_false nofun nofun
  | ok a => simp [streamIdResult]

theorem argument_eq_ok {what data : Bytes} {m : Message} :
    argument what m = .ok data ↔ m = .bulkString data := by
  constructor
  · intro h
    cases m with
    | bulkString text => rw [Except.ok.inj h]
    | undefined | leave | simpleString _ | simpleError _ | integer _ | syncResponse _ | array _ =>
        cases h
  · rintro rfl
    rfl

theorem arguments_eq_ok {what : Bytes} {ms : List Message} {args : List Bytes} :
    arguments what ms = .ok args ↔ ms = args.map .bulkString := by
  constructor
  · intro h
    induction ms generalizing args with
    | nil => rw [← Except.ok.inj h, List.map_nil]
    | cons m ms ih =>
        simp only [arguments] at h
        split at h
        · cases h
        · next arg harg =>
            split at h
            · cases h
            · next rest hrest =>
                obtain rfl := Except.ok.inj h
                rw [argument_eq_ok.mp harg, ih hrest, List.map_cons]
  · rintro rfl
    exact arguments_bulkStrings what args

theorem readStreamIds_cons {m : Message} {ms : List Message} {ids : List ReadStreamId} :
    readStreamIds (m :: ms) = .ok ids ↔ ∃ text id rest, m = .bulkString text ∧
      ReadsAs text id ∧ readStreamIds ms = .ok rest ∧ ids = id :: rest := by
  simp only [readStreamIds, bind_eq_ok, argument_eq_ok, streamIdResult_eq_ok]
  constructor
  · rintro ⟨text, rfl, id, hid, rest, hrest, heq⟩
    exact ⟨text, id, rest, rfl, hid, hrest, (Except.ok.inj heq).symm⟩
  · rintro ⟨text, id, rest, rfl, hid, hrest, rfl⟩
    exact ⟨text, rfl, id, hid, rest, hrest, rfl⟩

theorem readStreamIds_eq_ok {ms : List Message} {ids : List ReadStreamId} :
    readStreamIds ms = .ok ids ↔
      ∃ texts, ms = texts.map .bulkString ∧ List.Forall₂ ReadsAs texts ids := by
  induction ms generalizing ids with
  | nil =>
      constructor
      · intro h
        obtain rfl := Except.ok.inj h
        exact ⟨[], rfl, .nil⟩
      · rintro ⟨texts, htexts, hids⟩
        obtain rfl := List.map_eq_nil_iff.mp htexts.symm
        cases hids
        rfl
  | cons m ms ih =>
      rw [readStreamIds_cons]
      constructor
      · rintro ⟨text, id, rest, rfl, hid, hrest, rfl⟩
        obtain ⟨texts, rfl, hids⟩ := ih.mp hrest
        exact ⟨text :: texts, rfl, .cons hid hids⟩
      · rintro ⟨texts, htexts, hids⟩
        cases hids with
        | nil => cases htexts
        | @cons text id texts rest hid hids =>
            obtain ⟨rfl, rfl⟩ := List.cons.inj htexts
            exact ⟨text, id, rest, rfl, hid, ih.mpr ⟨texts, rfl, hids⟩, rfl⟩

/-- As many keys as ids, and at least one: half of the texts are the keys. -/
theorem xreadStreams_eq_ok {ms : List Message} {request : StreamsReadRequest} :
    xreadStreams ms = .ok request ↔
      ∃ texts, ms = texts.map .bulkString ∧ RequestText request texts := by
  unfold xreadStreams
  constructor
  · intro h
    split at h
    · cases h
    · next hshort =>
        obtain ⟨keys, hkeys, h⟩ := bind_eq_ok.mp h
        obtain ⟨ids, hids, h⟩ := bind_eq_ok.mp h
        split at h
        · cases h
        · next hend =>
            obtain rfl := Except.ok.inj h
            have hkeys := arguments_eq_ok.mp hkeys
            obtain ⟨texts, htexts, hids⟩ := readStreamIds_eq_ok.mp hids
            rw [List.length_drop] at hend
            have hcount : keys.length = ms.length / 2 := by
              have := congrArg List.length hkeys
              rw [List.length_take, List.length_map] at this
              omega
            have hhalf : (ms.drop (ms.length / 2)).length = ms.length / 2 := by
              rw [List.length_drop]
              omega
            rw [List.take_of_length_le (Nat.le_of_eq hhalf)] at htexts
            have hcount' : texts.length = ms.length / 2 := by
              rw [← hhalf, htexts, List.length_map]
            refine ⟨keys ++ texts, ?_, .mk ?_ (hcount.trans hcount'.symm) hids⟩
            · rw [List.map_append, ← hkeys, ← htexts, List.take_append_drop]
            · rintro rfl
              rw [List.length_nil] at hcount
              omega
  · rintro ⟨texts, rfl, htexts⟩
    cases htexts with
    | @mk keys idTexts ids hne hlength hids =>
        have hpos := List.length_pos_of_ne_nil hne
        have hcount : ((keys ++ idTexts).map Message.bulkString).length / 2 = keys.length := by
          rw [List.length_map, List.length_append]
          omega
        have hkeys : ((keys ++ idTexts).map Message.bulkString).take keys.length =
            keys.map .bulkString := by simp
        have hrest : (((keys ++ idTexts).map Message.bulkString).drop keys.length).take
            keys.length = idTexts.map .bulkString := by simp [hlength]
        have hend : ((keys ++ idTexts).map Message.bulkString).drop (2 * keys.length) = [] := by
          rw [List.drop_eq_nil_iff, List.length_map, List.length_append]
          omega
        rw [if_neg (by rw [List.length_map, List.length_append]; omega)]
        simp only [hcount, hkeys, hrest, hend]
        exact bind_eq_ok.mpr ⟨keys, arguments_bulkStrings _ keys,
          bind_eq_ok.mpr ⟨ids, readStreamIds_eq_ok.mpr ⟨idTexts, rfl, hids⟩, rfl⟩⟩

/-! ## The arguments in front of it -/

theorem blockArgument_eq_ok {m : Message} {timeoutMs : UInt64} :
    blockArgument m = .ok timeoutMs ↔
      ∃ text, m = .bulkString text ∧ parseUInt64 text = some timeoutMs := by
  constructor
  · intro h
    unfold blockArgument at h
    split at h
    · cases h
    · next text htext =>
        split at h
        · cases h
        · next value hvalue =>
            obtain rfl := Except.ok.inj h
            exact ⟨text, argument_eq_ok.mp htext, hvalue⟩
  · rintro ⟨text, rfl, hvalue⟩
    simp only [blockArgument, argument_bulkString, hvalue]

/-- The loop ends behind the request, or in front of one.  In the second case it has read
nothing but `BLOCK t`, and this is what the grammar does not have. -/
theorem xreadArgs_cases {before blockMs : Option UInt64} {ms : List Message}
    {request : StreamsReadRequest} (h : xreadArgs before ms = .ok (.xread request blockMs)) :
    (∃ blocks streams texts, ms = (blocks ++ streams :: texts).map .bulkString ∧
      BlockTexts before blockMs blocks ∧ toLowerCase streams = ascii "streams" ∧
      RequestText request texts) ∨
    ∃ blocks, ms = blocks.map .bulkString ∧ BlockTexts before blockMs blocks ∧ request = [] := by
  fun_induction xreadArgs before ms with
  | case1 before =>
      obtain ⟨rfl, rfl⟩ := Command.xread.inj (Except.ok.inj h)
      exact .inr ⟨[], rfl, .nil, rfl⟩
  | case3 before m ms arg harg hstreams =>
      obtain ⟨request', hrequest, heq⟩ := map_eq_ok.mp h
      obtain ⟨rfl, rfl⟩ := Command.xread.inj heq
      obtain ⟨texts, rfl, htexts⟩ := xreadStreams_eq_ok.mp hrequest
      obtain rfl := argument_eq_ok.mp harg
      exact .inl ⟨[], arg, texts, rfl, .nil, hstreams, htexts⟩
  | case6 before m arg harg hstreams hblock timeoutMs ms value hvalue ih =>
      obtain rfl := argument_eq_ok.mp harg
      obtain ⟨timeout, rfl, htimeout⟩ := blockArgument_eq_ok.mp hvalue
      rcases ih h with ⟨blocks, streams, texts, rfl, hblocks, hname, htexts⟩ |
        ⟨blocks, rfl, hblocks, rfl⟩
      · exact .inl ⟨arg :: timeout :: blocks, streams, texts, rfl,
          .cons hblock htimeout hblocks, hname, htexts⟩
      · exact .inr ⟨arg :: timeout :: blocks, rfl, .cons hblock htimeout hblocks, rfl⟩
  | case2 | case4 | case5 | case7 => cases h

/-- `BLOCK t` in front of anything leaves its timeout. -/
theorem BlockTexts.xreadArgs {before blockMs : Option UInt64} {blocks : List Bytes}
    (h : BlockTexts before blockMs blocks) (ms : List Message) :
    xreadArgs before (blocks.map .bulkString ++ ms) = xreadArgs blockMs ms := by
  induction h with
  | nil => rfl
  | @cons before blockMs timeoutMs name timeout texts hname htimeout tail ih =>
      have hstreams : ascii "block" ≠ ascii "streams" := by decide
      have hvalue : blockArgument (.bulkString timeout) = .ok timeoutMs :=
        blockArgument_eq_ok.mpr ⟨timeout, rfl, htimeout⟩
      simp only [List.map_cons, List.cons_append, Command.xreadArgs, argument_bulkString, hname,
        hstreams, if_false, if_true, hvalue]
      exact ih

theorem xreadArgs_streams {blockMs : Option UInt64} {streams : Bytes} {ms : List Message}
    (h : toLowerCase streams = ascii "streams") :
    xreadArgs blockMs (.bulkString streams :: ms) =
      (xreadStreams ms).map fun request => .xread request blockMs := by
  rw [xreadArgs.eq_def]
  simp only [argument_bulkString, h, if_true]

/-- Only `BLOCK t`, and what it leaves. -/
theorem BlockTexts.onlyBlocks {before blockMs : Option UInt64} {texts : List Bytes}
    (h : BlockTexts before blockMs texts) : onlyBlocks texts = true := by
  induction h with
  | nil => rfl
  | cons hname htimeout tail ih => simp [Command.onlyBlocks, hname, htimeout, ih]

theorem exists_blockTexts {texts : List Bytes} (h : onlyBlocks texts = true)
    (before : Option UInt64) : ∃ blockMs, BlockTexts before blockMs texts := by
  fun_induction onlyBlocks texts generalizing before with
  | case1 => exact ⟨before, .nil⟩
  | case2 => cases h
  | case3 name timeout texts ih =>
      simp only [Bool.and_eq_true, decide_eq_true_eq, Option.isSome_iff_exists] at h
      obtain ⟨⟨hname, timeoutMs, htimeout⟩, hrest⟩ := h
      obtain ⟨blockMs, hblocks⟩ := ih hrest (some timeoutMs)
      exact ⟨blockMs, .cons hname htimeout hblocks⟩

/-! ## XREAD -/

/-- What a message that was read holds: an array whose first element is a name, and arguments
that `try_parse` of the class of this name has read. -/
theorem tryParse_cases {m : Message} {c : Command} (h : tryParse m = .ok c) :
    ∃ name data t, m = .array (.bulkString name :: data) ∧
      typeOfName (toLowerCase name) = some t ∧ tryParseAs t data = .ok c ∧
      c.commandType = t := by
  unfold tryParse at h
  split at h
  · next name data =>
      split at h
      · next t htype => exact ⟨name, data, t, rfl, htype, h, tryParseAs_type t data c h⟩
      · cases h
  · cases h

theorem typeOfName_xread_iff {name : Bytes} :
    typeOfName name = some .xread ↔ name = ascii "xread" := by
  refine ⟨fun h => ?_, fun h => h ▸ by decide⟩
  unfold typeOfName at h
  iterate 13 replace h := else_of_ne (by decide) h
  split at h
  · next hname => exact hname
  · cases h

theorem tryParse_xread {name : Bytes} (hname : toLowerCase name = ascii "xread")
    (args : List Bytes) :
    tryParse (.array ((name :: args).map .bulkString)) =
      tryParseXRead (args.map .bulkString) := by
  simp only [tryParse, List.map_cons, typeOfName_xread_iff.mpr hname, tryParseAs]

theorem RequestText.two_le {request : StreamsReadRequest} {texts : List Bytes}
    (h : RequestText request texts) : 2 ≤ texts.length := by
  cases h with
  | mk hne hlength hids =>
      have := List.length_pos_of_ne_nil hne
      rw [List.length_append]
      omega

/-- XREAD is read from the texts of the grammar, and from `BLOCK t` alone, two times or more.
The second kind is told from the first by its empty request. -/
theorem tryParse_xread_iff {texts : List Bytes} {request : StreamsReadRequest}
    {blockMs : Option UInt64} :
    tryParse (.array (texts.map .bulkString)) = .ok (.xread request blockMs) ↔
      XReadText request blockMs texts ∨
      ∃ name blocks, texts = name :: blocks ∧ toLowerCase name = ascii "xread" ∧
        2 < blocks.length ∧ BlockTexts none blockMs blocks ∧ request = [] := by
  constructor
  · intro h
    obtain ⟨name, data, t, heq, htype, hparse, rfl⟩ := tryParse_cases h
    have hname := typeOfName_xread_iff.mp htype
    cases texts with
    | nil => cases heq
    | cons name' args =>
        obtain ⟨hcons, rfl⟩ := List.cons.inj (Message.array.inj heq)
        obtain rfl := Message.bulkString.inj hcons
        simp only [tryParseAs, commandType, tryParseXRead] at hparse
        split at hparse
        · cases hparse
        · next hlength =>
            rw [List.length_map] at hlength
            have hinj : Function.Injective Message.bulkString := fun _ _ => Message.bulkString.inj
            rcases xreadArgs_cases hparse with
              ⟨blocks, streams, texts, hargs, hblocks, hstreams, htexts⟩ |
              ⟨blocks, hargs, hblocks, rfl⟩
            · obtain rfl := List.map_injective_iff.mpr hinj hargs
              exact .inl (.mk hname hblocks hstreams htexts)
            · obtain rfl := List.map_injective_iff.mpr hinj hargs
              exact .inr ⟨name', args, rfl, hname, by omega, hblocks, rfl⟩
  · rintro (h | ⟨name, blocks, rfl, hname, hlength, hblocks, rfl⟩)
    · cases h with
      | @mk name streams blocks texts _ _ hname hblocks hstreams hrequest =>
          have htwo := hrequest.two_le
          have hlength :
              ¬ ((blocks ++ streams :: texts).map Message.bulkString).length + 1 < 4 := by
            rw [List.length_map, List.length_append, List.length_cons]
            omega
          rw [List.cons_append, tryParse_xread hname, tryParseXRead, if_neg hlength,
            List.map_append, hblocks.xreadArgs, List.map_cons, xreadArgs_streams hstreams,
            xreadStreams_eq_ok.mpr ⟨texts, rfl, hrequest⟩]
          rfl
    · have hlength' : ¬ (blocks.map Message.bulkString).length + 1 < 4 := by
        rw [List.length_map]
        omega
      have hnothing := hblocks.xreadArgs []
      rw [List.append_nil] at hnothing
      rw [tryParse_xread hname, tryParseXRead, if_neg hlength', hnothing]
      rfl

/-- A request of the grammar names a stream. -/
theorem XReadText.request_ne_nil {texts : List Bytes} {request : StreamsReadRequest}
    {blockMs : Option UInt64} (h : XReadText request blockMs texts) : request ≠ [] := by
  cases h with
  | mk _ _ _ hrequest =>
      cases hrequest with
      | mk hne hlength hids =>
          intro hnil
          have hzip := congrArg List.length hnil
          rw [List.length_zip, List.length_nil, hlength, hids.length_eq, Nat.min_self] at hzip
          rw [← hids.length_eq, ← hlength] at hzip
          exact hne (List.length_eq_zero_iff.mp hzip)

/-- **XREAD is read by its grammar unless there are two or more `BLOCK t` and nothing else.** 
`try_parse` asks for four elements at least, and never whether there was a stream among them.
-/
theorem xreadByGrammar_iff (texts : List Bytes) :
    XReadByGrammar texts ↔ isStreamless texts = false := by
  constructor
  · intro h
    rw [Bool.eq_false_iff]
    intro hstreamless
    cases texts with
    | nil => cases hstreamless
    | cons name args =>
        simp only [isStreamless, Bool.and_eq_true, decide_eq_true_eq] at hstreamless
        obtain ⟨⟨hname, hlength⟩, hblocks⟩ := hstreamless
        obtain ⟨blockMs, hblocks⟩ := exists_blockTexts hblocks none
        have hread := tryParse_xread_iff.mpr
          (.inr ⟨name, args, rfl, hname, hlength, hblocks, rfl⟩)
        exact ((h [] blockMs).mp hread).request_ne_nil rfl
  · intro h request blockMs
    rw [tryParse_xread_iff]
    apply or_iff_left
    rintro ⟨name, blocks, rfl, hname, hlength, hblocks, -⟩
    simp [isStreamless, hname, hlength, hblocks.onlyBlocks] at h

/-- `XREAD BLOCK 1 BLOCK 2`. -/
def streamlessTexts : List Bytes :=
  [ascii "XREAD", ascii "BLOCK", ascii "1", ascii "BLOCK", ascii "2"]

/-- `XREAD BLOCK 1 BLOCK 2` is read as a request without streams, and the grammar has no such
text. -/
theorem not_xreadByGrammar : ¬ XReadByGrammar streamlessTexts := by
  intro h
  have hread : tryParse (.array (streamlessTexts.map .bulkString)) =
      .ok (.xread [] (some 2)) := by decide
  exact ((h [] (some 2)).mp hread).request_ne_nil rfl

end Command

end BuildYourOwnRedis
