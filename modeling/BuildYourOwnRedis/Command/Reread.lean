/-
  Command/Reread.lean --- which commands are read again from what they construct.

  A command is written by `construct` when it is passed on, and read by `try_parse`.  The
  two do not agree on WAIT, whose numbers are read as `int` but printed as `std::size_t`,
  nor on XREAD, where all keys are read before all ids but key and id are written in turn.
-/
import BuildYourOwnRedis.Command.XReadGrammar
import BuildYourOwnRedis.Storage.IdGrammar

set_option autoImplicit false

namespace BuildYourOwnRedis

open Foundation

namespace Command

/-- The same command; the action of CONFIG may be in other letters, since `construct` prints it
in capitals and its execution takes it in any letters. -/
def SameCommand : Command → Command → Prop
  | .config action args, c => ∃ action', c = .config action' args ∧
      toLowerCase action' = toLowerCase action
  | c, c' => c' = c

/-- What the command constructs is read as the command.  A replica reads what its master
constructs, so this is what both sides rely on. -/
def Reread (c : Command) : Prop :=
  ∃ c', tryParse (construct c) = .ok c' ∧ SameCommand c c'

/-- Key and id of each stream in turn, as `XReadCommand::construct` writes them. -/
def inTurn (request : StreamsReadRequest) : List Bytes :=
  request.flatMap fun (key, id) => [key, id.toString]

/-- First the keys and then the ids, as `XReadCommand::try_parse` reads them. -/
def keysThenIds (request : StreamsReadRequest) : List Bytes :=
  request.map (fun (key, _) => key) ++ request.map fun (_, id) => id.toString

/-- WAIT without a negative number, and XREAD with a stream whose texts are the same in
either order: one stream, or several whose keys and ids coincide. -/
def Rereadable : Command → Prop
  | .wait replicas timeoutMs => replicas.toNat < 2 ^ 31 ∧ timeoutMs.toNat < 2 ^ 31
  | .xread request _ => request ≠ [] ∧ inTurn request = keysThenIds request
  | .ping | .echo _ | .info _ | .replConf _ | .psync _ | .keys _ | .config _ _ | .set _ _ _
  | .get _ | .type _ | .xadd _ _ _ | .xrange _ _ _ => True

/-- What is known of every command that was read: the conditions that `try_parse` has checked
and the parsers of the ids have established. -/
def Formed : Command → Prop
  | .info args => ∀ arg ∈ args, toLowerCase arg = arg
  | .set _ _ expireMs => ExpiryFits expireMs
  | .xadd _ streamId values =>
      InputStreamId.fromString streamId.toString = .ok streamId ∧ values ≠ []
  | .xrange _ leftId rightId =>
      BoundStreamId.fromString leftId.toString = .ok leftId ∧
      BoundStreamId.fromString rightId.toString = .ok rightId
  | .xread request _ => ∀ stream ∈ request, ReadsAs stream.2.toString stream.2
  | .ping | .echo _ | .replConf _ | .psync _ | .wait _ _ | .keys _ | .config _ _ | .get _
  | .type _ => True

/-! ## What is known of a command that was read -/

theorem toLowerByte_idem (b : Byte) : toLowerByte (toLowerByte b) = toLowerByte b := by
  revert b
  decide +kernel

theorem toLowerByte_toUpperByte (b : Byte) : toLowerByte (toUpperByte b) = toLowerByte b := by
  revert b
  decide +kernel

theorem toLowerCase_idem (text : Bytes) : toLowerCase (toLowerCase text) = toLowerCase text := by
  simp [toLowerCase, toLowerByte_idem]

theorem toLowerCase_toUpperCase (text : Bytes) :
    toLowerCase (toUpperCase text) = toLowerCase text := by
  simp [toLowerCase, toUpperCase, toLowerByte_toUpperByte]

/-- The pairs of XADD are the texts that are written for them. -/
theorem xaddPairs_eq_ok {ms : List Message} {values : StreamPartValue} :
    xaddPairs ms = .ok values ↔
      ms = (values.flatMap fun (key, value) => [key, value]).map .bulkString := by
  fun_induction xaddPairs ms generalizing values with
  | case1 => cases values <;> simp
  | case2 m => cases values <;> simp
  | case3 key value rest ih =>
      simp only [bind_eq_ok, argument_eq_ok, ih]
      constructor
      · rintro ⟨key, rfl, value, rfl, pairs, rfl, heq⟩
        rw [← Except.ok.inj heq]
        rfl
      · intro heq
        cases values with
        | nil => cases heq
        | cons pair values =>
            simp only [List.flatMap_cons, List.cons_append, List.nil_append, List.map_cons] at heq
            obtain ⟨rfl, hrest⟩ := List.cons.inj heq
            obtain ⟨rfl, rfl⟩ := List.cons.inj hrest
            exact ⟨_, rfl, _, rfl, values, rfl, rfl⟩

theorem tryParseInfo_formed (data : List Message) : Yields (tryParseInfo data) Formed := by
  intro c h
  obtain ⟨args, -, rfl⟩ := map_eq_ok.mp h
  intro arg harg
  obtain ⟨text, -, rfl⟩ := List.mem_map.mp harg
  exact toLowerCase_idem text

theorem tryParseSet_formed (data : List Message) : Yields (tryParseSet data) Formed := by
  intro c h
  obtain ⟨key, value, expireMs, rfl, hfits⟩ := tryParseSet_fits data c h
  exact hfits

theorem tryParseXAdd_formed (data : List Message) : Yields (tryParseXAdd data) Formed := by
  intro c h
  unfold tryParseXAdd at h
  split at h
  · next key streamId field value rest =>
      simp only [bind_eq_ok, streamIdResult_eq_ok] at h
      obtain ⟨key, -, text, -, id, hid, values, hvalues, heq⟩ := h
      obtain rfl := Except.ok.inj heq
      refine ⟨InputStreamId.reread hid, ?_⟩
      rintro rfl
      cases xaddPairs_eq_ok.mp hvalues
  · cases h

theorem tryParseXRange_formed (data : List Message) : Yields (tryParseXRange data) Formed := by
  intro c h
  unfold tryParseXRange at h
  split at h
  · simp only [bind_eq_ok, streamIdResult_eq_ok] at h
    obtain ⟨key, -, left, -, leftId, hleft, right, -, rightId, hright, heq⟩ := h
    obtain rfl := Except.ok.inj heq
    exact ⟨BoundStreamId.reread hleft, BoundStreamId.reread hright⟩
  · cases h

theorem RequestText.reads {request : StreamsReadRequest} {texts : List Bytes}
    (h : RequestText request texts) : ∀ stream ∈ request, ReadsAs stream.2.toString stream.2 := by
  cases h with
  | @mk keys idTexts ids hne hlength hids =>
      intro stream hstream
      have hid : stream.2 ∈ ids := (List.of_mem_zip hstream).2
      obtain ⟨i, hi, heq⟩ := List.mem_iff_getElem.mp hid
      have hread := hids.get (hids.length_eq ▸ hi) hi
      rw [← heq]
      exact ReadStreamId.reread hread

theorem tryParseXRead_formed (data : List Message) : Yields (tryParseXRead data) Formed := by
  intro c h
  obtain ⟨request, blockMs, rfl⟩ : ∃ request blockMs, c = .xread request blockMs := by
    have htype := tryParseXRead_type data c h
    cases c with
    | xread request blockMs => exact ⟨request, blockMs, rfl⟩
    | _ => cases htype
  unfold tryParseXRead at h
  split at h
  · cases h
  · rcases xreadArgs_cases h with ⟨_, _, texts, -, -, -, htexts⟩ | ⟨_, -, -, rfl⟩
    · exact htexts.reads
    · exact fun _ hmem => absurd hmem List.not_mem_nil

/-- The other classes put nothing but texts into the command. -/
theorem tryParse_formed {m : Message} {c : Command} (h : tryParse m = .ok c) : Formed c := by
  obtain ⟨name, data, t, -, -, hparse, rfl⟩ := tryParse_cases h
  cases c with
  | info args => exact tryParseInfo_formed data _ hparse
  | set key value expireMs => exact tryParseSet_formed data _ hparse
  | xadd key streamId values => exact tryParseXAdd_formed data _ hparse
  | xrange key leftId rightId => exact tryParseXRange_formed data _ hparse
  | xread request blockMs => exact tryParseXRead_formed data _ hparse
  | _ => trivial

/-! ## Classes that are always read again -/

theorem sameCommand_refl (c : Command) : SameCommand c c := by
  cases c with
  | config action args => exact ⟨action, rfl, rfl⟩
  | _ => rfl

theorem reread_of_eq {c : Command} (h : tryParse (construct c) = .ok c) : Reread c :=
  ⟨c, h, sameCommand_refl c⟩

/-- A constructed message is given to `try_parse` of its class. -/
theorem tryParse_construct {t : CommandType} {name : Bytes} {args : List Bytes} {c : Command}
    (hparts : parts c = name :: args) (htype : typeOfName (toLowerCase name) = some t) :
    tryParse (construct c) = tryParseAs t (args.map .bulkString) := by
  simp only [construct, hparts, List.map_cons, tryParse, htype]

theorem reread_info {args : List Bytes} (h : Formed (.info args)) : Reread (.info args) := by
  have hargs : args.map toLowerCase = args := by
    conv_rhs => rw [← List.map_id args]
    exact List.map_congr_left h
  apply reread_of_eq
  rw [@tryParse_construct .info _ _ (.info args) rfl (by decide)]
  simp only [tryParseAs, tryParseInfo, arguments_bulkStrings]
  exact congrArg (fun args => Except.ok (Command.info args)) hargs

theorem reread_psync (args : List Bytes) : Reread (.psync args) := by
  apply reread_of_eq
  rw [@tryParse_construct .psync _ _ (.psync args) rfl (by decide)]
  simp only [tryParseAs, tryParsePsync, arguments_bulkStrings]
  rfl

/-- The action is printed in capitals. -/
theorem reread_config (action : Bytes) (args : List Bytes) : Reread (.config action args) := by
  refine ⟨.config (toUpperCase action) args, ?_, _, rfl, toLowerCase_toUpperCase action⟩
  rw [@tryParse_construct .config _ _ (.config action args) rfl (by decide)]
  simp only [tryParseAs, List.map_cons, tryParseConfig, argument_bulkString,
    arguments_bulkStrings]
  rfl

theorem reread_xadd {key : Bytes} {streamId : InputStreamId} {values : StreamPartValue}
    (h : Formed (.xadd key streamId values)) : Reread (.xadd key streamId values) := by
  obtain ⟨hid, hne⟩ := h
  apply reread_of_eq
  rw [@tryParse_construct .xadd _ _ (.xadd key streamId values) rfl (by decide)]
  cases values with
  | nil => exact absurd rfl hne
  | cons pair values =>
      have hpairs := xaddPairs_eq_ok.mpr (rfl : (((pair :: values).flatMap
        fun (key, value) => [key, value]).map Message.bulkString) = _)
      simp only [tryParseAs, tryParseXAdd]
      exact bind_eq_ok.mpr ⟨key, rfl, bind_eq_ok.mpr ⟨_, rfl, bind_eq_ok.mpr ⟨streamId,
        streamIdResult_eq_ok.mpr hid, bind_eq_ok.mpr ⟨_, hpairs, rfl⟩⟩⟩⟩

theorem reread_xrange {key : Bytes} {leftId rightId : BoundStreamId}
    (h : Formed (.xrange key leftId rightId)) : Reread (.xrange key leftId rightId) := by
  apply reread_of_eq
  rw [@tryParse_construct .xrange _ _ (.xrange key leftId rightId) rfl (by decide)]
  exact bind_eq_ok.mpr ⟨key, rfl, bind_eq_ok.mpr ⟨_, rfl, bind_eq_ok.mpr ⟨leftId,
    streamIdResult_eq_ok.mpr h.1, bind_eq_ok.mpr ⟨_, rfl, bind_eq_ok.mpr ⟨rightId,
      streamIdResult_eq_ok.mpr h.2, rfl⟩⟩⟩⟩⟩

/-! ## WAIT -/

theorem waitArgument_decimal (position : Bytes) (n : Nat) (ms : List Message) :
    waitArgument position (.bulkString (decimal n) :: ms) =
      if n < 2 ^ 31 then .ok n
      else .error (.parseError
        (ascii "WAIT command must have " ++ position ++ ascii " argument as number")) := by
  by_cases h : n < 2 ^ 31
  · simp only [waitArgument, argument_bulkString, parseInt_decimal h, if_pos h]
  · simp only [waitArgument, argument_bulkString,
      parseInt_decimal_eq_none (Nat.le_of_not_lt h), if_neg h]

/-- The two numbers of a WAIT are read again when they fit an `int`: `construct` writes them as
numbers of 64 bits, and `try_parse` reads them with `parseInt`. -/
theorem reread_wait_iff (replicas timeoutMs : UInt64) :
    Reread (.wait replicas timeoutMs) ↔ Rereadable (.wait replicas timeoutMs) := by
  have hparse : tryParse (construct (.wait replicas timeoutMs)) =
      waitArgument (ascii "first") [.bulkString (decimal replicas.toNat),
        .bulkString (decimal timeoutMs.toNat)] >>= fun replicas =>
      waitArgument (ascii "second") [.bulkString (decimal timeoutMs.toNat)] >>= fun timeoutMs =>
      .ok (.wait (toSizeT replicas) (toSizeT timeoutMs)) := by
    rw [@tryParse_construct .wait _ _ (.wait replicas timeoutMs) rfl (by decide)]
    rfl
  rw [waitArgument_decimal, waitArgument_decimal] at hparse
  constructor
  · rintro ⟨c, hc, -⟩
    rw [hparse] at hc
    obtain ⟨first, hfirst, hc⟩ := bind_eq_ok.mp hc
    obtain ⟨second, hsecond, -⟩ := bind_eq_ok.mp hc
    refine ⟨?_, ?_⟩
    · by_contra hlarge
      rw [if_neg hlarge] at hfirst
      cases hfirst
    · by_contra hlarge
      rw [if_neg hlarge] at hsecond
      cases hsecond
  · rintro ⟨hfirst, hsecond⟩
    apply reread_of_eq
    rw [hparse, if_pos hfirst, if_pos hsecond]
    change Except.ok (Command.wait (toSizeT replicas.toNat) (toSizeT timeoutMs.toNat)) = _
    rw [toSizeT_toNat, toSizeT_toNat]

/-! ## XREAD -/

theorem inTurn_cons (stream : Bytes × ReadStreamId) (request : StreamsReadRequest) :
    inTurn (stream :: request) = stream.1 :: stream.2.toString :: inTurn request := rfl

/-- In the alternation a key stands in every even position. -/
theorem inTurn_even (request : StreamsReadRequest) (j : Nat) :
    (inTurn request)[2 * j]? = (request[j]?).map fun stream => stream.1 := by
  induction request generalizing j with
  | nil => rfl
  | cons stream request ih =>
      cases j with
      | zero => rfl
      | succ j =>
          rw [inTurn_cons, Nat.mul_succ, List.getElem?_cons_succ, List.getElem?_cons_succ,
            List.getElem?_cons_succ, ih]

/-- In every odd one stands an id. -/
theorem inTurn_odd (request : StreamsReadRequest) (j : Nat) :
    (inTurn request)[2 * j + 1]? = (request[j]?).map fun stream => stream.2.toString := by
  induction request generalizing j with
  | nil => rfl
  | cons stream request ih =>
      cases j with
      | zero => rfl
      | succ j =>
          rw [inTurn_cons, Nat.mul_succ, List.getElem?_cons_succ, List.getElem?_cons_succ,
            List.getElem?_cons_succ, ih]

/-- If the alternation starts with all the keys, everything in it but the first key is a
printed id: a key in it is a text that stands at half of its position. -/
theorem printed_of_inTurn {request : StreamsReadRequest} {texts : List Bytes}
    (h : inTurn request = request.map (fun stream => stream.1) ++ texts) {p : Nat} (hp : 0 < p)
    {text : Bytes} (htext : (inTurn request)[p]? = some text) :
    ∃ stream ∈ request, text = stream.2.toString := by
  induction p using Nat.strong_induction_on with
  | _ p ih =>
      obtain ⟨j, rfl | rfl⟩ := Nat.even_or_odd' p
      · rw [inTurn_even] at htext
        obtain ⟨stream, hstream, rfl⟩ := Option.map_eq_some_iff.mp htext
        have hkey : (inTurn request)[j]? = some stream.1 := by
          have hj : j < (request.map fun stream => stream.1).length := by
            rw [List.length_map]
            exact (List.getElem?_eq_some_iff.mp hstream).1
          rw [h, List.getElem?_append_left hj, List.getElem?_map, hstream]
          rfl
        exact ih j (by omega) (by omega) hkey
      · rw [inTurn_odd] at htext
        obtain ⟨stream, hstream, rfl⟩ := Option.map_eq_some_iff.mp htext
        exact ⟨stream, List.mem_of_getElem? hstream, rfl⟩

/-- Printed ids that are read as these ids are these ids, printed. -/
theorem printed_eq_map {idTexts : List Bytes} {ids : List ReadStreamId}
    (hreads : List.Forall₂ ReadsAs idTexts ids)
    (hprinted : ∀ text ∈ idTexts, ∃ id : ReadStreamId, ReadsAs id.toString id ∧
      text = id.toString) : idTexts = ids.map fun id => id.toString := by
  induction hreads with
  | nil => rfl
  | @cons text id texts ids hid hreads ih =>
      obtain ⟨id', hid', rfl⟩ := hprinted text (by simp)
      obtain rfl := Except.ok.inj (hid.symm.trans hid')
      rw [ih fun text htext => hprinted text (by simp [htext]), List.map_cons]

/-- `construct` writes each key with its id behind it, `try_parse` expects all keys first.  The
alternation is a text of the request exactly if the other order is the same. -/
theorem requestText_inTurn_iff {request : StreamsReadRequest}
    (hreads : ∀ stream ∈ request, ReadsAs stream.2.toString stream.2) :
    RequestText request (inTurn request) ↔
      request ≠ [] ∧ inTurn request = keysThenIds request := by
  constructor
  · intro h
    generalize htexts : inTurn request = texts at h
    cases h with
    | @mk keys idTexts ids hne hlength hids =>
        have hcount := hlength.trans hids.length_eq
        have hkeys : (keys.zip ids).map (fun stream => stream.1) = keys :=
          List.map_fst_zip (Nat.le_of_eq hcount)
        have hids' : (keys.zip ids).map (fun stream => stream.2) = ids :=
          List.map_snd_zip (Nat.le_of_eq hcount.symm)
        have hpos := List.length_pos_of_ne_nil hne
        have hprinted : idTexts = ids.map fun id => id.toString := by
          refine printed_eq_map hids fun text htext => ?_
          obtain ⟨p, hp, heq⟩ := List.mem_iff_getElem.mp htext
          have hget : (inTurn (keys.zip ids))[keys.length + p]? = some text := by
            rw [htexts, List.getElem?_append_right (Nat.le_add_right _ _), Nat.add_sub_cancel_left,
              List.getElem?_eq_getElem hp, heq]
          have hsplit : inTurn (keys.zip ids) =
              (keys.zip ids).map (fun stream => stream.1) ++ idTexts := by
            rw [hkeys, htexts]
          obtain ⟨stream, hstream, rfl⟩ := printed_of_inTurn hsplit (by omega) hget
          exact ⟨stream.2, hreads stream hstream, rfl⟩
        refine ⟨?_, ?_⟩
        · intro hnil
          rw [hnil] at hkeys
          exact hne hkeys.symm
        · have hprinted' : (keys.zip ids).map (fun stream => stream.2.toString) = idTexts := by
            rw [hprinted, ← hids', List.map_map, hids']
            rfl
          exact (congrArg₂ (· ++ ·) hkeys hprinted').symm
  · rintro ⟨hne, heq⟩
    rw [heq]
    have hzip : (request.map fun stream => stream.1).zip (request.map fun stream => stream.2) =
        request := by
      rw [List.zip_map', List.map_id'']
      exact fun _ => rfl
    have hids : List.Forall₂ ReadsAs (request.map fun stream => stream.2.toString)
        (request.map fun stream => stream.2) := by
      rw [List.forall₂_map_left_iff, List.forall₂_map_right_iff, List.forall₂_same]
      exact hreads
    have hkeys : (request.map fun stream => stream.1) ≠ [] := by simpa using hne
    have htext := RequestText.mk hkeys (by simp) hids
    rwa [hzip] at htext

/-- The texts in front of `streams`. -/
theorem exists_blocks (blockMs : Option UInt64) :
    ∃ blocks, BlockTexts none blockMs blocks ∧ ∀ request, parts (.xread request blockMs) =
      ascii "XREAD" :: blocks ++ ascii "streams" :: inTurn request := by
  cases blockMs with
  | none => exact ⟨[], .nil, fun _ => rfl⟩
  | some timeoutMs =>
      have hname : toLowerCase (ascii "block") = ascii "block" := by decide
      exact ⟨[ascii "block", decimal timeoutMs.toNat],
        .cons hname (parseUInt64_decimal timeoutMs) .nil, fun _ => rfl⟩

theorem reread_xread_iff {request : StreamsReadRequest} {blockMs : Option UInt64}
    (h : Formed (.xread request blockMs)) :
    Reread (.xread request blockMs) ↔ Rereadable (.xread request blockMs) := by
  obtain ⟨blocks, hblocks, hparts⟩ := exists_blocks blockMs
  have hstreams : toLowerCase (ascii "streams") = ascii "streams" := by decide
  have hname : toLowerCase (ascii "XREAD") = ascii "xread" := by decide
  refine Iff.trans ?_ (requestText_inTurn_iff h)
  constructor
  · rintro ⟨c, hc, rfl⟩
    rw [construct, hparts, List.cons_append, tryParse_xread hname, tryParseXRead] at hc
    split at hc
    · cases hc
    · rw [List.map_append, hblocks.xreadArgs, List.map_cons, xreadArgs_streams hstreams] at hc
      obtain ⟨request', hrequest, heq⟩ := map_eq_ok.mp hc
      obtain ⟨rfl, -⟩ := Command.xread.inj heq
      obtain ⟨texts, htexts, hrequest⟩ := xreadStreams_eq_ok.mp hrequest
      have hinj : Function.Injective Message.bulkString := fun _ _ => Message.bulkString.inj
      rwa [← List.map_injective_iff.mpr hinj htexts] at hrequest
  · intro hrequest
    apply reread_of_eq
    rw [construct, hparts]
    exact tryParse_xread_iff.mpr (.inl (.mk hname hblocks hstreams hrequest))

/-! ## Every class -/

/-- **A command that was read is read again from what it constructs exactly if it is no
WAIT with a negative number and no XREAD without streams, or with streams whose keys and
ids are told apart by their order.** -/
theorem reread_iff {m : Message} {c : Command} (h : tryParse m = .ok c) :
    Reread c ↔ Rereadable c := by
  have hformed := tryParse_formed h
  cases c with
  | wait replicas timeoutMs => exact reread_wait_iff replicas timeoutMs
  | xread request blockMs => exact reread_xread_iff hformed
  | info args => exact iff_of_true (reread_info hformed) trivial
  | psync args => exact iff_of_true (reread_psync args) trivial
  | replConf args => exact iff_of_true (reread_of_eq (tryParse_construct_replConf args)) trivial
  | config action args => exact iff_of_true (reread_config action args) trivial
  | set key value expireMs =>
      exact iff_of_true (reread_of_eq (tryParse_construct_set key value hformed)) trivial
  | xadd key streamId values => exact iff_of_true (reread_xadd hformed) trivial
  | xrange key leftId rightId => exact iff_of_true (reread_xrange hformed) trivial
  | ping => exact iff_of_true (reread_of_eq rfl) trivial
  | echo data => exact iff_of_true (reread_of_eq rfl) trivial
  | keys arg => exact iff_of_true (reread_of_eq rfl) trivial
  | get key => exact iff_of_true (reread_of_eq rfl) trivial
  | type key => exact iff_of_true (reread_of_eq rfl) trivial

/-- `XREAD BLOCK 5 STREAMS a $`. -/
def oneStream : Message :=
  .array (.map .bulkString
    [ascii "XREAD", ascii "BLOCK", ascii "5", ascii "STREAMS", ascii "a", ascii "$"])

theorem reread_iff_oneStream :
    Reread (.xread [(ascii "a", { isNextExpected := true })] (some 5)) ↔
      Rereadable (.xread [(ascii "a", { isNextExpected := true })] (some 5)) :=
  reread_iff (show tryParse oneStream = _ by decide)

/-- `XREAD STREAMS a b 0 0`. -/
def twoStreams : Message :=
  .array (.map .bulkString
    [ascii "XREAD", ascii "STREAMS", ascii "a", ascii "b", ascii "0", ascii "0"])

/-- XREAD of two streams: behind `streams` stands `a 0-0 b 0-0`, where `b` is taken for the
first id. -/
theorem not_reread_twoStreams : ∃ c, tryParse twoStreams = .ok c ∧ ¬ Reread c := by
  refine ⟨.xread [(ascii "a", {}), (ascii "b", {})] none, by decide, ?_⟩
  rintro ⟨c, hc, -⟩
  have hrefused : (tryParse (construct (.xread [(ascii "a", {}), (ascii "b", {})] none))).isOk =
      false := by decide
  rw [hc] at hrefused
  cases hrefused

end Command

end BuildYourOwnRedis
