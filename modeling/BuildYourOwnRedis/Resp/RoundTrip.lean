/-
  Resp/RoundTrip.lean --- reading back what `Message::to_string` writes.

  `Message::to_string` writes an empty bulk string as `$-1`.  The parser takes this line
  as the whole message, but the tokenizer has noted its length, -1 as a `std::size_t`,
  as the length of a payload that must come next, and the first byte behind it leads to
  an access outside of the buffer.  A stream is read back exactly when it has no empty
  bulk string at any depth and every array has a length that `parseInt` reads.
-/
import BuildYourOwnRedis.Command.Command
import BuildYourOwnRedis.Resp.Framing

set_option autoImplicit false

namespace BuildYourOwnRedis

open Foundation

namespace Message

/-! ## The messages that are written -/

mutual

/-- A simple string, a simple error, an integer, a bulk string or an array of such: texts
hold no delimiter, integers are an `int`, bulk strings are shorter than 2^31. -/
def Writable : Message → Prop
  | .simpleString value => ¬ crlf <:+: value
  | .simpleError value => ¬ crlf <:+: value
  | .integer value => -2 ^ 31 ≤ value ∧ value < 2 ^ 31
  | .bulkString data => data.length < 2 ^ 31
  | .array elements => WritableAll elements
  | .undefined => False
  | .leave => False
  | .syncResponse _ => False

def WritableAll : List Message → Prop
  | [] => True
  | m :: ms => Writable m ∧ WritableAll ms

end

mutual

/-- No bulk string is empty, at any depth.  An empty one is written as `$-1`, and its reader
goes on waiting for a payload of that length. -/
def NoEmptyBulk : Message → Prop
  | .bulkString data => data ≠ []
  | .array elements => NoEmptyBulkAll elements
  | .undefined | .leave | .simpleString _ | .simpleError _ | .integer _
  | .syncResponse _ => True

def NoEmptyBulkAll : List Message → Prop
  | [] => True
  | m :: ms => NoEmptyBulk m ∧ NoEmptyBulkAll ms

end

mutual

/-- Every array, at any depth, has a length that fits an `int`.  The length is written from a
`std::size_t` and read by `parseInt`. -/
def ArraysFit : Message → Prop
  | .array elements => elements.length < 2 ^ 31 ∧ ArraysFitAll elements
  | .undefined | .leave | .simpleString _ | .simpleError _ | .integer _ | .bulkString _
  | .syncResponse _ => True

def ArraysFitAll : List Message → Prop
  | [] => True
  | m :: ms => ArraysFit m ∧ ArraysFitAll ms

end

theorem writableAll_iff (ms : List Message) : WritableAll ms ↔ ∀ m ∈ ms, Writable m := by
  induction ms with
  | nil => simp [WritableAll]
  | cons m ms ih => simp [WritableAll, ih]

theorem noEmptyBulkAll_iff (ms : List Message) :
    NoEmptyBulkAll ms ↔ ∀ m ∈ ms, NoEmptyBulk m := by
  induction ms with
  | nil => simp [NoEmptyBulkAll]
  | cons m ms ih => simp [NoEmptyBulkAll, ih]

theorem arraysFitAll_iff (ms : List Message) : ArraysFitAll ms ↔ ∀ m ∈ ms, ArraysFit m := by
  induction ms with
  | nil => simp [ArraysFitAll]
  | cons m ms ih => simp [ArraysFitAll, ih]

/-! ## The frames of a message -/

/-- The line of an empty bulk string. -/
def nullBulk : Frame := .line (messageBulkString :: ascii "-1")

mutual

/-- The frames that `Message::to_string` writes. -/
def frames : Message → List Frame
  | .simpleString value => [.line (messageSimpleString :: value)]
  | .simpleError value => [.line (messageSimpleError :: value)]
  | .integer value => [.line (messageInteger :: decimalInt value)]
  | .bulkString data => if data.length = 0 then [nullBulk] else [.bulk data]
  | .array elements =>
      if elements.length = 0 then [.line (messageArray :: ascii "-1")]
      else .line (messageArray :: decimal elements.length) :: framesAll elements
  | .undefined => []
  | .leave => []
  | .syncResponse _ => []

def framesAll : List Message → List Frame
  | [] => []
  | m :: ms => frames m ++ framesAll ms

end

mutual

theorem toString_eq_frames {m : Message} (h : m.Writable) :
    m.toString = m.frames.flatMap Frame.bytes := by
  cases m with
  | simpleString value => simp [toString, frames, Frame.bytes]
  | simpleError value => simp [toString, frames, Frame.bytes]
  | integer value => simp [toString, frames, Frame.bytes]
  | bulkString data =>
      simp only [toString, frames]
      split
      · rfl
      · simp [Frame.bytes]
  | array elements =>
      have ih := toStringAll_eq_frames h
      simp only [toString, frames]
      split
      · rfl
      · simp [Frame.bytes, ih]
  | undefined => exact absurd h id
  | leave => exact absurd h id
  | syncResponse data => exact absurd h id

/-- The wire form is the bytes of the frames. -/
theorem toStringAll_eq_frames {ms : List Message} (h : WritableAll ms) :
    toStringAll ms = (framesAll ms).flatMap Frame.bytes := by
  cases ms with
  | nil => simp [framesAll]
  | cons m ms =>
      have hm := toString_eq_frames h.1
      have ih := toStringAll_eq_frames h.2
      simp [framesAll, hm, ih]

end

mutual

theorem valid_of_mem_frames {m : Message} (h : m.Writable) {f : Frame}
    (hf : f ∈ m.frames) (hne : f ≠ nullBulk) : f.Valid := by
  cases m with
  | simpleString value =>
      obtain rfl := List.mem_singleton.mp hf
      exact valid_line (by decide) (by decide) (not_crlf_cons (by decide) h)
  | simpleError value =>
      obtain rfl := List.mem_singleton.mp hf
      exact valid_line (by decide) (by decide) (not_crlf_cons (by decide) h)
  | integer value =>
      obtain rfl := List.mem_singleton.mp hf
      exact valid_line (by decide) (by decide) (not_crlf_cons_decimalInt (by decide) _)
  | bulkString data =>
      simp only [frames] at hf
      split at hf
      · exact absurd (List.mem_singleton.mp hf) hne
      · obtain rfl := List.mem_singleton.mp hf
        exact h
  | array elements =>
      simp only [frames] at hf
      split at hf
      · obtain rfl := List.mem_singleton.mp hf
        exact valid_line (by decide) (by decide) (not_crlf_of_not_mem (by decide))
      · rcases List.mem_cons.mp hf with rfl | hf
        · exact valid_line (by decide) (by decide) (not_crlf_cons_decimal (by decide) _)
        · exact valid_of_mem_framesAll h hf hne
  | undefined => exact absurd h id
  | leave => exact absurd h id
  | syncResponse data => exact absurd h id

/-- All frames but the line of an empty bulk string are cut as they were written. -/
theorem valid_of_mem_framesAll {ms : List Message} (h : WritableAll ms) {f : Frame}
    (hf : f ∈ framesAll ms) (hne : f ≠ nullBulk) : f.Valid := by
  cases ms with
  | nil => simp [framesAll] at hf
  | cons m ms =>
      simp only [framesAll] at hf
      rcases List.mem_append.mp hf with hf | hf
      · exact valid_of_mem_frames h.1 hf hne
      · exact valid_of_mem_framesAll h.2 hf hne

end

mutual

theorem encodes_frames {m : Message} (h : m.Writable) (hbulk : m.NoEmptyBulk)
    (hfit : m.ArraysFit) : Encodes m m.frames := by
  cases m with
  | simpleString value => exact .simpleString h
  | simpleError value => exact .simpleError h
  | integer value => exact .integer h.1 h.2
  | bulkString data =>
      have hne : ¬ data.length = 0 := fun hzero => hbulk (List.length_eq_zero_iff.mp hzero)
      simp only [frames, hne, if_false]
      exact .bulkString h
  | array elements =>
      simp only [frames]
      split
      · next hzero =>
          obtain rfl := List.length_eq_zero_iff.mp hzero
          exact .nullArray
      · exact .array hfit.1 (encodesAll_frames h hbulk hfit.2)
  | undefined => exact absurd h id
  | leave => exact absurd h id
  | syncResponse data => exact absurd h id

/-- Without an empty bulk string the frames are an encoding. -/
theorem encodesAll_frames {ms : List Message} (h : WritableAll ms)
    (hbulk : NoEmptyBulkAll ms) (hfit : ArraysFitAll ms) : EncodesAll ms (framesAll ms) := by
  cases ms with
  | nil => exact .nil
  | cons m ms =>
      exact .cons (encodes_frames h.1 hbulk.1 hfit.1) (encodesAll_frames h.2 hbulk.2 hfit.2)

end

mutual

theorem nullBulk_mem_frames {m : Message} (h : ¬ m.NoEmptyBulk) : nullBulk ∈ m.frames := by
  cases m with
  | bulkString data =>
      have hzero : data = [] := by simpa [NoEmptyBulk] using h
      simp [frames, hzero]
  | array elements =>
      have hin := nullBulk_mem_framesAll h
      simp only [frames]
      split
      · next hzero =>
          obtain rfl := List.length_eq_zero_iff.mp hzero
          simp [framesAll] at hin
      · exact List.mem_cons_of_mem _ hin
  | undefined | leave | simpleString _ | simpleError _ | integer _ | syncResponse _ =>
      simp [NoEmptyBulk] at h

/-- An empty bulk string at any depth leaves its line among the frames. -/
theorem nullBulk_mem_framesAll {ms : List Message} (h : ¬ NoEmptyBulkAll ms) :
    nullBulk ∈ framesAll ms := by
  cases ms with
  | nil => simp [NoEmptyBulkAll] at h
  | cons m ms =>
      simp only [framesAll, List.mem_append]
      by_cases hm : m.NoEmptyBulk
      · exact Or.inr (nullBulk_mem_framesAll fun hms => h ⟨hm, hms⟩)
      · exact Or.inl (nullBulk_mem_frames hm)

end

end Message

/-! ## Arrays that the parser builds -/

/-- A property of every element that was read. -/
theorem decodeElements_all {p : Message → Prop} {element : List Bytes → Decoded Message}
    (hp : ∀ queue m rest, element queue = .value m rest → p m) (n : Nat)
    (messages : List Message) (queue : List Bytes) {ms : List Message} {rest : List Bytes}
    (hmessages : ∀ m ∈ messages, p m)
    (h : decodeElements element n messages queue = .value ms rest) :
    (∀ m ∈ ms, p m) ∧ ms.length = messages.length + n := by
  induction n generalizing messages queue with
  | zero =>
      obtain ⟨rfl, rfl⟩ := Decoded.value.inj h
      exact ⟨hmessages, rfl⟩
  | succ n ih =>
      simp only [decodeElements] at h
      split at h
      · cases h
      · next m rest' helement =>
          have hmessages' : ∀ m' ∈ messages ++ [m], p m' := by
            intro m' hm'
            rcases List.mem_append.mp hm' with hm' | hm'
            · exact hmessages m' hm'
            · obtain rfl := List.mem_singleton.mp hm'
              exact hp _ _ _ helement
          obtain ⟨hall, hlen⟩ := ih (messages ++ [m]) rest' hmessages' h
          refine ⟨hall, ?_⟩
          rw [hlen, List.length_append, List.length_singleton]
          omega
      · cases h

/-- The length of an array that was read was read by `parseInt`. -/
theorem arraysFit_decode (fuel : Nat) (expected : MessageType) (queue : List Bytes)
    {m : Message} {rest : List Bytes} (h : decode fuel expected queue = .value m rest) :
    m.ArraysFit := by
  induction fuel generalizing expected queue m rest with
  | zero => simp [decode] at h
  | succ fuel ih =>
      cases queue with
      | nil => simp [decode] at h
      | cons rawMessage queue =>
          simp only [decode] at h
          split at h
          · obtain ⟨rfl, -⟩ := Decoded.value.inj h
            trivial
          split at h
          · obtain ⟨rfl, -⟩ := Decoded.value.inj h
            trivial
          split at h
          · split at h
            · obtain ⟨rfl, -⟩ := Decoded.value.inj h
              trivial
            · cases h
          split at h
          · simp only [decodeBulkString] at h
            grind [Message.ArraysFit]
          split at h
          · simp only [decodeArray] at h
            split at h
            · cases h
            · next length hlength =>
                split at h
                · obtain ⟨rfl, -⟩ := Decoded.value.inj h
                  exact ⟨by decide, trivial⟩
                · cases helements : decodeElements (decode fuel .any) length.toNat [] queue with
                  | incomplete => simp [helements, Decoded.map] at h
                  | malformed e rest' => simp [helements, Decoded.map] at h
                  | value ms rest' =>
                      simp only [helements, Decoded.map] at h
                      obtain ⟨rfl, -⟩ := Decoded.value.inj h
                      obtain ⟨hall, hlen⟩ := decodeElements_all
                        (fun queue m rest hm => ih .any queue hm) _ _ _ (by simp) helements
                      have hrange := (parseInt_range hlength).2
                      refine ⟨?_, (Message.arraysFitAll_iff ms).mpr hall⟩
                      rw [hlen, List.length_nil]
                      omega
          · cases h

/-- Every message that `try_parse` returns was decoded from a queue. -/
theorem MessageParser.decode_of_tryParse {expected : MessageType} {p p' : MessageParser}
    {m : Message} (h : p.tryParse expected = (.ok (some m), p')) :
    ∃ fuel queue rest, decode fuel expected queue = .value m rest := by
  induction hw : p.weight using Nat.strongRecOn generalizing p with
  | ind n ih =>
      subst hw
      obtain ⟨-, p₁, hcut, ⟨-, h⟩ | ⟨rest, hdecode, -⟩⟩ := tryParse_cases h
      · exact ih _ (weight_getNextRawMessage hcut) h rfl
      · exact ⟨_, _, rest, hdecode⟩

/-- The parser delivers no array whose length does not fit an `int`. -/
theorem arraysFit_of_mem_items (listener : List Message → MessageType) (received : Bytes) :
    ∀ m ∈ (readAtOnce listener received).items, m.ArraysFit := by
  refine messagePuller.forall_mem_items_drain (fun c s m s' hpull => ?_) listener [] _ (by simp)
  obtain ⟨fuel, queue, rest, hdecode⟩ :=
    MessageParser.decode_of_tryParse (MessageParser.pull_eq_item.mp hpull)
  exact arraysFit_decode fuel c queue hdecode

/-! ## The line of an empty bulk string -/

namespace MessageParser

/-- From here on no reading ends with an empty buffer, an empty queue and no length
expected, whatever the queue is and whatever was delivered before. -/
def Spoiled (p : MessageParser) : Prop :=
  ∀ queue items, (messagePuller.drain (fun _ => .any) items
    { p with rawMessageBuffer := queue }).ending ≠ .ok fresh

/-- Draining with the type `Any` expected, in terms of `try_parse`. -/
theorem drain_any (items : List Message) (p : MessageParser) :
    messagePuller.drain (fun _ => .any) items p =
      match p.tryParse .any with
      | (.ok none, p') => ⟨items, .ok p'⟩
      | (.ok (some m), p') => messagePuller.drain (fun _ => .any) (items ++ [m]) p'
      | (.error e, _) => ⟨items, .error e⟩ := by
  rw [messagePuller.drain_eq]
  simp only [messagePuller, pull]
  rcases p.tryParse .any with ⟨e | _ | m, p'⟩ <;> rfl

/-- With a payload of length 2^64 - 1 expected, the next byte is fatal. -/
theorem tryParse_null (buffer : Bytes) (queue : List Bytes) :
    (⟨buffer, queue, some (toSizeT (-1))⟩ : MessageParser).tryParse .any =
      if buffer.length = 0 then (.ok none, ⟨buffer, queue, some (toSizeT (-1))⟩)
      else (.error .outsideBuffer, ⟨buffer, queue, some (toSizeT (-1))⟩) := by
  rw [tryParse_eq]
  by_cases hbuffer : buffer.length = 0
  · simp only [hbuffer, if_true]
  · have hlong : ¬ buffer.length < (toSizeT (-1) + delimSize .any).toNat := by
      have hone : (toSizeT (-1) + delimSize .any).toNat = 1 := by decide
      omega
    have hneg : toPtrdiff (toSizeT (-1)) < 0 := by decide
    simp only [hbuffer, if_false, getNextRawMessage, getPayload, hlong, hneg, if_true]

/-- After the line `$-1` this length is expected for ever. -/
theorem spoiled_of_null (buffer : Bytes) (queue : List Bytes) :
    Spoiled ⟨buffer, queue, some (toSizeT (-1))⟩ := by
  intro queue items
  rw [drain_any, tryParse_null]
  by_cases hbuffer : buffer.length = 0
  · simp only [hbuffer, if_true, fresh]
    simp
  · simp only [hbuffer, if_false]
    simp

/-- A cut that does not depend on the queue passes on that the reading is spoiled. -/
theorem Spoiled.of_cut {p p' : MessageParser} {raw : Bytes} (hbuffer : p.buffer.length ≠ 0)
    (hcut : ∀ queue, ({ p with rawMessageBuffer := queue } : MessageParser).getNextRawMessage
      .any = (.ok true, { p' with rawMessageBuffer := queue ++ [raw] }))
    (h : Spoiled p') : Spoiled p := by
  intro queue items
  have htry := tryParse_eq .any { p with rawMessageBuffer := queue }
  rw [if_neg hbuffer, hcut queue] at htry
  simp only [afterCut] at htry
  split at htry
  · rw [drain_any, htry, ← drain_any]
    exact h _ items
  · next m rest hdecode =>
      rw [drain_any, htry]
      exact h rest _
  · rw [drain_any, htry]
    simp

/-- Valid frames in front of a spoiled rest are no help. -/
theorem Spoiled.of_frame {frame : Frame} (hvalid : frame.Valid) {rest : Bytes}
    (h : Spoiled ⟨rest, [], none⟩) : Spoiled ⟨frame.bytes ++ rest, [], none⟩ := by
  cases frame with
  | line text =>
      obtain ⟨htype, hplain, hline⟩ := hvalid
      refine @Spoiled.of_cut _ _ text (by simp [Frame.bytes, crlf]) (fun queue => ?_) h
      simp only [getNextRawMessage, Frame.bytes, getLine_line htype hline, hplain,
        not_false_eq_true, if_true]
  | bulk payload =>
      have hpayload : Spoiled ⟨payload ++ crlf ++ rest, [], some (toSizeT payload.length)⟩ := by
        refine @Spoiled.of_cut _ ⟨rest, [], none⟩ payload (by simp [crlf]) (fun queue => ?_) h
        exact getPayload_payload hvalid
      have hbytes : (Frame.bulk payload).bytes ++ rest =
          messageBulkString :: decimal payload.length ++ crlf ++ (payload ++ crlf ++ rest) := by
        simp [Frame.bytes]
      rw [hbytes]
      refine @Spoiled.of_cut _ ⟨payload ++ crlf ++ rest, [], some (toSizeT payload.length)⟩
        (messageBulkString :: decimal payload.length) (by simp) (fun queue => ?_) hpayload
      exact getLine_bulk hvalid _ queue

/-- The line of an empty bulk string spoils the reading. -/
theorem spoiled_nullBulk (rest : Bytes) :
    Spoiled ⟨Message.nullBulk.bytes ++ rest, [], none⟩ := by
  have htype : (messageBulkString :: ascii "-1").headD 0 ∈ expectedTypes := by decide
  have hlength : ¬ (messageBulkString :: ascii "-1").headD 0 ∉ lengthTypes := by decide
  have hline : ¬ crlf <:+: messageBulkString :: ascii "-1" := not_crlf_of_not_mem (by decide)
  have hvalue : parseInt (messageBulkString :: ascii "-1").tail = some (-1) := by decide
  refine @Spoiled.of_cut _ _ (messageBulkString :: ascii "-1")
    (by simp [Message.nullBulk, Frame.bytes]) (fun queue => ?_) (spoiled_of_null rest [])
  simp only [getNextRawMessage, Message.nullBulk, Frame.bytes, getLine_line htype hline, hlength,
    if_false, hvalue]

/-- A stream with the line of an empty bulk string in it is not read to its end. -/
theorem spoiled_of_mem {frames : List Frame} (hin : Message.nullBulk ∈ frames)
    (hvalid : ∀ f ∈ frames, f ≠ Message.nullBulk → f.Valid) :
    Spoiled ⟨frames.flatMap Frame.bytes, [], none⟩ := by
  induction frames with
  | nil => simp at hin
  | cons frame frames ih =>
      rw [List.flatMap_cons]
      by_cases hnull : frame = Message.nullBulk
      · rw [hnull]
        exact spoiled_nullBulk _
      · refine Spoiled.of_frame (hvalid frame (by simp) hnull) (ih ?_ fun f hf => ?_)
        · rcases List.mem_cons.mp hin with h | h
          · exact absurd h.symm hnull
          · exact h
        · exact hvalid f (List.mem_cons_of_mem _ hf)

end MessageParser

/-! ## Reading a written stream back -/

/-- A fresh parser that expects any type reads the wire form of these messages as these
messages, and nothing is left unread. -/
def ReadsBack (ms : List Message) : Prop :=
  readAtOnce (fun _ => .any) (Message.toStringAll ms) = ⟨ms, .ok MessageParser.fresh⟩

instance (ms : List Message) : Decidable (ReadsBack ms) :=
  inferInstanceAs (Decidable (_ = _))

/-- Without empty bulk strings and oversized arrays a written stream is read back. -/
theorem readsBack_of_readable {ms : List Message} (h : Message.WritableAll ms)
    (hbulk : Message.NoEmptyBulkAll ms) (hfit : Message.ArraysFitAll ms) : ReadsBack ms := by
  have hreads := readAtOnce_of_reads (ms.map fun m => (m, m.toString)) (by
    intro x hx
    obtain ⟨m, hm, rfl⟩ := List.mem_map.mp hx
    rw [Message.toString_eq_frames ((Message.writableAll_iff ms).mp h m hm)]
    exact reads_of_encodes (Message.encodes_frames ((Message.writableAll_iff ms).mp h m hm)
      ((Message.noEmptyBulkAll_iff ms).mp hbulk m hm)
      ((Message.arraysFitAll_iff ms).mp hfit m hm)))
  rw [ReadsBack, Message.toStringAll_eq_flatMap]
  simpa [List.flatMap_map, List.map_map, Function.comp_def] using hreads

theorem readsBack_iff {ms : List Message} (h : Message.WritableAll ms) :
    ReadsBack ms ↔ Message.NoEmptyBulkAll ms ∧ Message.ArraysFitAll ms := by
  constructor
  · intro hread
    refine ⟨?_, ?_⟩
    · by_contra hempty
      have hspoiled := MessageParser.spoiled_of_mem (Message.nullBulk_mem_framesAll hempty)
        (fun f hf hne => Message.valid_of_mem_framesAll h hf hne) [] []
      rw [← Message.toStringAll_eq_frames h] at hspoiled
      exact hspoiled (congrArg Foundation.Drained.ending hread)
    · have hitems := arraysFit_of_mem_items (fun _ => .any) (Message.toStringAll ms)
      rw [congrArg Foundation.Drained.items hread] at hitems
      exact (Message.arraysFitAll_iff ms).mpr hitems
  · intro ⟨hbulk, hfit⟩
    exact readsBack_of_readable h hbulk hfit

/-! ## The stream of a master -/

/-- The SET that `StorageMiddleware::set` pushes. -/
def pushedSet (key value : Bytes) (expireMs : Option Int) : Message :=
  Command.construct (.set key value expireMs)

theorem writable_bulkStrings {parts : List Bytes} (h : ∀ part ∈ parts, part.length < 2 ^ 31) :
    (Message.array (parts.map .bulkString)).Writable := by
  refine (Message.writableAll_iff _).mpr fun m hm => ?_
  obtain ⟨part, hpart, rfl⟩ := List.mem_map.mp hm
  exact h part hpart

theorem noEmptyBulk_bulkStrings (parts : List Bytes) :
    (Message.array (parts.map .bulkString)).NoEmptyBulk ↔ ∀ part ∈ parts, part ≠ [] := by
  refine (Message.noEmptyBulkAll_iff _).trans ?_
  simp only [List.mem_map, forall_exists_index, and_imp, forall_apply_eq_imp_iff₂]
  rfl

theorem arraysFit_bulkStrings {parts : List Bytes} (h : parts.length < 2 ^ 31) :
    (Message.array (parts.map .bulkString)).ArraysFit := by
  refine ⟨by simpa using h, (Message.arraysFitAll_iff _).mpr fun m hm => ?_⟩
  obtain ⟨part, hpart, rfl⟩ := List.mem_map.mp hm
  trivial

theorem decimalInt_ne_nil (i : Int) : decimalInt i ≠ [] := by
  cases i with
  | ofNat n => exact decimal_ne_nil n
  | negSucc n => simp [decimalInt]

/-- A printed expiry is short. -/
theorem length_decimalInt_le {i : Int} (hpos : 0 < i) (hfits : i < 2 ^ 31) :
    (decimalInt i).length ≤ 10 := by
  cases i with
  | ofNat n =>
      simp only [Int.ofNat_eq_natCast] at hfits
      exact length_decimal_le (by decide) (by omega)
  | negSucc n => omega

theorem length_of_mem_parts {key value : Bytes} {expireMs : Option Int}
    (hkey : key.length < 2 ^ 31) (hvalue : value.length < 2 ^ 31)
    (hexpire : Command.ExpiryFits expireMs) :
    ∀ part ∈ (Command.set key value expireMs).parts, part.length < 2 ^ 31 := by
  intro part hpart
  rcases List.mem_append.mp hpart with hpart | hpart
  · rcases List.mem_cons.mp hpart with rfl | hpart
    · decide
    · rcases List.mem_cons.mp hpart with rfl | hpart
      · exact hkey
      · exact List.mem_singleton.mp hpart ▸ hvalue
  · cases expireMs with
    | none => simp at hpart
    | some ms =>
        obtain ⟨hpos, hfits⟩ := hexpire ms rfl
        have hlen := length_decimalInt_le hpos hfits
        rcases List.mem_cons.mp hpart with rfl | hpart
        · decide
        · rw [List.mem_singleton.mp hpart]
          omega

theorem noEmptyBulk_pushedSet (key value : Bytes) (expireMs : Option Int) :
    (pushedSet key value expireMs).NoEmptyBulk ↔ key ≠ [] ∧ value ≠ [] := by
  have hset : ascii "SET" ≠ [] := by decide
  have hpx : ascii "PX" ≠ [] := by decide
  refine (noEmptyBulk_bulkStrings _).trans ?_
  cases expireMs with
  | none => simp [Command.parts, hset]
  | some ms => simp [Command.parts, hset, hpx, decimalInt_ne_nil]

/-- **Reading back what is written.**  A stream of messages is read back exactly when it
has no empty bulk string and no oversized array; and a SET of the master, with what
follows it, exactly when its key and its value are not empty and what follows has no
empty bulk string and no oversized array either. -/
theorem roundTrip_iff {ms : List Message} (h : Message.WritableAll ms) :
    (ReadsBack ms ↔ Message.NoEmptyBulkAll ms ∧ Message.ArraysFitAll ms) ∧
    ∀ key value expireMs, key.length < 2 ^ 31 → value.length < 2 ^ 31 →
      Command.ExpiryFits expireMs →
      ((ReadsBack (pushedSet key value expireMs :: ms) ∧
          Command.tryParse (pushedSet key value expireMs) = .ok (.set key value expireMs)) ↔
        (key ≠ [] ∧ value ≠ []) ∧
          Message.NoEmptyBulkAll ms ∧ Message.ArraysFitAll ms) := by
  refine ⟨readsBack_iff h, ?_⟩
  intro key value expireMs hkey hvalue hexpire
  have hset : (pushedSet key value expireMs).Writable :=
    writable_bulkStrings (length_of_mem_parts hkey hvalue hexpire)
  have hfit : (pushedSet key value expireMs).ArraysFit := by
    refine arraysFit_bulkStrings ?_
    cases expireMs <;> simp [Command.parts]
  have hparse := Command.tryParse_construct_set key value hexpire
  have hall : Message.WritableAll (pushedSet key value expireMs :: ms) := ⟨hset, h⟩
  rw [readsBack_iff hall, Message.NoEmptyBulkAll, Message.ArraysFitAll, noEmptyBulk_pushedSet]
  constructor
  · rintro ⟨⟨⟨hne, hbulk⟩, -, harrays⟩, -⟩
    exact ⟨hne, hbulk, harrays⟩
  · rintro ⟨hne, hbulk, harrays⟩
    exact ⟨⟨⟨hne, hbulk⟩, hfit, harrays⟩, hparse⟩

/-- Two SETs, nested values that are not empty, and an empty array. -/
theorem roundTrip_iff_pipelined :
    ReadsBack [.array [.array [], .bulkString (ascii "$-1\r\n")], .integer (-5)] ∧
    ReadsBack [pushedSet (ascii "k") (ascii "v") (some 100),
      pushedSet (ascii "a") (ascii "b") none] := by
  constructor
  · refine (roundTrip_iff ?_).1.mpr ?_
    · simp only [Message.WritableAll, Message.Writable]
      decide
    · simp only [Message.NoEmptyBulkAll, Message.NoEmptyBulk, Message.ArraysFitAll,
        Message.ArraysFit]
      decide
  · have hlater : Message.WritableAll [pushedSet (ascii "a") (ascii "b") none] :=
      ⟨writable_bulkStrings (by decide), trivial⟩
    refine (((roundTrip_iff hlater).2 _ _ (some 100) (by decide) (by decide) ?_).mpr ?_).1
    · rintro ms ⟨⟩
      decide
    · exact ⟨by decide, ⟨(noEmptyBulk_pushedSet _ _ _).mpr (by decide), trivial⟩,
        arraysFit_bulkStrings (by decide), trivial⟩

/-- A SET with an empty value and one more SET behind it: the replica gets the first and
then accesses the buffer out of bounds. -/
theorem not_roundTrip_emptyValue :
    Message.WritableAll [pushedSet (ascii "k") [] none, pushedSet (ascii "a") (ascii "b") none] ∧
    readAtOnce (fun _ => .any) (Message.toStringAll
        [pushedSet (ascii "k") [] none, pushedSet (ascii "a") (ascii "b") none]) =
      ⟨[pushedSet (ascii "k") [] none], .error .outsideBuffer⟩ ∧
    ¬ ReadsBack [pushedSet (ascii "k") [] none, pushedSet (ascii "a") (ascii "b") none] := by
  refine ⟨⟨writable_bulkStrings (by decide), writable_bulkStrings (by decide), trivial⟩, ?_, ?_⟩
  · decide +kernel
  · decide +kernel

end BuildYourOwnRedis
