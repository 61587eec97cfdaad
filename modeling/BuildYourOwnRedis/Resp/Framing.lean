/-
  Resp/Framing.lean --- the wire form of messages, and reading it back.

  A message travels as a sequence of frames: lines, and bulk strings whose length line
  announces a payload.  `Encodes` says which frames stand for which message; it names no
  parser.  The two halves of the parser are then tied to it:

    * the tokenizer cuts the bytes of a frame into its raw messages, whatever follows
      and whatever the payload holds (`Frame.cuts`), and
    * `decode` reads the raw messages of an encoding as the message (`decode_raws`).

  Together they give `reads_of_encodes`: in front of any further bytes, one call of
  `try_parse` returns the message and leaves exactly those bytes.
-/
import BuildYourOwnRedis.Numerals
import BuildYourOwnRedis.Resp.Reader

set_option autoImplicit false

namespace BuildYourOwnRedis

open Foundation

/-! ## Frames -/

/-- One piece of the wire form, as the tokenizer cuts it.  A bulk string is one frame here and
two raw messages on the queue. -/
inductive Frame where
  /-- a line, whose first byte is its type -/
  | line (text : Bytes)
  /-- a length line and its payload -/
  | bulk (payload : Bytes)
  deriving DecidableEq, Repr

namespace Frame

/-- The bytes of a frame. -/
def bytes : Frame → Bytes
  | .line text => text ++ crlf
  | .bulk payload => messageBulkString :: decimal payload.length ++ crlf ++ payload ++ crlf

/-- The raw messages that the tokenizer makes of a frame. -/
def raws : Frame → List Bytes
  | .line text => [text]
  | .bulk payload => [messageBulkString :: decimal payload.length, payload]

/-- The type of a line is known and announces no payload, and no delimiter stands in the
line; a payload is shorter than 2^31. -/
def Valid : Frame → Prop
  | .line text => text.headD 0 ∈ expectedTypes ∧ text.headD 0 ∉ lengthTypes ∧ ¬ crlf <:+: text
  | .bulk payload => payload.length < 2 ^ 31

end Frame

/-! ## Texts without a delimiter -/

/-- A text without CR holds no delimiter. -/
theorem not_crlf_of_not_mem {text : Bytes} (h : (13 : Byte) ∉ text) : ¬ crlf <:+: text := by
  intro hin
  exact h (hin.subset (by simp [crlf]))

theorem not_crlf_cons_decimal {b : Byte} (hb : b ≠ 13) (n : Nat) :
    ¬ crlf <:+: b :: decimal n := by
  refine not_crlf_of_not_mem ?_
  simp only [List.mem_cons, not_or]
  exact ⟨hb.symm, not_mem_decimal (by decide)⟩

theorem not_crlf_cons_decimalInt {b : Byte} (hb : b ≠ 13) (i : Int) :
    ¬ crlf <:+: b :: decimalInt i := by
  refine not_crlf_of_not_mem ?_
  cases i with
  | ofNat n =>
      simp only [decimalInt, List.mem_cons, not_or]
      exact ⟨hb.symm, not_mem_decimal (by decide)⟩
  | negSucc n =>
      simp only [decimalInt, List.mem_cons, not_or]
      exact ⟨hb.symm, by decide, not_mem_decimal (by decide)⟩

/-- Another first byte than LF makes no new delimiter. -/
theorem not_crlf_cons {b : Byte} (hb : b ≠ 13) {text : Bytes} (h : ¬ crlf <:+: text) :
    ¬ crlf <:+: b :: text := by
  intro hin
  rcases List.infix_cons_iff.mp hin with hpre | hin
  · obtain ⟨tail, htail⟩ := hpre
    simp only [crlf, List.cons_append, List.cons.injEq] at htail
    exact hb htail.1.symm
  · exact h hin

/-! ## Cutting -/

/-- The tokenizer cuts these raw messages, one after the other, expecting no sync
response. -/
inductive Cuts : MessageParser → List Bytes → MessageParser → Prop where
  | nil (p : MessageParser) : Cuts p [] p
  | cons {p p₁ p₂ : MessageParser} {raw : Bytes} {raws : List Bytes}
      (nonempty : p.buffer.length ≠ 0)
      (cut : p.getNextRawMessage .any = (.ok true, p₁))
      (queued : p₁.rawMessageBuffer = p.rawMessageBuffer ++ [raw])
      (tail : Cuts p₁ raws p₂) : Cuts p (raw :: raws) p₂

theorem Cuts.append {p p₁ p₂ : MessageParser} {raws raws' : List Bytes}
    (h : Cuts p raws p₁) (h' : Cuts p₁ raws' p₂) : Cuts p (raws ++ raws') p₂ := by
  induction h with
  | nil p => exact h'
  | cons nonempty cut queued _ ih => exact .cons nonempty cut queued (ih h')

/-- A line is cut at its delimiter. -/
theorem getLine_line {text rest : Bytes} {queue : List Bytes}
    (htype : text.headD 0 ∈ expectedTypes) (hline : ¬ crlf <:+: text) :
    (⟨text ++ crlf ++ rest, queue, none⟩ : MessageParser).getLine =
      if text.headD 0 ∉ lengthTypes then (.ok true, ⟨rest, queue ++ [text], none⟩)
      else
        match parseInt text.tail with
        | some value => (.ok true, ⟨rest, queue ++ [text], some (toSizeT value)⟩)
        | none => (.error (.runtimeError
            (ascii "Malformed length for array message: " ++ text)),
            ⟨rest, queue ++ [text], none⟩) := by
  have hhead : (text ++ crlf ++ rest).headD 0 = text.headD 0 := by
    cases text with
    | nil => simp [expectedTypes, messageSimpleString, messageSimpleError, messageInteger,
        messageBulkString, messageArray] at htype
    | cons b text => rfl
  have hcut : splitAtDelim crlf (text ++ crlf ++ rest) = some (text, rest) :=
    splitAtDelim_pair (by decide) rest hline
  cases hvalue : parseInt text.tail <;>
    simp only [MessageParser.getLine, hhead, htype, not_true_eq_false, if_false, hcut, hvalue]

/-- The length line of a bulk string announces its payload. -/
theorem getLine_bulk {payload : Bytes} (hlen : payload.length < 2 ^ 31) (rest : Bytes)
    (queue : List Bytes) :
    (⟨messageBulkString :: decimal payload.length ++ crlf ++ rest, queue, none⟩ :
        MessageParser).getLine =
      (.ok true, ⟨rest, queue ++ [messageBulkString :: decimal payload.length],
        some (toSizeT payload.length)⟩) := by
  have hhead : (messageBulkString :: decimal payload.length).headD 0 ∈ expectedTypes := by
    simp [expectedTypes]
  have hlength : ¬ (messageBulkString :: decimal payload.length).headD 0 ∉ lengthTypes := by
    simp [lengthTypes]
  simp only [getLine_line hhead (not_crlf_cons_decimal (by decide) _), hlength, if_false,
    List.tail_cons, parseInt_decimal hlen]

/-- A payload of the announced length is cut, with its delimiter. -/
theorem getPayload_payload {payload rest : Bytes} {queue : List Bytes}
    (hlen : payload.length < 2 ^ 31) :
    (⟨payload ++ crlf ++ rest, queue, some (toSizeT payload.length)⟩ :
        MessageParser).getPayload .any (toSizeT payload.length) =
      (.ok true, ⟨rest, queue ++ [payload], none⟩) := by
  have hsize : (toSizeT payload.length).toNat = payload.length := toNat_toSizeT (by omega)
  have hpos : ¬ toPtrdiff (toSizeT payload.length) < 0 := by
    rw [MessageParser.toPtrdiff_neg_iff, hsize]
    omega
  have hsum := MessageParser.toNat_add_delimSize hpos .any
  have hlong : ¬ (payload ++ crlf ++ rest).length <
      (toSizeT payload.length + MessageParser.delimSize .any).toNat := by
    rw [hsum, hsize]
    simp [crlf, MessageParser.delimSize_any]
  have hdrop : (payload ++ crlf ++ rest).drop (payload.length + 2) = rest := by
    rw [show payload.length + 2 = (payload ++ crlf).length by simp [crlf], List.drop_left]
  have htake : (payload ++ crlf ++ rest).take payload.length = payload := by
    rw [List.append_assoc, List.take_left]
  simp only [MessageParser.getPayload, hlong, if_false, hpos, hsize]
  rw [htake, show (MessageParser.delimSize .any).toNat = 2 from rfl, hdrop]

/-- The tokenizer cuts a frame into its raw messages and leaves what stands behind it. -/
theorem Frame.cuts {frame : Frame} (hvalid : frame.Valid) (rest : Bytes)
    (queue : List Bytes) :
    Cuts ⟨frame.bytes ++ rest, queue, none⟩ frame.raws ⟨rest, queue ++ frame.raws, none⟩ := by
  cases frame with
  | line text =>
      obtain ⟨htype, hplain, hline⟩ := hvalid
      refine .cons (by simp [bytes, crlf]) ?_ rfl (.nil _)
      simp only [MessageParser.getNextRawMessage, bytes, getLine_line htype hline, hplain,
        not_false_eq_true, if_true]
      rfl
  | bulk payload =>
      have hbytes : (Frame.bulk payload).bytes ++ rest =
          messageBulkString :: decimal payload.length ++ crlf ++ (payload ++ crlf ++ rest) := by
        simp [bytes]
      have hqueue : queue ++ (Frame.bulk payload).raws =
          queue ++ [messageBulkString :: decimal payload.length] ++ [payload] := by
        simp [raws]
      rw [hbytes, hqueue]
      exact .cons (by simp) (getLine_bulk hvalid _ queue) rfl
        (.cons (by simp [crlf]) (getPayload_payload hvalid) rfl (.nil _))

/-- The same for frames in a row. -/
theorem cuts_frames {frames : List Frame} (hvalid : ∀ f ∈ frames, f.Valid) (rest : Bytes)
    (queue : List Bytes) :
    Cuts ⟨frames.flatMap Frame.bytes ++ rest, queue, none⟩ (frames.flatMap Frame.raws)
      ⟨rest, queue ++ frames.flatMap Frame.raws, none⟩ := by
  induction frames generalizing queue with
  | nil =>
      simp only [List.flatMap_nil, List.nil_append, List.append_nil]
      exact .nil _
  | cons frame frames ih =>
      simp only [List.flatMap_cons, List.append_assoc]
      have htail := ih (fun f hf => hvalid f (by simp [hf])) (queue ++ frame.raws)
      rw [List.append_assoc] at htail
      exact (frame.cuts (hvalid frame (by simp)) _ queue).append htail

/-! ## Encodings -/

mutual

/-- These frames are the wire form of this message.  An empty array may be written with
length 0 or -1. -/
inductive Encodes : Message → List Frame → Prop where
  | simpleString {value : Bytes} (h : ¬ crlf <:+: value) :
      Encodes (.simpleString value) [.line (messageSimpleString :: value)]
  | simpleError {value : Bytes} (h : ¬ crlf <:+: value) :
      Encodes (.simpleError value) [.line (messageSimpleError :: value)]
  | integer {value : Int} (hlow : -2 ^ 31 ≤ value) (hhigh : value < 2 ^ 31) :
      Encodes (.integer value) [.line (messageInteger :: decimalInt value)]
  | bulkString {value : Bytes} (h : value.length < 2 ^ 31) :
      Encodes (.bulkString value) [.bulk value]
  | nullArray : Encodes (.array []) [.line (messageArray :: ascii "-1")]
  | array {elements : List Message} {frames : List Frame}
      (hlen : elements.length < 2 ^ 31) (h : EncodesAll elements frames) :
      Encodes (.array elements)
        (.line (messageArray :: decimal elements.length) :: frames)

/-- These frames are the wire forms of these messages, one after the other. -/
inductive EncodesAll : List Message → List Frame → Prop where
  | nil : EncodesAll [] []
  | cons {m : Message} {ms : List Message} {frames frames' : List Frame}
      (h : Encodes m frames) (h' : EncodesAll ms frames') :
      EncodesAll (m :: ms) (frames ++ frames')

end

theorem valid_line {b : Byte} {text : Bytes} (htype : b ∈ expectedTypes)
    (hplain : b ∉ lengthTypes) (hline : ¬ crlf <:+: b :: text) :
    (Frame.line (b :: text)).Valid :=
  ⟨htype, hplain, hline⟩

mutual

theorem Encodes.valid {m : Message} {frames : List Frame} (h : Encodes m frames) :
    ∀ f ∈ frames, f.Valid := by
  cases h with
  | simpleString h =>
      simpa using valid_line (by decide) (by decide) (not_crlf_cons (by decide) h)
  | simpleError h =>
      simpa using valid_line (by decide) (by decide) (not_crlf_cons (by decide) h)
  | integer hlow hhigh =>
      simpa using valid_line (by decide) (by decide) (not_crlf_cons_decimalInt (by decide) _)
  | bulkString h => simpa [Frame.Valid] using h
  | nullArray =>
      simpa using valid_line (by decide) (by decide) (not_crlf_of_not_mem (by decide))
  | array hlen h =>
      intro f hf
      rcases List.mem_cons.mp hf with rfl | hf
      · exact valid_line (by decide) (by decide) (not_crlf_cons_decimal (by decide) _)
      · exact EncodesAll.valid h f hf

theorem EncodesAll.valid {ms : List Message} {frames : List Frame}
    (h : EncodesAll ms frames) : ∀ f ∈ frames, f.Valid := by
  cases h with
  | nil => simp
  | cons h h' =>
      intro f hf
      rcases List.mem_append.mp hf with hf | hf
      · exact Encodes.valid h f hf
      · exact EncodesAll.valid h' f hf

end

/-! ## Decoding an encoding -/

theorem raws_ne_nil (frame : Frame) : frame.raws ≠ [] := by
  cases frame <;> simp [Frame.raws]

theorem Encodes.raws_ne_nil {m : Message} {frames : List Frame} (h : Encodes m frames) :
    frames.flatMap Frame.raws ≠ [] := by
  cases h <;> simp [Frame.raws]

mutual

/-- The raw messages of an encoding are decoded as the message, whatever follows. -/
theorem decode_raws {m : Message} {frames : List Frame} (h : Encodes m frames) (fuel : Nat)
    (hfuel : (frames.flatMap Frame.raws).length ≤ fuel) (more : List Bytes) :
    decode fuel .any (frames.flatMap Frame.raws ++ more) = .value m more := by
  have hpos : (frames.flatMap Frame.raws).length ≠ 0 :=
    fun hzero => h.raws_ne_nil (List.length_eq_zero_iff.mp hzero)
  obtain ⟨fuel, rfl⟩ : ∃ k, fuel = k + 1 := ⟨fuel - 1, by omega⟩
  cases h with
  | simpleString h => rfl
  | simpleError h => rfl
  | integer hlow hhigh =>
      simp [Frame.raws, decode, messageInteger, messageSimpleString, messageSimpleError,
        parseInt_decimalInt hlow hhigh]
  | @bulkString value h =>
      have hnull : (value.length : Int) ≠ -1 := by omega
      simp [Frame.raws, decode, decodeBulkString, messageInteger, messageSimpleString,
        messageSimpleError, messageBulkString, parseInt_decimal h, hnull]
  | nullArray => rfl
  | @array elements frames hlen h =>
      have hnull : (elements.length : Int) ≠ -1 := by omega
      have helems := decodeElements_raws h fuel (by simpa [Frame.raws] using hfuel) [] more
      simp only [List.nil_append] at helems
      simp [Frame.raws, decode, decodeArray, messageInteger, messageSimpleString,
        messageSimpleError, messageBulkString, messageArray, parseInt_decimal hlen, hnull,
        helems, Decoded.map]

/-- The loop over the elements reads them all. -/
theorem decodeElements_raws {ms : List Message} {frames : List Frame}
    (h : EncodesAll ms frames) (fuel : Nat)
    (hfuel : (frames.flatMap Frame.raws).length ≤ fuel) (before : List Message)
    (more : List Bytes) :
    decodeElements (decode fuel .any) ms.length before (frames.flatMap Frame.raws ++ more) =
      .value (before ++ ms) more := by
  cases h with
  | nil => simp [decodeElements]
  | @cons m ms frames frames' h h' =>
      simp only [List.flatMap_append, List.length_append] at hfuel
      have hfirst := decode_raws h fuel (by omega) (frames'.flatMap Frame.raws ++ more)
      have hrest := decodeElements_raws h' fuel (by omega) (before ++ [m]) more
      simp only [List.flatMap_append, List.append_assoc, List.length_cons, decodeElements,
        hfirst, hrest, List.singleton_append]

end

/-! ## One message at the front of the buffer -/

namespace MessageParser

/-- When the raw messages cut from the buffer make up exactly one message, `try_parse`
returns it after the last of them: before that the queue is incomplete, since a value
that is complete already would leave raw messages over. -/
theorem tryParse_of_cuts {p p' : MessageParser} {raws : List Bytes} {m : Message}
    (h : Cuts p raws p') (hne : raws ≠ [])
    (hdec : decode (p.rawMessageBuffer ++ raws).length .any (p.rawMessageBuffer ++ raws) =
      .value m []) :
    p.tryParse .any = (.ok (some m), { p' with rawMessageBuffer := [] }) := by
  induction h with
  | nil p => exact absurd rfl hne
  | @cons p p₁ p₂ raw raws nonempty cut queued tail ih =>
      have hqueue : p.rawMessageBuffer ++ raw :: raws = p₁.rawMessageBuffer ++ raws := by
        rw [queued, List.append_assoc, List.singleton_append]
      rw [hqueue] at hdec
      rw [tryParse_eq, if_neg nonempty, cut]
      simp only [afterCut]
      cases raws with
      | nil =>
          cases tail
          rw [List.append_nil] at hdec
          rw [hdec]
      | cons raw' raws =>
          have hopen : decode p₁.rawMessageBuffer.length .any p₁.rawMessageBuffer =
              .incomplete := by
            by_contra hdone
            have hext := decode_append
              (show p₁.rawMessageBuffer.length ≤ (p₁.rawMessageBuffer ++ raw' :: raws).length by
                simp) .any p₁.rawMessageBuffer (raw' :: raws) hdone
            rw [hdec] at hext
            cases hd : decode p₁.rawMessageBuffer.length .any p₁.rawMessageBuffer with
            | incomplete => exact hdone hd
            | value m' rest => simp [hd, Decoded.extend] at hext
            | malformed e rest => simp [hd, Decoded.extend] at hext
          rw [hopen]
          exact ih (by simp) hdec

end MessageParser

/-- In front of any further bytes one call of `try_parse` returns the message and leaves
exactly these bytes. -/
def Reads (m : Message) (encoding : Bytes) : Prop :=
  ∀ rest, (⟨encoding ++ rest, [], none⟩ : MessageParser).tryParse .any =
    (.ok (some m), ⟨rest, [], none⟩)

theorem reads_of_encodes {m : Message} {frames : List Frame} (h : Encodes m frames) :
    Reads m (frames.flatMap Frame.bytes) := by
  intro rest
  have hcuts := cuts_frames h.valid rest []
  have hdec := decode_raws h _ (Nat.le_refl _) []
  simp only [List.nil_append, List.append_nil] at hcuts hdec
  exact MessageParser.tryParse_of_cuts hcuts h.raws_ne_nil hdec

/-- A stream of encodings, received as a whole, is read as the messages in order and
leaves no unread state. -/
theorem readAtOnce_of_reads (stream : List (Message × Bytes))
    (h : ∀ x ∈ stream, Reads x.1 x.2) :
    readAtOnce (fun _ => .any) (stream.flatMap (·.2)) =
      ⟨stream.map (·.1), .ok MessageParser.fresh⟩ := by
  suffices hgen : ∀ before : List Message,
      messagePuller.drain (fun _ => .any) before
          ⟨stream.flatMap (·.2), [], none⟩ =
        ⟨before ++ stream.map (·.1), .ok MessageParser.fresh⟩ from hgen []
  induction stream with
  | nil =>
      intro before
      rw [messagePuller.drain_eq, List.map_nil, List.append_nil]
      rfl
  | cons x stream ih =>
      intro before
      have hfirst : messagePuller.pull .any ⟨(x :: stream).flatMap (·.2), [], none⟩ =
          .item x.1 ⟨stream.flatMap (·.2), [], none⟩ := by
        rw [List.flatMap_cons]
        exact MessageParser.pull_eq_item.mpr (h x (by simp) _)
      rw [messagePuller.drain_eq, hfirst]
      simp only
      rw [ih (fun y hy => h y (by simp [hy]))]
      simp

end BuildYourOwnRedis
