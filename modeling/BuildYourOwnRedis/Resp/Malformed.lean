/-
  Resp/Malformed.lean --- the parser after a malformed line.

  `ParseHelper` takes a malformed `:` or `*` line off the queue together with all that stood
  before it, so the parser behind the exception is a fresh one on the bytes that are left.
  The tokenizer throws for a `$` line too, but it has put the line on the queue before it
  looks at the length: the line, and the headers in front of it, stay there and take part
  in whatever is parsed next.  A length below -1 is taken over as it is; the cut of its
  payload throws for -2, waits for ever below that, and the length is never given up.
-/
import BuildYourOwnRedis.Resp.Completion

set_option autoImplicit false

namespace BuildYourOwnRedis

open Foundation

namespace MessageParser

/-! ## The calls of a handler -/

/-- Bytes come, or `try_parse` is called.  A handler does one and then the other; here they
come in any order, so that every chunking is covered. -/
inductive Event where
  | receive (received : Bytes)
  | call
  deriving DecidableEq

/-- The parser after an event. -/
def handle (p : MessageParser) : Event → MessageParser
  | .receive received => p.feed received
  | .call => (p.tryParse .any).2

/-- What the calls return or throw. -/
def results : MessageParser → List Event → List (Except ParseError (Option Message))
  | _, [] => []
  | p, .receive received :: later => (p.feed received).results later
  | p, .call :: later => (p.tryParse .any).1 :: (p.tryParse .any).2.results later

/-- A fresh parser and its events. -/
def calls : Machine MessageParser Event where
  init := fresh
  step p e := some (p.handle e)

/-- The exception is about a header line that is malformed.  Either the number of the line
cannot be read, or the length that it announces is below -1 and takes the iterators of the
payload out of the buffer; the parser `p` behind the exception still has this length.  A `$-1`
is a well-formed line, and what it does to the calls behind it is no matter of this. -/
def MalformedHeader (p : MessageParser) : ParseError → Prop
  | .runtimeError what => ascii "Malformed " <+: what
  | .outsideBuffer => p.lengthEncodedMessageExpected ≠ some (toSizeT (-1))

instance (p : MessageParser) : (e : ParseError) → Decidable (p.MalformedHeader e)
  | .runtimeError what => inferInstanceAs (Decidable (ascii "Malformed " <+: what))
  | .outsideBuffer => inferInstanceAs (Decidable (_ ≠ _))

/-- The next cut takes a `$` line whose length cannot be read or is below -1. -/
def badLength (p : MessageParser) : Bool :=
  p.lengthEncodedMessageExpected.isNone &&
    (splitAtDelim crlf p.buffer).any fun cut =>
      cut.1.headD 0 = messageBulkString && (parseInt cut.1.tail).all fun length => length < -1

/-- Such a line is among those that a call cuts. -/
def cutsBadLength : Nat → MessageParser → Bool
  | 0, _ => false
  | fuel + 1, p =>
      if p.buffer.length = 0 then false
      else if p.badLength then true
      else
        match p.getNextRawMessage .any with
        | (.ok true, p₁) =>
            match decode p₁.rawMessageBuffer.length .any p₁.rawMessageBuffer with
            | .incomplete => cutsBadLength fuel p₁
            | _ => false
        | _ => false

/-- The call cuts no `$` line whose length cannot be read or is below -1. -/
def GoodLengths (p : MessageParser) : Event → Prop
  | .receive _ => True
  | .call => cutsBadLength (p.weight + 1) p = false

instance (p : MessageParser) : (e : Event) → Decidable (p.GoodLengths e)
  | .receive _ => inferInstanceAs (Decidable True)
  | .call => inferInstanceAs (Decidable (_ = _))

/-! ## One cut -/

/-- Between the calls of a run without such lines: the queue is open, and a length that is
negative as an offset comes from a `$-1`. -/
structure Regular (p : MessageParser) : Prop where
  isOpen : p.Open
  negative : ∀ length ∈ p.lengthEncodedMessageExpected,
    toPtrdiff length < 0 → length = toSizeT (-1)

theorem badLength_iff {p : MessageParser} :
    p.badLength = true ↔ p.lengthEncodedMessageExpected = none ∧
      ∃ line rest, splitAtDelim crlf p.buffer = some (line, rest) ∧
        line.headD 0 = messageBulkString ∧
          ∀ length, parseInt line.tail = some length → length < -1 := by
  simp only [badLength, Bool.and_eq_true, Option.isNone_iff_eq_none, Option.any_eq_true,
    decide_eq_true_eq, Option.all_eq_true]
  constructor
  · rintro ⟨hpending, ⟨line, rest⟩, hcut, hhead, hvalue⟩
    exact ⟨hpending, line, rest, hcut, hhead, hvalue⟩
  · rintro ⟨hpending, line, rest, hcut, hhead, hvalue⟩
    exact ⟨hpending, (line, rest), hcut, hhead, hvalue⟩

theorem toPtrdiff_toSizeT {i : Int} (hmin : -2 ^ 31 ≤ i) (hneg : i < 0) :
    toPtrdiff (toSizeT i) < 0 := by
  rw [toPtrdiff_neg_iff, toSizeT, UInt64.ofInt, UInt64.toNat_ofNat']
  omega

theorem not_toPtrdiff_natCast {n : Nat} (h : n < 2 ^ 31) : ¬ toPtrdiff (toSizeT n) < 0 := by
  rw [toPtrdiff_neg_iff, toNat_toSizeT (by omega)]
  omega

/-- The line is on the queue when the tokenizer throws, or a length is expected that is
negative as an offset. -/
theorem cut_of_badLength {p : MessageParser} (h : p.badLength = true) :
    ∃ line rest, (∃ e, p.getNextRawMessage .any =
        (.error e, ⟨rest, p.rawMessageBuffer ++ [line], none⟩)) ∨
      ∃ length, toPtrdiff length < 0 ∧ p.getNextRawMessage .any =
        (.ok true, ⟨rest, p.rawMessageBuffer ++ [line], some length⟩) := by
  obtain ⟨hpending, line, rest, hcut, hhead, hvalue⟩ := badLength_iff.mp h
  have htype : p.buffer.headD 0 = messageBulkString := by
    rcases headD_line hcut with ⟨rfl, -⟩ | heq
    · exact absurd hhead (by decide)
    · rw [← heq, hhead]
  have hexpected : messageBulkString ∈ expectedTypes := by decide
  have hlength : messageBulkString ∈ lengthTypes := by decide
  refine ⟨line, rest, ?_⟩
  cases hread : parseInt line.tail with
  | none =>
      refine .inl ⟨.runtimeError (ascii "Malformed length for array message: " ++ line), ?_⟩
      simp only [getNextRawMessage, hpending, getLine, htype, hexpected, hlength,
        not_true_eq_false, if_false, hcut, hread]
  | some value =>
      have hlow := hvalue value hread
      refine .inr ⟨toSizeT value, toPtrdiff_toSizeT (parseInt_range hread).1 (by omega), ?_⟩
      simp only [getNextRawMessage, hpending, getLine, htype, hexpected, hlength,
        not_true_eq_false, if_false, hcut, hread]

/-- Any other exception of the tokenizer leaves everything where it is, and is about no
malformed line. -/
theorem Regular.cut_error {p p₁ : MessageParser} {e : ParseError} (hregular : p.Regular)
    (h : p.badLength = false) (hcut : p.getNextRawMessage .any = (.error e, p₁)) :
    p₁ = p ∧ ¬ p.MalformedHeader e := by
  cases hpending : p.lengthEncodedMessageExpected with
  | some length =>
      simp only [getNextRawMessage, hpending, getPayload] at hcut
      split at hcut
      · simp at hcut
      · split at hcut
        · next hneg =>
            obtain ⟨he, rfl⟩ := Prod.mk.inj hcut
            obtain rfl := Except.error.inj he
            refine ⟨rfl, fun hmalformed => hmalformed ?_⟩
            rw [hpending, hregular.negative length hpending hneg]
        · simp at hcut
  | none =>
      simp only [getNextRawMessage, hpending, getLine] at hcut
      split at hcut
      · obtain ⟨he, rfl⟩ := Prod.mk.inj hcut
        obtain rfl := Except.error.inj he
        refine ⟨rfl, fun hmalformed => ?_⟩
        have hfirst := hmalformed.take 1
        simp [ascii] at hfirst
      · split at hcut
        · simp at hcut
        · next line rest hsplit =>
            split at hcut
            · simp at hcut
            · next htype =>
                split at hcut
                · simp at hcut
                · next hvalue =>
                    have hdollar : p.buffer.headD 0 = messageBulkString := by
                      simpa [lengthTypes] using htype
                    have hhead : line.headD 0 = messageBulkString := by
                      rcases headD_line hsplit with ⟨-, hother⟩ | heq
                      · rw [hdollar] at hother
                        exact absurd (by decide) hother
                      · rw [heq, hdollar]
                    have hbad := badLength_iff.mpr
                      ⟨hpending, line, rest, hsplit, hhead, fun length hlength => by
                        rw [hvalue] at hlength
                        cases hlength⟩
                    rw [h] at hbad
                    cases hbad

/-- The length behind a cut, when no line was cut whose length is below -1. -/
theorem negative_of_cut {p p₁ : MessageParser} (h : p.badLength = false)
    (hcut : p.getNextRawMessage .any = (.ok true, p₁)) :
    ∀ length ∈ p₁.lengthEncodedMessageExpected,
      toPtrdiff length < 0 → length = toSizeT (-1) := by
  have hne : p₁ ≠ p := by
    rintro rfl
    exact absurd (weight_getNextRawMessage hcut) (Nat.lt_irrefl _)
  intro length hlength hneg
  cases hpending : p.lengthEncodedMessageExpected with
  | some waited =>
      simp only [getNextRawMessage, hpending] at hcut
      rcases getPayload_cases hcut with heq | ⟨payload, -, hnone⟩
      · exact absurd heq hne
      · rw [hnone] at hlength
        cases hlength
  | none =>
      simp only [getNextRawMessage, hpending] at hcut
      rcases getLine_cases hpending hcut with ⟨heq, -⟩ | ⟨line, rest, hsplit, rfl⟩
      · exact absurd heq hne
      · obtain ⟨value, hvalue, rfl⟩ := Option.map_eq_some_iff.mp hlength
        have hread : line.headD 0 = messageBulkString ∧ parseInt line.tail = some value := by
          unfold announced at hvalue
          split at hvalue
          · next hhead => exact ⟨hhead, hvalue⟩
          · cases hvalue
        have hnull : -1 ≤ value := by
          by_contra hlow
          have hbad := badLength_iff.mpr
            ⟨hpending, line, rest, hsplit, hread.1, fun length hlength => by
              rw [hread.2] at hlength
              have hsame := Option.some.inj hlength
              omega⟩
          rw [h] at hbad
          cases hbad
        have hmax := (parseInt_range hread.2).2
        rcases Int.lt_or_le value 0 with hsign | hsign
        · rw [show value = -1 by omega]
        · obtain ⟨n, rfl⟩ := Int.eq_ofNat_of_zero_le hsign
          exact absurd hneg (not_toPtrdiff_natCast (by omega))

/-! ## One call -/

/-- No payload can be cut: nothing moves any more. -/
theorem tryParse_negative {p : MessageParser} {length : UInt64}
    (hpending : p.lengthEncodedMessageExpected = some length) (hneg : toPtrdiff length < 0) :
    (p.tryParse .any).2 = p := by
  rw [tryParse_eq]
  split
  · rfl
  · simp only [getNextRawMessage, hpending, getPayload, hneg, if_true]
    split
    · next e p₁ heq =>
        split at heq
        · simp at heq
        · exact (Prod.mk.inj heq).2.symm
    · next p₁ heq =>
        split at heq
        · exact (Prod.mk.inj heq).2.symm
        · simp at heq
    · next p₁ heq =>
        split at heq <;> simp at heq

/-- A length that is negative as an offset is never used up. -/
theorem afterCut_negative {p : MessageParser} {length : UInt64}
    (hpending : p.lengthEncodedMessageExpected = some length) (hneg : toPtrdiff length < 0) :
    (p.afterCut .any).2.lengthEncodedMessageExpected = some length := by
  unfold afterCut
  cases decode p.rawMessageBuffer.length .any p.rawMessageBuffer with
  | incomplete =>
      simp only [tryParse_negative hpending hneg]
      exact hpending
  | value m rest => exact hpending
  | malformed e rest => exact hpending

/-- A call that begins with such a line leaves the line behind, or its length. -/
theorem leaves_of_badLength {p p' : MessageParser} {r : Except ParseError (Option Message)}
    (hbuffer : p.buffer.length ≠ 0) (hbad : p.badLength = true)
    (hcall : p.tryParse .any = (r, p')) :
    p'.rawMessageBuffer ≠ [] ∨ p'.lengthEncodedMessageExpected ≠ none := by
  rw [tryParse_eq, if_neg hbuffer] at hcall
  obtain ⟨line, rest, ⟨e, hcut⟩ | ⟨length, hneg, hcut⟩⟩ := cut_of_badLength hbad
  · rw [hcut] at hcall
    obtain ⟨-, rfl⟩ := Prod.mk.inj hcall
    exact .inl (by simp)
  · rw [hcut] at hcall
    simp only at hcall
    have hkept := afterCut_negative (p := ⟨rest, p.rawMessageBuffer ++ [line], some length⟩)
      rfl hneg
    rw [hcall] at hkept
    exact .inr (ne_of_eq_of_ne hkept (Option.some_ne_none length))

/-- A call in a regular state.  When all lengths that it cuts are good it leaves a regular
state, and nothing at all if it throws because of a malformed line; when one is not, a raw
message is left behind, or a length. -/
theorem call_spec {p p' : MessageParser} {r : Except ParseError (Option Message)}
    (hregular : p.Regular) {fuel : Nat} (hfuel : p.weight < fuel)
    (hcall : p.tryParse .any = (r, p')) :
    (cutsBadLength fuel p = false → p'.Regular ∧
        ∀ e, r = .error e → p'.MalformedHeader e → p' = fresh.feed p'.buffer) ∧
      (cutsBadLength fuel p = true →
        p'.rawMessageBuffer ≠ [] ∨ p'.lengthEncodedMessageExpected ≠ none) := by
  induction hw : p.weight using Nat.strongRecOn generalizing p fuel with
  | ind n ih =>
      subst hw
      obtain ⟨fuel, rfl⟩ : ∃ k, fuel = k + 1 := ⟨fuel - 1, by omega⟩
      rw [cutsBadLength]
      by_cases hempty : p.buffer.length = 0
      · rw [tryParse_eq, if_pos hempty] at hcall
        rw [if_pos hempty]
        obtain ⟨rfl, rfl⟩ := Prod.mk.inj hcall
        exact ⟨fun _ => ⟨hregular, fun e he => by cases he⟩, fun hbad => by cases hbad⟩
      rw [if_neg hempty]
      by_cases hbad : p.badLength = true
      · rw [if_pos hbad]
        exact ⟨fun hgood => Bool.noConfusion hgood,
          fun _ => leaves_of_badLength hempty hbad hcall⟩
      rw [if_neg hbad]
      rw [tryParse_eq, if_neg hempty] at hcall
      have hgood : p.badLength = false := by simpa using hbad
      rcases hcut : p.getNextRawMessage .any with ⟨⟨e⟩ | ⟨_ | _⟩, p₁⟩
      · -- the tokenizer throws, for another reason
        obtain ⟨rfl, hother⟩ := hregular.cut_error hgood hcut
        rw [hcut] at hcall
        obtain ⟨rfl, rfl⟩ := Prod.mk.inj hcall
        refine ⟨fun _ => ⟨hregular, fun e' he hmalformed => ?_⟩, fun h => by cases h⟩
        obtain rfl := Except.error.inj he
        exact absurd hmalformed hother
      · rw [hcut] at hcall
        obtain ⟨rfl, rfl⟩ := Prod.mk.inj hcall
        obtain rfl := getNextRawMessage_false hcut
        exact ⟨fun _ => ⟨hregular, fun e he => by cases he⟩, fun h => by cases h⟩
      · obtain ⟨last, hclosed, hsilent⟩ := hregular.isOpen.cut hcut
        have hnegative := negative_of_cut hgood hcut
        have hlt := weight_getNextRawMessage hcut
        rw [hcut] at hcall
        simp only [afterCut] at hcall
        cases hd : decode p₁.rawMessageBuffer.length .any p₁.rawMessageBuffer with
        | incomplete =>
            rw [hd] at hcall
            simp only [hd]
            exact ih _ hlt ⟨hd, hnegative⟩ (by omega) hcall rfl
        | value m rest =>
            rw [hd] at hcall hclosed
            obtain ⟨rfl, rfl⟩ := Prod.mk.inj hcall
            simp only [hd]
            exact ⟨fun _ => ⟨⟨open_of_queue_eq_nil hclosed, hnegative⟩, fun e he => by cases he⟩,
              fun h => by cases h⟩
        | malformed e rest =>
            rw [hd] at hcall hclosed
            obtain ⟨rfl, rfl⟩ := Prod.mk.inj hcall
            obtain ⟨rfl, hnone⟩ := hclosed
            simp only [hd]
            refine ⟨fun _ => ⟨⟨open_of_queue_eq_nil rfl, hnegative⟩, fun _ _ _ => ?_⟩,
              fun h => by cases h⟩
            simp only [hsilent hnone]
            rfl

/-! ## Every run -/

theorem regular_of_reachable {p : MessageParser} (h : calls.Reachable GoodLengths p) :
    p.Regular := by
  refine h.invariant (I := Regular) ⟨open_of_queue_eq_nil rfl, by simp [calls, fresh]⟩ ?_
  intro p e p' _ hregular hallowed htaken
  obtain rfl := Option.some.inj htaken
  cases e with
  | receive received => exact ⟨hregular.isOpen, hregular.negative⟩
  | call => exact ((call_spec hregular (Nat.lt_succ_self _) rfl).1 hallowed).1

/-- **Malformed lines.**  Take any run, in any pieces, whose calls cut no `$` line with a length
that cannot be read or is below -1, and a call behind it that throws because of a malformed
line.  If that call cuts no such line either, every later call does what it does of a fresh
parser on the bytes that were left; and the parser behind the exception is this fresh parser
exactly if the call cuts no such line. -/
theorem leavesNoFragment_iff {p p' : MessageParser} (h : calls.Reachable GoodLengths p)
    {e : ParseError} (hthrown : p.tryParse .any = (.error e, p'))
    (hmalformed : p'.MalformedHeader e) :
    (p.GoodLengths .call → ∀ later, p'.results later = (fresh.feed p'.buffer).results later) ∧
      (p' = fresh.feed p'.buffer ↔ p.GoodLengths .call) := by
  obtain ⟨hread, hbad⟩ :=
    call_spec (regular_of_reachable h) (Nat.lt_succ_self _) hthrown
  have hfresh : p.GoodLengths .call → p' = fresh.feed p'.buffer :=
    fun hallowed => (hread hallowed).2 e rfl hmalformed
  refine ⟨fun hallowed later => ?_, fun heq => ?_, hfresh⟩
  · rw [← hfresh hallowed]
  · by_contra hallowed
    rcases hbad (by simpa [GoodLengths] using hallowed) with hleft | hleft
    · exact hleft (by rw [heq]; rfl)
    · exact hleft (by rw [heq]; rfl)

/-- An array whose second element is no number, and what a client sends behind it. -/
def badInteger : Bytes := ascii "*2\r\n:1\r\n:x\r\n+OK\r\n"

theorem leavesNoFragment_iff_integer :
    ∃ h : (calls.run GoodLengths calls.init [.receive badInteger]).isSome,
      let p := (calls.run GoodLengths calls.init [.receive badInteger]).get h
      let p' : MessageParser := ⟨ascii "+OK\r\n", [], none⟩
      (p.GoodLengths .call →
          ∀ later, p'.results later = (fresh.feed p'.buffer).results later) ∧
        (p' = fresh.feed p'.buffer ↔ p.GoodLengths .call) :=
  ⟨by decide +kernel, leavesNoFragment_iff (Machine.reachable_of_run (by decide +kernel))
    (e := .runtimeError (ascii "Malformed integer message: :x")) (by decide +kernel)
    (by decide +kernel)⟩

/-- A length that cannot be read: its line stays on the queue, and is in the way of the next
message. -/
theorem not_leavesNoFragment :
    ¬ ∀ (p p' : MessageParser) (e : ParseError), calls.Reachable Anything p →
      p.tryParse .any = (.error e, p') → p'.MalformedHeader e →
        ∀ later, p'.results later = (fresh.feed p'.buffer).results later := by
  intro h
  have hrun : calls.run Anything calls.init [.receive (ascii "$abc\r\n")] =
      some ⟨ascii "$abc\r\n", [], none⟩ := by
    decide +kernel
  have hlater := h _ ⟨[], [ascii "$abc"], none⟩
    (.runtimeError (ascii "Malformed length for array message: $abc"))
    (Machine.Reachable.run .init hrun) (by decide +kernel) (by decide +kernel)
    [.receive (ascii "+OK\r\n"), .call]
  exact absurd hlater (by decide +kernel)

-- a length below -1: the exception leaves it behind, with the line that announced it
example : (fresh.feed (ascii "$-2\r\n+OK\r\n")).tryParse .any =
    (.error .outsideBuffer, ⟨ascii "+OK\r\n", [ascii "$-2"], some (toSizeT (-2))⟩) := by
  decide +kernel

end MessageParser

end BuildYourOwnRedis
