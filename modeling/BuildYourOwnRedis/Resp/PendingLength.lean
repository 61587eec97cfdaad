/-
  Resp/PendingLength.lean --- the length of the payload that a parser waits for.

  `Blocks` is the shape of the queue of raw messages: lines, and length lines with their
  payloads behind them.  The parser waits for a payload exactly if the last of the queue
  is a length line.  `ParseHelper` takes whole blocks off the queue, so it never takes a
  length line whose payload is still to come.  A negative length breaks this: its line is
  a whole value for `ParseHelper`, but its number, as a `std::size_t`, is waited for.
-/
import BuildYourOwnRedis.Foundation.Transition
import BuildYourOwnRedis.Numerals
import BuildYourOwnRedis.Resp.MessageParser

set_option autoImplicit false

namespace BuildYourOwnRedis

open Foundation

/-- The length that a raw message announces, if it is a `$` line with a number. -/
def announced (rawMessage : Bytes) : Option Int :=
  if rawMessage.headD 0 = messageBulkString then parseInt rawMessage.tail else none

/-- A queue of raw messages, and the length that is waited for.  Every length line is followed
by its payload, except for the last one, whose payload is still to come. -/
inductive Blocks : List Bytes → Option UInt64 → Prop where
  | nil : Blocks [] none
  | pending {header : Bytes} {n : Nat} (h : announced header = some (n : Int)) :
      Blocks [header] (some (UInt64.ofNat n))
  | line {rawMessage : Bytes} {queue : List Bytes} {length : Option UInt64}
      (h : announced rawMessage = none) (rest : Blocks queue length) :
      Blocks (rawMessage :: queue) length
  | bulk {header payload : Bytes} {queue : List Bytes} {length : Option UInt64} {n : Nat}
      (h : announced header = some (n : Int)) (rest : Blocks queue length) :
      Blocks (header :: payload :: queue) length

namespace Blocks

variable {queue : List Bytes} {length : Option UInt64}

/-- Another line comes, and no payload is due. -/
theorem concat (h : Blocks queue none) {rawMessage : Bytes} {length : Option UInt64}
    (hnew : Blocks [rawMessage] length) : Blocks (queue ++ [rawMessage]) length := by
  generalize hnone : (none : Option UInt64) = due at h
  induction h with
  | nil => exact hnew
  | pending h => cases hnone
  | line h rest ih => exact .line h (ih hnone)
  | bulk h rest ih => exact .bulk h (ih hnone)

/-- The payload comes that is due. -/
theorem concat_payload {due : UInt64} (h : Blocks queue (some due)) (payload : Bytes) :
    Blocks (queue ++ [payload]) none := by
  generalize hsome : some due = length at h
  induction h with
  | nil => cases hsome
  | pending h => exact .bulk h .nil
  | line h rest ih => exact .line h (ih hsome)
  | bulk h rest ih => exact .bulk h (ih hsome)

/-- The length that is due stands in the last line. -/
theorem getLast {due : UInt64} (h : Blocks queue (some due)) :
    ∃ header n, queue.getLast? = some header ∧ announced header = some ((n : Nat) : Int) ∧
      due = UInt64.ofNat n := by
  generalize hsome : some due = length at h
  induction h with
  | nil => cases hsome
  | pending h => exact ⟨_, _, rfl, h, Option.some.inj hsome⟩
  | line h rest ih =>
      obtain ⟨header, n, hlast, hannounced, hdue⟩ := ih hsome
      exact ⟨header, n, by rw [List.getLast?_cons, hlast, Option.getD_some], hannounced, hdue⟩
  | bulk h rest ih =>
      obtain ⟨header, n, hlast, hannounced, hdue⟩ := ih hsome
      refine ⟨header, n, ?_, hannounced, hdue⟩
      rw [List.getLast?_cons, List.getLast?_cons, hlast, Option.getD_some, Option.getD_some]

/-- Behind a raw message that announces nothing. -/
theorem tail_of_line {rawMessage : Bytes} (h : Blocks (rawMessage :: queue) length)
    (hline : announced rawMessage = none) : Blocks queue length := by
  cases h with
  | pending h => simp [hline] at h
  | line h rest => exact rest
  | bulk h rest => simp [hline] at h

end Blocks

/-! ## `ParseHelper` takes whole blocks -/

/-- What an outcome leaves of the queue. -/
def Decoded.Leaves {α : Type} (P : List Bytes → Prop) : Decoded α → Prop
  | .incomplete => True
  | .value _ rest => P rest
  | .malformed _ rest => P rest

theorem Decoded.Leaves.map {α β : Type} {P : List Bytes → Prop} {d : Decoded α}
    (h : d.Leaves P) (f : α → β) : (d.map f).Leaves P := by
  cases d <;> exact h

theorem decodeBulkString_leaves {queue : List Bytes} {length : Option UInt64}
    {rawMessage : Bytes} (expected : MessageType)
    (htype : rawMessage.headD 0 = messageBulkString)
    (h : Blocks (rawMessage :: queue) length) :
    (decodeBulkString expected rawMessage queue).Leaves (Blocks · length) := by
  have hannounced : announced rawMessage = parseInt rawMessage.tail := if_pos htype
  unfold decodeBulkString
  cases h with
  | line h rest =>
      rw [← hannounced, h]
      exact rest
  | @pending _ n h =>
      have hnull : (n : Int) ≠ -1 := by omega
      rw [← hannounced, h]
      simp only [hnull, if_false]
      trivial
  | @bulk _ payload queue _ n h rest =>
      have hnull : (n : Int) ≠ -1 := by omega
      rw [← hannounced, h]
      simp only [hnull, if_false]
      exact rest

theorem decodeElements_leaves {P : List Bytes → Prop}
    {element : List Bytes → Decoded Message}
    (helement : ∀ queue, P queue → (element queue).Leaves P) (n : Nat)
    (messages : List Message) (queue : List Bytes) (h : P queue) :
    (decodeElements element n messages queue).Leaves P := by
  induction n generalizing messages queue with
  | zero => exact h
  | succ n ih =>
      have hfirst := helement queue h
      rw [decodeElements]
      cases hd : element queue with
      | incomplete => trivial
      | value message rest =>
          rw [hd] at hfirst
          exact ih (messages ++ [message]) rest hfirst
      | malformed e rest =>
          rw [hd] at hfirst
          exact hfirst

theorem decode_leaves {length : Option UInt64} (fuel : Nat) (expected : MessageType)
    (queue : List Bytes) (h : Blocks queue length) :
    (decode fuel expected queue).Leaves (Blocks · length) := by
  induction fuel generalizing expected queue with
  | zero => trivial
  | succ fuel ih =>
      cases queue with
      | nil => trivial
      | cons rawMessage queue =>
          have htail : rawMessage.headD 0 ≠ messageBulkString → Blocks queue length :=
            fun htype => h.tail_of_line (if_neg htype)
          rcases decode_cons expected rawMessage with ⟨htype, m, hread⟩ | ⟨htype, e, hread⟩ |
            ⟨htype, hread⟩ | ⟨htype, hread⟩
          · rw [hread]
            exact htail htype
          · rw [hread]
            exact htail htype
          · rw [hread]
            exact decodeBulkString_leaves expected htype h
          · have hrest := htail (by rw [htype]; decide)
            rw [hread]
            unfold decodeArray
            split
            · exact hrest
            · split
              · exact hrest
              · exact (decodeElements_leaves (fun queue hqueue => ih .any queue hqueue)
                  _ [] _ hrest).map _

/-! ## The steps of a parser -/

namespace MessageParser

/-- What can happen to a parser: bytes come, a raw message is cut, the queue is looked
at. -/
inductive Action where
  | receive (received : Bytes)
  | cut (expected : MessageType)
  | parse (expected : MessageType)
  deriving DecidableEq

/-- The parser after `ParseHelper::parse`. -/
def afterParse (expected : MessageType) (p : MessageParser) : MessageParser :=
  match decode p.rawMessageBuffer.length expected p.rawMessageBuffer with
  | .incomplete => p
  | .value _ rest => { p with rawMessageBuffer := rest }
  | .malformed _ rest => { p with rawMessageBuffer := rest }

/-- One step; a cut outside of the buffer is undefined. -/
def step (p : MessageParser) : Action → Option MessageParser
  | .receive received => some (p.feed received)
  | .cut expected =>
      if p.buffer.length = 0 then none
      else
        match p.getNextRawMessage expected with
        | (.error .outsideBuffer, _) => none
        | (_, p') => some p'
  | .parse expected => some (p.afterParse expected)

/-- A fresh parser. -/
def machine : Machine MessageParser Action where
  init := fresh
  step := step

/-- `try_parse` is made of these steps, so the states between the calls of a handler are among
those that are spoken of.  A cut outside of the buffer is no step. -/
theorem reachable_tryParse {expected : MessageType} {p p' : MessageParser}
    {r : Except ParseError (Option Message)} (h : machine.Reachable Anything p)
    (hparse : p.tryParse expected = (r, p')) (hr : r ≠ .error .outsideBuffer) :
    machine.Reachable Anything p' := by
  induction hw : p.weight using Nat.strongRecOn generalizing p with
  | ind n ih =>
      subst hw
      rw [tryParse_eq] at hparse
      split at hparse
      · obtain ⟨-, rfl⟩ := Prod.mk.inj hparse
        exact h
      · next hbuffer =>
          have hstep : ∀ {r₁ : Except ParseError Bool} {p₁ : MessageParser},
              p.getNextRawMessage expected = (r₁, p₁) → r₁ ≠ .error .outsideBuffer →
              machine.Reachable Anything p₁ := by
            intro r₁ p₁ hcut hdefined
            have htaken : machine.step p (.cut expected) = some p₁ := by
              simp only [machine, step, hbuffer, if_false, hcut]
            exact .step h trivial htaken
          rcases hcut : p.getNextRawMessage expected with ⟨⟨e⟩ | ⟨_ | _⟩, p₁⟩
          · rw [hcut] at hparse
            obtain ⟨rfl, rfl⟩ := Prod.mk.inj hparse
            exact hstep hcut (by simpa using hr)
          · rw [hcut] at hparse
            obtain ⟨-, rfl⟩ := Prod.mk.inj hparse
            exact hstep hcut (by simp)
          · have hreached := hstep hcut (by simp)
            have hlt := weight_getNextRawMessage hcut
            have hlook : machine.Reachable Anything (p₁.afterParse expected) :=
              .step hreached trivial (a := .parse expected) rfl
            rw [hcut] at hparse
            simp only [afterCut] at hparse
            simp only [afterParse] at hlook
            cases hd : decode p₁.rawMessageBuffer.length expected p₁.rawMessageBuffer with
            | incomplete =>
                rw [hd] at hparse
                exact ih _ hlt hreached hparse rfl
            | value m rest =>
                rw [hd] at hparse hlook
                obtain ⟨-, rfl⟩ := Prod.mk.inj hparse
                exact hlook
            | malformed e rest =>
                rw [hd] at hparse hlook
                obtain ⟨-, rfl⟩ := Prod.mk.inj hparse
                exact hlook

/-! ## Lengths -/

/-- The length that is waited for is the number in the last `$` line, whose payload is
still to come, and no payload can be cut outside of the buffer. -/
structure LengthRight (p : MessageParser) : Prop where
  announced : ∀ length ∈ p.lengthEncodedMessageExpected, ∃ header n,
    p.rawMessageBuffer.getLast? = some header ∧
      BuildYourOwnRedis.announced header = some ((n : Nat) : Int) ∧ length.toNat = n
  noWrap : ∀ length ∈ p.lengthEncodedMessageExpected, ∀ expected,
    (length + delimSize expected).toNat = length.toNat + (delimSize expected).toNat
  inside : ∀ length ∈ p.lengthEncodedMessageExpected, ∀ expected,
    ¬ p.buffer.length < (length + delimSize expected).toNat →
      ¬ toPtrdiff length < 0 ∧
        length.toNat + (delimSize expected).toNat ≤ p.buffer.length

/-- No line is cut that announces a negative length.  It speaks of the buffer before the cut
only: of the line that stands in front there, when no payload is waited for. -/
def NonNegative (p : MessageParser) : Action → Prop
  | .cut _ =>
      match p.lengthEncodedMessageExpected, splitAtDelim crlf p.buffer with
      | none, some (line, _) => ∀ length ∈ announced line, 0 ≤ length
      | _, _ => True
  | _ => True

instance (rawMessage : Bytes) : Decidable (∀ length ∈ announced rawMessage, 0 ≤ length) :=
  decidable_of_iff (∀ length ∈ (announced rawMessage).toList, 0 ≤ length) (by simp)

instance (p : MessageParser) (a : Action) : Decidable (p.NonNegative a) := by
  unfold NonNegative
  split
  · split <;> infer_instance
  · infer_instance

theorem announced_range {rawMessage : Bytes} {length : Int}
    (h : announced rawMessage = some length) : -2 ^ 31 ≤ length ∧ length < 2 ^ 31 := by
  unfold announced at h
  split at h
  · exact parseInt_range h
  · cases h

/-- The shape of the queue says it all. -/
theorem lengthRight_of_blocks {p : MessageParser}
    (h : Blocks p.rawMessageBuffer p.lengthEncodedMessageExpected) : p.LengthRight := by
  have hsmall : ∀ length ∈ p.lengthEncodedMessageExpected, ∃ header n,
      p.rawMessageBuffer.getLast? = some header ∧
        announced header = some ((n : Nat) : Int) ∧ length.toNat = n ∧ n < 2 ^ 31 := by
    intro length hlength
    rw [Option.mem_def.mp hlength] at h
    obtain ⟨header, n, hlast, hannounced, rfl⟩ := h.getLast
    have hrange := announced_range hannounced
    have hlt : n < 2 ^ 31 := by omega
    exact ⟨header, n, hlast, hannounced, UInt64.toNat_ofNat_of_lt' (by
      simp only [UInt64.size]
      omega), hlt⟩
  have hpositive : ∀ length ∈ p.lengthEncodedMessageExpected, ¬ toPtrdiff length < 0 := by
    intro length hlength
    obtain ⟨-, n, -, -, heq, hlt⟩ := hsmall length hlength
    rw [toPtrdiff_neg_iff]
    omega
  refine ⟨?_, ?_, ?_⟩
  · intro length hlength
    obtain ⟨header, n, hlast, hannounced, heq, -⟩ := hsmall length hlength
    exact ⟨header, n, hlast, hannounced, heq⟩
  · exact fun length hlength expected => toNat_add_delimSize (hpositive length hlength) expected
  · intro length hlength expected hsize
    rw [toNat_add_delimSize (hpositive length hlength) expected] at hsize
    exact ⟨hpositive length hlength, by omega⟩

/-- The type of a line is the first byte of the buffer that it is cut from. -/
theorem headD_line {buffer line rest : Bytes}
    (hcut : splitAtDelim crlf buffer = some (line, rest)) :
    line = [] ∧ buffer.headD 0 ∉ expectedTypes ∨ line.headD 0 = buffer.headD 0 := by
  rw [splitAtDelim_eq_append hcut]
  cases line with
  | nil => exact Or.inl ⟨rfl, (by decide : (13 : Byte) ∉ expectedTypes)⟩
  | cons b line => exact Or.inr rfl

/-- A line is cut with the length it announces, or nothing is cut, because there is no line
or one that announces nothing. -/
theorem getLine_cases {p p' : MessageParser} {r : Except ParseError Bool}
    (hpending : p.lengthEncodedMessageExpected = none) (h : p.getLine = (r, p')) :
    (p' = p ∧ ∀ line rest, splitAtDelim crlf p.buffer = some (line, rest) →
        announced line = none) ∨
      ∃ line rest, splitAtDelim crlf p.buffer = some (line, rest) ∧
        p' = ⟨rest, p.rawMessageBuffer ++ [line], (announced line).map toSizeT⟩ := by
  simp only [getLine] at h
  split at h
  · next htype =>
      obtain ⟨-, rfl⟩ := Prod.mk.inj h
      refine Or.inl ⟨rfl, fun line rest hcut => if_neg fun hdollar => ?_⟩
      rcases headD_line hcut with ⟨rfl, -⟩ | hhead
      · exact absurd hdollar (by decide)
      · rw [← hhead, hdollar] at htype
        exact absurd htype (by decide)
  · next htype =>
      split at h
      · next hcut =>
          obtain ⟨-, rfl⟩ := Prod.mk.inj h
          exact Or.inl ⟨rfl, fun line rest hline => by rw [hcut] at hline; cases hline⟩
      · next line rest hcut =>
          refine Or.inr ⟨line, rest, hcut, ?_⟩
          have hhead : line.headD 0 = p.buffer.headD 0 := by
            rcases headD_line hcut with ⟨-, hother⟩ | hhead
            · exact absurd hother htype
            · exact hhead
          unfold announced
          rw [hhead]
          split at h
          · next hplain =>
              obtain ⟨-, rfl⟩ := Prod.mk.inj h
              rw [if_neg (by simpa [lengthTypes] using hplain)]
              simp [hpending]
          · next hdollar =>
              rw [if_pos (by simpa [lengthTypes] using hdollar)]
              split at h
              · next value hvalue =>
                  obtain ⟨-, rfl⟩ := Prod.mk.inj h
                  simp [hvalue]
              · next hvalue =>
                  obtain ⟨-, rfl⟩ := Prod.mk.inj h
                  simp [hvalue, hpending]

/-- A payload is cut, or nothing is: while bytes are missing, and where the cut throws, the
parser stays as it is. -/
theorem getPayload_cases {expected : MessageType} {length : UInt64} {p p' : MessageParser}
    {r : Except ParseError Bool} (h : p.getPayload expected length = (r, p')) :
    p' = p ∨ ∃ payload, p'.rawMessageBuffer = p.rawMessageBuffer ++ [payload] ∧
      p'.lengthEncodedMessageExpected = none := by
  unfold getPayload at h
  split at h
  · obtain ⟨-, rfl⟩ := Prod.mk.inj h
    exact Or.inl rfl
  · split at h
    · obtain ⟨-, rfl⟩ := Prod.mk.inj h
      exact Or.inl rfl
    · obtain ⟨-, rfl⟩ := Prod.mk.inj h
      exact Or.inr ⟨_, rfl, rfl⟩

/-- A cut keeps the shape, or it is the cut of a line with a negative length. -/
theorem blocks_cut {expected : MessageType} {p p' : MessageParser}
    (h : Blocks p.rawMessageBuffer p.lengthEncodedMessageExpected)
    (htaken : p.step (.cut expected) = some p') :
    (p.NonNegative (.cut expected) ∧
        Blocks p'.rawMessageBuffer p'.lengthEncodedMessageExpected) ∨
      (¬ p.NonNegative (.cut expected) ∧ ¬ p'.LengthRight) := by
  obtain ⟨r, hcut⟩ : ∃ r, p.getNextRawMessage expected = (r, p') := by
    simp only [step] at htaken
    rcases hcut : p.getNextRawMessage expected with ⟨r, p₁⟩
    rw [hcut] at htaken
    split at htaken
    · cases htaken
    · split at htaken
      · cases htaken
      · next heq =>
          obtain ⟨-, rfl⟩ := Prod.mk.inj heq
          obtain rfl := Option.some.inj htaken
          exact ⟨r, rfl⟩
  cases hpending : p.lengthEncodedMessageExpected with
  | some length =>
      simp only [getNextRawMessage, hpending] at hcut
      refine Or.inl ⟨by simp [NonNegative, hpending], ?_⟩
      rcases getPayload_cases hcut with rfl | ⟨payload, hqueue, hnone⟩
      · exact h
      · rw [hqueue, hnone]
        exact Blocks.concat_payload (hpending ▸ h) payload
  | none =>
      simp only [getNextRawMessage, hpending] at hcut
      rw [hpending] at h
      unfold NonNegative
      rw [hpending]
      rcases getLine_cases hpending hcut with ⟨rfl, hsilent⟩ | ⟨line, rest, hsplit, rfl⟩
      · refine Or.inl ⟨?_, hpending ▸ h⟩
        cases hsplit : splitAtDelim crlf p'.buffer with
        | none => trivial
        | some cut =>
            intro length hlength
            rw [hsilent cut.1 cut.2 hsplit] at hlength
            cases hlength
      · rw [hsplit]
        cases hannounced : announced line with
        | none =>
            refine Or.inl ⟨fun length hlength => ?_, h.concat (.line hannounced .nil)⟩
            rw [hannounced] at hlength
            cases hlength
        | some length =>
            by_cases hneg : 0 ≤ length
            · obtain ⟨n, rfl⟩ := Int.eq_ofNat_of_zero_le hneg
              refine Or.inl ⟨fun m hm => ?_, h.concat ?_⟩
              · rw [hannounced] at hm
                rwa [← Option.some.inj hm]
              · simp only [Option.map_some, toSizeT_natCast]
                exact .pending hannounced
            · refine Or.inr ⟨fun hall => hneg (hall length hannounced), fun hright => ?_⟩
              obtain ⟨header, n, hlast, hn, -⟩ := hright.announced (toSizeT length) (by simp)
              simp only [List.getLast?_concat, Option.some.injEq] at hlast
              subst hlast
              rw [hannounced] at hn
              obtain rfl := Option.some.inj hn
              exact hneg (Int.natCast_nonneg n)

theorem blocks_afterParse {expected : MessageType} {p : MessageParser}
    (h : Blocks p.rawMessageBuffer p.lengthEncodedMessageExpected) :
    Blocks (p.afterParse expected).rawMessageBuffer
      (p.afterParse expected).lengthEncodedMessageExpected := by
  have hleaves := decode_leaves p.rawMessageBuffer.length expected p.rawMessageBuffer h
  unfold afterParse
  cases hd : decode p.rawMessageBuffer.length expected p.rawMessageBuffer with
  | incomplete => exact h
  | value m rest =>
      rw [hd] at hleaves
      exact hleaves
  | malformed e rest =>
      rw [hd] at hleaves
      exact hleaves

theorem blocks_step {p p' : MessageParser} {a : Action}
    (h : Blocks p.rawMessageBuffer p.lengthEncodedMessageExpected)
    (hallowed : p.NonNegative a) (htaken : p.step a = some p') :
    Blocks p'.rawMessageBuffer p'.lengthEncodedMessageExpected := by
  cases a with
  | receive received =>
      obtain rfl := Option.some.inj htaken
      exact h
  | parse expected =>
      obtain rfl := Option.some.inj htaken
      exact blocks_afterParse h
  | cut expected =>
      rcases blocks_cut h htaken with ⟨-, hblocks⟩ | ⟨hneg, -⟩
      · exact hblocks
      · exact absurd hallowed hneg

/-- **Lengths.**  As long as no line with a negative length has been cut, the lengths are
right, and a step keeps them right exactly if it does not cut such a line. -/
theorem lengthRight_iff {p : MessageParser} (h : machine.Reachable NonNegative p) :
    p.LengthRight ∧
      ∀ a p', p.step a = some p' → (p'.LengthRight ↔ p.NonNegative a) := by
  have hblocks : Blocks p.rawMessageBuffer p.lengthEncodedMessageExpected :=
    h.invariant (I := fun p => Blocks p.rawMessageBuffer p.lengthEncodedMessageExpected)
      .nil fun p a p' _ hp hallowed htaken => blocks_step hp hallowed htaken
  refine ⟨lengthRight_of_blocks hblocks, fun a p' htaken => ?_⟩
  constructor
  · intro hright
    cases a with
    | receive received => trivial
    | parse expected => trivial
    | cut expected =>
        rcases blocks_cut hblocks htaken with ⟨hallowed, -⟩ | ⟨-, hwrong⟩
        · exact hallowed
        · exact absurd hright hwrong
  · exact fun hallowed => lengthRight_of_blocks (blocks_step hblocks hallowed htaken)

/-- A length line whose payload comes in two pieces. -/
theorem lengthRight_iff_split :
    let run := machine.run NonNegative machine.init
      [.receive (ascii "*1\r\n$3\r\na"), .cut .any, .parse .any, .cut .any, .parse .any]
    ∃ h : run.isSome, (run.get h).LengthRight ∧ ∀ a p', (run.get h).step a = some p' →
      (p'.LengthRight ↔ (run.get h).NonNegative a) :=
  ⟨by decide +kernel, lengthRight_iff (Machine.reachable_of_run (by decide +kernel))⟩

/-- `$-1`, which is how an empty bulk string is written: the length that is waited for is
2^64-1, and no payload of it will come. -/
theorem not_lengthRight :
    ¬ ∀ p : MessageParser, machine.Reachable Anything p → p.LengthRight := by
  intro h
  have hrun : (machine.run Anything machine.init
      [.receive (ascii "$-1\r\n"), .cut .any]).map (fun p =>
        (p.rawMessageBuffer, p.lengthEncodedMessageExpected)) =
      some ([ascii "$-1"], some 18446744073709551615) := by
    decide +kernel
  obtain ⟨p, hreached, hp⟩ := Option.map_eq_some_iff.mp hrun
  obtain ⟨hqueue, hlength⟩ := Prod.mk.inj hp
  have hright := h p (Machine.Reachable.run .init hreached)
  obtain ⟨header, n, hlast, hannounced, -⟩ := hright.announced _ hlength
  rw [hqueue] at hlast
  have hheader : ascii "$-1" = header := Option.some.inj hlast
  have hneg : announced (ascii "$-1") = some (-1) := by decide +kernel
  rw [← hheader, hneg] at hannounced
  exact absurd (Option.some.inj hannounced) (by omega)

end MessageParser

end BuildYourOwnRedis
