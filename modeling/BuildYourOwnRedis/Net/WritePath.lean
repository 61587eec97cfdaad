/-
  Net/WritePath.lean --- what the kernel has taken of the write buffer.

  `Handler::write` hands the buffer over in blocks and trims it once, behind the loop.  An
  exception in the loop leaves the buffer as it was, whatever the blocks before it have
  transferred.  So a call of `write` or `send` keeps the bytes in order exactly if no
  `::write` fails behind one that transferred something (`inOrder_iff`).
-/
import BuildYourOwnRedis.Foundation.Transition
import BuildYourOwnRedis.Net.Handler

set_option autoImplicit false

namespace BuildYourOwnRedis

open Foundation

/-! ## One flush -/

namespace Handler

variable {T : Type}

/-- What the kernel takes in the loop of `Handler::write`, with so many bytes of the buffer
transferred before. -/
def takenLoop : List Written → Bytes → Nat → Bytes
  | [], _, _ => []
  | result :: results, buffer, total =>
      if buffer.length ≤ total then []
      else
        match result with
        | .transferred n =>
            let size := min n (min writeBufferSize (buffer.length - total))
            (buffer.drop total).take size ++ takenLoop results buffer (total + size)
        | .again => []
        | .reset => []
        | .failed => []

/-- What the kernel takes in one `Handler::write`. -/
def taken (results : List Written) (h : Handler T) : Bytes :=
  match h.fd with
  | none => []
  | some _ => takenLoop results h.writeBuffer 0

/-- A `::write` of the loop fails behind one that transferred something. -/
def failsMidway : List Written → Nat → Nat → Bool
  | [], _, _ => false
  | result :: results, size, total =>
      if size ≤ total then false
      else
        match result with
        | .transferred n =>
            failsMidway results size (total + min n (min writeBufferSize (size - total)))
        | .again => false
        | .reset => 0 < total
        | .failed => 0 < total

/-- When the loop ends without an exception, what was taken is what was counted. -/
theorem takenLoop_of_ok {results : List Written} {buffer : Bytes} {total k : Nat}
    (h : writeLoop results buffer.length total = .ok k) :
    buffer.take total ++ takenLoop results buffer total = buffer.take k ∧
      failsMidway results buffer.length total = false := by
  induction results generalizing total with
  | nil =>
      obtain rfl := Except.ok.inj h
      exact ⟨List.append_nil _, rfl⟩
  | cons result results ih =>
      unfold writeLoop at h
      unfold takenLoop failsMidway
      by_cases hdone : buffer.length ≤ total
      · rw [if_pos hdone] at h ⊢
        obtain rfl := Except.ok.inj h
        exact ⟨List.append_nil _, if_pos hdone⟩
      · rw [if_neg hdone] at h ⊢
        rw [if_neg hdone]
        cases result with
        | transferred n =>
            obtain ⟨htaken, hfine⟩ := ih h
            refine ⟨?_, hfine⟩
            rw [← htaken, List.take_add, List.append_assoc]
        | again =>
            obtain rfl := Except.ok.inj h
            exact ⟨List.append_nil _, rfl⟩
        | reset => cases h
        | failed => cases h

/-- When it ends with an exception, something was taken exactly if it failed midway. -/
theorem takenLoop_of_error {results : List Written} {buffer : Bytes} {total : Nat}
    {thrown : Thrown} (h : writeLoop results buffer.length total = .error thrown) :
    failsMidway results buffer.length total = true ↔
      0 < total + (takenLoop results buffer total).length := by
  induction results generalizing total with
  | nil => cases h
  | cons result results ih =>
      unfold writeLoop at h
      unfold takenLoop failsMidway
      by_cases hdone : buffer.length ≤ total
      · rw [if_pos hdone] at h
        cases h
      · rw [if_neg hdone] at h
        rw [if_neg hdone, if_neg hdone]
        cases result with
        | transferred n =>
            have hlen : ((buffer.drop total).take
                (min n (min writeBufferSize (buffer.length - total)))).length =
                  min n (min writeBufferSize (buffer.length - total)) := by
              rw [List.length_take, List.length_drop]
              omega
            simp only [List.length_append, hlen, ← Nat.add_assoc]
            exact ih h
        | again => cases h
        | reset => simp
        | failed => simp

/-- **One flush.**  What the kernel takes and what stays in the buffer are what was there,
exactly if no `::write` failed behind one that transferred something. -/
theorem taken_append_iff {fd : Nat} {h : Handler T} (hfd : h.fd = some fd)
    (results : List Written) :
    h.taken results ++ (h.writeOut results).1.writeBuffer = h.writeBuffer ↔
      failsMidway results h.writeBuffer.length 0 = false := by
  by_cases hempty : h.writeBuffer.length = 0
  · have hnone : failsMidway results h.writeBuffer.length 0 = false := by
      rw [hempty]
      cases results <;> rfl
    have htaken : takenLoop results h.writeBuffer 0 = [] := by
      cases results with
      | nil => rfl
      | cons result results =>
          unfold takenLoop
          rw [if_pos (Nat.le_of_eq hempty)]
    simp only [writeOut, if_pos hempty, taken, hfd, htaken, hnone, List.nil_append]
  · simp only [writeOut, if_neg hempty, taken, hfd]
    cases hloop : writeLoop results h.writeBuffer.length 0 with
    | ok k =>
        obtain ⟨htaken, hfine⟩ := takenLoop_of_ok hloop
        rw [List.take_zero, List.nil_append] at htaken
        simp only [htaken, hfine, List.take_append_drop]
    | error thrown =>
        have hmidway := takenLoop_of_error hloop
        rw [Nat.zero_add] at hmidway
        constructor
        · intro heq
          have hnil := congrArg List.length heq
          simp only [List.length_append] at hnil
          by_contra hbad
          have hpos := hmidway.mp (by simpa using hbad)
          omega
        · intro hfine
          have hnil : takenLoop results h.writeBuffer 0 = [] := by
            apply List.eq_nil_of_length_eq_zero
            by_contra hpos
            rw [hmidway.mpr (Nat.pos_of_ne_zero hpos)] at hfine
            cases hfine
          rw [hnil, List.nil_append]

end Handler

/-! ## A connection -/

/-- A handler, what the kernel has taken of it, and the encodings of what it was given to
send. -/
structure Sending (T : Type) where
  handler : Handler T
  taken : Bytes
  sent : Bytes

namespace Sending

variable {T : Type}

/-- The calls on the write side, with what `::write` answers: a message is sent, or the socket
is ready for writing. -/
inductive Call where
  | send (m : Message) (results : List Written)
  | write (results : List Written)
  deriving DecidableEq

/-- The handler whose buffer is flushed. -/
def before (s : Sending T) : Call → Handler T
  | .send m _ => s.handler.append m
  | .write _ => s.handler

/-- What `::write` answers. -/
def Call.results : Call → List Written
  | .send _ results => results
  | .write results => results

/-- What the call adds to what is to be sent. -/
def Call.encoding : Call → Bytes
  | .send m _ => m.toString
  | .write _ => []

/-- `Handler::send` and `Handler::write`; they may return or throw. -/
def step (s : Sending T) (c : Call) : Option (Sending T) :=
  some {
    handler := ((s.before c).writeOut c.results).1
    taken := s.taken ++ (s.before c).taken c.results
    sent := s.sent ++ c.encoding }

/-- A new handler. -/
def machine (managed : Bool) (fd : Nat) (talker : Talker T) : Machine (Sending T) Call where
  init := ⟨.make managed fd talker, [], []⟩
  step := step

/-- Nothing is lost, repeated or reordered: what the kernel has taken and what is in the buffer
make up all messages that were sent. -/
def InOrder (s : Sending T) : Prop := s.taken ++ s.handler.writeBuffer = s.sent

/-- No `::write` of the call fails behind one that transferred something.  Whether it does is
told by the length of the buffer before the call and the answers of the kernel. -/
def Careful (s : Sending T) (c : Call) : Prop :=
  Handler.failsMidway c.results (s.before c).writeBuffer.length 0 = false

instance (s : Sending T) (c : Call) : Decidable (s.Careful c) :=
  inferInstanceAs (Decidable (_ = _))

theorem writeBuffer_before (s : Sending T) (c : Call) :
    (s.before c).writeBuffer = s.handler.writeBuffer ++ c.encoding := by
  cases c with
  | send m results => rfl
  | write results => exact (List.append_nil _).symm

theorem fd_before (s : Sending T) (c : Call) : (s.before c).fd = s.handler.fd := by
  cases c <;> rfl

/-- **One call** keeps the bytes in order exactly if no `::write` of it fails behind one that
transferred something. -/
theorem inOrder_step {s s' : Sending T} {c : Call} {fd : Nat} (hfd : s.handler.fd = some fd)
    (h : s.InOrder) (htaken : s.step c = some s') : s'.InOrder ↔ s.Careful c := by
  obtain rfl := Option.some.inj htaken
  have hopen : (s.before c).fd = some fd := by rw [fd_before, hfd]
  have hsent : s.sent ++ c.encoding = s.taken ++ (s.before c).writeBuffer := by
    rw [writeBuffer_before, ← List.append_assoc, h]
  rw [Careful, ← Handler.taken_append_iff hopen]
  simp only [InOrder, hsent, List.append_assoc, List.append_cancel_left_eq]

/-- A call leaves the connection open; closing it is up to who catches what the call throws. -/
theorem fd_step {s s' : Sending T} {c : Call} (htaken : s.step c = some s') :
    s'.handler.fd = s.handler.fd := by
  obtain rfl := Option.some.inj htaken
  have hlink := Handler.link_writeOut c.results (s.before c)
  rw [← fd_before s c]
  exact congrArg Prod.snd hlink

/-- **The write path.**  As long as no `::write` has failed behind one of the same flush that
transferred something, the bytes are in order after every call, and a call keeps them in
order exactly if none fails so in it. -/
theorem inOrder_iff {managed : Bool} {fd : Nat} {talker : Talker T} {s : Sending T}
    (h : (machine managed fd talker).Reachable Careful s) :
    s.InOrder ∧ ∀ c s', s.step c = some s' → (s'.InOrder ↔ s.Careful c) := by
  have hinv : s.handler.fd = some fd ∧ s.InOrder := by
    refine h.invariant (I := fun s => s.handler.fd = some fd ∧ s.InOrder) ⟨rfl, rfl⟩ ?_
    intro s c s' _ hs hcareful htaken
    refine ⟨?_, (inOrder_step hs.1 hs.2 htaken).mpr hcareful⟩
    rw [fd_step htaken, hs.1]
  exact ⟨hinv.2, fun c s' htaken => inOrder_step hinv.1 hinv.2 htaken⟩

/-- A talker of no class. -/
def silent : Talker Unit := ⟨(), []⟩

/-- A partial count, an error and a retry, each in a flush of its own. -/
def retried : List Call :=
  [.send (.simpleString (ascii "PONG")) [.transferred 2, .again],
    .send (.integer 1) [.failed], .write [.transferred 100]]

theorem inOrder_iff_retried :
    let run := (machine true 3 silent).run Careful (machine true 3 silent).init retried
    ∃ h : run.isSome, (run.get h).InOrder ∧ ∀ c s', (run.get h).step c = some s' →
      (s'.InOrder ↔ (run.get h).Careful c) :=
  ⟨by decide +kernel, inOrder_iff (Machine.reachable_of_run (by decide +kernel))⟩

/-- Two bytes are transferred and the next `::write` fails.  Nothing is taken off the buffer,
so the two bytes are sent again when the socket is ready. -/
theorem not_inOrder :
    ¬ ∀ s : Sending Unit, (machine true 3 silent).Reachable Anything s → s.InOrder := by
  intro h
  have hrun : ((machine true 3 silent).run Anything (machine true 3 silent).init
      [.send (.simpleString (ascii "PONG")) [.transferred 2, .failed]]).map
        (fun s => (s.taken ++ s.handler.writeBuffer, s.sent)) =
      some (ascii "+P+PONG\r\n", ascii "+PONG\r\n") := by
    decide +kernel
  obtain ⟨s, hreached, hs⟩ := Option.map_eq_some_iff.mp hrun
  obtain ⟨hbytes, hsent⟩ := Prod.mk.inj hs
  have horder := h s (Machine.Reachable.run .init hreached)
  rw [InOrder, hbytes, hsent] at horder
  exact absurd horder (by decide +kernel)

end Sending

end BuildYourOwnRedis
