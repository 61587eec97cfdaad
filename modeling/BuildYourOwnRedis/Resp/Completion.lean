/-
  Resp/Completion.lean --- a value ends with the raw message that completes it.

  `try_parse` looks at the queue after every raw message that it cuts.  A queue that was
  incomplete before the last raw message is therefore used up by the value, or by the
  malformed line, that the last one brings (`decode_closes`); and a length line that can be
  read is no malformed line.
-/
import BuildYourOwnRedis.Resp.PendingLength

set_option autoImplicit false

namespace BuildYourOwnRedis

open Foundation

/-! ## What reading leaves is the end of the queue -/

/-- A property that no shorter end of a queue loses is kept by reading. -/
theorem decode_leaves_of_tail {P : List Bytes → Prop}
    (htail : ∀ rawMessage queue, P (rawMessage :: queue) → P queue) (fuel : Nat)
    (expected : MessageType) (queue : List Bytes) (h : P queue) :
    (decode fuel expected queue).Leaves P := by
  induction fuel generalizing expected queue with
  | zero => trivial
  | succ fuel ih =>
      cases queue with
      | nil => trivial
      | cons rawMessage queue =>
          have hrest := htail rawMessage queue h
          rcases decode_cons expected rawMessage with ⟨-, m, hread⟩ | ⟨-, e, hread⟩ |
            ⟨-, hread⟩ | ⟨-, hread⟩
          · rw [hread]
            exact hrest
          · rw [hread]
            exact hrest
          · rw [hread]
            simp only [decodeBulkString]
            cases parseInt rawMessage.tail with
            | none => exact hrest
            | some length =>
                by_cases hnull : length = -1
                · simp only [hnull, if_true]
                  exact hrest
                · simp only [hnull, if_false]
                  cases queue with
                  | nil => trivial
                  | cons payload queue => exact htail payload queue hrest
          · rw [hread]
            unfold decodeArray
            split
            · exact hrest
            · split
              · exact hrest
              · exact (decodeElements_leaves (fun queue hqueue => ih .any queue hqueue)
                  _ [] _ hrest).map _

/-- Reading leaves no more than there was. -/
theorem decode_leaves_length {k : Nat} (fuel : Nat) (expected : MessageType)
    (queue : List Bytes) (h : queue.length ≤ k) :
    (decode fuel expected queue).Leaves (·.length ≤ k) := by
  apply decode_leaves_of_tail _ fuel expected queue h
  intro rawMessage queue hlen
  exact Nat.le_of_succ_le hlen

/-! ## The last raw message -/

/-- An outcome that uses the whole queue, `last` being its last raw message. -/
def Decoded.Closes {α : Type} (last : Bytes) : Decoded α → Prop
  | .incomplete => True
  | .value _ rest => rest = []
  | .malformed _ rest => rest = [] ∧ announced last = none

theorem Decoded.Closes.map {α β : Type} {last : Bytes} {d : Decoded α} (h : d.Closes last)
    (f : α → β) : (d.map f).Closes last := by
  cases d <;> exact h

/-- Behind the last raw message there are no elements to read any more, or too few of them: the
array is complete or waits. -/
theorem decodeElements_nil_closes {element : List Bytes → Decoded Message}
    (hnil : element [] = .incomplete) (last : Bytes) (n : Nat) (messages : List Message) :
    (decodeElements element n messages []).Closes last := by
  cases n with
  | zero => exact rfl
  | succ n =>
      rw [decodeElements, hnil]
      trivial

theorem decode_nil (fuel : Nat) (expected : MessageType) :
    decode fuel expected [] = .incomplete := by
  cases fuel <;> rfl

/-- A queue of one raw message, which is what a cut from an empty queue leaves: nothing stands
behind what is read of it. -/
theorem decode_singleton_closes (fuel : Nat) (expected : MessageType) (last : Bytes) :
    (decode fuel expected [last]).Closes last := by
  cases fuel with
  | zero => trivial
  | succ fuel =>
      have hother : last.headD 0 ≠ messageBulkString → announced last = none :=
        fun htype => if_neg htype
      rcases decode_cons expected last with ⟨-, m, hread⟩ | ⟨htype, e, hread⟩ |
        ⟨htype, hread⟩ | ⟨htype, hread⟩
      · rw [hread]
        exact rfl
      · rw [hread]
        exact ⟨rfl, hother htype⟩
      · rw [hread]
        simp only [decodeBulkString]
        cases hvalue : parseInt last.tail with
        | none => exact ⟨rfl, by rw [announced, if_pos htype, hvalue]⟩
        | some length =>
            by_cases hnull : length = -1
            · simp only [hnull, if_true]
              exact rfl
            · simp only [hnull, if_false]
              trivial
      · rw [hread]
        unfold decodeArray
        split
        · exact ⟨rfl, hother (by rw [htype]; decide)⟩
        · split
          · exact rfl
          · exact (decodeElements_nil_closes (decode_nil fuel .any) last _ []).map _

/-- The loop over the elements.  What the elements used so far leave is incomplete too, so
the last raw message belongs to the element that was cut short, or there was none left. -/
theorem decodeElements_closes {k : Nat} {element element' : List Bytes → Decoded Message}
    {last : Bytes} (hnil : element' [] = .incomplete)
    (hleaves : ∀ queue, queue.length ≤ k → (element queue).Leaves (·.length ≤ k))
    (hcloses : ∀ queue, queue.length ≤ k → element queue = .incomplete →
      (element' (queue ++ [last])).Closes last)
    (happend : ∀ queue, element queue ≠ .incomplete →
      element' (queue ++ [last]) = (element queue).extend [last])
    (n : Nat) (messages : List Message) (queue : List Bytes) (hlen : queue.length ≤ k)
    (h : decodeElements element n messages queue = .incomplete) :
    (decodeElements element' n messages (queue ++ [last])).Closes last := by
  induction n generalizing messages queue with
  | zero => cases h
  | succ n ih =>
      have hleft := hleaves queue hlen
      rw [decodeElements] at h ⊢
      cases hd : element queue with
      | incomplete =>
          have hclosed := hcloses queue hlen hd
          cases hd' : element' (queue ++ [last]) with
          | incomplete => trivial
          | malformed e rest =>
              rw [hd'] at hclosed
              exact hclosed
          | value m rest =>
              rw [hd'] at hclosed
              obtain rfl : rest = [] := hclosed
              exact decodeElements_nil_closes hnil last n _
      | malformed e rest =>
          rw [hd] at h
          cases h
      | value m rest =>
          rw [hd] at h hleft
          rw [happend queue (by simp [hd]), hd]
          exact ih _ rest hleft h

/-- **Completion.**  When the queue was incomplete, one more raw message is the last one of
whatever can be read then; and it is malformed only if it announces no length. -/
theorem decode_closes {fuel fuel' : Nat} (hfuel : fuel ≤ fuel') (expected : MessageType)
    (queue : List Bytes) (last : Bytes) (hlen : queue.length ≤ fuel)
    (h : decode fuel expected queue = .incomplete) :
    (decode fuel' expected (queue ++ [last])).Closes last := by
  induction fuel generalizing fuel' expected queue with
  | zero =>
      obtain rfl := List.length_eq_zero_iff.mp (Nat.le_zero.mp hlen)
      exact decode_singleton_closes fuel' expected last
  | succ fuel ih =>
      obtain ⟨fuel', rfl⟩ : ∃ k, fuel' = k + 1 := ⟨fuel' - 1, by omega⟩
      cases queue with
      | nil => exact decode_singleton_closes (fuel' + 1) expected last
      | cons rawMessage rest =>
          have hrest : rest.length ≤ fuel := by simpa using hlen
          rw [List.cons_append]
          rcases decode_cons expected rawMessage with ⟨-, m, hread⟩ | ⟨-, e, hread⟩ |
            ⟨-, hread⟩ | ⟨-, hread⟩
          · rw [hread] at h
            cases h
          · rw [hread] at h
            cases h
          · rw [hread] at h ⊢
            simp only [decodeBulkString] at h ⊢
            cases hvalue : parseInt rawMessage.tail with
            | none => simp [hvalue] at h
            | some length =>
                by_cases hnull : length = -1
                · simp [hvalue, hnull] at h
                · cases rest with
                  | nil =>
                      simp only [hnull, if_false, List.nil_append]
                      exact rfl
                  | cons payload rest => simp [hvalue, hnull] at h
          · rw [hread] at h ⊢
            simp only [decodeArray] at h ⊢
            cases hvalue : parseInt rawMessage.tail with
            | none => simp [hvalue] at h
            | some length =>
                by_cases hnull : length = -1
                · simp [hvalue, hnull] at h
                · simp only [hvalue, hnull, if_false] at h ⊢
                  have hshort :
                      decodeElements (decode fuel .any) length.toNat [] rest = .incomplete := by
                    cases hd : decodeElements (decode fuel .any) length.toNat [] rest with
                    | incomplete => rfl
                    | value ms rest' => simp [hd, Decoded.map] at h
                    | malformed e rest' => simp [hd, Decoded.map] at h
                  refine (decodeElements_closes (decode_nil fuel' .any)
                    (fun queue hqueue => decode_leaves_length fuel .any queue hqueue)
                    (fun queue hqueue hinc => ih (by omega) .any queue hqueue hinc)
                    (fun queue hq => decode_append (by omega) .any queue [last] hq)
                    _ [] rest hrest hshort).map _

/-! ## A cut -/

namespace MessageParser

/-- What a cut adds to the queue; it leaves no payload to wait for, unless it was the line
that announces it. -/
theorem queued_of_cut {expected : MessageType} {p p' : MessageParser}
    (h : p.getNextRawMessage expected = (.ok true, p')) :
    ∃ rawMessage, p'.rawMessageBuffer = p.rawMessageBuffer ++ [rawMessage] ∧
      (announced rawMessage = none → p'.lengthEncodedMessageExpected = none) := by
  have hlt := weight_getNextRawMessage h
  have hne : p' ≠ p := by
    rintro rfl
    exact absurd hlt (Nat.lt_irrefl _)
  simp only [getNextRawMessage] at h
  cases hpending : p.lengthEncodedMessageExpected with
  | some length =>
      rw [hpending] at h
      rcases getPayload_cases h with heq | ⟨payload, hqueue, hnone⟩
      · exact absurd heq hne
      · exact ⟨payload, hqueue, fun _ => hnone⟩
  | none =>
      rw [hpending] at h
      rcases getLine_cases hpending h with ⟨heq, -⟩ | ⟨line, rest, -, rfl⟩
      · exact absurd heq hne
      · refine ⟨line, rfl, fun hnone => ?_⟩
        simp only [hnone, Option.map_none]

/-- No value and no malformed line stands in the queue: whatever can be read next needs one
more raw message.  `try_parse` leaves the queue so between two cuts. -/
def Open (p : MessageParser) : Prop :=
  decode p.rawMessageBuffer.length .any p.rawMessageBuffer = .incomplete

theorem open_of_queue_eq_nil {p : MessageParser} (h : p.rawMessageBuffer = []) : p.Open := by
  rw [Open, h]
  exact decode_nil 0 .any

/-- A cut from an open queue is the last raw message of what is read then. -/
theorem Open.cut {p p' : MessageParser} (h : p.Open)
    (hcut : p.getNextRawMessage .any = (.ok true, p')) :
    ∃ last, (decode p'.rawMessageBuffer.length .any p'.rawMessageBuffer).Closes last ∧
      (announced last = none → p'.lengthEncodedMessageExpected = none) := by
  obtain ⟨rawMessage, hqueue, hsilent⟩ := queued_of_cut hcut
  have hlen : p.rawMessageBuffer.length ≤ p'.rawMessageBuffer.length := by simp [hqueue]
  have hclosed := decode_closes hlen .any p.rawMessageBuffer rawMessage (Nat.le_refl _) h
  rw [← hqueue] at hclosed
  exact ⟨rawMessage, hclosed, hsilent⟩

end MessageParser

end BuildYourOwnRedis
