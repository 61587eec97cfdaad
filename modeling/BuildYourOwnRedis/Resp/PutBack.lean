/-
  Resp/PutBack.lean --- an incomplete message is put back, a complete one takes its raw
  messages and no others.

  Reading a value looks at the raw messages that it takes and at nothing behind them.  An
  array reads its elements one behind the other, so the induction is on the nesting, and
  in it on the elements: what the elements take, put together, is what the array takes.
-/
import BuildYourOwnRedis.Resp.ParseHelper

set_option autoImplicit false

namespace BuildYourOwnRedis

open Foundation

/-! ## Values that are read off the front -/

section

variable {α β : Type}

/-- The value is read off a front of the queue, whatever stands behind it; as many turns as
the front is long are fuel enough. -/
def ReadOffFront (read : Nat → List Bytes → Decoded α) (queue : List Bytes) (a : α)
    (rest : List Bytes) : Prop :=
  ∃ front, queue = front ++ rest ∧
    ∀ fuel more, front.length ≤ fuel → read fuel (front ++ more) = .value a more

variable {read : Nat → List Bytes → Decoded α} {queue rest : List Bytes} {a : α}

/-- A value for which nothing is taken. -/
theorem ReadOffFront.nil (h : ∀ fuel more, read fuel more = .value a more) :
    ReadOffFront read rest a rest :=
  ⟨[], rfl, fun fuel more _ => h fuel more⟩

/-- One raw message in front, for one turn. -/
theorem ReadOffFront.cons {behind : Nat → List Bytes → Decoded α} {rawMessage : Bytes}
    (hread : ∀ fuel queue, read (fuel + 1) (rawMessage :: queue) = behind fuel queue)
    (h : ReadOffFront behind queue a rest) : ReadOffFront read (rawMessage :: queue) a rest := by
  obtain ⟨front, rfl, hfront⟩ := h
  refine ⟨rawMessage :: front, rfl, fun fuel more hfuel => ?_⟩
  rw [List.length_cons] at hfuel
  obtain ⟨fuel, rfl⟩ : ∃ k, fuel = k + 1 := ⟨fuel - 1, by omega⟩
  rw [List.cons_append, hread]
  exact hfront fuel more (Nat.le_of_succ_le_succ hfuel)

/-- One value behind another. -/
theorem ReadOffFront.bind {both behind : Nat → List Bytes → Decoded β} {b : β}
    {middle : List Bytes}
    (hboth : ∀ fuel queue more, read fuel queue = .value a more →
      both fuel queue = behind fuel more)
    (hfirst : ReadOffFront read queue a middle) (hsecond : ReadOffFront behind middle b rest) :
    ReadOffFront both queue b rest := by
  obtain ⟨front, rfl, hfront⟩ := hfirst
  obtain ⟨front', rfl, hfront'⟩ := hsecond
  refine ⟨front ++ front', (List.append_assoc front front' rest).symm, ?_⟩
  intro fuel more hfuel
  rw [List.length_append] at hfuel
  rw [List.append_assoc, hboth fuel _ _ (hfront fuel _ (by omega))]
  exact hfront' fuel more (by omega)

end

/-! ## Decoding takes a front -/

theorem decodeBulkString_front {expected : MessageType} {rawMessage : Bytes}
    {queue rest : List Bytes} {m : Message}
    (h : decodeBulkString expected rawMessage queue = .value m rest) :
    ReadOffFront (fun _ => decodeBulkString expected rawMessage) queue m rest := by
  simp only [decodeBulkString] at h
  cases hvalue : parseInt rawMessage.tail with
  | none => simp [hvalue] at h
  | some length =>
      by_cases hnull : length = -1
      · simp only [hvalue, hnull, if_true, Decoded.value.injEq] at h
        obtain ⟨rfl, rfl⟩ := h
        exact .nil fun _ more => by simp [decodeBulkString, hvalue, hnull]
      · cases queue with
        | nil => simp [hvalue, hnull] at h
        | cons payload behind =>
            simp only [hvalue, hnull, if_false, Decoded.value.injEq] at h
            obtain ⟨rfl, rfl⟩ := h
            exact ⟨[payload], rfl, fun _ more _ => by simp [decodeBulkString, hvalue, hnull]⟩

/-- The loop over the elements reads them off the front, if the reading of one element does:
what stands behind the last of them makes no difference. -/
theorem decodeElements_front {element : List Bytes → Decoded Message}
    {read : Nat → List Bytes → Decoded Message}
    (helement : ∀ queue m rest, element queue = .value m rest → ReadOffFront read queue m rest)
    {n : Nat} {messages ms : List Message} {queue rest : List Bytes}
    (h : decodeElements element n messages queue = .value ms rest) :
    ReadOffFront (fun fuel => decodeElements (read fuel) n messages) queue ms rest := by
  induction n generalizing messages queue with
  | zero =>
      obtain ⟨rfl, rfl⟩ := Decoded.value.inj h
      exact .nil fun _ _ => rfl
  | succ n ih =>
      simp only [decodeElements] at h
      cases hd : element queue with
      | incomplete => simp [hd] at h
      | malformed e rest' => simp [hd] at h
      | value m rest' =>
          rw [hd] at h
          refine .bind (fun fuel queue more hfirst => ?_) (helement queue m rest' hd) (ih h)
          simp only [decodeElements, hfirst]

theorem decodeArray_front {element : List Bytes → Decoded Message}
    {read : Nat → List Bytes → Decoded Message}
    (helement : ∀ queue m rest, element queue = .value m rest → ReadOffFront read queue m rest)
    {rawMessage : Bytes} {queue rest : List Bytes} {m : Message}
    (h : decodeArray element rawMessage queue = .value m rest) :
    ReadOffFront (fun fuel => decodeArray (read fuel) rawMessage) queue m rest := by
  simp only [decodeArray] at h
  cases hvalue : parseInt rawMessage.tail with
  | none => simp [hvalue] at h
  | some length =>
      by_cases hnull : length = -1
      · simp only [hvalue, hnull, if_true, Decoded.value.injEq] at h
        obtain ⟨rfl, rfl⟩ := h
        exact .nil fun _ more => by simp [decodeArray, hvalue, hnull]
      · simp only [hvalue, hnull, if_false] at h
        cases hd : decodeElements element length.toNat [] queue with
        | incomplete => simp [hd, Decoded.map] at h
        | malformed e rest' => simp [hd, Decoded.map] at h
        | value ms rest' =>
            simp only [hd, Decoded.map, Decoded.value.injEq] at h
            obtain ⟨rfl, rfl⟩ := h
            obtain ⟨front, rfl, hfront⟩ := decodeElements_front helement hd
            refine ⟨front, rfl, fun fuel more hfuel => ?_⟩
            simp only [decodeArray, hvalue, hnull, if_false, hfront fuel more hfuel, Decoded.map]

/-- What is decoded is read off the front. -/
theorem decode_front {fuel : Nat} {expected : MessageType} {queue rest : List Bytes}
    {m : Message} (h : decode fuel expected queue = .value m rest) :
    ReadOffFront (fun fuel => decode fuel expected) queue m rest := by
  induction fuel generalizing expected queue m rest with
  | zero => cases h
  | succ fuel ih =>
      cases queue with
      | nil => cases h
      | cons rawMessage queue =>
          rcases decode_cons expected rawMessage with ⟨-, m', hread⟩ | ⟨-, e, hread⟩ |
            ⟨-, hread⟩ | ⟨-, hread⟩
          · rw [hread] at h
            obtain ⟨rfl, rfl⟩ := Decoded.value.inj h
            exact .cons hread (.nil fun _ _ => rfl)
          · rw [hread] at h
            cases h
          · rw [hread] at h
            exact .cons hread (decodeBulkString_front h)
          · rw [hread] at h
            exact .cons hread (decodeArray_front (fun queue m rest hm => ih hm) h)

/-- A value takes at least the raw message with its type. -/
theorem exists_front {fuel : Nat} {expected : MessageType} {queue rest : List Bytes}
    {m : Message} (h : decode fuel expected queue = .value m rest) :
    ∃ front, front ≠ [] ∧ queue = front ++ rest ∧
      ∀ fuel more, front.length ≤ fuel → decode fuel expected (front ++ more) = .value m more := by
  obtain ⟨front, hqueue, hfront⟩ := decode_front h
  refine ⟨front, ?_, hqueue, hfront⟩
  rintro rfl
  -- a queue of no raw messages is read with no fuel
  cases hfront 0 [] le_rfl

/-! ## Parsing -/

namespace ParseHelper

/-- **An incomplete parse restores the raw queue.**  When `parse` returns no message the
queue is what it was and nothing is on the stack.  When it returns one, the stack holds
what was taken from the queue, a front that is not empty, and any queue that starts with
this front is parsed as the same message and loses the same front. -/
theorem parse_puts_back (expected : MessageType) (queue : List Bytes) :
    (∀ h, parse expected ⟨queue, []⟩ = (.ok none, h) → h = ⟨queue, []⟩) ∧
    ∀ m h, parse expected ⟨queue, []⟩ = (.ok (some m), h) →
      ∃ front, front ≠ [] ∧ queue = front ++ h.buffer ∧ h.ungetStack = front.reverse ∧
        ∀ more, parse expected ⟨front ++ more, []⟩ = (.ok (some m), ⟨more, front.reverse⟩) := by
  have hparse := parse_eq_decode expected queue
  cases hd : decode queue.length expected queue with
  | incomplete =>
      rw [hd] at hparse
      rw [hparse]
      refine ⟨fun h heq => (Prod.mk.inj heq).2.symm, fun m h heq => ?_⟩
      cases heq
  | malformed e rest =>
      rw [hd] at hparse
      rw [hparse]
      refine ⟨fun h heq => ?_, fun m h heq => ?_⟩ <;> cases heq
  | value m rest =>
      rw [hd] at hparse
      rw [hparse]
      obtain ⟨front, hne, hqueue, hfront⟩ := exists_front hd
      -- what was taken is the part of the queue that is no longer there
      have htake (more : List Bytes) :
          (front ++ more).take ((front ++ more).length - more.length) = front := by
        simp
      refine ⟨fun h heq => ?_, fun m' h heq => ?_⟩
      · cases heq
      · obtain ⟨hm, rfl⟩ := Prod.mk.inj heq
        obtain rfl : m = m' := by simpa using hm
        refine ⟨front, hne, hqueue, ?_, fun more => ?_⟩
        · rw [hqueue, htake]
        · rw [parse_eq_decode, hfront _ more (by simp)]
          simp only [htake]

end ParseHelper

end BuildYourOwnRedis
