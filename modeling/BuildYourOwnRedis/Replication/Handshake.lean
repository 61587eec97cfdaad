/-
  Replication/Handshake.lean --- what a replica says, whatever its master says.

  A `ReplicaTalker` is given any messages in any order.  Recorded are the messages that it
  has said, the dumps that it has loaded completely, the messages that reached
  `Command::try_parse`, and those of them that were accepted and handled to the end.  An
  exception out of `listen` leaves the talker as it was, apart from what a dump has restored
  before it turned out to be broken.
-/
import BuildYourOwnRedis.Foundation.Transition
import BuildYourOwnRedis.Replication.ReplicaTalker
import BuildYourOwnRedis.Server.Base64
import BuildYourOwnRedis.Server.ServerInfo

set_option autoImplicit false

namespace BuildYourOwnRedis

open Foundation

/-- The number of a state in the source. -/
def ReplicaTalkerState.number : ReplicaTalkerState → Nat
  | init => 0
  | undefined => 1
  | waitFirstPong => 2
  | waitOkForReplConfPort => 3
  | waitOkForReplConfCapa => 4
  | waitForPsyncAnswer => 5
  | waitForRdbFileSync => 6
  | waitServerCommands => 7

/-- What a replica says before the commands come. -/
def handshake (tcpPort : Int) : List Message :=
  [Command.ping.construct, (replConfPort tcpPort).construct, replConfCapa.construct,
    psync.construct]

/-- The encoded size of some messages. -/
def totalSize (messages : List Message) : Nat := (messages.map Message.size).sum

/-! ## One call of `listen` -/

namespace ReplicaTalker

/-- What `listen` gives to `Command::try_parse`, which is called by `process` only. -/
def tried (message : Message) (t : ReplicaTalker) : List Message :=
  if t.state = .waitServerCommands then [message] else []

/-- The message, when `try_parse` accepts it and it is handled without an exception. -/
def accepted (clock : Nat → Timepoint) (message : Message) (t : ReplicaTalker) :
    List Message :=
  match t.state, Command.tryParse message, t.listen clock message with
  | .waitServerCommands, .ok _, some _ => [message]
  | _, _, _ => []

/-- The dump, when `listen` loads it completely. -/
def loads (clock : Nat → Timepoint) (message : Message) (t : ReplicaTalker) : List Bytes :=
  match t.state, message with
  | .waitForRdbFileSync, .syncResponse dump =>
      match (rdbParse clock dump).2 with
      | .ok () => [dump]
      | .error _ => []
  | _, _ => []

theorem execute_spec {now : Timepoint} {command : Command} {t t' : ReplicaTalker}
    (h : t.execute now command = some t') :
    t'.tcpPort = t.tcpPort ∧ t'.state = t.state ∧ t'.bytesIn = t.bytesIn ∧
      (t'.pending = t.pending ∨
        t'.pending = t.pending ++ [(replConfAck t.bytesIn).construct]) := by
  unfold execute at h
  split at h
  · obtain rfl := Option.some.inj h
    exact ⟨rfl, rfl, rfl, Or.inl rfl⟩
  · cases h
  · split at h
    · split at h
      · cases h
      · split at h
        · obtain rfl := Option.some.inj h
          exact ⟨rfl, rfl, rfl, Or.inr rfl⟩
        · obtain rfl := Option.some.inj h
          exact ⟨rfl, rfl, rfl, Or.inl rfl⟩
    · obtain rfl := Option.some.inj h
      exact ⟨rfl, rfl, rfl, Or.inl rfl⟩
  · obtain rfl := Option.some.inj h
    exact ⟨rfl, rfl, rfl, Or.inl rfl⟩

/-- Loading a dump changes the storage, and the state when it succeeds.  A dump that cannot be
loaded may have changed the storage too, by the entries in front of the error. -/
theorem load_spec (clock : Nat → Timepoint) (dump : Bytes) (t : ReplicaTalker) :
    ∃ storage, (∃ e, (rdbParse clock dump).2 = .error e ∧
        t.load clock dump = { t with storage := storage }) ∨
      (rdbParse clock dump).2 = .ok () ∧
        t.load clock dump = { t with storage := storage, state := .waitServerCommands } := by
  unfold load
  rcases rdbParse clock dump with ⟨restored, e | ⟨⟩⟩
  · exact ⟨_, Or.inl ⟨e, rfl, rfl⟩⟩
  · exact ⟨_, Or.inr ⟨rfl, rfl⟩⟩

end ReplicaTalker

/-! ## The conversation -/

/-- A talker, and what is recorded about it: what it has said, the dumps that it has loaded,
and the messages that it took for commands or handled. -/
structure Conversation where
  talker : ReplicaTalker
  said : List Message := []
  loaded : List Bytes := []
  parsed : List Message := []
  handled : List Message := []

namespace Conversation

/-- The master's next message, or the handler asks what to say.  The messages are arbitrary:
nothing is supposed of the master. -/
inductive Action where
  | listen (clock : Nat → Timepoint) (message : Message)
  | say

/-- All messages that were ever queued. -/
def queued (s : Conversation) : List Message := s.said ++ s.talker.pending

/-- `ReplicaTalker::listen`; with no result it has been left by an exception. -/
def listen (clock : Nat → Timepoint) (message : Message) (s : Conversation) : Conversation :=
  { s with
    talker := (s.talker.listen clock message).getD s.talker
    loaded := s.loaded ++ s.talker.loads clock message
    parsed := s.parsed ++ s.talker.tried message
    handled := s.handled ++ s.talker.accepted clock message }

/-- One step. -/
def step (s : Conversation) : Action → Option Conversation
  | .listen clock message => some (s.listen clock message)
  | .say => s.talker.say.map fun spoken =>
      { s with talker := spoken.2, said := s.said ++ [spoken.1] }

/-- A new talker. -/
def machine (tcpPort : Int) (storage : Storage Unit) : Machine Conversation Action where
  init := { talker := { tcpPort := tcpPort, storage := storage } }
  step := step

/-- The acknowledgement of the first `n` messages that were handled. -/
def ackAt (n : Nat) (s : Conversation) : Message :=
  (replConfAck (UInt64.ofNat (totalSize (s.handled.take n)))).construct

/-- Queue, state, counter and store agree.  `marks` says for each acknowledgement how many
messages had been handled when it was queued. -/
structure Inv (tcpPort : Int) (s : Conversation) : Prop where
  port : s.talker.tcpPort = tcpPort
  started : 2 ≤ s.talker.state.number
  early : s.talker.state ≠ .waitServerCommands → s.loaded = [] ∧ s.parsed = [] ∧
    s.handled = [] ∧ s.talker.applied = []
  late : s.talker.state = .waitServerCommands → s.loaded ≠ []
  bytesIn : s.talker.bytesIn = UInt64.ofNat (totalSize s.handled)
  queued : ∃ marks : List Nat,
    s.queued = (handshake tcpPort).take (s.talker.state.number - 1) ++ marks.map (s.ackAt ·) ∧
      (s.talker.state ≠ .waitServerCommands → marks = []) ∧ marks.Pairwise (· ≤ ·) ∧
      ∀ n ∈ marks, n ≤ s.handled.length

variable {tcpPort : Int} {s s' : Conversation}

theorem inv_init (tcpPort : Int) (storage : Storage Unit) :
    (machine tcpPort storage).init.Inv tcpPort where
  port := rfl
  started := Nat.le_refl _
  early := fun _ => ⟨rfl, rfl, rfl, rfl⟩
  late := by simp [machine]
  bytesIn := rfl
  queued := ⟨[], rfl, fun _ => rfl, .nil, by simp⟩

/-- What is said was queued before. -/
theorem Inv.say (h : s.Inv tcpPort) {m : Message} {talker : ReplicaTalker}
    (hsay : s.talker.say = some (m, talker)) :
    ({ s with talker := talker, said := s.said ++ [m] } : Conversation).Inv tcpPort := by
  obtain ⟨pending, hpending, rfl⟩ := ReplicaTalker.say_cases hsay
  have hqueued : ({ s with
      talker := { s.talker with pending := pending }, said := s.said ++ [m] } :
        Conversation).queued = s.queued := by
    simp [Conversation.queued, hpending]
  obtain ⟨marks, hmarks⟩ := h.queued
  refine ⟨h.port, h.started, h.early, h.late, h.bytesIn, marks, ?_⟩
  rw [hqueued]
  exact hmarks

/-- A message of the handshake is queued, or nothing is: the state and the queue go on
together. -/
theorem Inv.ask (h : s.Inv tcpPort) (state : ReplicaTalkerState) (asked : List Message)
    (hearly : s.talker.state ≠ .waitServerCommands) (hstate : state ≠ .waitServerCommands)
    (hstarted : 2 ≤ state.number)
    (hasked : (handshake tcpPort).take (state.number - 1) =
      (handshake tcpPort).take (s.talker.state.number - 1) ++ asked) :
    ({ s with talker := { s.talker with
      state := state, pending := s.talker.pending ++ asked } } : Conversation).Inv tcpPort := by
  obtain ⟨marks, hqueued, hnone, -, -⟩ := h.queued
  obtain rfl := hnone hearly
  refine ⟨h.port, hstarted, fun _ => h.early hearly, fun hlate => absurd hlate hstate,
    h.bytesIn, [], ?_, fun _ => rfl, .nil, by simp⟩
  rw [List.map_nil, List.append_nil] at hqueued ⊢
  rw [hasked, ← hqueued]
  simp [Conversation.queued]

/-- Before the dump nothing is recorded but what is said. -/
theorem listen_early {clock : Nat → Timepoint} {message : Message}
    (hsync : s.talker.state ≠ .waitForRdbFileSync)
    (hcommands : s.talker.state ≠ .waitServerCommands) :
    s.listen clock message =
      { s with talker := (s.talker.listen clock message).getD s.talker } := by
  have hloads : s.talker.loads clock message = [] := by
    unfold ReplicaTalker.loads
    split
    · next hstate => exact absurd hstate hsync
    · rfl
  have htried : s.talker.tried message = [] := if_neg hcommands
  have haccepted : s.talker.accepted clock message = [] := by
    unfold ReplicaTalker.accepted
    split
    · next hstate _ _ => exact absurd hstate hcommands
    · rfl
  simp only [listen, hloads, htried, haccepted, List.append_nil]

/-- The states in which the talker waits for an answer. -/
theorem Inv.listen_answer (h : s.Inv tcpPort) (clock : Nat → Timepoint) (message : Message)
    (hsync : s.talker.state ≠ .waitForRdbFileSync)
    (hcommands : s.talker.state ≠ .waitServerCommands) :
    (s.listen clock message).Inv tcpPort := by
  rw [listen_early hsync hcommands]
  cases hstate : s.talker.state with
  | init => exact absurd h.started (by simp [hstate, ReplicaTalkerState.number])
  | undefined => exact absurd h.started (by simp [hstate, ReplicaTalkerState.number])
  | waitFirstPong =>
      simp only [ReplicaTalker.listen, hstate]
      split
      · refine h.ask .waitOkForReplConfPort
          [(replConfPort s.talker.tcpPort).construct] hcommands (by decide)
          (by decide) ?_
        rw [hstate, h.port]
        rfl
      · exact h
  | waitOkForReplConfPort =>
      simp only [ReplicaTalker.listen, hstate]
      split
      · refine h.ask .waitOkForReplConfCapa [replConfCapa.construct]
          hcommands (by decide) (by decide) ?_
        rw [hstate]
        rfl
      · exact h
  | waitOkForReplConfCapa =>
      simp only [ReplicaTalker.listen, hstate]
      split
      · refine h.ask .waitForPsyncAnswer [psync.construct]
          hcommands (by decide) (by decide) ?_
        rw [hstate]
        rfl
      · exact h
  | waitForPsyncAnswer =>
      simp only [ReplicaTalker.listen, hstate]
      split
      · have hnext := h.ask .waitForRdbFileSync [] hcommands (by decide)
          (by decide) (by rw [hstate]; rfl)
        simpa using hnext
      · exact h
  | waitForRdbFileSync => exact absurd hstate hsync
  | waitServerCommands => exact absurd hstate hcommands

/-- The state in which it waits for the dump. -/
theorem Inv.listen_sync (h : s.Inv tcpPort) (clock : Nat → Timepoint) (message : Message)
    (hstate : s.talker.state = .waitForRdbFileSync) :
    (s.listen clock message).Inv tcpPort := by
  have hcommands : s.talker.state ≠ .waitServerCommands := by rw [hstate]; decide
  have htried : s.talker.tried message = [] := if_neg hcommands
  have haccepted : s.talker.accepted clock message = [] := by
    unfold ReplicaTalker.accepted
    split
    · next hlate _ _ => exact absurd hlate hcommands
    · rfl
  obtain ⟨marks, hqueued, hnone, -, -⟩ := h.queued
  obtain rfl := hnone hcommands
  obtain ⟨hloaded, hparsed, hhandled, happlied⟩ := h.early hcommands
  by_cases hdump : ∃ dump, message = .syncResponse dump
  · obtain ⟨dump, rfl⟩ := hdump
    have hlisten : s.talker.listen clock (.syncResponse dump) =
        some (s.talker.load clock dump) := by
      simp only [ReplicaTalker.listen, hstate]
    obtain ⟨storage, ⟨e, hbroken, hload⟩ | ⟨hwhole, hload⟩⟩ :=
      ReplicaTalker.load_spec clock dump s.talker
    · have hloads : s.talker.loads clock (.syncResponse dump) = [] := by
        simp only [ReplicaTalker.loads, hstate, hbroken]
      simp only [listen, hlisten, hload, hloads, htried, haccepted, Option.getD_some,
        List.append_nil]
      exact ⟨h.port, h.started, h.early, h.late, h.bytesIn, [], hqueued, fun _ => rfl, .nil,
        by simp⟩
    · have hloads : s.talker.loads clock (.syncResponse dump) = [dump] := by
        simp only [ReplicaTalker.loads, hstate, hwhole]
      simp only [listen, hlisten, hload, hloads, htried, haccepted, Option.getD_some,
        List.append_nil]
      have hstarted : 2 ≤ ReplicaTalkerState.waitServerCommands.number := by decide
      refine ⟨h.port, hstarted, fun hearly => absurd rfl hearly, by simp, h.bytesIn, [], ?_,
        fun _ => rfl, .nil, by simp⟩
      rw [hstate] at hqueued
      exact hqueued
  · have hsame : s.talker.listen clock message = some s.talker := by
      unfold ReplicaTalker.listen
      rw [hstate]
      cases message with
      | syncResponse dump => exact absurd ⟨dump, rfl⟩ hdump
      | _ => rfl
    have hloads : s.talker.loads clock message = [] := by
      unfold ReplicaTalker.loads
      split
      · next dump _ => exact absurd ⟨dump, rfl⟩ hdump
      · rfl
    simp only [listen, hsame, hloads, htried, haccepted, Option.getD_some, List.append_nil]
    exact h

theorem totalSize_concat (messages : List Message) (message : Message) :
    totalSize (messages ++ [message]) = totalSize messages + message.size := by
  simp [totalSize]

/-- The messages that were handled first stay what they are. -/
theorem ackAt_of_le {n : Nat} {more : List Message}
    (hhandled : s'.handled = s.handled ++ more) (hn : n ≤ s.handled.length) :
    s'.ackAt n = s.ackAt n := by
  rw [ackAt, ackAt, hhandled, List.take_append_of_le_length hn]

/-- The last acknowledgement carries the counter. -/
theorem Inv.ackAt_length (h : s.Inv tcpPort) :
    s.ackAt s.handled.length = (replConfAck s.talker.bytesIn).construct := by
  rw [ackAt, List.take_length, h.bytesIn]

/-- A command is handled: the counter grows by its size, and an acknowledgement that was
queued on the way carries the counter before it. -/
theorem Inv.command (h : s.Inv tcpPort) (hstate : s.talker.state = .waitServerCommands)
    {now : Timepoint} {command : Command} {talker : ReplicaTalker} (message : Message)
    (hexecute : s.talker.execute now command = some talker) (parsed processed : List Message) :
    ({ s with
      talker := { talker with
        bytesIn := talker.bytesIn + UInt64.ofNat message.size, processed := processed }
      parsed := parsed
      handled := s.handled ++ [message] } : Conversation).Inv tcpPort := by
  obtain ⟨hport, hsame, hbytes, hpending⟩ := ReplicaTalker.execute_spec hexecute
  obtain ⟨marks, hqueued, -, hsorted, hbound⟩ := h.queued
  have hlate : talker.state = .waitServerCommands := hsame.trans hstate
  have hacks : ∀ n ∈ marks, ∀ s' : Conversation, s'.handled = s.handled ++ [message] →
      s'.ackAt n = s.ackAt n := fun n hn s' hhandled => ackAt_of_le hhandled (hbound n hn)
  refine ⟨hport.trans h.port, ?_, fun hearly => absurd hlate hearly, fun _ => h.late hstate,
    ?_, ?_⟩
  · simp only [hlate]
    decide
  · simp only [hbytes, h.bytesIn, totalSize_concat]
    rw [UInt64.ofNat_add]
  · rcases hpending with hpending | hpending
    · refine ⟨marks, ?_, fun hearly => absurd hlate hearly, hsorted, fun n hn => ?_⟩
      · rw [List.map_congr_left fun n hn => hacks n hn _ rfl]
        simp only [Conversation.queued, hpending, hsame]
        exact hqueued
      · have hle := hbound n hn
        simp only [List.length_append, List.length_singleton]
        omega
    · refine ⟨marks ++ [s.handled.length], ?_, fun hearly => absurd hlate hearly, ?_, ?_⟩
      · have hlast : ∀ s' : Conversation, s'.handled = s.handled ++ [message] →
            s'.ackAt s.handled.length = s.ackAt s.handled.length :=
          fun s' hhandled => ackAt_of_le hhandled (Nat.le_refl _)
        rw [List.map_append, List.map_congr_left fun n hn => hacks n hn _ rfl]
        rw [List.map_cons, List.map_nil, hlast _ rfl, h.ackAt_length]
        simp only [Conversation.queued, hpending, hsame]
        rw [← List.append_assoc, ← List.append_assoc]
        exact congrArg (· ++ _) hqueued
      · rw [List.pairwise_append]
        refine ⟨hsorted, List.pairwise_singleton _ _, fun n hn m hm => ?_⟩
        obtain rfl := List.mem_singleton.mp hm
        exact hbound n hn
      · intro n hn
        simp only [List.length_append, List.length_singleton]
        rcases List.mem_append.mp hn with hold | hnew
        · have hle := hbound n hold
          omega
        · obtain rfl := List.mem_singleton.mp hnew
          omega

/-- The state in which the commands come. -/
theorem Inv.listen_command (h : s.Inv tcpPort) (clock : Nat → Timepoint) (message : Message)
    (hstate : s.talker.state = .waitServerCommands) :
    (s.listen clock message).Inv tcpPort := by
  have hloads : s.talker.loads clock message = [] := by
    simp only [ReplicaTalker.loads, hstate]
  have hlisten : s.talker.listen clock message = s.talker.process (clock 0) message := by
    simp only [ReplicaTalker.listen, hstate]
  -- what changes nothing but the record of what was tried
  have hquiet : ∀ parsed processed, ({ s with
      talker := { s.talker with processed := processed }, parsed := parsed } :
        Conversation).Inv tcpPort := fun parsed processed =>
    ⟨h.port, h.started, fun hearly => absurd hstate hearly, h.late, h.bytesIn, h.queued⟩
  cases hparse : Command.tryParse message with
  | ok command =>
      cases hexecute : s.talker.execute (clock 0) command with
      | none =>
          have hthrown : s.talker.listen clock message = none := by
            rw [hlisten, ReplicaTalker.process, hparse]
            simp only [hexecute, Option.map_none]
          have haccepted : s.talker.accepted clock message = [] := by
            simp only [ReplicaTalker.accepted, hstate, hparse, hthrown]
          simp only [listen, hloads, haccepted, hthrown, Option.getD_none, List.append_nil]
          exact hquiet _ _
      | some talker =>
          have hdone : s.talker.listen clock message = some { talker with
              bytesIn := talker.bytesIn + UInt64.ofNat message.size
              processed := talker.processed ++ [message] } := by
            rw [hlisten, ReplicaTalker.process, hparse]
            simp only [hexecute, Option.map_some]
          have haccepted : s.talker.accepted clock message = [message] := by
            simp only [ReplicaTalker.accepted, hstate, hparse, hdone]
          simp only [listen, hloads, haccepted, hdone, Option.getD_some, List.append_nil]
          exact h.command hstate message hexecute _ _
  | error e =>
      have haccepted : s.talker.accepted clock message = [] := by
        simp only [ReplicaTalker.accepted, hstate, hparse]
      cases e with
      | parseError what =>
          have hdone : s.talker.listen clock message =
              some { s.talker with processed := s.talker.processed ++ [message] } := by
            rw [hlisten, ReplicaTalker.process, hparse]
          simp only [listen, hloads, haccepted, hdone, Option.getD_some, List.append_nil]
          exact hquiet _ _
      | undefinedBehaviour =>
          have hthrown : s.talker.listen clock message = none := by
            rw [hlisten, ReplicaTalker.process, hparse]
          simp only [listen, hloads, haccepted, hthrown, Option.getD_none, List.append_nil]
          exact hquiet _ _

theorem Inv.step {a : Action} (h : s.Inv tcpPort) (htaken : s.step a = some s') :
    s'.Inv tcpPort := by
  cases a with
  | listen clock message =>
      obtain rfl := Option.some.inj htaken
      by_cases hsync : s.talker.state = .waitForRdbFileSync
      · exact h.listen_sync clock message hsync
      by_cases hcommands : s.talker.state = .waitServerCommands
      · exact h.listen_command clock message hcommands
      · exact h.listen_answer clock message hsync hcommands
  | say =>
      obtain ⟨spoken, hsay, rfl⟩ := Option.map_eq_some_iff.mp htaken
      exact h.say hsay

/-! ## The state number -/

theorem number_listen {t t' : ReplicaTalker} {clock : Nat → Timepoint} {message : Message}
    (h : t.listen clock message = some t') : t.state.number ≤ t'.state.number := by
  cases hstate : t.state with
  | waitForRdbFileSync =>
      simp only [ReplicaTalker.listen, hstate] at h
      split at h
      · next dump =>
          obtain rfl := Option.some.inj h
          obtain ⟨storage, ⟨e, -, hload⟩ | ⟨-, hload⟩⟩ := ReplicaTalker.load_spec clock dump t
          · rw [hload]
            exact Nat.le_of_eq (congrArg _ hstate.symm)
          · rw [hload]
            exact Nat.le_succ _
      · obtain rfl := Option.some.inj h
        exact Nat.le_of_eq (congrArg _ hstate.symm)
  | waitServerCommands =>
      simp only [ReplicaTalker.listen, hstate, ReplicaTalker.process] at h
      split at h
      · obtain ⟨talker, hexecute, rfl⟩ := Option.map_eq_some_iff.mp h
        have hsame := (ReplicaTalker.execute_spec hexecute).2.1
        exact Nat.le_of_eq (congrArg _ (hsame.trans hstate).symm)
      · obtain rfl := Option.some.inj h
        exact Nat.le_refl _
      · cases h
  | init =>
      simp only [ReplicaTalker.listen, hstate] at h
      obtain rfl := Option.some.inj h
      exact Nat.zero_le _
  | undefined =>
      simp only [ReplicaTalker.listen, hstate] at h
      obtain rfl := Option.some.inj h
      exact Nat.le_of_eq (congrArg _ hstate.symm)
  | waitFirstPong | waitOkForReplConfPort | waitOkForReplConfCapa | waitForPsyncAnswer =>
      simp only [ReplicaTalker.listen, hstate] at h
      split at h
      · obtain rfl := Option.some.inj h
        exact Nat.le_succ _
      · obtain rfl := Option.some.inj h
        exact Nat.le_of_eq (congrArg _ hstate.symm)

theorem number_step {a : Action} (htaken : s.step a = some s') :
    s.talker.state.number ≤ s'.talker.state.number := by
  cases a with
  | listen clock message =>
      obtain rfl := Option.some.inj htaken
      simp only [listen]
      cases hlisten : s.talker.listen clock message with
      | none => exact Nat.le_refl _
      | some talker => exact number_listen hlisten
  | say =>
      obtain ⟨⟨m, talker⟩, hsay, rfl⟩ := Option.map_eq_some_iff.mp htaken
      obtain ⟨pending, -, rfl⟩ := ReplicaTalker.say_cases hsay
      exact Nat.le_refl _

/-! ## Safety -/

/-- What a master can rely on, whatever it says.  Replies out of order, dumps that cannot be
loaded and messages that are no commands are covered. -/
structure Safe (tcpPort : Int) (s : Conversation) : Prop where
  /-- the messages queued are the first ones of the handshake, and behind the whole of it
  acknowledgements, whose values grow with what has been handled -/
  queued : ∃ (k : Nat) (values : List UInt64),
    s.queued = (handshake tcpPort).take k ++
        values.map (fun value => (replConfAck value).construct) ∧
      (values ≠ [] → (handshake tcpPort).length ≤ k) ∧
      (totalSize s.handled < 2 ^ 64 → values.Pairwise (· ≤ ·) ∧ ∀ value ∈ values,
        ∃ before, before <+: s.handled ∧ value.toNat = totalSize before)
  /-- before a dump is loaded completely no message is taken for a command -/
  quiet : s.loaded = [] → s.parsed = [] ∧ s.talker.applied = [] ∧ s.talker.bytesIn = 0

theorem totalSize_mono {before messages : List Message} (h : before <+: messages) :
    totalSize before ≤ totalSize messages := by
  obtain ⟨after, rfl⟩ := h
  simp [totalSize]

theorem Inv.safe (h : s.Inv tcpPort) : s.Safe tcpPort := by
  refine ⟨?_, fun hloaded => ?_⟩
  · obtain ⟨marks, hqueued, hnone, hsorted, -⟩ := h.queued
    refine ⟨s.talker.state.number - 1,
      marks.map fun n => UInt64.ofNat (totalSize (s.handled.take n)), ?_, ?_, ?_⟩
    · rw [hqueued, List.map_map]
      rfl
    · intro hvalues
      have hstate : s.talker.state = .waitServerCommands := by
        by_contra hearly
        exact hvalues (by rw [hnone hearly, List.map_nil])
      rw [hstate]
      exact Nat.le_add_right 4 2
    · intro hsmall
      have hvalue : ∀ n, (UInt64.ofNat (totalSize (s.handled.take n))).toNat =
          totalSize (s.handled.take n) := by
        intro n
        have hle := totalSize_mono (List.take_prefix n s.handled)
        exact UInt64.toNat_ofNat_of_lt' (Nat.lt_of_le_of_lt hle hsmall)
      refine ⟨?_, fun value hmem => ?_⟩
      · rw [List.pairwise_map]
        refine hsorted.imp fun {m n} hmn => ?_
        rw [UInt64.le_iff_toNat_le, hvalue, hvalue]
        exact totalSize_mono (List.take_prefix_take_left hmn)
      · obtain ⟨n, -, rfl⟩ := List.mem_map.mp hmem
        exact ⟨s.handled.take n, List.take_prefix n s.handled, hvalue n⟩
  · have hearly : s.talker.state ≠ .waitServerCommands := fun hlate => h.late hlate hloaded
    obtain ⟨-, hparsed, hhandled, happlied⟩ := h.early hearly
    refine ⟨hparsed, happlied, ?_⟩
    rw [h.bytesIn, hhandled]
    rfl

/-- **The handshake.**  Whatever the master says, in any order, with dumps that cannot be
loaded and messages that are no commands, the conversation is safe in every state, and no step
makes the state number smaller. -/
theorem safe_of_reachable {storage : Storage Unit}
    (h : (machine tcpPort storage).Reachable Anything s) :
    s.Safe tcpPort ∧
      ∀ a s', s.step a = some s' → s.talker.state.number ≤ s'.talker.state.number := by
  have hinv : s.Inv tcpPort := h.invariant (I := Inv tcpPort) (inv_init tcpPort storage)
    fun s a s' _ hs _ htaken => hs.step htaken
  exact ⟨hinv.safe, fun a s' htaken => number_step htaken⟩

/-- A master that answers in order, and one message more than it should send. -/
def answers : List Action :=
  [.say, .listen (fun _ => 0) (.simpleString (ascii "PONG")),
    .listen (fun _ => 0) (.simpleString (ascii "OK")), .listen (fun _ => 0) (.integer 3),
    .listen (fun _ => 0) (.simpleString (ascii "OK")),
    .listen (fun _ => 0) (.simpleString (ascii "FULLRESYNC")),
    .listen (fun _ => 0) (.syncResponse []),
    .listen (fun _ => 0) (.syncResponse (Base64.decode emptyRdbFile)),
    .listen (fun _ => 0) (.array [.bulkString (ascii "PING")]),
    .listen (fun _ => 0) (.array [.bulkString (ascii "REPLCONF"), .bulkString (ascii "GETACK"),
      .bulkString (ascii "*")])]

theorem safe_of_reachable_answers :
    let run := (machine 6380 {}).run Anything (machine 6380 {}).init answers
    ∃ h : run.isSome, (run.get h).Safe 6380 ∧ ∀ a s', (run.get h).step a = some s' →
      (run.get h).talker.state.number ≤ s'.talker.state.number :=
  ⟨by decide +kernel, safe_of_reachable (Machine.reachable_of_run (by decide +kernel))⟩

-- PING is 14 bytes long
example : ((machine 6380 {}).run Anything (machine 6380 {}).init answers).map
    (fun s => s.queued.drop 4) = some [(replConfAck 14).construct] := by decide +kernel

end Conversation

end BuildYourOwnRedis
