/-
  Replication/HandshakeEnd.lean --- the handshake of a replica comes to its end.

  Whatever else happens in the cluster, a replica that is connected has finished the
  handshake or can go on with it, and at most thirteen steps of its own lead to the end:
  four messages that it writes and that come to the master, and five that come to it.  The
  dump that PSYNC sends is always loaded: it is the file that the master has read itself, or
  the empty one.
-/
import BuildYourOwnRedis.Foundation.Ranking
import BuildYourOwnRedis.Replication.Convergence
import BuildYourOwnRedis.Replication.Handshake

set_option autoImplicit false

namespace BuildYourOwnRedis

open Foundation

/-! ## The dump -/

/-- Whether a dump can be loaded does not depend on the clock. -/
theorem rdbParse_result (clock clock' : Nat → Timepoint) (dump : Bytes) :
    (rdbParse clock dump).2 = (rdbParse clock' dump).2 := by
  obtain ⟨entries, result, hparse⟩ := RdbFile.parse_foldl dump
  rw [RdbFile.rdbParse_of_parse hparse, RdbFile.rdbParse_of_parse hparse]

/-- The dump that PSYNC sends can be loaded at any time.  A replica that cannot load it stays
where it is for ever. -/
def Server.DumpLoads (s : Server) : Prop := ∀ clock, (rdbParse clock s.dump).2 = .ok ()

theorem rdbParse_emptyRdbFile :
    (rdbParse (fun _ => 0) (Base64.decode emptyRdbFile)).2 = .ok () := by
  decide +kernel

theorem Server.dumpLoads_start {clock : Nat → Timepoint} {info : ServerInfo}
    {dbFile : Option Bytes} {server : Server}
    (h : Server.start clock info dbFile = some server) : server.DumpLoads := by
  intro clock'
  cases dbFile with
  | none =>
      have hdump : server.dump = Base64.decode emptyRdbFile := by
        rw [← Option.some.inj h, Server.dump, Option.getD_none]
      rw [hdump, rdbParse_result clock' fun _ => 0, rdbParse_emptyRdbFile]
  | some file =>
      rw [rdbParse_result clock' clock]
      unfold Server.start at h
      rcases hparse : rdbParse clock file with ⟨restored, e | ⟨⟩⟩
      · simp [hparse] at h
      · simp only [hparse, Option.some.injEq] at h
        subst h
        exact congrArg Prod.snd hparse

/-- A dump that can be loaded ends the handshake. -/
theorem ReplicaTalker.load_state {clock : Nat → Timepoint} {dump : Bytes}
    (h : (rdbParse clock dump).2 = .ok ()) (node : ReplicaTalker) :
    (node.load clock dump).state = .waitServerCommands := by
  unfold load
  rcases hparse : rdbParse clock dump with ⟨restored, e | ⟨⟩⟩
  · rw [hparse] at h
    cases h
  · rfl

/-- The commands of the master do not lead back into the handshake. -/
theorem ReplicaTalker.listen_finished {clock : Nat → Timepoint} {m : Message}
    {node node' : ReplicaTalker} (hstate : node.state = .waitServerCommands)
    (h : node.listen clock m = some node') : node'.state = .waitServerCommands := by
  simp only [listen, hstate] at h
  unfold process at h
  split at h
  · obtain ⟨t, hexecute, rfl⟩ := Option.map_eq_some_iff.mp h
    exact ((execute_spec hexecute).2.1).trans hstate
  · obtain rfl := Option.some.inj h
    exact hstate
  · cases h

/-! ## What is left -/

namespace ReplicaTalkerState

/-- The messages of the handshake that are still to be said in a state. -/
def requestsLeft : ReplicaTalkerState → Nat
  | waitFirstPong => 3
  | waitOkForReplConfPort => 2
  | waitOkForReplConfCapa => 1
  | _ => 0

/-- The messages of the handshake that are still to come in a state. -/
def answersLeft : ReplicaTalkerState → Nat
  | waitFirstPong => 5
  | waitOkForReplConfPort => 4
  | waitOkForReplConfCapa => 3
  | waitForPsyncAnswer => 2
  | waitForRdbFileSync => 1
  | _ => 0

end ReplicaTalkerState

namespace Cluster

variable {replicas : Replicas} {c : Nat}

/-- The handshake goes on. -/
def isGreeting (c : Nat) (s : Cluster) : Bool :=
  (s.server.talkers c).isOpen && (s.nodes c).state != .waitServerCommands

/-- The steps of a replica up to the end of its handshake: a message that it says is written
and comes to the master, and one of the master comes. -/
def stepsLeft (c : Nat) (s : Cluster) : Nat :=
  if s.isGreeting c then
    2 * (s.nodes c).state.requestsLeft + (s.upstream c).length + (s.nodes c).pending.length +
      (s.nodes c).state.answersLeft
  else 0

/-- A replica that waits for the dump has it next on the wire, so that no other message is
taken for it. -/
def DumpNext (c : Nat) (s : Cluster) : Prop :=
  (s.nodes c).state = .waitForRdbFileSync →
    ∃ rest, s.downstream c = .syncResponse s.server.dump :: rest

/-- A step of the replica is possible, at once or when the master has written a message.  It is
one that lowers what is left of the handshake. -/
def CanGoOn (replicas : Replicas) (c : Nat) (s : Cluster) : Prop :=
  ∃ a, own c a = true ∧ ((s.step replicas a).isSome ∨
    ∃ s', s.step replicas (.send c) = some s' ∧ (s'.step replicas a).isSome)

end Cluster

/-! ## A message of the handshake comes to the replica -/

/-- One message of the master less; `more` is what the replica says then. -/
theorem Phase.greeted {dump : Bytes} {node node' : ReplicaTalker}
    {handle : Option (ReplicaHandle Slot)} {up down : List Message} {m : Message}
    (h : Phase dump node handle up (m :: down)) (hstate : node.state ≠ .waitServerCommands)
    (hnext : node.state = .waitForRdbFileSync → m = .syncResponse dump)
    {clock : Nat → Timepoint} (hloads : (rdbParse clock dump).2 = .ok ())
    (hlisten : node.listen clock m = some node') :
    ∃ more, node'.pending = node.pending ++ more ∧
      node'.state.requestsLeft + more.length = node.state.requestsLeft ∧
      node'.state.answersLeft + 1 = node.state.answersLeft ∧
      (node'.state = .waitForRdbFileSync → ∃ rest, down = .syncResponse dump :: rest) := by
  cases h with
  | greeting hgreeting =>
      generalize hnode : node.state = state at hgreeting
      generalize handle.isSome = known at hgreeting
      unfold ReplicaTalker.listen at hlisten
      rw [hnode] at hlisten
      cases hgreeting with
      | pong =>
          simp only [pong_lower, if_true, Option.some.injEq] at hlisten
          subst hlisten
          exact ⟨_, rfl, rfl, rfl, fun h => by cases h⟩
      | portOk =>
          simp only [ok_lower, if_true, Option.some.injEq] at hlisten
          subst hlisten
          exact ⟨_, rfl, rfl, rfl, fun h => by cases h⟩
      | capaOk =>
          simp only [ok_lower, if_true, Option.some.injEq] at hlisten
          subst hlisten
          exact ⟨_, rfl, rfl, rfl, fun h => by cases h⟩
  | answered hanswer =>
      simp only [ReplicaTalker.listen, hanswer, Option.some.injEq] at hlisten
      subst hlisten
      exact ⟨[], (List.append_nil _).symm, by rw [hanswer]; rfl, by rw [hanswer]; rfl,
        fun _ => ⟨_, rfl⟩⟩
  | dump hdump =>
      simp only [ReplicaTalker.listen, hdump, Option.some.injEq] at hlisten
      subst hlisten
      have hend := node.load_state hloads
      obtain ⟨storage, hload | hload⟩ := load_cases clock dump node
      all_goals
        refine ⟨[], ?_, ?_, ?_, fun h => absurd (hend.symm.trans h) (by decide)⟩
        · rw [hload, List.append_nil]
        · rw [hend, hdump]
          rfl
        · rw [hend, hdump]
          rfl
  | stuck hstuck _ _ _ hdown =>
      -- the dump would have to be a command
      obtain ⟨elements, heq⟩ := (hdown m List.mem_cons_self).isArray
      rw [hnext hstuck] at heq
      cases heq
  | synced hsynced => exact absurd hsynced hstate

namespace Cluster

variable {replicas : Replicas} {c : Nat}

/-! ## Steps -/

/-- What the replica has not done leaves it as it is, and what is on its way to the
master. -/
theorem ends_of_elsewhere {s s' : Cluster} {a : ClusterAction} (ha : own c a = false)
    (hstep : s.step replicas a = some s') : s'.nodes c = s.nodes c ∧ s'.up c = s.up c := by
  cases a with
  | request now conn message =>
      obtain ⟨-, server, -, rfl⟩ := request_cases hstep
      exact ⟨rfl, rfl⟩
  | runJob | fireRead i | fireWait i =>
      obtain ⟨server, -, rfl⟩ := Option.map_eq_some_iff.mp hstep
      exact ⟨rfl, rfl⟩
  | disconnect conn =>
      obtain rfl := Option.some.inj hstep
      exact ⟨rfl, rfl⟩
  | send conn =>
      obtain ⟨message, server, -, rfl⟩ := send_cases hstep
      exact ⟨rfl, rfl⟩
  | deliver clock conn =>
      have hother : c ≠ conn := fun heq => by simp [own, heq] at ha
      obtain ⟨-, message, down, node, -, -, rfl⟩ := deliver_cases hstep
      exact ⟨Function.update_of_ne hother _ _, rfl⟩
  | answer conn =>
      have hother : c ≠ conn := fun heq => by simp [own, heq] at ha
      obtain ⟨-, message, pending, -, rfl⟩ := answer_cases hstep
      exact ⟨Function.update_of_ne hother _ _, Function.update_of_ne hother _ _⟩
  | receive now conn =>
      have hother : c ≠ conn := fun heq => by simp [own, heq] at ha
      obtain ⟨-, message, up, server, -, -, rfl⟩ := receive_cases hstep
      exact ⟨rfl, Function.update_of_ne hother _ _⟩

/-- The replica has a state for what comes: while the connection is open and the handshake is
going on, the steps that are left are those of its state and of what is on the way to the
master. -/
theorem stepsLeft_eq {s : Cluster} (hopen : (s.server.talkers c).isOpen)
    (hstate : (s.nodes c).state ≠ .waitServerCommands) : s.stepsLeft c =
      2 * (s.nodes c).state.requestsLeft + (s.upstream c).length +
        (s.nodes c).pending.length + (s.nodes c).state.answersLeft := by
  simp [stepsLeft, isGreeting, hopen, hstate]

theorem stepsLeft_le {s : Cluster} {n : Nat}
    (h : (s.server.talkers c).isOpen → (s.nodes c).state ≠ .waitServerCommands →
      2 * (s.nodes c).state.requestsLeft + (s.upstream c).length +
        (s.nodes c).pending.length + (s.nodes c).state.answersLeft ≤ n) :
    s.stepsLeft c ≤ n := by
  unfold stepsLeft isGreeting
  split
  · next hgreeting =>
      simp only [Bool.and_eq_true, bne_iff_ne] at hgreeting
      exact h hgreeting.1 hgreeting.2
  · exact Nat.zero_le _

/-- The invariant of a handshake that does not get stuck.  The logs agree, the dump loads, and
where it is waited for it comes. -/
structure Greets (replicas : Replicas) (c : Nat) (s : Cluster) : Prop where
  sync : s.Synchronized replicas
  loads : s.server.DumpLoads
  next : (s.server.talkers c).isOpen → s.DumpNext c

/-- What others do leaves the handshake where it is. -/
theorem Greets.elsewhere {s s' : Cluster} (h : s.Greets replicas c)
    (hc : (replicas c).isSome) {a : ClusterAction} (ha : own c a = false)
    (hstep : s.step replicas a = some s') :
    ((s'.server.talkers c).isOpen → s'.DumpNext c) ∧ s'.stepsLeft c ≤ s.stepsLeft c := by
  have helse := h.sync.elsewhere hc ha hstep
  have hup : s'.upstream c = s.upstream c := by
    rw [upstream, upstream, (ends_of_elsewhere ha hstep).2, helse.node]
  refine ⟨fun hopen hstate => ?_, stepsLeft_le fun hopen hstate => ?_⟩
  · obtain ⟨hbefore, more, hdown, -⟩ := helse.down hopen
    obtain ⟨rest, hrest⟩ := h.next hbefore (helse.node ▸ hstate)
    exact ⟨rest ++ more, by rw [hdown, hrest, step_dump hstep]; rfl⟩
  · rw [helse.node] at hstate ⊢
    rw [hup, stepsLeft_eq (helse.down hopen).1 hstate]

/-- A message of the master comes. -/
theorem Greets.deliver {s s' : Cluster} (h : s.Greets replicas c) {clock : Nat → Timepoint}
    (hstep : s.step replicas (.deliver clock c) = some s') :
    ((s'.server.talkers c).isOpen → s'.DumpNext c) ∧ s'.stepsLeft c ≤ s.stepsLeft c - 1 := by
  obtain ⟨hc, message, down, node, hdown, hlisten, rfl⟩ := deliver_cases hstep
  have hahead : s.downstream c = message :: (down ++ (s.server.talkers c).pending) := by
    rw [downstream, hdown, List.cons_append]
  by_cases hfinished : (s.nodes c).state = .waitServerCommands
  · -- commands do not lead back into the handshake
    have hstays := ReplicaTalker.listen_finished hfinished hlisten
    refine ⟨fun hopen hstate => ?_, stepsLeft_le fun hopen hstate => ?_⟩
    · simp only [Function.update_self] at hstate
      exact absurd (hstays.symm.trans hstate) (by decide)
    · simp only [Function.update_self] at hstate
      exact absurd hstays hstate
  · have hmore : (s.server.talkers c).isOpen → ∃ more,
        node.pending = (s.nodes c).pending ++ more ∧
          node.state.requestsLeft + more.length = (s.nodes c).state.requestsLeft ∧
          node.state.answersLeft + 1 = (s.nodes c).state.answersLeft ∧
          (node.state = .waitForRdbFileSync → ∃ rest,
            down ++ (s.server.talkers c).pending = .syncResponse s.server.dump :: rest) := by
      intro hopen
      have hphase := h.sync.phases c hc hopen
      rw [hahead] at hphase
      refine hphase.greeted hfinished (fun hstate => ?_) (h.loads clock) hlisten
      obtain ⟨rest, hrest⟩ := h.next hopen hstate
      exact (List.cons.inj (hahead.symm.trans hrest)).1
    refine ⟨fun hopen hstate => ?_, stepsLeft_le fun hopen hstate => ?_⟩
    · obtain ⟨more, -, -, -, hnext⟩ := hmore hopen
      simp only [Function.update_self] at hstate
      simpa [downstream] using hnext hstate
    · obtain ⟨more, hpending, hrequests, hanswers, -⟩ := hmore hopen
      have hbefore : s.stepsLeft c = _ := stepsLeft_eq hopen hfinished
      rw [hbefore]
      simp only [upstream, Function.update_self, hpending, List.length_append]
      omega

/-- The replica writes a message. -/
theorem Greets.answer {s s' : Cluster} (h : s.Greets replicas c)
    (hstep : s.step replicas (.answer c) = some s') :
    ((s'.server.talkers c).isOpen → s'.DumpNext c) ∧ s'.stepsLeft c ≤ s.stepsLeft c - 1 := by
  obtain ⟨-, message, pending, hpending, rfl⟩ := answer_cases hstep
  refine ⟨fun hopen hstate => ?_, stepsLeft_le fun hopen hstate => ?_⟩
  · simp only [Function.update_self] at hstate
    exact h.next hopen hstate
  · simp only [Function.update_self] at hstate
    have hbefore : s.stepsLeft c = _ := stepsLeft_eq hopen hstate
    rw [hbefore]
    simp only [upstream, Function.update_self, hpending, List.length_append, List.length_cons,
      List.length_nil]
    omega

/-- A message of the replica comes to the master. -/
theorem Greets.receive {s s' : Cluster} (h : s.Greets replicas c) {now : Timepoint}
    (hstep : s.step replicas (.receive now c) = some s') :
    ((s'.server.talkers c).isOpen → s'.DumpNext c) ∧ s'.stepsLeft c ≤ s.stepsLeft c - 1 := by
  have hdump := step_dump hstep
  obtain ⟨hc, message, up, server, hup, hreceive, rfl⟩ := receive_cases hstep
  obtain ⟨-, more, hreplied, -⟩ := h.sync.received hc hup hreceive
  refine ⟨fun hopen hstate => ?_, stepsLeft_le fun hopen hstate => ?_⟩
  · obtain ⟨rest, hrest⟩ := h.next (hreplied.isOpen ▸ hopen) hstate
    refine ⟨rest ++ more, ?_⟩
    rw [hdump, ← List.cons_append, ← hrest, downstream, downstream, hreplied.pending,
      List.append_assoc]
  · have hbefore : s.stepsLeft c = _ := stepsLeft_eq (hreplied.isOpen ▸ hopen) hstate
    rw [hbefore]
    simp only [upstream, Function.update_self, hup, List.length_append, List.length_cons]
    omega

/-- All that a step does to the handshake: it goes on as it should, it does not become longer,
and every step of the replica itself makes it shorter. -/
theorem Greets.step {s s' : Cluster} (h : s.Greets replicas c) (hc : (replicas c).isSome)
    {a : ClusterAction} (hstep : s.step replicas a = some s') :
    s'.Greets replicas c ∧ s'.stepsLeft c ≤ s.stepsLeft c ∧
      (own c a = true → s'.stepsLeft c ≤ s.stepsLeft c - 1) := by
  have hloads : s'.server.DumpLoads := by
    intro clock
    rw [step_dump hstep]
    exact h.loads clock
  have hown (ha : own c a = true) : ((s'.server.talkers c).isOpen → s'.DumpNext c) ∧
      s'.stepsLeft c ≤ s.stepsLeft c - 1 := by
    cases a with
    | deliver clock conn =>
        obtain rfl := of_decide_eq_true ha
        exact h.deliver hstep
    | answer conn =>
        obtain rfl := of_decide_eq_true ha
        exact h.answer hstep
    | receive now conn =>
        obtain rfl := of_decide_eq_true ha
        exact h.receive hstep
    | request now conn message | runJob | fireRead i | fireWait i | disconnect conn
    | send conn => cases ha
  by_cases ha : own c a = true
  · obtain ⟨hnext, hle⟩ := hown ha
    exact ⟨⟨h.sync.step hstep, hloads, hnext⟩, hle.trans (Nat.sub_le _ _), fun _ => hle⟩
  · obtain ⟨hnext, hle⟩ := h.elsewhere hc (Bool.eq_false_iff.mpr ha) hstep
    exact ⟨⟨h.sync.step hstep, hloads, hnext⟩, hle, fun htrue => absurd htrue ha⟩

end Cluster

/-! ## A step is possible -/

/-- Nothing but a command of the master can leave `listen` by an exception. -/
theorem ReplicaTalker.listen_isSome {node : ReplicaTalker}
    (hstate : node.state ≠ .waitServerCommands) (clock : Nat → Timepoint) (m : Message) :
    (node.listen clock m).isSome := by
  unfold listen
  split
  · split <;> rfl
  · split <;> rfl
  · split <;> rfl
  · split <;> rfl
  · split <;> rfl
  · next hcommands => exact absurd hcommands hstate
  · rfl
  · rfl

/-- REPLCONF with a name that is not ACK is never left by an exception. -/
theorem Server.listenReplConf_isSome {name : Bytes} (hname : toLowerCase name ≠ ascii "ack")
    (slot : Slot) (args : List Bytes) (s : Server) :
    (s.listenReplConf slot (name :: args)).isSome := by
  simp only [listenReplConf, processConf, StorageMiddleware.replicaProcessConf,
    StorageMiddleware.processConf, if_neg hname]
  split
  · next heq => split at heq <;> cases heq
  · next answered result heq =>
      split at heq
      all_goals
        obtain ⟨rfl, rfl⟩ := Prod.mk.inj (Option.some.inj heq)
        rfl

/-- The master takes every message of the handshake. -/
theorem Greeting.receive_isSome {state : ReplicaTalkerState} {known : Bool} {m : Message}
    {up down : List Message} (h : Greeting state known (m :: up) down) {s : Server} {c : Nat}
    (hopen : (s.talkers c).isOpen) (now : Timepoint) : (s.receive now c m).isSome := by
  have htaken {command : Command} (hparse : Command.tryParse m = .ok command)
      (hexecute : ((s.recordRequest c m).execute now
        ⟨c, some (s.talkers c).requests.length⟩ command).isSome) :
      (s.receive now c m).isSome := by
    rw [Server.receive, if_pos hopen, Server.listen, hparse]
    exact hexecute
  cases h with
  | ping => exact htaken rfl rfl
  | port tcpPort =>
      exact htaken (Command.tryParse_construct_replConf _)
        (Server.listenReplConf_isSome (by decide) _ _ _)
  | capa =>
      exact htaken (Command.tryParse_construct_replConf _)
        (Server.listenReplConf_isSome (by decide) _ _ _)
  | psync => exact htaken rfl rfl

/-- A replica that has not finished has a message on the way, the first one to the master
being one of the handshake. -/
theorem Phase.under_way {dump : Bytes} {node : ReplicaTalker}
    {handle : Option (ReplicaHandle Slot)} {up down : List Message}
    (h : Phase dump node handle up down) (hstate : node.state ≠ .waitServerCommands)
    (hnext : node.state = .waitForRdbFileSync → ∃ rest, down = .syncResponse dump :: rest) :
    down ≠ [] ∨ ∃ m known, Greeting node.state known (m :: []) down ∧ up = [m] := by
  cases h with
  | greeting hgreeting =>
      generalize node.state = state at hgreeting
      generalize handle.isSome = known at hgreeting
      cases hgreeting with
      | ping => exact .inr ⟨_, _, .ping, rfl⟩
      | port tcpPort => exact .inr ⟨_, _, .port tcpPort, rfl⟩
      | capa => exact .inr ⟨_, _, .capa, rfl⟩
      | psync => exact .inr ⟨_, _, .psync, rfl⟩
      | pong | portOk | capaOk => exact .inl (List.cons_ne_nil _ _)
  | answered => exact .inl (List.cons_ne_nil _ _)
  | dump => exact .inl (List.cons_ne_nil _ _)
  | stuck hstuck =>
      obtain ⟨rest, rfl⟩ := hnext hstuck
      exact .inl (List.cons_ne_nil _ _)
  | synced hsynced => exact absurd hsynced hstate

/-- In a handshake that has not been finished a message of the master is still to come. -/
theorem Phase.answersLeft_pos {dump : Bytes} {node : ReplicaTalker}
    {handle : Option (ReplicaHandle Slot)} {up down : List Message}
    (h : Phase dump node handle up down) (hstate : node.state ≠ .waitServerCommands) :
    0 < node.state.answersLeft := by
  cases h with
  | greeting hgreeting =>
      generalize node.state = state at hgreeting
      generalize handle.isSome = known at hgreeting
      cases hgreeting <;> decide
  | answered hanswered => simp [hanswered, ReplicaTalkerState.answersLeft]
  | dump hdump => simp [hdump, ReplicaTalkerState.answersLeft]
  | stuck hstuck => simp [hstuck, ReplicaTalkerState.answersLeft]
  | synced hsynced => exact absurd hsynced hstate

namespace Cluster

variable {replicas : Replicas} {c : Nat}

/-- A replica gets the first message on its wire. -/
theorem deliver_isSome {s : Cluster} (hc : (replicas c).isSome)
    (hstate : (s.nodes c).state ≠ .waitServerCommands) (hdown : s.down c ≠ [])
    (clock : Nat → Timepoint) : (s.step replicas (.deliver clock c)).isSome := by
  obtain ⟨m, down, heq⟩ := List.exists_cons_of_ne_nil hdown
  obtain ⟨node, hlisten⟩ := Option.isSome_iff_exists.mp
    (ReplicaTalker.listen_isSome hstate clock m)
  simp [step, hc, heq, hlisten]

/-- **Progress.**  The handshake of a replica that is connected does not get stuck: the message
that it waits for is on its way, or its own is, in every phase before the last. -/
theorem Greets.canGoOn {s : Cluster} (h : s.Greets replicas c) (hc : (replicas c).isSome)
    (hopen : (s.server.talkers c).isOpen)
    (hstate : (s.nodes c).state ≠ .waitServerCommands) : s.CanGoOn replicas c := by
  rcases (h.sync.phases c hc hopen).under_way hstate (h.next hopen) with
    hdown | ⟨m, known, hgreeting, hup⟩
  · refine ⟨.deliver (fun _ => 0) c, decide_eq_true rfl, ?_⟩
    by_cases hwire : s.down c = []
    · -- the master has to write it first
      right
      rw [downstream, hwire, List.nil_append] at hdown
      obtain ⟨m, pending, hpending⟩ := List.exists_cons_of_ne_nil hdown
      obtain ⟨s₁, hsend, hnodes, hwritten⟩ : ∃ s₁, s.step replicas (.send c) = some s₁ ∧
          s₁.nodes = s.nodes ∧ s₁.down c ≠ [] := by
        simp [Cluster.step, Server.say, hopen, hpending]
      exact ⟨s₁, hsend, deliver_isSome hc (hnodes ▸ hstate) hwritten _⟩
    · exact .inl (deliver_isSome hc hstate hwire _)
  · cases hpending : (s.nodes c).pending with
    | cons message pending =>
        refine ⟨.answer c, decide_eq_true rfl, .inl ?_⟩
        simp [Cluster.step, hc, ReplicaTalker.say, hpending]
    | nil =>
        rw [upstream, hpending, List.append_nil] at hup
        obtain ⟨server, hreceive⟩ := Option.isSome_iff_exists.mp
          (hgreeting.receive_isSome hopen 0)
        refine ⟨.receive 0 c, decide_eq_true rfl, .inl ?_⟩
        simp [Cluster.step, hc, hup, updateServer, hreceive]

/-! ## The end -/

theorem greets_initial {clock : Nat → Timepoint} {info : ServerInfo} {dbFile : Option Bytes}
    {server : Server} (h : Server.start clock info dbFile = some server) (c : Nat) :
    (initial server replicas).Greets replicas c :=
  ⟨synchronized_initial h, Server.dumpLoads_start h, fun _ hstate => by cases hstate⟩

/-- Thirteen steps of the replica at most. -/
theorem stepsLeft_initial (server : Server) (c : Nat) :
    (initial server replicas).stepsLeft c ≤ 13 :=
  stepsLeft_le fun _ _ => Nat.le_refl _

theorem greets_reachable {clock : Nat → Timepoint} {info : ServerInfo} {dbFile : Option Bytes}
    {server : Server} (h : Server.start clock info dbFile = some server)
    (hc : (replicas c).isSome) {s : Cluster}
    (hs : (machine server replicas).Reachable Anything s) : s.Greets replicas c :=
  hs.invariant (greets_initial h c) fun _ _ _ _ hinv _ hstep => (hinv.step hc hstep).1

theorem ranking_stepsLeft {clock : Nat → Timepoint} {info : ServerInfo}
    {dbFile : Option Bytes} {server : Server}
    (h : Server.start clock info dbFile = some server) (hc : (replicas c).isSome) :
    (machine server replicas).Ranking Anything (stepsLeft c) (own c) where
  le hs _ hstep := ((greets_reachable h hc hs).step hc hstep).2.1
  lt hs _ hstep := ((greets_reachable h hc hs).step hc hstep).2.2

/-- **The end of the handshake.**  In every run, a replica that is connected has finished
its handshake, or fewer than thirteen steps of its own have been taken and one more is
possible, at once or when the master has written a message. -/
theorem handshake_ends {clock : Nat → Timepoint} {info : ServerInfo} {dbFile : Option Bytes}
    {server : Server} (hstart : Server.start clock info dbFile = some server)
    (hc : (replicas c).isSome) {actions : List ClusterAction} {s : Cluster}
    (hrun : (machine server replicas).run Anything (initial server replicas) actions = some s)
    (hopen : (s.server.talkers c).isOpen) :
    (s.nodes c).state = .waitServerCommands ∨
      (actions.countP (own c) < 13 ∧ s.CanGoOn replicas c) := by
  by_cases hstate : (s.nodes c).state = .waitServerCommands
  · exact .inl hstate
  · have hgreets := greets_reachable hstart hc (Machine.Reachable.run .init hrun)
    refine .inr ⟨Nat.lt_of_not_le fun hmany => ?_, hgreets.canGoOn hc hopen hstate⟩
    have hnone := (ranking_stepsLeft hstart hc).eq_zero hrun
      ((stepsLeft_initial server c).trans hmany)
    -- but a message of the master is still to come
    have hleft := (hgreets.sync.phases c hc hopen).answersLeft_pos hstate
    rw [stepsLeft_eq hopen hstate] at hnone
    omega

/-- The PING of a replica has been answered. -/
def afterPong : Option Cluster :=
  (machine emptyMaster oneReplica).run Anything (initial emptyMaster oneReplica)
    ((handshake 1).take 4)

theorem map_afterPong : afterPong.map (fun s => (s.server.talkers 1).isOpen) = some true := by
  decide +kernel

theorem handshake_ends_afterPong : ∃ s, afterPong = some s ∧
    ((s.nodes 1).state = .waitServerCommands ∨
      (((handshake 1).take 4).countP (own 1) < 13 ∧ s.CanGoOn oneReplica 1)) := by
  obtain ⟨s, hrun, hopen⟩ := Option.map_eq_some_iff.mp map_afterPong
  refine ⟨s, hrun, ?_⟩
  exact @handshake_ends oneReplica 1 (fun _ => 0) { masterReplid := [] } none emptyMaster rfl
    rfl _ s hrun hopen

end Cluster

end BuildYourOwnRedis
