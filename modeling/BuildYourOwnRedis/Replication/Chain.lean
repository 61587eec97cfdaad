/-
  Replication/Chain.lean --- a replica that has replicas of its own.

  The `ReplicaTalker` of a replica stores into the `StorageMiddleware` of its server, and
  what is set there is pushed on.  A chain is two clusters: the server of the lower one is
  that of a replica of the upper one.
-/
import BuildYourOwnRedis.Replication.Outliving

set_option autoImplicit false

namespace BuildYourOwnRedis

open Foundation

/-! ## The server of a replica -/

namespace Server

/-- What a `ReplicaTalker` in this state makes of the storage of its server when a message
comes: a dump is restored, and a SET is executed. -/
def follow (clock : Nat → Timepoint) (state : ReplicaTalkerState) (message : Message)
    (s : Server) : Option Server :=
  match state with
  | .waitForRdbFileSync =>
      match message with
      | .syncResponse dump =>
          some (s.setStorage ((rdbParse clock dump).1.foldl
            (fun s r => s.restore r.key r.value r.expireTime) s.middleware.storage))
      | _ => some s
  | .waitServerCommands =>
      match Command.tryParse message with
      | .ok (.set key value expireMs) =>
          s.update (s.middleware.set (clock 0) key value expireMs)
      | _ => some s
  | _ => some s

/-- The SET that the talker executes. -/
def followed (state : ReplicaTalkerState) (message : Message) : List SetRequest :=
  if state = .waitServerCommands then (setOf message).toList else []

/-- The server has accepted SETs and pushed them to its replicas; nothing else of it has
changed for them. -/
structure PassesOn (replicas : Cluster.Replicas) (sets : List SetRequest) (s s' : Server) :
    Prop where
  served : s'.Served replicas
  touched : ∀ c, (replicas c).isSome → ∃ messages, Touched c messages s s'
  accepted : s'.middleware.accepted = s.middleware.accepted ++ sets
  dbFile : s'.dbFile = s.dbFile
  info : s'.info = s.info

variable {replicas : Cluster.Replicas}

theorem Served.passesOn {s : Server} (hs : s.Served replicas) : PassesOn replicas [] s s :=
  ⟨hs, fun c _ => ⟨[], .refl c s⟩, (List.append_nil _).symm, rfl, rfl⟩

/-- A dump is stored and not pushed. -/
theorem restored_passesOn {s : Server} (hs : s.Served replicas) (restored : List Restored) :
    PassesOn replicas [] s (s.setStorage
      (restored.foldl (fun s r => s.restore r.key r.value r.expireTime)
        s.middleware.storage)) := by
  obtain ⟨values, hvalues⟩ := restored_eq restored s.middleware.storage
  rw [hvalues]
  have hserved := @storage_served replicas s
    (s.setStorage { s.middleware.storage with values := values }) hs
    ({ s.middleware.storage with values := values }, []) rfl
    (hs.numbered.storage.congr rfl rfl rfl) [] (by simp) (.refl _)
  exact ⟨hserved.1, fun c hc => ⟨[], hserved.2 c hc⟩, (List.append_nil _).symm, rfl, rfl⟩

theorem follow_passesOn {clock : Nat → Timepoint} {state : ReplicaTalkerState}
    {message : Message} {s s' : Server} (hs : s.Served replicas)
    (h : s.follow clock state message = some s') :
    PassesOn replicas (followed state message) s s' := by
  unfold follow at h
  split at h
  · split at h
    · obtain rfl := Option.some.inj h
      exact restored_passesOn hs _
    · exact Option.some.inj h ▸ hs.passesOn
  · split at h
    · next key value expireMs hparse =>
        have hset : setOf message = some ⟨key, value, expireMs⟩ := by simp [setOf, hparse]
        obtain ⟨hserved, haccepted, htouched⟩ :=
          set_served hs (Command.tryParse_set_fits hparse) h
        refine ⟨hserved, fun c _ => ⟨_, htouched c⟩, ?_, update_dbFile h, ?_⟩
        · rw [haccepted, followed, if_pos rfl, hset, Option.toList_some]
        · exact (update_middleware h).2
    · next hother =>
        have hset : setOf message = none := by
          unfold setOf
          split
          · next hparse => exact absurd hparse (hother _ _ _)
          · rfl
        rw [followed, if_pos rfl, hset]
        exact Option.some.inj h ▸ hs.passesOn
  · next hrdb hcommands =>
      rw [followed, if_neg hcommands]
      exact Option.some.inj h ▸ hs.passesOn

/-- On a replica nothing that happens on the side of the clients is an accepted SET, so those
that it passes on are all from its master. -/
theorem step_accepted {a : ServerAction} {s s' : Server} (hreplica : s.info.isReplica = true)
    (h : s.step a = some s') :
    s'.middleware.accepted = s.middleware.accepted ∧ s'.info = s.info := by
  cases a with
  | receive now conn message =>
      refine ⟨?_, (receive_sameData_iff le_rfl hreplica h).1⟩
      cases receive_changes h with
      | kept haccepted _ => exact haccepted
      | set _ hmaster _ _ => simp [hreplica] at hmaster
  | _ =>
      refine ⟨?_, (step_values (by simp) h).2⟩
      have hchanges : Changes 0 s s' := step_changes (by simp) h
      cases hchanges with
      | kept haccepted _ => exact haccepted
      | set _ hmaster _ _ => simp [hreplica] at hmaster

end Server

/-- Of the commands a replica executes, it records the SETs. -/
theorem ReplicaTalker.execute_followed {node node' : ReplicaTalker} {now : Timepoint}
    {command : Command} (h : node.execute now command = some node') :
    node'.applied = node.applied ++
      (match (Except.ok command : Except CommandFault Command) with
      | .ok (.set key value expireMs) => some (⟨key, value, expireMs⟩ : SetRequest)
      | _ => none).toList := by
  cases command with
  | set key value expireMs => exact Option.some.inj h ▸ rfl
  | replConf args =>
      have hsame : node'.applied = node.applied := by
        cases args with
        | nil => cases h
        | cons name args =>
            simp only [execute] at h
            split at h
            · cases args with
              | nil => cases h
              | cons arg args =>
                  simp only at h
                  split at h <;> exact Option.some.inj h ▸ rfl
            · exact Option.some.inj h ▸ rfl
      rw [hsame]
      exact (List.append_nil _).symm
  | _ =>
      obtain rfl := Option.some.inj h
      exact (List.append_nil _).symm

/-- What a replica has executed behind a message. -/
theorem ReplicaTalker.listen_followed {node node' : ReplicaTalker} {clock : Nat → Timepoint}
    {message : Message} (h : node.listen clock message = some node') :
    node'.applied = node.applied ++ Server.followed node.state message := by
  unfold Server.followed
  split
  · next hstate =>
      simp only [listen, hstate, process] at h
      unfold setOf
      split at h
      · next command hparse =>
          obtain ⟨node₁, hexecute, rfl⟩ := Option.map_eq_some_iff.mp h
          rw [hparse]
          have hfollowed := execute_followed hexecute
          exact hfollowed
      · next hparse =>
          obtain rfl := Option.some.inj h
          simp [hparse]
      · cases h
  · next hstate =>
      rw [List.append_nil]
      exact Cluster.applied_of_listen hstate h

/-! ## Two clusters -/

/-- The server of the lower cluster belongs to a replica of the upper one.  What the replica
applies there, the server accepts here, in the same step. -/
structure Chain where
  upper : Cluster
  lower : Cluster

/-- What can happen: the replica gets its messages in the upper cluster. -/
inductive ChainAction where
  | upper (a : ClusterAction)
  | lower (a : ClusterAction)

namespace Chain

/-- What a step of the upper cluster does to the server of the replica at connection `c`. -/
def passOn (c : Nat) (s : Chain) : ClusterAction → Option Server
  | .deliver clock conn =>
      if conn = c then
        match s.upper.down c with
        | [] => none
        | message :: _ => s.lower.server.follow clock (s.upper.nodes c).state message
      else some s.lower.server
  | _ => some s.lower.server

/-- One step. -/
def step (above below : Cluster.Replicas) (c : Nat) (s : Chain) : ChainAction → Option Chain
  | .upper a => do
      let upper ← s.upper.step above a
      let server ← s.passOn c a
      return { upper := upper, lower := { s.lower with server := server } }
  | .lower a => (s.lower.step below a).map fun lower => { s with lower := lower }

/-- A master, its replicas, and the replicas of one of them. -/
def machine (above below : Cluster.Replicas) (c : Nat) (master replica : Server) :
    Machine Chain ChainAction where
  init := { upper := .initial master above, lower := .initial replica below }
  step := step above below c

/-- The invariant of every run: both clusters agree with their replicas, and the server in the
middle has accepted what it has applied. -/
structure Linked (above below : Cluster.Replicas) (c : Nat) (s : Chain) : Prop where
  upper : s.upper.Synchronized above
  lower : s.lower.Synchronized below
  isReplica : s.lower.server.info.isReplica = true
  accepted : s.lower.server.middleware.accepted = (s.upper.nodes c).applied

variable {above below : Cluster.Replicas} {c d : Nat}

/-- What the upper cluster does passes the SETs on that the replica executes. -/
theorem passOn_passesOn {s : Chain} {a : ClusterAction} {upper : Cluster} {server : Server}
    (hs : s.lower.server.Served below) (hstep : s.upper.step above a = some upper)
    (hpass : s.passOn c a = some server) : ∃ sets,
      Server.PassesOn below sets s.lower.server server ∧
        (upper.nodes c).applied = (s.upper.nodes c).applied ++ sets := by
  have hnothing : server = s.lower.server → upper.nodes c = s.upper.nodes c → ∃ sets,
      Server.PassesOn below sets s.lower.server server ∧
        (upper.nodes c).applied = (s.upper.nodes c).applied ++ sets :=
    fun hserver hnode => ⟨[], hserver ▸ hs.passesOn, by rw [hnode, List.append_nil]⟩
  cases a with
  | deliver clock conn =>
      obtain ⟨-, message, down, node, hdown, hlisten, rfl⟩ := Cluster.deliver_cases hstep
      by_cases hconn : conn = c
      · subst hconn
        simp only [passOn, if_true, hdown] at hpass
        refine ⟨_, Server.follow_passesOn hs hpass, ?_⟩
        simpa using ReplicaTalker.listen_followed hlisten
      · rw [passOn, if_neg hconn] at hpass
        exact hnothing (Option.some.inj hpass).symm (Function.update_of_ne (Ne.symm hconn) _ _)
  | answer conn =>
      obtain ⟨-, message, pending, -, rfl⟩ := Cluster.answer_cases hstep
      refine ⟨[], Option.some.inj hpass ▸ hs.passesOn, ?_⟩
      by_cases hconn : c = conn
      · simp [hconn]
      · simp [hconn]
  | request now conn message =>
      obtain ⟨-, master, -, rfl⟩ := Cluster.request_cases hstep
      exact hnothing (Option.some.inj hpass).symm rfl
  | send conn =>
      obtain ⟨message, master, -, rfl⟩ := Cluster.send_cases hstep
      exact hnothing (Option.some.inj hpass).symm rfl
  | receive now conn =>
      obtain ⟨-, message, up, master, -, -, rfl⟩ := Cluster.receive_cases hstep
      exact hnothing (Option.some.inj hpass).symm rfl
  | disconnect conn =>
      obtain rfl := Option.some.inj hstep
      exact hnothing (Option.some.inj hpass).symm rfl
  | runJob | fireRead i | fireWait i =>
      obtain ⟨master, -, rfl⟩ := Option.map_eq_some_iff.mp hstep
      exact hnothing (Option.some.inj hpass).symm rfl

/-- What is pushed on keeps the lower cluster synchronized. -/
theorem synchronized_passesOn {s : Cluster} (h : s.Synchronized below) {server : Server}
    {sets : List SetRequest} (hpasses : Server.PassesOn below sets s.server server) :
    ({ s with server := server } : Cluster).Synchronized below := by
  refine ⟨hpasses.served, fun d hd hopen => ?_⟩
  obtain ⟨messages, htouched⟩ := hpasses.touched d hd
  exact @Cluster.Synchronized.touched below s { s with server := server } h d hd hopen messages
    htouched ⟨rfl, rfl, rfl⟩ hpasses.dbFile

theorem Linked.step {s s' : Chain} {a : ChainAction} (h : s.Linked above below c)
    (hstep : s.step above below c a = some s') : s'.Linked above below c := by
  cases a with
  | upper a =>
      simp only [Chain.step, Option.bind_eq_bind, Option.pure_def, Option.bind_eq_some_iff,
        Option.some.injEq] at hstep
      obtain ⟨upper, hupper, server, hpass, rfl⟩ := hstep
      obtain ⟨sets, hpasses, happlied⟩ := passOn_passesOn h.lower.served hupper hpass
      exact ⟨h.upper.step hupper, synchronized_passesOn h.lower hpasses,
        by rw [hpasses.info]; exact h.isReplica,
        by rw [happlied, ← h.accepted]; exact hpasses.accepted⟩
  | lower a =>
      obtain ⟨lower, hlower, rfl⟩ := Option.map_eq_some_iff.mp hstep
      have hserver : lower.server.middleware.accepted =
          s.lower.server.middleware.accepted ∧ lower.server.info = s.lower.server.info := by
        rcases Cluster.step_master hlower with ⟨-, hsame⟩ | ⟨b, -, hb⟩
        · rw [hsame]
          exact ⟨rfl, rfl⟩
        · exact Server.step_accepted h.isReplica hb
      exact ⟨h.upper, h.lower.step hlower, by rw [hserver.2]; exact h.isReplica,
        hserver.1.trans h.accepted⟩

theorem linked_reachable {clock clock' : Nat → Timepoint} {info info' : ServerInfo}
    {dbFile dbFile' : Option Bytes} {master replica : Server}
    (hmaster : Server.start clock info dbFile = some master)
    (hreplica : Server.start clock' info' dbFile' = some replica)
    (hslave : info'.isReplica = true) {s : Chain}
    (hs : (machine above below c master replica).Reachable Anything s) :
    s.Linked above below c := by
  refine hs.invariant ⟨Cluster.synchronized_initial hmaster,
    Cluster.synchronized_initial hreplica, ?_, ?_⟩ fun _ _ _ _ hinv _ hstep => hinv.step hstep
  · obtain ⟨values, rfl⟩ := Server.start_eq hreplica
    exact hslave
  · obtain ⟨values, rfl⟩ := Server.start_eq hreplica
    rfl

end Chain

/-! ## What comes through -/

/-- A connected replica has executed some SETs of its master, one behind the other. -/
theorem Cluster.Synchronized.applied_infix {replicas : Cluster.Replicas} {c : Nat}
    {s : Cluster} (h : s.Synchronized replicas) (hc : (replicas c).isSome)
    (hopen : (s.server.talkers c).isOpen) :
    (s.nodes c).applied <:+: s.server.middleware.accepted := by
  by_cases hsome : (s.nodes c).applied = []
  · rw [hsome]
    exact List.nil_infix
  · obtain ⟨r, hr, hwrite⟩ := h.attached_of_applied hc hopen hsome
    cases h.executes hc hr hwrite with
    | nothing _ hnothing => exact absurd hnothing hsome
    | commands _ hsets =>
        have hprefix : (s.nodes c).applied <+:
            s.server.middleware.accepted.drop r.attachedAt := hsets ▸ List.prefix_append _ _
        exact hprefix.isInfix.trans (List.drop_suffix _ _).isInfix

/-- When nothing is on the way, they are the last ones. -/
theorem Cluster.Synchronized.applied_suffix {replicas : Cluster.Replicas} {c : Nat}
    {s : Cluster} (h : s.Synchronized replicas) (hc : (replicas c).isSome)
    (hsettled : s.Settled c) : (s.nodes c).applied <:+ s.server.middleware.accepted := by
  obtain ⟨hopen, hfinished, hquiet⟩ := hsettled
  obtain ⟨r, hr⟩ := h.handle_of_finished hc hopen hfinished
  obtain ⟨hmem, rfl⟩ := Server.mem_of_handle hr
  obtain ⟨hwrite, -⟩ := h.log hmem hc hfinished
  cases h.executes hc hr hwrite with
  | nothing hstate _ => exact absurd hfinished hstate
  | commands _ hsets =>
      rw [hquiet, List.filterMap_nil, List.append_nil] at hsets
      exact hsets ▸ List.drop_suffix _ _

namespace Chain

variable {above below : Cluster.Replicas} {c d : Nat}

/-- **Replication through a replica.**  In every run, while both connections are open, what a
replica of a replica has executed are SETs that the first master has accepted, in its order and
with none left out in between.  When both handshakes are finished and nothing is on the way to
either replica, they are the last ones. -/
theorem comes_through {clock clock' : Nat → Timepoint} {info info' : ServerInfo}
    {dbFile dbFile' : Option Bytes} {master replica : Server}
    (hmaster : Server.start clock info dbFile = some master)
    (hreplica : Server.start clock' info' dbFile' = some replica)
    (hslave : info'.isReplica = true) (hc : (above c).isSome) (hd : (below d).isSome)
    {s : Chain} (hs : (machine above below c master replica).Reachable Anything s)
    (hopen : (s.upper.server.talkers c).isOpen) (hopen' : (s.lower.server.talkers d).isOpen) :
    (s.lower.nodes d).applied <:+: s.upper.server.middleware.accepted ∧
      (s.upper.Settled c → s.lower.Settled d →
        (s.lower.nodes d).applied <:+ s.upper.server.middleware.accepted) := by
  have hlinked := linked_reachable hmaster hreplica hslave hs
  refine ⟨?_, fun hsettled hsettled' => ?_⟩
  · have hbelow := hlinked.lower.applied_infix hd hopen'
    rw [hlinked.accepted] at hbelow
    exact hbelow.trans (hlinked.upper.applied_infix hc hopen)
  · have hbelow := hlinked.lower.applied_suffix hd hsettled'
    rw [hlinked.accepted] at hbelow
    exact hbelow.trans (hlinked.upper.applied_suffix hc hsettled)

/-- Both replicas connect, and a SET that comes to the master goes all the way. -/
def afterSet : Option Chain :=
  let master : Server := { info := { masterReplid := [] } }
  let replica : Server := { info := { role := ascii "slave", masterReplid := [] } }
  (machine Cluster.oneReplica Cluster.oneReplica 1 master replica).run Anything
    { upper := .initial master Cluster.oneReplica, lower := .initial replica Cluster.oneReplica }
    ((Cluster.handshake 1).map .upper ++ (Cluster.handshake 1).map .lower ++
      [.upper (.request 0 2 (Command.set (ascii "key") (ascii "value") none).construct),
        .upper (.send 1), .upper (.deliver (fun _ => 0) 1), .lower (.send 1),
        .lower (.deliver (fun _ => 0) 1)])

theorem map_afterSet : afterSet.map (fun s =>
    decide ((s.upper.server.talkers 1).isOpen ∧ (s.lower.server.talkers 1).isOpen ∧
      s.upper.Settled 1 ∧ s.lower.Settled 1 ∧
      (s.lower.nodes 1).applied = [⟨ascii "key", ascii "value", none⟩])) = some true := by
  decide +kernel

theorem afterSet_isSome : afterSet.isSome := by
  rw [← Option.isSome_map, map_afterSet]
  rfl

theorem comes_through_afterSet :
    [⟨ascii "key", ascii "value", none⟩] <:+
      (afterSet.get afterSet_isSome).upper.server.middleware.accepted := by
  obtain ⟨s, hrun, hs⟩ := Option.map_eq_some_iff.mp map_afterSet
  obtain ⟨hopen, hopen', hsettled, hsettled', happlied⟩ := of_decide_eq_true hs
  rw [Option.get_of_eq_some afterSet_isSome hrun, ← happlied]
  exact (@comes_through Cluster.oneReplica Cluster.oneReplica 1 1 (fun _ => 0) (fun _ => 0)
    { masterReplid := [] } { role := ascii "slave", masterReplid := [] } none none _ _ rfl rfl
    (by decide) rfl rfl s (Machine.Reachable.run .init hrun) hopen hopen').2 hsettled hsettled'

end Chain

end BuildYourOwnRedis
