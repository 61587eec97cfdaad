/-
  Replication/Legible.lean --- what is on the way between a master and its replicas can be
  read.

  A message is read in the mode that its reader is in, and a replica is in another mode
  while it waits for the dump.  `Legible` follows the states that the messages on the way
  will bring a replica into.  With a replication id that holds no delimiter, a file that is
  shorter than 2^31 bytes, and ports that are `int`s, nothing but a SET with an empty key or
  value, or with one that is longer than an `int` can tell, is not read as it was written.
-/
import BuildYourOwnRedis.Net.Pipe
import BuildYourOwnRedis.Replication.FullSync
import BuildYourOwnRedis.Replication.HandshakeEnd
import BuildYourOwnRedis.Replication.Outliving
import BuildYourOwnRedis.Resp.RoundTrip
import BuildYourOwnRedis.Server.Says

set_option autoImplicit false

namespace BuildYourOwnRedis

open Foundation

/-! ## Messages that can be read -/

theorem readsIn_of_writable {m : Message} (h : m.Writable) (hbulk : m.NoEmptyBulk)
    (hfit : m.ArraysFit) : ReadsIn .any m := by
  intro rest
  have hreads := reads_of_encodes (Message.encodes_frames h hbulk hfit) rest
  rw [← Message.toString_eq_frames h] at hreads
  exact hreads

theorem readsIn_simpleString {text : Bytes} (h : ¬ crlf <:+: text) :
    ReadsIn .any (.simpleString text) :=
  readsIn_of_writable h trivial trivial

theorem readsIn_dump {dump : Bytes} (hne : dump ≠ []) (hlen : dump.length < 2 ^ 31) :
    ReadsIn .syncResponse (.syncResponse dump) :=
  tryParse_dump hne hlen

/-- A command is read if none of its parts is empty or too long. -/
theorem readsIn_construct {command : Command}
    (hparts : ∀ part ∈ command.parts, part ≠ [] ∧ part.length < 2 ^ 31)
    (hlen : command.parts.length < 2 ^ 31) : ReadsIn .any command.construct :=
  readsIn_of_writable (writable_bulkStrings fun part hpart => (hparts part hpart).2)
    ((noEmptyBulk_bulkStrings _).mpr fun part hpart => (hparts part hpart).1)
    (arraysFit_bulkStrings hlen)

/-- The key and the value are not empty, and their lengths fit an `int`.  An empty bulk string
is written as `$-1`, and the replica's parser goes on waiting for a payload of that length;
beyond an `int` the length is refused. -/
structure SetRequest.Fits (r : SetRequest) : Prop where
  key : r.key ≠ [] ∧ r.key.length < 2 ^ 31
  value : r.value ≠ [] ∧ r.value.length < 2 ^ 31

instance (r : SetRequest) : Decidable r.Fits :=
  decidable_of_iff ((r.key ≠ [] ∧ r.key.length < 2 ^ 31) ∧ r.value ≠ [] ∧
    r.value.length < 2 ^ 31) ⟨fun h => ⟨h.1, h.2⟩, fun h => ⟨h.1, h.2⟩⟩

/-- What the master pushes is read, if the SETs fit. -/
theorem Pushable.readsIn {m : Message} (h : Pushable m) (hfits : ∀ r ∈ setOf m, r.Fits) :
    ReadsIn .any m := by
  cases h with
  | getAck => exact readsIn_construct (by decide) (by decide)
  | @set key value expireMs hexpire =>
      obtain ⟨⟨hkey, hkeyLen⟩, hvalue, hvalueLen⟩ := hfits _ (setOf_set key value hexpire)
      refine readsIn_of_writable (writable_bulkStrings
          (length_of_mem_parts hkeyLen hvalueLen hexpire))
        ((noEmptyBulk_pushedSet key value expireMs).mpr ⟨hkey, hvalue⟩)
        (arraysFit_bulkStrings ?_)
      cases expireMs <;> simp [Command.parts]

/-! ## What a replica says -/

theorem length_decimalInt_lt {i : Int} (hlow : -2 ^ 31 ≤ i) (hhigh : i < 2 ^ 31) :
    (decimalInt i).length < 2 ^ 31 := by
  cases i with
  | ofNat n =>
      simp only [Int.ofNat_eq_natCast] at hhigh
      have hlen : (decimal n).length ≤ 10 := length_decimal_le (by decide) (by omega)
      exact Nat.lt_of_le_of_lt hlen (by decide)
  | negSucc n =>
      have hlen : (decimal (n + 1)).length ≤ 10 := length_decimal_le (by decide) (by omega)
      simp only [decimalInt, List.length_cons]
      omega

theorem readsIn_replConfPort {tcpPort : Int} (hlow : -2 ^ 31 ≤ tcpPort)
    (hhigh : tcpPort < 2 ^ 31) : ReadsIn .any (replConfPort tcpPort).construct := by
  refine readsIn_construct (fun part hpart => ?_) (by simp [replConfPort, Command.parts])
  rcases List.mem_cons.mp hpart with rfl | hpart
  · decide
  · rcases List.mem_pair.mp hpart with rfl | rfl
    · decide
    · exact ⟨decimalInt_ne_nil _, length_decimalInt_lt hlow hhigh⟩

theorem readsIn_replConfAck (bytesIn : UInt64) :
    ReadsIn .any (replConfAck bytesIn).construct := by
  refine readsIn_construct (fun part hpart => ?_) (by simp [replConfAck, Command.parts])
  rcases List.mem_cons.mp hpart with rfl | hpart
  · decide
  · rcases List.mem_pair.mp hpart with rfl | rfl
    · decide
    · have hlt : bytesIn.toNat < 10 ^ 20 := Nat.lt_trans bytesIn.toNat_lt (by decide)
      have hlen : (decimal bytesIn.toNat).length ≤ 20 := length_decimal_le (by decide) hlt
      exact ⟨decimal_ne_nil _, Nat.lt_of_le_of_lt hlen (by decide)⟩

namespace ReplicaTalker

/-- What the talker has pending can be read, and its port is an `int`, as it is in the sources.
-/
structure Speaks (t : ReplicaTalker) : Prop where
  started : t.state ≠ .init
  port : -2 ^ 31 ≤ t.tcpPort ∧ t.tcpPort < 2 ^ 31
  reads : ∀ m ∈ t.pending, ReadsIn .any m

variable {t t' : ReplicaTalker}

theorem Speaks.more (h : t.Speaks) (hstarted : t'.state ≠ .init)
    (hport : t'.tcpPort = t.tcpPort) {more : List Message}
    (hpending : t'.pending = t.pending ++ more) (hmore : ∀ m ∈ more, ReadsIn .any m) :
    t'.Speaks := by
  refine ⟨hstarted, hport ▸ h.port, fun m hm => ?_⟩
  rw [hpending] at hm
  rcases List.mem_append.mp hm with hm | hm
  · exact h.reads m hm
  · exact hmore m hm

theorem Speaks.same (h : t.Speaks) (hstarted : t'.state ≠ .init)
    (hport : t'.tcpPort = t.tcpPort) (hpending : t'.pending = t.pending) : t'.Speaks :=
  ⟨hstarted, hport ▸ h.port, hpending ▸ h.reads⟩

/-- An answer of the handshake is queued. -/
theorem Speaks.ask (h : t.Speaks) {state : ReplicaTalkerState} (hstate : state ≠ .init)
    {command : Command} (hreads : ReadsIn .any command.construct) :
    ({ t with state := state }.nextSay command.construct).Speaks :=
  h.more hstate rfl rfl (List.forall_mem_singleton.mpr hreads)

theorem Speaks.listen (h : t.Speaks) {clock : Nat → Timepoint} {m : Message}
    (hlisten : t.listen clock m = some t') : t'.Speaks := by
  cases hstate : t.state with
  | init => exact absurd hstate h.started
  | undefined =>
      simp only [ReplicaTalker.listen, hstate, Option.some.injEq] at hlisten
      exact hlisten ▸ h
  | waitFirstPong =>
      simp only [ReplicaTalker.listen, hstate] at hlisten
      split at hlisten
      · exact Option.some.inj hlisten ▸
          h.ask (by decide) (readsIn_replConfPort h.port.1 h.port.2)
      · exact Option.some.inj hlisten ▸ h
  | waitOkForReplConfPort =>
      simp only [ReplicaTalker.listen, hstate] at hlisten
      split at hlisten
      · exact Option.some.inj hlisten ▸
          h.ask (by decide) (readsIn_construct (by decide) (by decide))
      · exact Option.some.inj hlisten ▸ h
  | waitOkForReplConfCapa =>
      simp only [ReplicaTalker.listen, hstate] at hlisten
      split at hlisten
      · exact Option.some.inj hlisten ▸
          h.ask (by decide) (readsIn_construct (by decide) (by decide))
      · exact Option.some.inj hlisten ▸ h
  | waitForPsyncAnswer =>
      simp only [ReplicaTalker.listen, hstate] at hlisten
      split at hlisten
      · exact Option.some.inj hlisten ▸ h.same (by simp) rfl rfl
      · exact Option.some.inj hlisten ▸ h
  | waitForRdbFileSync =>
      simp only [ReplicaTalker.listen, hstate] at hlisten
      split at hlisten
      · next dump =>
          obtain rfl := Option.some.inj hlisten
          obtain ⟨storage, ⟨e, -, hload⟩ | ⟨-, hload⟩⟩ := load_spec clock dump t
          · exact hload ▸ h.same h.started rfl rfl
          · exact hload ▸ h.same (by simp) rfl rfl
      · exact Option.some.inj hlisten ▸ h
  | waitServerCommands =>
      simp only [ReplicaTalker.listen, hstate, process] at hlisten
      split at hlisten
      · obtain ⟨talker, hexecute, rfl⟩ := Option.map_eq_some_iff.mp hlisten
        obtain ⟨hport, hsame, -, hpending | hpending⟩ := execute_spec hexecute
        · exact h.same (hsame ▸ h.started) hport hpending
        · exact h.more (hsame ▸ h.started) hport hpending
            (List.forall_mem_singleton.mpr (readsIn_replConfAck t.bytesIn))
      · exact Option.some.inj hlisten ▸ h.same (hstate ▸ h.started) rfl rfl
      · cases hlisten

theorem Speaks.say (h : t.Speaks) {m : Message} {pending : List Message}
    (hpending : t.pending = m :: pending) : ({ t with pending := pending }).Speaks :=
  ⟨h.started, h.port, fun m' hm' => h.reads m' (hpending ▸ List.mem_cons_of_mem _ hm')⟩

end ReplicaTalker

/-- The port of a replica is an `int`. -/
def ReplicaConfig.PortFits (config : ReplicaConfig) : Prop :=
  -2 ^ 31 ≤ config.tcpPort ∧ config.tcpPort < 2 ^ 31

namespace Cluster

variable {replicas : Replicas} {c : Nat}

/-- All that a replica has said and the master has not got can be read, whether it is pending
or on the wire. -/
structure Spoken (c : Nat) (s : Cluster) : Prop where
  node : (s.nodes c).Speaks
  up : ∀ m ∈ s.up c, ReadsIn .any m

theorem spoken_initial (server : Server)
    (hports : ∀ config ∈ replicas c, config.PortFits) : (initial server replicas).Spoken c := by
  have hstarted : ((initial server replicas).nodes c).state ≠ .init := fun heq => by cases heq
  refine ⟨⟨hstarted, ?_, ?_⟩, by simp [initial]⟩
  · cases hreplica : replicas c with
    | none =>
        simp only [initial, hreplica]
        decide
    | some config =>
        simp only [initial, hreplica]
        exact hports config hreplica
  · exact List.forall_mem_singleton.mpr (readsIn_construct (by decide) (by decide))

theorem Spoken.step {s s' : Cluster} (h : s.Spoken c) {a : ClusterAction}
    (hstep : s.step replicas a = some s') : s'.Spoken c := by
  by_cases ha : own c a = true
  · cases a with
    | deliver clock conn =>
        obtain rfl := of_decide_eq_true ha
        obtain ⟨-, m, down, node, -, hlisten, rfl⟩ := deliver_cases hstep
        exact ⟨by simpa using h.node.listen hlisten, h.up⟩
    | answer conn =>
        obtain rfl := of_decide_eq_true ha
        obtain ⟨-, m, pending, hpending, rfl⟩ := answer_cases hstep
        refine ⟨by simpa using h.node.say hpending, fun m' hm' => ?_⟩
        simp only [Function.update_self] at hm'
        rcases List.mem_append.mp hm' with hm' | hm'
        · exact h.up m' hm'
        · obtain rfl := List.mem_singleton.mp hm'
          exact h.node.reads _ (hpending ▸ List.mem_cons_self)
    | receive now conn =>
        obtain rfl := of_decide_eq_true ha
        obtain ⟨-, m, up, server, hup, -, rfl⟩ := receive_cases hstep
        refine ⟨h.node, fun m' hm' => ?_⟩
        simp only [Function.update_self] at hm'
        exact h.up m' (hup ▸ List.mem_cons_of_mem _ hm')
    | request now conn message | runJob | fireRead i | fireWait i | disconnect conn
    | send conn => cases ha
  · have ha := Bool.eq_false_iff.mpr ha
    obtain ⟨hnode, hup⟩ := ends_of_elsewhere ha hstep
    exact ⟨hnode ▸ h.node, hup ▸ h.up⟩

end Cluster

/-! ## The lines that the master says -/

/-- If this is a simple string, no delimiter stands in it.  Behind the delimiter a parser would
begin with a new message. -/
def Message.IsLine (m : Message) : Prop := ∀ text, m = .simpleString text → ¬ crlf <:+: text

theorem Message.Delimited.isLine {m : Message} (h : m.Delimited) : m.IsLine := by
  rintro text rfl
  simpa only [Message.Delimited] using h

namespace Server

/-- A text without LF ends no delimiter. -/
theorem not_crlf_append_right {text rest : Bytes} (h : ¬ crlf <:+: text)
    (hrest : (10 : Byte) ∉ rest) : ¬ crlf <:+: text ++ rest := by
  induction rest generalizing text with
  | nil => rwa [List.append_nil]
  | cons b rest ih =>
      obtain ⟨hb, hrest⟩ := not_or.mp (mt List.mem_cons.mpr hrest)
      rw [List.append_cons]
      exact ih (not_crlf_concat (Ne.symm hb) h) hrest

theorem lf_notMem_decimalInt (i : Int) : (10 : Byte) ∉ decimalInt i := by
  cases i with
  | ofNat n => exact not_mem_decimal (by decide)
  | negSucc n =>
      simp only [decimalInt, List.mem_cons, not_or]
      exact ⟨by decide, not_mem_decimal (by decide)⟩

theorem not_crlf_fullResync {info : ServerInfo} (h : ¬ crlf <:+: info.masterReplid) :
    ¬ crlf <:+: fullResync info := by
  have hfront : ¬ crlf <:+: ascii "FULLRESYNC" ++ ascii " " ++ info.masterReplid :=
    not_crlf_append (by decide) h
  exact not_crlf_append_right (not_crlf_append_right hfront (by decide)) (lf_notMem_decimalInt _)

/-- Nothing that happens changes what the server was started with. -/
theorem step_info {s s' : Server} {a : ServerAction} (h : s.step a = some s') :
    s'.info = s.info := by
  cases a with
  | receive now conn message =>
      cases listen_heard (listen_of_receive h).2 with
      | reply reply => rfl
      | values values jobs reply => rfl
      | set hparse hset => exact (update_middleware hset).2
      | replConf hparse hconf => exact (listenReplConf_values hconf).2
      | psync hparse => exact (listenPsync_values _ _).2
      | wait hparse hwait => exact (update_middleware hwait).2
      | xread hparse hread hanswer => exact (updateStorage_values hanswer).2
  | _ => exact (step_values (by simp) h).2

/-- The messages of a connection are old ones and lines. -/
def SaysLines (s s' : Server) : Prop :=
  ∀ c, ∀ m ∈ (s'.talkers c).pending, m ∈ (s.talkers c).pending ∨ m.IsLine

theorem Says.lines {s s' : Server} (h : Says (fun _ m => m.IsLine) s s') : s.SaysLines s' := by
  intro c m hm
  obtain ⟨more, hpending, -, hlines⟩ := h.said c
  rw [hpending] at hm
  rcases List.mem_append.mp hm with hm | hm
  · exact .inl hm
  · obtain ⟨q, hq, rfl⟩ := List.mem_map.mp hm
    exact .inr (hlines q hq)

theorem saysLines_of_sublist {s s' : Server}
    (h : ∀ c, ∀ m ∈ (s'.talkers c).pending, m ∈ (s.talkers c).pending) : s.SaysLines s' :=
  fun c m hm => .inl (h c m hm)

/-- PSYNC is answered with a line and a dump. -/
theorem says_listenPsync {s : Server} (hline : ¬ crlf <:+: s.info.masterReplid) (slot : Slot) :
    Says (fun _ m => m.IsLine) s (s.listenPsync slot) := by
  have hfirst : (Message.simpleString (fullResync s.info)).IsLine :=
    (delimited_simpleString (not_crlf_fullResync hline)).isLine
  have hdump : ∀ dump, (Message.syncResponse dump).IsLine := fun dump text heq => by cases heq
  have hsaid : Says (fun _ m => m.IsLine) s ((s.nextSay slot (.simpleString
      (fullResync s.info))).nextSay slot (.syncResponse s.dump)) :=
    (says_nextSay hfirst s).nextSay (hdump _)
  simp only [listenPsync]
  split
  · exact hsaid
  · exact ⟨hsaid.said, hsaid.requests⟩

theorem step_lines {s s' : Server} (hline : ¬ crlf <:+: s.info.masterReplid) {a : ServerAction}
    (h : s.step a = some s') : s.SaysLines s' := by
  have hdelimited : ∀ (c : Nat) (m : Message), m.Delimited → m.IsLine :=
    fun _ _ hm => hm.isLine
  cases a with
  | receive now conn message =>
      have hlisten := (listen_of_receive h).2
      have hrecorded : s.SaysLines (s.recordRequest conn message) :=
        saysLines_of_sublist fun c m hm => by
          simpa [recordRequest, modifyTalker_talkers, apply_ite] using hm
      have hspoken : Says (fun _ m => m.IsLine) (s.recordRequest conn message) s' := by
        rcases listen_cases hlisten with ⟨command, hparse, hexecute⟩ | ⟨what, hparse, rfl⟩
        · by_cases hpsync : ∃ args, command = .psync args
          · obtain ⟨args, rfl⟩ := hpsync
            obtain rfl := Option.some.inj hexecute
            exact @says_listenPsync (s.recordRequest conn message) hline _
          · exact says_execute hdelimited (fun args heq => absurd ⟨args, heq⟩ hpsync) hexecute
        · exact says_nextSay (fun text heq => by cases heq) _
      intro c m hm
      rcases hspoken.lines c m hm with hold | hnew
      · exact hrecorded c m hold
      · exact .inr hnew
  | runJob => exact (says_runJob hdelimited h).lines
  | fireRead i => exact (says_fireRead hdelimited h).lines
  | fireWait i => exact (says_fireWait hdelimited h).lines
  | disconnect conn =>
      obtain rfl := Option.some.inj h
      exact (says_disconnect conn s).lines
  | say conn =>
      obtain ⟨⟨message, s₁⟩, hsay, rfl⟩ := Option.map_eq_some_iff.mp h
      obtain ⟨pending, hpending, rfl⟩ := say_cases hsay
      refine saysLines_of_sublist fun c m hm => ?_
      rw [modifyTalker_talkers] at hm
      split at hm
      · next hconn =>
          subst hconn
          exact hpending ▸ List.mem_cons_of_mem _ hm
      · exact hm

end Server

namespace Cluster

variable {replicas : Replicas} {c : Nat}

/-- The master's lines on the way to a replica.  The only one with a text that is not fixed is
FULLRESYNC, which holds the replication id. -/
structure Lines (info : ServerInfo) (c : Nat) (s : Cluster) : Prop where
  info : s.server.info = info
  lines : ∀ m ∈ s.downstream c, m.IsLine

theorem lines_initial {clock : Nat → Timepoint} {info : ServerInfo} {dbFile : Option Bytes}
    {server : Server} (h : Server.start clock info dbFile = some server) (c : Nat) :
    (initial server replicas).Lines info c := by
  obtain ⟨values, rfl⟩ := Server.start_eq h
  exact ⟨rfl, by simp [initial, downstream]⟩

/-- What is written was pending. -/
theorem down_of_step {s s' : Cluster} {a : ClusterAction}
    (hstep : s.step replicas a = some s') : ∀ m ∈ s'.down c, m ∈ s.downstream c := by
  cases a with
  | request now conn message =>
      obtain ⟨-, server, -, rfl⟩ := request_cases hstep
      exact fun m hm => List.mem_append_left _ hm
  | runJob | fireRead i | fireWait i =>
      obtain ⟨server, -, rfl⟩ := Option.map_eq_some_iff.mp hstep
      exact fun m hm => List.mem_append_left _ hm
  | disconnect conn =>
      obtain rfl := Option.some.inj hstep
      exact fun m hm => List.mem_append_left _ hm
  | send conn =>
      obtain ⟨message, server, hsay, rfl⟩ := send_cases hstep
      obtain ⟨pending, hpending, rfl⟩ := Server.say_cases hsay
      intro m hm
      by_cases hconn : c = conn
      · subst hconn
        simp only [Function.update_self, List.mem_append, List.mem_singleton] at hm
        simp only [downstream, hpending, List.mem_append, List.mem_cons]
        exact hm.imp_right Or.inl
      · simp only [ne_eq, hconn, not_false_eq_true, Function.update_of_ne] at hm
        exact List.mem_append_left _ hm
  | deliver clock conn =>
      obtain ⟨-, message, down, node, hdown, -, rfl⟩ := deliver_cases hstep
      intro m hm
      by_cases hconn : c = conn
      · subst hconn
        simp only [Function.update_self] at hm
        exact List.mem_append_left _ (hdown ▸ List.mem_cons_of_mem _ hm)
      · simp only [ne_eq, hconn, not_false_eq_true, Function.update_of_ne] at hm
        exact List.mem_append_left _ hm
  | answer conn =>
      obtain ⟨-, message, pending, -, rfl⟩ := answer_cases hstep
      exact fun m hm => List.mem_append_left _ hm
  | receive now conn =>
      obtain ⟨-, message, up, server, -, -, rfl⟩ := receive_cases hstep
      exact fun m hm => List.mem_append_left _ hm

/-- What comes on the way to a replica is a line, if it is a simple string at all and the
replication id holds no delimiter. -/
theorem step_downstream {s s' : Cluster} (hline : ¬ crlf <:+: s.server.info.masterReplid)
    {a : ClusterAction} (hstep : s.step replicas a = some s') :
    ∀ m ∈ s'.downstream c, m ∈ s.downstream c ∨ m.IsLine := by
  have hserver : s.server.SaysLines s'.server := by
    rcases step_master hstep with ⟨-, hsame⟩ | ⟨b, -, hserver⟩
    · rw [hsame]
      exact Server.saysLines_of_sublist fun _ _ hm => hm
    · exact Server.step_lines hline hserver
  intro m hm
  rcases List.mem_append.mp hm with hm | hm
  · exact .inl (down_of_step hstep m hm)
  · exact (hserver c m hm).imp_left fun hold => List.mem_append_right _ hold

theorem Lines.step {info : ServerInfo} (hline : ¬ crlf <:+: info.masterReplid) {s s' : Cluster}
    (h : s.Lines info c) {a : ClusterAction} (hstep : s.step replicas a = some s') :
    s'.Lines info c := by
  have hinfo : s'.server.info = s.server.info := by
    rcases step_master hstep with ⟨-, hsame⟩ | ⟨b, -, hserver⟩
    · rw [hsame]
    · exact Server.step_info hserver
  refine ⟨hinfo.trans h.info, fun m hm => ?_⟩
  rcases step_downstream (h.info.symm ▸ hline) hstep m hm with hold | hnew
  · exact h.lines m hold
  · exact hnew

end Cluster

/-! ## The states that the messages on the way lead to -/

/-- A talker in this state, and in those that the messages will bring it into, reads the
messages one after the other. -/
def Legible : List Message → ReplicaTalkerState → Prop
  | [], _ => True
  | m :: ms, state => ∀ t : ReplicaTalker, t.state = state → ReadsIn t.expected m ∧
      ∀ clock t', t.listen clock m = some t' → Legible ms t'.state

theorem Legible.of_append {ms ms' : List Message} {state : ReplicaTalkerState}
    (h : Legible (ms ++ ms') state) : Legible ms state := by
  induction ms generalizing state with
  | nil => trivial
  | cons m ms ih =>
      intro t ht
      obtain ⟨hreads, hnext⟩ := h t ht
      exact ⟨hreads, fun clock t' hlisten => ih (hnext clock t' hlisten)⟩

theorem ReplicaTalker.expected_dump {t : ReplicaTalker} (h : t.state = .waitForRdbFileSync) :
    t.expected = .syncResponse :=
  if_pos h

theorem ReplicaTalker.expected_any {t : ReplicaTalker} (h : t.state ≠ .waitForRdbFileSync) :
    t.expected = .any :=
  if_neg h

/-- Commands are read as they come. -/
theorem legible_commands {ms : List Message} (h : ∀ m ∈ ms, ReadsIn .any m) :
    Legible ms .waitServerCommands := by
  induction ms with
  | nil => trivial
  | cons m ms ih =>
      intro t ht
      rw [ReplicaTalker.expected_any (by simp [ht])]
      refine ⟨h m List.mem_cons_self, fun clock t' hlisten => ?_⟩
      rw [ReplicaTalker.listen_finished ht hlisten]
      exact ih fun x hx => h x (List.mem_cons_of_mem _ hx)

/-- Behind a dump that can be loaded come commands. -/
theorem legible_dump {dump : Bytes} (hne : dump ≠ []) (hlen : dump.length < 2 ^ 31)
    (hloads : ∀ clock, (rdbParse clock dump).2 = .ok ()) {ms : List Message}
    (h : ∀ m ∈ ms, ReadsIn .any m) :
    Legible (.syncResponse dump :: ms) .waitForRdbFileSync := by
  intro t ht
  rw [ReplicaTalker.expected_dump ht]
  refine ⟨readsIn_dump hne hlen, fun clock t' hlisten => ?_⟩
  simp only [ReplicaTalker.listen, ht, Option.some.injEq] at hlisten
  rw [← hlisten, t.load_state (hloads clock)]
  exact legible_commands h

/-- A single message of the handshake. -/
theorem legible_singleton {m : Message} {state : ReplicaTalkerState}
    (hstate : state ≠ .waitForRdbFileSync) (h : ReadsIn .any m) : Legible [m] state := by
  intro t ht
  rw [ReplicaTalker.expected_any (ht ▸ hstate)]
  exact ⟨h, fun _ _ _ => trivial⟩

theorem dump_ne_nil {dump : Bytes} (h : ∀ clock, (rdbParse clock dump).2 = .ok ()) :
    dump ≠ [] := by
  rintro rfl
  have hempty := h fun _ => 0
  revert hempty
  decide

/-- What is on the way to a connected replica is read, whatever it is waiting for. -/
theorem Phase.legible {dump : Bytes} {node : ReplicaTalker}
    {handle : Option (ReplicaHandle Slot)} {up down : List Message}
    (h : Phase dump node handle up down) (hloads : ∀ clock, (rdbParse clock dump).2 = .ok ())
    (hlen : dump.length < 2 ^ 31) (hlines : ∀ m ∈ down, m.IsLine)
    (hpushed : ∀ r ∈ handle, ∀ m ∈ r.pushed, ReadsIn .any m)
    (hnext : node.state = .waitForRdbFileSync → ∃ rest, down = .syncResponse dump :: rest) :
    Legible down node.state := by
  have hne := dump_ne_nil hloads
  have hline : ∀ text, .simpleString text ∈ down → ReadsIn .any (.simpleString text) :=
    fun text hmem => readsIn_simpleString (hlines _ hmem text rfl)
  cases h with
  | greeting hgreeting =>
      generalize node.state = state at hgreeting
      generalize handle.isSome = known at hgreeting
      cases hgreeting with
      | ping | port tcpPort | capa | psync => trivial
      | pong | portOk | capaOk =>
          exact legible_singleton (by decide) (hline _ List.mem_cons_self)
  | @answered r text hstate =>
      rw [hstate]
      intro t ht
      rw [ReplicaTalker.expected_any (by simp [ht])]
      refine ⟨hline text List.mem_cons_self, fun clock t' hlisten => ?_⟩
      simp only [ReplicaTalker.listen, ht, Option.some.injEq] at hlisten
      rw [← hlisten]
      exact legible_dump hne hlen hloads (hpushed _ rfl)
  | dump hstate =>
      rw [hstate]
      exact legible_dump hne hlen hloads (hpushed _ rfl)
  | stuck hstate _ _ _ hdown =>
      -- the dump would have to be a command
      obtain ⟨rest, rfl⟩ := hnext hstate
      obtain ⟨elements, heq⟩ := (hdown _ List.mem_cons_self).isArray
      cases heq
  | synced hstate _ hlog =>
      rw [hstate]
      exact legible_commands fun m hm => hpushed _ rfl m (hlog.pushed ▸ List.mem_append_right _ hm)

namespace Cluster

variable {replicas : Replicas} {c : Nat}

/-- The SETs that the master has accepted fit, and so can be read by the replicas that they are
pushed to. -/
def SetsFit (s : Cluster) : Prop := ∀ r ∈ s.server.middleware.accepted, r.Fits

instance (s : Cluster) : Decidable s.SetsFit :=
  inferInstanceAs (Decidable (∀ r ∈ s.server.middleware.accepted, r.Fits))

/-- What the master has pushed to a replica is read. -/
theorem readsIn_of_pushed {s : Cluster} (hserved : s.server.Served replicas) (h : s.SetsFit)
    {r : ReplicaHandle Slot} (hr : s.server.handle c = some r) :
    ∀ m ∈ r.pushed, ReadsIn .any m := by
  intro m hm
  have hstream := hserved.streams r (Server.mem_of_handle hr).1
  have hwrite : r.state = .write := by
    by_contra hidle
    rw [hstream.idle hidle] at hm
    cases hm
  refine (hstream.pushable m hm).readsIn fun q hq => h q ?_
  have hsets := (hstream.attached hwrite).2
  exact List.mem_of_mem_drop (hsets ▸ List.mem_filterMap.mpr ⟨m, hm, hq⟩)

/-- **What is on the way to a replica that is connected can be read**, in the modes in which it
will be read: lines, the dump behind them, and then commands. -/
theorem Greets.legible {s : Cluster} (h : s.Greets replicas c) (hc : (replicas c).isSome)
    {info : ServerInfo} (hlines : s.Lines info c) (hfits : s.SetsFit)
    (hlen : s.server.dump.length < 2 ^ 31) (hopen : (s.server.talkers c).isOpen) :
    Legible (s.downstream c) (s.nodes c).state :=
  (h.sync.phases c hc hopen).legible h.loads hlen hlines.lines
    (fun _ hr => readsIn_of_pushed h.sync.served hfits hr) (h.next hopen)

end Cluster

end BuildYourOwnRedis
