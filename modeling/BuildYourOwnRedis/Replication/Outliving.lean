/-
  Replication/Outliving.lean --- deadlines on both sides of a replication connection.

  What is pushed of a SET is its expiry in milliseconds, and not its deadline: the master
  adds it to its clock when the command comes, and the replica to its own when the message
  comes.  Where both have the same clock and that does not go back, the replica has the
  later deadline.  So a string that the master gives is there on the replica too, once all
  SETs of its key have been delivered.  The replica may give a string that the master no
  longer has.
-/
import BuildYourOwnRedis.Replication.Convergence

set_option autoImplicit false

namespace BuildYourOwnRedis

open Foundation

/-! ## Values with deadlines -/

/-- A string has a copy with the same data, which does not expire earlier.  The copy is made
later, so its deadline is computed from a later time. -/
def Outlasts (stored copy : Option Value) : Prop :=
  ∀ str, stored = some (.string str) → ∃ str', copy = some (.string str') ∧
    str'.data = str.data ∧
    ∀ now, (Value.string str').isExpired now = true → (Value.string str).isExpired now = true

theorem Outlasts.refl (stored : Option Value) : Outlasts stored stored :=
  fun str h => ⟨str, h, rfl, fun _ hexpired => hexpired⟩

theorem Outlasts.trans {stored copy copy' : Option Value} (h : Outlasts stored copy)
    (h' : Outlasts copy copy') : Outlasts stored copy' := by
  intro str hstr
  obtain ⟨str₁, hcopy, hdata, hlasts⟩ := h str hstr
  obtain ⟨str₂, hcopy', hdata', hlasts'⟩ := h' str₁ hcopy
  exact ⟨str₂, hcopy', hdata'.trans hdata, fun now hexpired => hlasts now (hlasts' now hexpired)⟩

/-- GET gives a string until its deadline, and nothing for a key that is absent, has expired or
holds a stream. -/
theorem Storage.get_eq_some_iff {κ : Type} {now : Timepoint} {key data : Bytes}
    {s : Storage κ} : (s.get now key).1 = some data ↔ ∃ str,
      s.values.lookup key = some (.string str) ∧ str.data = data ∧
        (Value.string str).isExpired now = false := by
  unfold Storage.get
  split
  · next hlookup => simp [hlookup]
  · next hlookup => simp [hlookup]
  · next str hlookup =>
      split
      · next hexpired =>
          have hvalue : (Value.string str).isExpired now = true := hexpired
          simp [hlookup, hvalue]
      · next hfresh =>
          have hvalue : (Value.string str).isExpired now = false := Bool.eq_false_iff.mpr hfresh
          simp [hlookup, hvalue]

theorem Outlasts.get {κ κ' : Type} {s : Storage κ} {s' : Storage κ'} {key data : Bytes}
    (h : Outlasts (s.values.lookup key) (s'.values.lookup key)) {now : Timepoint}
    (hget : (s.get now key).1 = some data) : (s'.get now key).1 = some data := by
  obtain ⟨str, hlookup, hdata, hfresh⟩ := Storage.get_eq_some_iff.mp hget
  obtain ⟨str', hlookup', hdata', hlasts⟩ := h str hlookup
  refine Storage.get_eq_some_iff.mpr ⟨str', hlookup', hdata'.trans hdata, ?_⟩
  exact Bool.eq_false_iff.mpr fun hexpired => by simp [hlasts now hexpired] at hfresh

/-- GET and XADD store no strings. -/
theorem Storage.string_of_get {κ : Type} {now : Timepoint} {key key' : Bytes} {s : Storage κ}
    {str : StringValue} (h : (s.get now key).2.values.lookup key' = some (.string str)) :
    s.values.lookup key' = some (.string str) := by
  unfold Storage.get at h
  split at h
  · exact h
  · exact h
  · split at h
    · by_cases hkey : key' = key
      · subst hkey
        rw [AList.lookup_erase] at h
        cases h
      · rwa [AList.lookup_erase_ne hkey] at h
    · exact h

theorem Storage.string_of_xadd {κ : Type} {now : Timepoint} {key key' : Bytes}
    {id : InputStreamId} {values : StreamPartValue} {s : Storage κ} {str : StringValue}
    (h : (s.xadd now key id values).2.values.lookup key' = some (.string str)) :
    s.values.lookup key' = some (.string str) := by
  rcases s.xadd_cases now key id values with ⟨e, hadd⟩ | ⟨added, stream, hadd⟩
  · rwa [hadd] at h
  · rw [hadd] at h
    by_cases hkey : key' = key
    · subst hkey
      rw [AList.lookup_insert] at h
      cases h
    · rwa [AList.lookup_insert_ne hkey] at h

/-- What a SET stores that comes now. -/
def SetRequest.stored (now : Timepoint) (r : SetRequest) : Value :=
  .string { data := r.value, expireTime := r.expireMs.map fun ms => now + ms * 10 ^ 6 }

/-- What comes later expires later. -/
theorem SetRequest.stored_outlasts {now later : Timepoint} (hle : now ≤ later)
    (r : SetRequest) : Outlasts (some (r.stored now)) (some (r.stored later)) := by
  intro str hstr
  obtain rfl := Value.string.inj (Option.some.inj hstr)
  refine ⟨_, rfl, rfl, fun time hexpired => ?_⟩
  cases hms : r.expireMs with
  | none => simp [hms, Value.isExpired] at hexpired
  | some ms =>
      simp only [hms, Value.isExpired, Option.map_some, Option.any_some,
        decide_eq_true_eq] at hexpired ⊢
      exact le_trans (Int.add_le_add_right hle _) hexpired

namespace Reference

/-- SETs that all come now, one after the other. -/
def setAllAt (now : Timepoint) (sets : List SetRequest) (m : Reference) : Reference :=
  sets.foldl (fun m r => m.store r.key (r.stored now)) m

theorem setAllAt_append (now : Timepoint) (xs ys : List SetRequest) (m : Reference) :
    m.setAllAt now (xs ++ ys) = (m.setAllAt now xs).setAllAt now ys :=
  List.foldl_append

theorem store_outlasts {m m' : Reference} {key : Bytes} (h : Outlasts (m key) (m' key))
    (key' : Bytes) {value value' : Value} (hvalue : Outlasts (some value) (some value')) :
    Outlasts (m.store key' value key) (m'.store key' value' key) := by
  unfold store
  split
  · exact hvalue
  · exact h

/-- The same SETs make later deadlines when they come later. -/
theorem setAllAt_outlasts {now later : Timepoint} (hle : now ≤ later) (sets : List SetRequest)
    {m m' : Reference} {key : Bytes} (h : Outlasts (m key) (m' key)) :
    Outlasts (m.setAllAt now sets key) (m'.setAllAt later sets key) := by
  induction sets generalizing m m' with
  | nil => exact h
  | cons r sets ih => exact ih (store_outlasts h r.key (r.stored_outlasts hle))

/-- What was there before a SET does not matter behind it. -/
theorem setAllAt_of_mem {now : Timepoint} {sets : List SetRequest} {r : SetRequest}
    (hr : r ∈ sets) (m m' : Reference) :
    m.setAllAt now sets r.key = m'.setAllAt now sets r.key := by
  have hsame : ∀ (sets : List SetRequest) (m m' : Reference) (key : Bytes),
      m key = m' key → m.setAllAt now sets key = m'.setAllAt now sets key := by
    intro sets
    induction sets with
    | nil => exact fun m m' key h => h
    | cons x sets ih =>
        intro m m' key h
        refine ih _ _ key ?_
        simp only [store, h]
  induction sets generalizing m m' with
  | nil => cases hr
  | cons x sets ih =>
      rcases List.mem_cons.mp hr with rfl | hr
      · exact hsame sets _ _ _ (by simp [store])
      · exact ih hr _ _

/-- SETs of other keys do not matter. -/
theorem setAllAt_of_ne {now : Timepoint} {sets : List SetRequest} {key : Bytes}
    (h : ∀ r ∈ sets, r.key ≠ key) (m : Reference) : m.setAllAt now sets key = m key := by
  induction sets generalizing m with
  | nil => rfl
  | cons r sets ih =>
      refine (ih (fun x hx => h x (List.mem_cons_of_mem _ hx)) _).trans ?_
      exact if_neg (Ne.symm (h r List.mem_cons_self))

end Reference

/-! ## The master -/

namespace Server

/-- What becomes of the strings: a SET is accepted, or none that is there is new.  An expired
string may be gone. -/
inductive Changes (now : Timepoint) (s s' : Server) : Prop where
  | kept (haccepted : s'.middleware.accepted = s.middleware.accepted)
      (hvalues : ∀ key str, s'.values.lookup key = some (.string str) →
        s.values.lookup key = some (.string str))
  | set (r : SetRequest) (hmaster : s.info.isReplica = false)
      (haccepted : s'.middleware.accepted = s.middleware.accepted ++ [r])
      (hvalues : s'.values = s.values.insert r.key (r.stored now))

theorem changes_of_same {now : Timepoint} {s s' : Server} (hvalues : s'.values = s.values)
    (haccepted : s'.middleware.accepted = s.middleware.accepted) : Changes now s s' :=
  .kept haccepted fun _ _ h => hvalues ▸ h

theorem execute_changes {now : Timepoint} {slot : Slot} {command : Command} {s s' : Server}
    (h : s.execute now slot command = some s') : Changes now s s' := by
  cases command with
  | ping => exact Option.some.inj h ▸ changes_of_same rfl rfl
  | echo data => exact Option.some.inj h ▸ changes_of_same rfl rfl
  | info args => exact Option.some.inj h ▸ changes_of_same rfl rfl
  | keys arg => exact Option.some.inj h ▸ changes_of_same rfl rfl
  | config action args => exact Option.some.inj h ▸ changes_of_same rfl rfl
  | type key => exact Option.some.inj h ▸ changes_of_same rfl rfl
  | xrange key leftId rightId =>
      obtain ⟨entries, -, rfl⟩ := Option.map_eq_some_iff.mp h
      exact changes_of_same rfl rfl
  | get key =>
      obtain rfl := Option.some.inj h
      exact .kept rfl fun key' str => Storage.string_of_get
  | psync args =>
      obtain rfl := Option.some.inj h
      exact changes_of_same (s.listenPsync_values slot).1 (s.listenPsync_accepted slot)
  | replConf args =>
      exact changes_of_same (listenReplConf_values h).1 (listenReplConf_accepted h)
  | wait replicas timeoutMs =>
      obtain ⟨hmiddleware, -⟩ := update_middleware h
      refine changes_of_same ?_ ?_
      · rw [values, hmiddleware, StorageMiddleware.waitFor_storage]
        rfl
      · rw [hmiddleware]
        simp only [StorageMiddleware.waitFor]
        split <;> rfl
  | xread request blockMs =>
      obtain ⟨⟨storage, calls⟩, hread, hanswer⟩ := Option.bind_eq_some_iff.mp h
      exact changes_of_same ((updateStorage_values hanswer).1.trans (Storage.xread_values hread))
        (updateStorage_moves hanswer).accepted
  | xadd key id values =>
      obtain rfl := Option.some.inj h
      exact .kept rfl fun key' str => Storage.string_of_xadd
  | set key value expireMs =>
      simp only [execute] at h
      split at h
      · exact Option.some.inj h ▸ changes_of_same rfl rfl
      · next hmaster =>
          obtain ⟨s₁, hset, h⟩ := Option.bind_eq_some_iff.mp h
          obtain rfl := Option.some.inj h
          obtain ⟨hmiddleware, -⟩ := update_middleware hset
          refine .set ⟨key, value, expireMs⟩ (Bool.eq_false_iff.mpr hmaster) ?_ ?_
          · change s₁.middleware.accepted = _
            rw [hmiddleware]
            rfl
          · change s₁.middleware.storage.values = _
            rw [hmiddleware]
            rfl

theorem receive_changes {now : Timepoint} {conn : Nat} {message : Message} {s s' : Server}
    (h : s.receive now conn message = some s') : Changes now s s' := by
  obtain ⟨command, -, h⟩ | ⟨what, -, rfl⟩ := listen_cases (listen_of_receive h).2
  · cases execute_changes h with
    | kept haccepted hvalues => exact .kept haccepted hvalues
    | set r hmaster haccepted hvalues => exact .set r hmaster haccepted hvalues
  · exact changes_of_same rfl rfl

/-- Nothing else that a server does changes a string or accepts a SET.  The time is that at
which the message of a client is handled; other steps store nothing. -/
theorem step_changes {a : ServerAction} {now : Timepoint}
    (ha : ∀ time conn message, a = .receive time conn message → time = now) {s s' : Server}
    (h : s.step a = some s') : Changes now s s' := by
  cases a with
  | receive time conn message =>
      obtain rfl := ha time conn message rfl
      exact receive_changes h
  | runJob => exact changes_of_same (step_values (by simp) h).1 (runJob_moves h).accepted
  | fireRead i => exact changes_of_same (step_values (by simp) h).1 (fireRead_moves h).accepted
  | fireWait i =>
      refine changes_of_same (step_values (by simp) h).1 ?_
      obtain ⟨result, hfire, hupdate⟩ := Option.bind_eq_some_iff.mp h
      rw [(update_middleware hupdate).1, (StorageMiddleware.fireWait_replicas hfire).2.1]
  | say conn =>
      obtain ⟨⟨message, s₁⟩, hsay, rfl⟩ := Option.map_eq_some_iff.mp h
      obtain ⟨pending, -, rfl⟩ := say_cases hsay
      exact changes_of_same rfl rfl
  | disconnect conn =>
      refine changes_of_same (step_values (by simp) h).1 ?_
      obtain rfl := Option.some.inj h
      simp only [disconnect]
      split <;> rfl

end Server

/-! ## Both sides -/

namespace Cluster

variable {replicas : Replicas} {c : Nat}

/-- The SETs since a replica has been attached, less those that it has executed. -/
def coming (c : Nat) (r : ReplicaHandle Slot) (s : Cluster) : List SetRequest :=
  (s.server.middleware.accepted.drop r.attachedAt).drop (s.nodes c).applied.length

/-- If all that is on the way came now, the replica would hold what the master holds at the
keys of the SETs since it has been attached. -/
def Outlived (now : Timepoint) (c : Nat) (s : Cluster) : Prop :=
  ∀ r ∈ s.server.handle c, r.state = .write →
    ∀ request ∈ s.server.middleware.accepted.drop r.attachedAt,
      Outlasts (s.server.values.lookup request.key)
        ((Reference.of (s.nodes c).storage.values).setAllAt now (s.coming c r) request.key)

theorem Outlived.later {s : Cluster} {clock now : Timepoint} (h : s.Outlived clock c)
    (hle : clock ≤ now) : s.Outlived now c := fun r hr hwrite request hrequest =>
  (h r hr hwrite request hrequest).trans (Reference.setAllAt_outlasts hle _ (.refl _))

/-- A replica that is attached has executed nothing, or it gets commands and the others are
on the way. -/
inductive Executes (s : Cluster) (c : Nat) (r : ReplicaHandle Slot) : Prop where
  | nothing (hstate : (s.nodes c).state ≠ .waitServerCommands)
      (happlied : (s.nodes c).applied = [])
  | commands (hstate : (s.nodes c).state = .waitServerCommands)
      (hsets : s.server.middleware.accepted.drop r.attachedAt =
        (s.nodes c).applied ++ (s.downstream c).filterMap setOf)
      (hpushable : ∀ m ∈ s.downstream c, Pushable m)

theorem Synchronized.executes {s : Cluster} (h : s.Synchronized replicas)
    (hc : (replicas c).isSome) {r : ReplicaHandle Slot} (hr : s.server.handle c = some r)
    (hwrite : r.state = .write) : s.Executes c r := by
  obtain ⟨hmem, rfl⟩ := Server.mem_of_handle hr
  have hphase := h.phases _ hc (h.served.owner r hmem).2
  have hstream := h.served.streams r hmem
  rw [hr] at hphase
  generalize hdown : s.downstream r.slot.conn = down at hphase
  generalize s.upstream r.slot.conn = up at hphase
  cases hphase with
  | greeting _ _ hmet => simp [(hmet r rfl).1] at hwrite
  | answered hstate hnode => exact .nothing (by simp [hstate]) hnode.applied
  | dump hstate hnode => exact .nothing (by simp [hstate]) hnode.applied
  | stuck hstate hnode => exact .nothing (by simp [hstate]) hnode.applied
  | synced hstate _ hlog =>
      refine .commands hstate ?_ fun m hm => hstream.pushable m ?_
      · rw [← (hstream.attached hwrite).2, hlog.pushed, List.filterMap_append, hlog.applied,
          hdown]
      · rw [hlog.pushed]
        exact List.mem_append_right _ (hdown ▸ hm)

/-- A connected replica that has executed something is attached. -/
theorem Synchronized.attached_of_applied {s : Cluster} (h : s.Synchronized replicas)
    (hc : (replicas c).isSome) (hopen : (s.server.talkers c).isOpen)
    (happlied : (s.nodes c).applied ≠ []) :
    ∃ r, s.server.handle c = some r ∧ r.state = .write := by
  have hphase := h.phases c hc hopen
  generalize s.server.handle c = handle at hphase
  generalize s.upstream c = up at hphase
  generalize s.downstream c = down at hphase
  cases hphase with
  | greeting _ hnode => exact absurd hnode.applied happlied
  | answered _ hnode => exact absurd hnode.applied happlied
  | dump _ hnode => exact absurd hnode.applied happlied
  | stuck _ hnode => exact absurd hnode.applied happlied
  | synced _ hwrite _ => exact ⟨_, rfl, hwrite⟩

theorem Synchronized.applied_le {s : Cluster} (h : s.Synchronized replicas)
    (hc : (replicas c).isSome) {r : ReplicaHandle Slot} (hr : s.server.handle c = some r)
    (hwrite : r.state = .write) : (s.nodes c).applied.length ≤
      (s.server.middleware.accepted.drop r.attachedAt).length := by
  cases h.executes hc hr hwrite with
  | nothing _ happlied => simp [happlied]
  | commands _ hsets =>
      rw [hsets, List.length_append]
      exact Nat.le_add_right _ _

/-- The master goes on, and a replica stays attached or has just been. -/
theorem Outlived.changes {s s' : Cluster} {clock now : Timepoint} (h : s.Outlived clock c)
    (hsync : s.Synchronized replicas) (hc : (replicas c).isSome) (hle : clock ≤ now)
    (hchanges : Server.Changes now s.server s'.server)
    (hvalues : (s'.nodes c).storage.values = (s.nodes c).storage.values)
    (happlied : (s'.nodes c).applied = (s.nodes c).applied)
    (hhandle : ∀ r', s'.server.handle c = some r' → r'.state = .write →
      (∃ r, s.server.handle c = some r ∧ r.state = .write ∧ r'.attachedAt = r.attachedAt) ∨
        r'.attachedAt = s'.server.middleware.accepted.length) : s'.Outlived now c := by
  intro r' hr' hwrite' request hrequest
  rcases hhandle r' hr' hwrite' with ⟨r, hr, hwrite, hat⟩ | hat
  · have hbound := hsync.applied_le hc hr hwrite
    obtain ⟨hattached, -⟩ :=
      (hsync.served.streams r (Server.mem_of_handle hr).1).attached hwrite
    unfold coming
    rw [hat] at hrequest ⊢
    rw [hvalues, happlied]
    cases hchanges with
    | kept haccepted hkept =>
        rw [haccepted] at hrequest ⊢
        intro str hstr
        exact h.later hle r hr hwrite request hrequest str (hkept request.key str hstr)
    | set new _ haccepted hset =>
        rw [haccepted, List.drop_append_of_le_length hattached] at hrequest ⊢
        rw [List.drop_append_of_le_length hbound, Reference.setAllAt_append, hset]
        by_cases hkey : request.key = new.key
        · rw [hkey, AList.lookup_insert]
          simpa [Reference.setAllAt, Reference.store] using Outlasts.refl _
        · have hbefore : request ∈ s.server.middleware.accepted.drop r.attachedAt := by
            rcases List.mem_append.mp hrequest with hmem | hmem
            · exact hmem
            · exact absurd (congrArg SetRequest.key (List.mem_singleton.mp hmem)) hkey
          rw [AList.lookup_insert_ne hkey]
          have hothers := h.later hle r hr hwrite request hbefore
          simpa [coming, Reference.setAllAt, Reference.store, hkey] using hothers
  · rw [hat, List.drop_length] at hrequest
    cases hrequest

/-- What a replica executes that gets commands. -/
theorem process_stores {node node' : ReplicaTalker} {now : Timepoint} {m : Message}
    (hm : Pushable m) (h : node.process now m = some node') :
    Reference.of node'.storage.values =
        (Reference.of node.storage.values).setAllAt now (setOf m).toList ∧
      node'.applied = node.applied ++ (setOf m).toList := by
  cases hm with
  | getAck =>
      have hget : toLowerCase (ascii "GETACK") = ascii "getack" := by decide
      simp only [ReplicaTalker.process, tryParse_getAck, ReplicaTalker.execute, hget, if_true,
        Option.map_some, Option.some.injEq] at h
      subst h
      simp [ReplicaTalker.nextSay, Reference.setAllAt]
  | @set key value expireMs hfits =>
      simp only [ReplicaTalker.process, Command.tryParse_construct_set key value hfits,
        ReplicaTalker.execute, Option.map_some, Option.some.injEq] at h
      subst h
      rw [setOf_set key value hfits]
      exact ⟨Reference.of_insert _ _ _, rfl⟩

/-- Before commands come nothing is executed. -/
theorem applied_of_listen {node node' : ReplicaTalker} {clock : Nat → Timepoint} {m : Message}
    (hstate : node.state ≠ .waitServerCommands) (h : node.listen clock m = some node') :
    node'.applied = node.applied := by
  have hload : ∀ dump, (node.load clock dump).applied = node.applied := by
    intro dump
    unfold ReplicaTalker.load
    split
    split <;> rfl
  unfold ReplicaTalker.listen ReplicaTalker.nextSay at h
  grind

/-- A replica gets a message. -/
theorem Outlived.deliver {s s' : Cluster} {clock : Timepoint} (h : s.Outlived clock c)
    (hsync : s.Synchronized replicas) {clocks : Nat → Timepoint} (hle : clock ≤ clocks 0)
    (hstep : s.step replicas (.deliver clocks c) = some s') : s'.Outlived (clocks 0) c := by
  obtain ⟨hc, message, down, node, hdown, hlisten, rfl⟩ := deliver_cases hstep
  intro r hr hwrite request hrequest
  have hr' : s.server.handle c = some r := hr
  have hrequest' : request ∈ s.server.middleware.accepted.drop r.attachedAt := hrequest
  have hbefore := h.later hle r hr' hwrite request hrequest'
  change Outlasts (s.server.values.lookup request.key) _
  simp only [coming, Function.update_self] at hbefore ⊢
  cases hsync.executes hc hr' hwrite with
  | nothing hstate happlied =>
      -- what is stored has no part in what all the SETs will make of it
      rw [applied_of_listen hstate hlisten]
      rw [happlied, List.length_nil, List.drop_zero] at hbefore ⊢
      rwa [Reference.setAllAt_of_mem hrequest' _ (Reference.of (s.nodes c).storage.values)]
  | commands hstate hsets hpushable =>
      -- the next SET that is on the way is executed
      rw [downstream, hdown] at hsets hpushable
      simp only [ReplicaTalker.listen, hstate] at hlisten
      obtain ⟨hvalues, happlied⟩ :=
        process_stores (hpushable message (by simp)) hlisten
      have hfirst : ((message :: down) ++ (s.server.talkers c).pending).filterMap setOf =
          (setOf message).toList ++ (down ++ (s.server.talkers c).pending).filterMap setOf := by
        cases hset : setOf message <;> simp [hset]
      rw [hsets, hfirst, List.drop_left, Reference.setAllAt_append] at hbefore
      rwa [hsets, hfirst, happlied, ← List.append_assoc, List.drop_left, hvalues]

/-- A message of a replica is no SET. -/
theorem heeds_accepted {s s' : Server} {node : ReplicaTalker} {m : Message}
    {down : List Message} (h : Heeds node c m down s s') :
    s'.middleware.accepted = s.middleware.accepted := by
  cases h with
  | same _ hmiddleware => rw [hmiddleware]
  | met _ hmiddleware =>
      rw [hmiddleware]
      rfl
  | attached _ _ hmiddleware =>
      rw [hmiddleware]
      rfl
  | acknowledged _ _ _ hmiddleware =>
      rw [hmiddleware, StorageMiddleware.acknowledge_eq, StorageMiddleware.replyAll_accepted]
      rfl

/-- What a step makes of the strings of the master. -/
theorem step_changes {s s' : Cluster} {a : ClusterAction} {now : Timepoint}
    (ha : ∀ time conn message, s.masterAction a = some (.receive time conn message) →
      time = now)
    (hstep : s.step replicas a = some s') : Server.Changes now s.server s'.server := by
  rcases step_master hstep with ⟨-, hsame⟩ | ⟨b, hb, hserver⟩
  · rw [hsame]
    exact Server.changes_of_same rfl rfl
  · exact Server.step_changes (fun time conn message heq => ha time conn message (heq ▸ hb))
      hserver

/-! ## One clock -/

/-- The time that is read in a step. -/
def timeOf : ClusterAction → Option Timepoint
  | .request now _ _ => some now
  | .deliver clock _ => some (clock 0)
  | .receive now _ => some now
  | _ => none

theorem receive_time {s : Cluster} {a : ClusterAction} {time clock : Timepoint} {conn : Nat}
    {message : Message} (h : s.masterAction a = some (.receive time conn message)) :
    time = (timeOf a).getD clock := by
  cases a with
  | request now conn' message' =>
      obtain ⟨rfl, -, -⟩ := ServerAction.receive.inj (Option.some.inj h)
      rfl
  | receive now conn' =>
      obtain ⟨m, -, hm⟩ := Option.map_eq_some_iff.mp h
      obtain ⟨rfl, -, -⟩ := ServerAction.receive.inj hm
      rfl
  | _ => simp [masterAction] at h

theorem Outlived.step {s s' : Cluster} {clock : Timepoint} (h : s.Outlived clock c)
    (hsync : s.Synchronized replicas) (hc : (replicas c).isSome) {a : ClusterAction}
    (htime : ∀ time ∈ timeOf a, clock ≤ time) (hstep : s.step replicas a = some s') :
    s'.Outlived ((timeOf a).getD clock) c := by
  have hle : clock ≤ (timeOf a).getD clock := by
    cases hread : timeOf a with
    | none => exact le_rfl
    | some time => exact htime time hread
  have hchanges : Server.Changes ((timeOf a).getD clock) s.server s'.server :=
    step_changes (fun _ _ _ hreceive => receive_time hreceive) hstep
  cases hown : own c a with
  | false =>
      have helsewhere := hsync.elsewhere hc hown hstep
      refine h.changes hsync hc hle hchanges (by rw [helsewhere.node]) (by rw [helsewhere.node])
        fun r' hr' hwrite' => ?_
      obtain ⟨r, hr, hstate, hat⟩ := helsewhere.handle r' hr'
      exact .inl ⟨r, hr, hstate ▸ hwrite', hat⟩
  | true =>
      cases a with
      | deliver clocks conn =>
          obtain rfl := of_decide_eq_true hown
          exact h.deliver hsync (htime _ rfl) hstep
      | answer conn =>
          obtain rfl := of_decide_eq_true hown
          obtain ⟨-, message, pending, -, rfl⟩ := answer_cases hstep
          refine h.changes hsync hc hle hchanges ?_ ?_
            fun r hr hwrite => .inl ⟨r, hr, hwrite, rfl⟩
          · simp
          · simp
      | receive now conn =>
          obtain rfl := of_decide_eq_true hown
          obtain ⟨-, message, up, server, hup, hreceive, rfl⟩ := receive_cases hstep
          refine h.changes hsync hc hle hchanges rfl rfl fun r' hr' hwrite' => ?_
          rcases hsync.attaches hc hup hreceive hr' hwrite' with hr | ⟨-, hat⟩
          · exact .inl hr
          · have haccepted := heeds_accepted (hsync.received hc hup hreceive).1
            exact .inr (hat.trans (congrArg List.length haccepted.symm))
      | _ => cases hown

end Cluster

/-- A cluster in which all have the same clock, and what that showed last. -/
structure TimedCluster where
  cluster : Cluster
  clock : Timepoint

namespace TimedCluster

variable {replicas : Cluster.Replicas} {c : Nat}

/-- One step. -/
def step (replicas : Cluster.Replicas) (s : TimedCluster) (a : ClusterAction) :
    Option TimedCluster :=
  (s.cluster.step replicas a).map fun cluster =>
    { cluster := cluster, clock := (Cluster.timeOf a).getD s.clock }

/-- A master with its replicas. -/
def machine (server : Server) (replicas : Cluster.Replicas) (start : Timepoint) :
    Machine TimedCluster ClusterAction where
  init := { cluster := .initial server replicas, clock := start }
  step := step replicas

/-- Time does not go back, from one reading to the next, whoever reads the clock. -/
def NonDecreasing (s : TimedCluster) (a : ClusterAction) : Prop :=
  ∀ time ∈ Cluster.timeOf a, s.clock ≤ time

instance (s : TimedCluster) (a : ClusterAction) : Decidable (s.NonDecreasing a) :=
  inferInstanceAs (Decidable (∀ time ∈ Cluster.timeOf a, s.clock ≤ time))

/-- The invariant of a run: the logs agree, and every string that the replica is to have is
outlived by what it has or will get. -/
structure Timely (replicas : Cluster.Replicas) (c : Nat) (s : TimedCluster) : Prop where
  sync : s.cluster.Synchronized replicas
  outlived : s.cluster.Outlived s.clock c

theorem timely_reachable {clock : Nat → Timepoint} {info : ServerInfo}
    {dbFile : Option Bytes} {server : Server}
    (hstart : Server.start clock info dbFile = some server)
    (hc : (replicas c).isSome) {start : Timepoint} {s : TimedCluster}
    (hs : (machine server replicas start).Reachable NonDecreasing s) :
    s.Timely replicas c := by
  refine hs.invariant ⟨Cluster.synchronized_initial hstart, ?_⟩ ?_
  · obtain ⟨values, rfl⟩ := Server.start_eq hstart
    intro r hr
    simp [machine, Cluster.initial, Server.handle] at hr
  · intro s a s' _ hinv htime hstep
    obtain ⟨cluster, htaken, rfl⟩ := Option.map_eq_some_iff.mp hstep
    exact ⟨hinv.sync.step htaken, hinv.outlived.step hinv.sync hc htime htaken⟩

/-- **A replica outlives its master.**  In every run in which the clocks agree and do not go
back, a connected replica that has executed a SET of a key, and to which no other SET of
that key is on the way, answers GET with whatever the master answers at that time. -/
theorem replica_outlives {clock : Nat → Timepoint} {info : ServerInfo}
    {dbFile : Option Bytes} {server : Server}
    (hstart : Server.start clock info dbFile = some server)
    (hc : (replicas c).isSome) {start : Timepoint} {s : TimedCluster}
    (hs : (machine server replicas start).Reachable NonDecreasing s)
    (hopen : (s.cluster.server.talkers c).isOpen) {request : SetRequest}
    (hexecuted : request ∈ (s.cluster.nodes c).applied)
    (hdelivered : ∀ m ∈ s.cluster.downstream c, ∀ r ∈ setOf m, r.key ≠ request.key)
    {now : Timepoint} {data : Bytes}
    (hget : (s.cluster.server.middleware.storage.get now request.key).1 = some data) :
    ((s.cluster.nodes c).storage.get now request.key).1 = some data := by
  obtain ⟨hsync, houtlived⟩ := timely_reachable hstart hc hs
  have hsome : (s.cluster.nodes c).applied ≠ [] := List.ne_nil_of_mem hexecuted
  obtain ⟨r, hr, hwrite⟩ := hsync.attached_of_applied hc hopen hsome
  cases hsync.executes hc hr hwrite with
  | nothing _ hnothing => exact absurd hnothing hsome
  | commands _ hsets =>
      have houtlasts := houtlived r hr hwrite request
        (hsets ▸ List.mem_append_left _ hexecuted)
      rw [Cluster.coming, hsets, List.drop_left, Reference.setAllAt_of_ne] at houtlasts
      · exact houtlasts.get hget
      · intro x hx
        obtain ⟨m, hm, hset⟩ := List.mem_filterMap.mp hx
        exact hdelivered m hm x hset

/-- A replica connects, and a SET comes whose expiry is a second; the replica gets it five
nanoseconds later. -/
def afterExpiringSet : Option TimedCluster :=
  let server : Server := { info := { masterReplid := [] } }
  (machine server Cluster.oneReplica 0).run NonDecreasing
    { cluster := .initial server Cluster.oneReplica, clock := 0 }
    (Cluster.handshake 1 ++
      [.request 5 2 (Command.set (ascii "key") (ascii "value") (some 1000)).construct, .send 1,
        .deliver (fun _ => 10) 1])

theorem map_afterExpiringSet : afterExpiringSet.map (fun s =>
    decide ((s.cluster.server.talkers 1).isOpen ∧
      ⟨ascii "key", ascii "value", some 1000⟩ ∈ (s.cluster.nodes 1).applied ∧
      s.cluster.downstream 1 = [] ∧
      (s.cluster.server.middleware.storage.get (10 ^ 9) (ascii "key")).1 =
        some (ascii "value"))) = some true := by
  decide +kernel

theorem afterExpiringSet_isSome : afterExpiringSet.isSome := by
  rw [← Option.isSome_map, map_afterExpiringSet]
  rfl

theorem replica_outlives_afterExpiringSet :
    (((afterExpiringSet.get afterExpiringSet_isSome).cluster.nodes 1).storage.get (10 ^ 9)
      (ascii "key")).1 = some (ascii "value") := by
  obtain ⟨s, hrun, hs⟩ := Option.map_eq_some_iff.mp map_afterExpiringSet
  obtain ⟨hopen, hexecuted, hquiet, hget⟩ := of_decide_eq_true hs
  rw [Option.get_of_eq_some afterExpiringSet_isSome hrun]
  exact @replica_outlives Cluster.oneReplica 1 (fun _ => 0) { masterReplid := [] } none _ rfl
    rfl 0 s (Machine.Reachable.run .init hrun) hopen ⟨ascii "key", ascii "value", some 1000⟩
    hexecuted (by simp [hquiet]) (10 ^ 9) (ascii "value") hget

/-- At the deadline the master has dropped what the replica still has. -/
example : afterExpiringSet.map (fun s =>
    ((s.cluster.server.middleware.storage.get (10 ^ 9 + 5) (ascii "key")).1,
      ((s.cluster.nodes 1).storage.get (10 ^ 9 + 5) (ascii "key")).1)) =
    some (none, some (ascii "value")) := by
  decide +kernel

end TimedCluster

end BuildYourOwnRedis
