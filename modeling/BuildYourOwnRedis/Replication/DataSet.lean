/-
  Replication/DataSet.lean --- data sets without deadlines, and what SETs make of them.

  What a storage holds is a map from keys to values, and so is what a dump holds.  As long
  as nothing in them has a deadline, GET erases nothing, and every message that the master
  gets, other than an XADD that adds an entry, does to its data what the SETs do that it
  accepts.
-/
import BuildYourOwnRedis.Rdb.Lasting
import BuildYourOwnRedis.Replication.Moves
import BuildYourOwnRedis.Replication.WriteProtection

set_option autoImplicit false

namespace BuildYourOwnRedis

open Foundation

/-! ## Maps -/

namespace Reference

/-- What is at the keys. -/
def of (values : Values) : Reference := fun key => values.lookup key

@[simp] theorem of_insert (values : Values) (key : Bytes) (value : Value) :
    of (values.insert key value) = (of values).store key value := by
  funext key'
  by_cases hkey : key' = key
  · subst hkey
    simp [of, store]
  · simp [of, store, hkey]

/-- Two data sets are the same if they are so at the keys of either, which makes it decidable.
-/
theorem of_eq_iff (values values' : Values) : of values = of values' ↔
    ∀ key ∈ values.keys ++ values'.keys, values.lookup key = values'.lookup key := by
  constructor
  · intro heq key _
    exact congrFun heq key
  · intro hkeys
    funext key
    by_cases hmem : key ∈ values.keys ++ values'.keys
    · exact hkeys key hmem
    · have hnone := not_or.mp (mt List.mem_append.mpr hmem)
      exact (AList.lookup_eq_none.mpr hnone.1).trans (AList.lookup_eq_none.mpr hnone.2).symm

instance (values values' : Values) : Decidable (of values = of values') :=
  decidable_of_iff _ (of_eq_iff values values').symm

/-- No string has a deadline, so time makes no difference to what is live. -/
def Undated (m : Reference) : Prop :=
  ∀ key str, m key = some (.string str) → str.expireTime = none

theorem Undated.store_string {m : Reference} (hm : m.Undated) (key data : Bytes) :
    (m.store key (.string { data := data })).Undated := by
  intro key' str hstr
  unfold store at hstr
  split at hstr
  · obtain rfl := Value.string.inj (Option.some.inj hstr)
    rfl
  · exact hm key' str hstr

theorem Undated.store_stream {m : Reference} (hm : m.Undated) (key : Bytes)
    (stream : StreamValue) : (m.store key (.stream stream)).Undated := by
  intro key' str hstr
  unfold store at hstr
  split at hstr
  · cases hstr
  · exact hm key' str hstr

/-- What has no deadline does not expire. -/
theorem Undated.isExpired {m : Reference} (hm : m.Undated) (key : Bytes) (now : Timepoint) :
    (m key).any (Value.isExpired now) = false := by
  cases hvalue : m key with
  | none => rfl
  | some value =>
      cases value with
      | stream stream => rfl
      | string str => simp [Value.isExpired, hm key str hvalue]

theorem Undated.eq_of_sameData {now : Timepoint} {values values' : Values}
    (h : SameData now values values') (hm : (of values).Undated) (hm' : (of values').Undated) :
    of values' = of values := by
  funext key
  have hat : liveAt now (of values' key) = liveAt now (of values key) := h key now le_rfl
  rwa [liveAt_eq_self (hm.isExpired key now), liveAt_eq_self (hm'.isExpired key now)] at hat

/-- SETs without a deadline, one after the other. -/
def setAll (sets : List SetRequest) (m : Reference) : Reference :=
  sets.foldl (fun m r => m.store r.key (.string { data := r.value })) m

@[simp] theorem setAll_nil (m : Reference) : m.setAll [] = m := rfl

theorem setAll_append (xs ys : List SetRequest) (m : Reference) :
    m.setAll (xs ++ ys) = (m.setAll xs).setAll ys :=
  List.foldl_append

end Reference

/-! ## Dumps -/

/-- What a storage holds that has loaded a dump. -/
def snapshot (dump : Bytes) : Values :=
  ((rdbParse (fun _ => 0) dump).1.foldl
    (fun s r => s.restore r.key r.value r.expireTime) ({} : Storage Unit)).values

theorem restore_undated {κ : Type} {restored : List Restored}
    (h : ∀ r ∈ restored, r.expireTime = none) {s : Storage κ}
    (hs : (Reference.of s.values).Undated) :
    (Reference.of (restored.foldl (fun s r => s.restore r.key r.value r.expireTime)
      s).values).Undated := by
  induction restored generalizing s with
  | nil => exact hs
  | cons r restored ih =>
      refine ih (fun r hr => h r (List.mem_cons_of_mem _ hr)) ?_
      simp only [h r List.mem_cons_self, Storage.restore, Reference.of_insert]
      exact hs.store_string r.key r.value

/-- An empty storage loads a dump without deadlines, at any time. -/
theorem Lasting.load_values {dump : Bytes} (h : Lasting dump) (clock : Nat → Timepoint)
    {node : ReplicaTalker} (hnode : node.storage.values = ∅) :
    (node.load clock dump).storage.values = snapshot dump := by
  unfold ReplicaTalker.load snapshot
  rw [h.rdbParse_eq clock fun _ => 0]
  rcases rdbParse (fun _ => 0) dump with ⟨restored, e | ⟨⟩⟩
  · simp only [ReplicaTalker.restored_write, hnode]
  · simp only [ReplicaTalker.restored_write, hnode]

/-! ## The master -/

namespace Server

/-- The data of a server. -/
def data (s : Server) : Reference := .of s.values

/-- The dump that PSYNC sends holds what the server holds.  It is the file from which the
server was loaded at its start, so a SET that is accepted later is not in it. -/
def Current (s : Server) : Prop := s.data = .of (snapshot s.dump)

instance (s : Server) : Decidable s.Current :=
  inferInstanceAs (Decidable (Reference.of s.values = .of (snapshot s.dump)))

/-- Messages have come, and these are the SETs among them that were accepted; none of them with
an expiry. -/
structure Accepts (sets : List SetRequest) (s s' : Server) : Prop where
  undated : s'.data.Undated
  accepted : s'.middleware.accepted = s.middleware.accepted ++ sets
  expireMs : ∀ r ∈ sets, r.expireMs = none

theorem accepts_nothing {s s' : Server} (hs : s.data.Undated) (hvalues : s'.values = s.values)
    (haccepted : s'.middleware.accepted = s.middleware.accepted) : Accepts [] s s' := by
  refine ⟨?_, by rw [haccepted, List.append_nil], by simp⟩
  rwa [data, hvalues]

theorem listenReplConf_accepted {slot : Slot} {args : List Bytes} {s s' : Server}
    (h : s.listenReplConf slot args = some s') :
    s'.middleware.accepted = s.middleware.accepted := by
  have hregister : (s.register slot.conn).2.middleware.accepted = s.middleware.accepted := by
    unfold register
    split <;> rfl
  obtain ⟨answered, result, s₁, hconf, hupdate, rfl⟩ := listenReplConf_cases h
  have haccepted : s₁.middleware.accepted = s.middleware.accepted := by
    rw [(update_middleware hupdate).1, ← hregister]
    rcases StorageMiddleware.replicaProcessConf_cases hconf with rfl | ⟨bytesAck, rfl⟩
    · rfl
    · rw [StorageMiddleware.acknowledge_eq, StorageMiddleware.replyAll_accepted]
      rfl
  split
  · exact haccepted
  · exact haccepted

theorem listenPsync_accepted (slot : Slot) (s : Server) :
    (s.listenPsync slot).middleware.accepted = s.middleware.accepted := by
  simp only [listenPsync]
  split <;> rfl

/-- XADD keeps a data set without deadlines, and GET does. -/
theorem xadd_undated {κ : Type} {s : Storage κ} (hs : (Reference.of s.values).Undated)
    (now : Timepoint) (key : Bytes) (id : InputStreamId) (values : StreamPartValue) :
    (Reference.of (s.xadd now key id values).2.values).Undated := by
  rw [(Expiring.xadd_eq now key id values s).2]
  split
  · rw [Reference.of_insert]
    exact hs.store_stream key _
  · exact hs

theorem get_values {κ : Type} {s : Storage κ} (hs : (Reference.of s.values).Undated)
    (now : Timepoint) (key : Bytes) : (s.get now key).2.values = s.values := by
  unfold Storage.get
  split
  · rfl
  · rfl
  · next str hlookup =>
      simp [hs key str hlookup]

/-- What the SETs are that a message makes the master accept, and that its data follows
them unless an entry is added to a stream. -/
theorem execute_accepts {now : Timepoint} {slot : Slot} {message : Message}
    {command : Command} {s s' : Server} (hs : s.data.Undated)
    (hplain : ∀ r ∈ setOf message, r.expireMs = none)
    (hparse : Command.tryParse message = .ok command)
    (h : s.execute now slot command = some s') :
    ∃ sets, Accepts sets s s' ∧ (¬ s.Adds now message → s'.data = s.data.setAll sets) := by
  have hequal : s'.values = s.values ∧ s'.middleware.accepted = s.middleware.accepted →
      ∃ sets, Accepts sets s s' ∧ (¬ s.Adds now message → s'.data = s.data.setAll sets) :=
    fun ⟨hvalues, haccepted⟩ => ⟨[], accepts_nothing hs hvalues haccepted, fun _ => by
      rw [data, hvalues, Reference.setAll_nil, data]⟩
  cases command with
  | ping => exact hequal (Option.some.inj h ▸ ⟨rfl, rfl⟩)
  | echo data => exact hequal (Option.some.inj h ▸ ⟨rfl, rfl⟩)
  | info args => exact hequal (Option.some.inj h ▸ ⟨rfl, rfl⟩)
  | keys arg => exact hequal (Option.some.inj h ▸ ⟨rfl, rfl⟩)
  | config action args => exact hequal (Option.some.inj h ▸ ⟨rfl, rfl⟩)
  | type key => exact hequal (Option.some.inj h ▸ ⟨rfl, rfl⟩)
  | xrange key leftId rightId =>
      obtain ⟨entries, -, rfl⟩ := Option.map_eq_some_iff.mp h
      exact hequal ⟨rfl, rfl⟩
  | get key =>
      obtain rfl := Option.some.inj h
      exact hequal ⟨get_values hs now key, rfl⟩
  | psync args =>
      obtain rfl := Option.some.inj h
      exact hequal ⟨(s.listenPsync_values slot).1, s.listenPsync_accepted slot⟩
  | replConf args => exact hequal ⟨(listenReplConf_values h).1, listenReplConf_accepted h⟩
  | wait replicas timeoutMs =>
      obtain ⟨hmiddleware, -⟩ := update_middleware h
      refine hequal ⟨?_, ?_⟩
      · rw [values, hmiddleware, StorageMiddleware.waitFor_storage]
        rfl
      · rw [hmiddleware]
        simp only [StorageMiddleware.waitFor]
        split <;> rfl
  | xread request blockMs =>
      obtain ⟨⟨storage, calls⟩, hread, hanswer⟩ := Option.bind_eq_some_iff.mp h
      exact hequal ⟨(updateStorage_values hanswer).1.trans (Storage.xread_values hread),
        (updateStorage_moves hanswer).accepted⟩
  | xadd key id values =>
      obtain rfl := Option.some.inj h
      have hafter := xadd_undated hs now key id values
      refine ⟨[], ⟨hafter, (List.append_nil _).symm, by simp⟩, fun hadds => ?_⟩
      rw [Adds, hparse] at hadds
      have hsame := (Storage.xadd_sameData_iff now now key id values
        s.middleware.storage).mpr hadds
      exact Reference.Undated.eq_of_sameData hsame hs hafter
  | set key value expireMs =>
      simp only [execute] at h
      split at h
      · exact hequal (Option.some.inj h ▸ ⟨rfl, rfl⟩)
      · obtain ⟨s₁, hset, h⟩ := Option.bind_eq_some_iff.mp h
        obtain rfl := Option.some.inj h
        obtain rfl : expireMs = none := hplain ⟨key, value, expireMs⟩ (by simp [setOf, hparse])
        obtain ⟨hmiddleware, -⟩ := update_middleware hset
        have hdata : (s₁.nextSay slot (.simpleString (ascii "OK"))).data =
            s.data.setAll [⟨key, value, none⟩] := by
          have hvalues : (s₁.nextSay slot (.simpleString (ascii "OK"))).values =
              s.values.insert key (.string { data := value }) := by
            change s₁.middleware.storage.values = _
            rw [hmiddleware]
            rfl
          rw [data, hvalues, Reference.of_insert]
          rfl
        refine ⟨[⟨key, value, none⟩], ⟨?_, ?_, by simp⟩, fun _ => hdata⟩
        · rw [hdata]
          exact hs.store_string key value
        · change s₁.middleware.accepted = _
          rw [hmiddleware]
          rfl

/-- The same for what comes on a connection. -/
theorem receive_accepts {now : Timepoint} {conn : Nat} {message : Message} {s s' : Server}
    (hs : s.data.Undated) (hplain : ∀ r ∈ setOf message, r.expireMs = none)
    (h : s.receive now conn message = some s') :
    ∃ sets, Accepts sets s s' ∧ (¬ s.Adds now message → s'.data = s.data.setAll sets) := by
  obtain ⟨command, hparse, h⟩ | ⟨what, -, rfl⟩ := listen_cases (listen_of_receive h).2
  · obtain ⟨sets, haccepts, hdata⟩ :=
      execute_accepts (s := s.recordRequest conn message) hs hplain hparse h
    exact ⟨sets, ⟨haccepts.undated, haccepts.accepted, haccepts.expireMs⟩, hdata⟩
  · exact ⟨[], accepts_nothing hs rfl rfl, fun _ => rfl⟩

/-- What else happens on the side of the clients: no SET is accepted, and the data stay what
they are. -/
theorem step_accepts {a : ServerAction} (ha : ∀ now conn message, a ≠ .receive now conn message)
    {s s' : Server} (hs : s.data.Undated) (h : s.step a = some s') :
    Accepts [] s s' ∧ s'.data = s.data := by
  have hvalues := (step_values ha h).1
  refine ⟨accepts_nothing hs hvalues ?_, congrArg Reference.of hvalues⟩
  cases a with
  | receive now conn message => exact absurd rfl (ha now conn message)
  | runJob => exact (runJob_moves h).accepted
  | fireRead i => exact (fireRead_moves h).accepted
  | fireWait i =>
      obtain ⟨result, hfire, hupdate⟩ := Option.bind_eq_some_iff.mp h
      rw [(update_middleware hupdate).1, (StorageMiddleware.fireWait_replicas hfire).2.1]
  | say conn =>
      obtain ⟨⟨message, s₁⟩, hsay, rfl⟩ := Option.map_eq_some_iff.mp h
      obtain ⟨pending, -, rfl⟩ := say_cases hsay
      rfl
  | disconnect conn =>
      obtain rfl := Option.some.inj h
      simp only [disconnect]
      split <;> rfl

/-- The file stays what it is. -/
theorem step_dump {a : ServerAction} {s s' : Server} (h : s.step a = some s') :
    s'.dump = s.dump := by
  refine dump_eq ?_
  cases a with
  | receive now conn message => exact receive_dbFile h
  | runJob => exact runJob_dbFile h
  | fireRead i => exact fireRead_dbFile h
  | fireWait i => exact fireWait_dbFile h
  | say conn =>
      obtain ⟨⟨message, s₁⟩, hsay, rfl⟩ := Option.map_eq_some_iff.mp h
      obtain ⟨pending, -, rfl⟩ := say_cases hsay
      rfl
  | disconnect conn =>
      obtain rfl := Option.some.inj h
      exact disconnect_dbFile conn s

/-- A server that has just started from a dump without deadlines. -/
theorem start_undated {clock : Nat → Timepoint} {info : ServerInfo} {dbFile : Option Bytes}
    {s : Server} (h : start clock info dbFile = some s) (hlasting : Lasting s.dump) :
    s.data.Undated := by
  have hempty : (Reference.of (∅ : Values)).Undated := by
    intro key str hstr
    cases hstr
  unfold start at h
  cases dbFile with
  | none =>
      obtain rfl := Option.some.inj h
      exact hempty
  | some file =>
      rcases hparse : rdbParse clock file with ⟨restored, _ | _⟩
      · simp [hparse] at h
      · simp only [hparse, Option.some.injEq] at h
        subst h
        have hrestored : ∀ r ∈ restored, r.expireTime = none := by
          intro r hr
          refine hlasting clock r ?_
          change r ∈ (rdbParse clock file).1
          rwa [hparse]
        exact restore_undated hrestored hempty

end Server

end BuildYourOwnRedis
