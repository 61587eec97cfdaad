/-
  Replication/WriteProtection.lean --- what clients can do to the data of a replica.

  A `ReplicaServer` is a server that was started with `--replicaof`: clients talk to its
  `ServerTalker`s, its master to its `ReplicaTalker`, and both work on one storage.  Beside
  it runs a `ReplicaTalker` that gets the same messages of the master on a storage of its
  own, to which no client comes: its data is what the data of a replica should be.

  GET erases a string whose time is over.  Two data sets are therefore compared by the
  values that are live, at every time that no clock reading of a client's step has passed.
-/
import BuildYourOwnRedis.Foundation.Transition
import BuildYourOwnRedis.Replication.Cluster
import BuildYourOwnRedis.Server.ReplyOrder
import BuildYourOwnRedis.Storage.Append
import BuildYourOwnRedis.Storage.Expiry
import BuildYourOwnRedis.Storage.Blocking

set_option autoImplicit false

namespace BuildYourOwnRedis

open Foundation

/-! ## Data sets -/

/-- From a time on the same values are live.  An expired string that is still stored is no
data, so it makes no difference whether a GET has erased it. -/
def SameData (now : Timepoint) (values values' : Values) : Prop :=
  ∀ key later, now ≤ later → liveAt later (values'.lookup key) = liveAt later (values.lookup key)

theorem SameData.refl (now : Timepoint) (values : Values) : SameData now values values :=
  fun _ _ _ => rfl

theorem SameData.trans {now : Timepoint} {values values' values'' : Values}
    (h : SameData now values values') (h' : SameData now values' values'') :
    SameData now values values'' :=
  fun key later hle => (h' key later hle).trans (h key later hle)

theorem SameData.later {now now' : Timepoint} {values values' : Values}
    (h : SameData now values values') (hle : now ≤ now') : SameData now' values values' :=
  fun key later hlater => h key later (le_trans hle hlater)

/-- The same value is stored in both. -/
theorem SameData.insert {now : Timepoint} {values values' : Values}
    (h : SameData now values values') (key : Bytes) (value : Value) :
    SameData now (values.insert key value) (values'.insert key value) := by
  intro key' later hle
  by_cases hkey : key' = key
  · subst hkey
    rw [AList.lookup_insert, AList.lookup_insert]
  · rw [AList.lookup_insert_ne hkey, AList.lookup_insert_ne hkey]
    exact h key' later hle

namespace Storage

variable {κ : Type}

/-- GET erases only what has expired. -/
theorem get_sameData (now : Timepoint) (key : Bytes) (s : Storage κ) :
    SameData now s.values (s.get now key).2.values :=
  fun key' _ hle => liveAt_get hle key key' s

/-- An entry with a new id is added to a stream.  An append that fails, or whose id is there
already, adds none. -/
def Adds (now : Timepoint) (key : Bytes) (id : InputStreamId) (values : StreamPartValue)
    (s : Storage κ) : Prop :=
  match s.storedStream key with
  | .error _ => False
  | .ok stream =>
      match stream.append now id values with
      | .error _ => False
      | .ok (added, _) => added ∉ stream.data.entries.map Prod.fst

instance (now : Timepoint) (key : Bytes) (id : InputStreamId) (values : StreamPartValue)
    (s : Storage κ) : Decidable (s.Adds now key id values) := by
  unfold Adds
  split
  · infer_instance
  · split <;> infer_instance

/-- XADD changes the data exactly if it adds an entry, and streams do not expire.  An append
that fails, or whose entry is there already, leaves the data as they are. -/
theorem xadd_sameData_iff (now later : Timepoint) (key : Bytes) (id : InputStreamId)
    (values : StreamPartValue) (s : Storage κ) :
    SameData later s.values (s.xadd now key id values).2.values ↔
      ¬ s.Adds now key id values := by
  unfold xadd xaddValues Adds
  cases hstored : s.storedStream key with
  | error e => simp [SameData.refl]
  | ok stream =>
      cases happend : stream.append now id values with
      | error e => simp [happend, SameData.refl]
      | ok p =>
          obtain ⟨added, stream'⟩ := p
          obtain ⟨hnull, rfl, -⟩ := StreamValue.append_cases happend
          simp only [happend, not_not]
          constructor
          · intro hsame
            have hat := hsame key later le_rfl
            rw [AList.lookup_insert, liveAt_eq_self (by rfl)] at hat
            have hmem := stream.data.mem_emplace added values
            unfold storedStream at hstored
            cases hlookup : s.values.lookup key with
            | none =>
                rw [hlookup] at hat
                cases hat
            | some value =>
                rw [hlookup] at hat hstored
                cases value with
                | string str => cases hstored
                | stream stored =>
                    obtain rfl := Except.ok.inj hstored
                    rw [liveAt_eq_self (by rfl)] at hat
                    have heq := StreamValue.mk.inj (Value.stream.inj (Option.some.inj hat))
                    rwa [heq] at hmem
          · intro hmem
            rw [SortedMap.emplace_of_mem values hmem]
            -- a stream with an entry is stored
            have hlookup : s.values.lookup key = some (.stream stream) := by
              unfold storedStream at hstored
              rcases hat : s.values.lookup key with _ | _ | stored
              · rw [hat] at hstored
                obtain rfl := Except.ok.inj hstored
                cases hmem
              · rw [hat] at hstored
                cases hstored
              · rw [hat] at hstored
                rw [Except.ok.inj hstored]
            intro key' time _
            by_cases hkey : key' = key
            · subst hkey
              rw [AList.lookup_insert, hlookup]
            · rw [AList.lookup_insert_ne hkey]

end Storage

/-! ## What the operations of a server leave alone -/

namespace StorageMiddleware

variable {κ : Type}

theorem waitFor_storage (count : UInt64) (slot : κ) (m : StorageMiddleware κ) :
    (m.waitFor count slot).1.storage = m.storage := by
  simp only [waitFor]
  split <;> rfl

theorem fireWait_storage {m : StorageMiddleware κ} {i : Nat}
    {result : StorageMiddleware κ × List (κ × Message)} (h : m.fireWait i = some result) :
    result.1.storage = m.storage := by
  unfold fireWait at h
  split at h
  · cases h
  · simp only at h
    split at h
    · split at h
      · cases h
      · obtain rfl := Option.some.inj h
        rfl
    · obtain rfl := Option.some.inj h
      rfl

theorem replicaProcessConf_storage {m : StorageMiddleware κ} {id : Nat} {args : List Bytes}
    {answered : Bool} {result : StorageMiddleware κ × List (κ × Message)}
    (h : m.replicaProcessConf id args = some (answered, result)) :
    result.1.storage = m.storage := by
  rcases replicaProcessConf_cases h with rfl | ⟨bytesAck, rfl⟩
  · rfl
  · exact replyAll_storage _ _

end StorageMiddleware

/-- A read that blocks changes no value. -/
theorem Storage.xread_values {κ : Type} {s s' : Storage κ} {request : StreamsReadRequest}
    {blockMs : Option UInt64} {k : κ} {calls : List (Storage.Call κ)}
    (h : s.xread request blockMs k = some (s', calls)) : s'.values = s.values := by
  obtain ⟨result, -, ⟨rfl, -⟩ | ⟨ms, -, -, -, hblock⟩⟩ := Storage.xread_cases h
  · rfl
  · unfold Storage.block at hblock
    simp only [Option.bind_eq_bind, Option.pure_def, Option.bind_eq_some_iff,
      Option.some.injEq] at hblock
    obtain ⟨resolved, -, rfl⟩ := hblock
    rw [Storage.release_values]

namespace Server

/-- The contents of the storage. -/
def values (s : Server) : Values := s.middleware.storage.values

theorem update_middleware {result : StorageMiddleware Slot × List (Slot × Message)}
    {s s' : Server} (h : s.update result = some s') :
    s'.middleware = result.1 ∧ s'.info = s.info := by
  have hqueues := callAll_queues h 0
  exact ⟨hqueues.middleware, hqueues.info⟩

theorem updateStorage_values {result : Storage Slot × List (Storage.Call Slot)}
    {s s' : Server} (h : s.updateStorage result = some s') :
    s'.values = result.1.values ∧ s'.info = s.info := by
  obtain ⟨slots, hqueues, -⟩ := answerAll_queues h 0
  refine ⟨?_, hqueues.info⟩
  rw [values, hqueues.middleware]
  rfl

theorem register_values (conn : Nat) (s : Server) :
    (s.register conn).2.values = s.values ∧ (s.register conn).2.info = s.info := by
  unfold register
  split <;> exact ⟨rfl, rfl⟩

theorem listenReplConf_values {slot : Slot} {args : List Bytes} {s s' : Server}
    (h : s.listenReplConf slot args = some s') : s'.values = s.values ∧ s'.info = s.info := by
  obtain ⟨hvalues, hinfo⟩ := s.register_values slot.conn
  obtain ⟨answered, result, s₁, hconf, hupdate, rfl⟩ := listenReplConf_cases h
  obtain ⟨hmiddleware, hinfo'⟩ := update_middleware hupdate
  have hstorage := StorageMiddleware.replicaProcessConf_storage hconf
  have hafter : s₁.values = s.values ∧ s₁.info = s.info := by
    refine ⟨?_, hinfo'.trans hinfo⟩
    rw [values, hmiddleware, hstorage]
    exact hvalues
  split
  · exact hafter
  · exact hafter

theorem listenPsync_values (slot : Slot) (s : Server) :
    (s.listenPsync slot).values = s.values ∧ (s.listenPsync slot).info = s.info := by
  simp only [listenPsync]
  split <;> exact ⟨rfl, rfl⟩

/-- A client adds an entry to a stream. -/
def Adds (now : Timepoint) (message : Message) (s : Server) : Prop :=
  match Command.tryParse message with
  | .ok (.xadd key id values) => s.middleware.storage.Adds now key id values
  | _ => False

instance (now : Timepoint) (message : Message) (s : Server) :
    Decidable (s.Adds now message) := by
  unfold Adds
  split <;> infer_instance

/-- A command of a client of a replica changes the data exactly if it adds an entry.  SET is
refused, and GET erases only what is not live any more. -/
theorem execute_sameData_iff {now later : Timepoint} {slot : Slot} {message : Message}
    {command : Command} {s s' : Server} (hle : now ≤ later)
    (hreplica : s.info.isReplica = true)
    (hparse : Command.tryParse message = .ok command)
    (h : s.execute now slot command = some s') :
    s'.info = s.info ∧ (SameData later s.values s'.values ↔ ¬ s.Adds now message) := by
  have hkept : (∀ key id values, command ≠ .xadd key id values) →
      SameData later s.values s'.values →
      (SameData later s.values s'.values ↔ ¬ s.Adds now message) := by
    refine fun hother hsame => iff_of_true hsame ?_
    rw [Adds, hparse]
    split
    · next key id values hxadd => exact absurd (Except.ok.inj hxadd) (hother key id values)
    · exact id
  have hequal : (∀ key id values, command ≠ .xadd key id values) →
      s'.values = s.values ∧ s'.info = s.info →
      s'.info = s.info ∧ (SameData later s.values s'.values ↔ ¬ s.Adds now message) :=
    fun hother hsame => ⟨hsame.2, hkept hother (hsame.1 ▸ .refl later s.values)⟩
  cases command with
  | ping => exact hequal (by simp) (Option.some.inj h ▸ ⟨rfl, rfl⟩)
  | echo data => exact hequal (by simp) (Option.some.inj h ▸ ⟨rfl, rfl⟩)
  | info args => exact hequal (by simp) (Option.some.inj h ▸ ⟨rfl, rfl⟩)
  | keys arg => exact hequal (by simp) (Option.some.inj h ▸ ⟨rfl, rfl⟩)
  | config action args => exact hequal (by simp) (Option.some.inj h ▸ ⟨rfl, rfl⟩)
  | type key => exact hequal (by simp) (Option.some.inj h ▸ ⟨rfl, rfl⟩)
  | xrange key leftId rightId =>
      obtain ⟨entries, -, rfl⟩ := Option.map_eq_some_iff.mp h
      exact hequal (by simp) ⟨rfl, rfl⟩
  | set key value expireMs =>
      simp only [execute, hreplica, if_true] at h
      exact hequal (by simp) (Option.some.inj h ▸ ⟨rfl, rfl⟩)
  | get key =>
      obtain rfl := Option.some.inj h
      exact ⟨rfl, hkept (by simp) ((Storage.get_sameData now key s.middleware.storage).later hle)⟩
  | xadd key id values =>
      obtain rfl := Option.some.inj h
      rw [Adds, hparse]
      exact ⟨rfl, Storage.xadd_sameData_iff now later key id values s.middleware.storage⟩
  | psync args => exact hequal (by simp) (Option.some.inj h ▸ s.listenPsync_values slot)
  | replConf args => exact hequal (by simp) (listenReplConf_values h)
  | wait replicas timeoutMs =>
      obtain ⟨hmiddleware, hinfo⟩ := update_middleware h
      refine hequal (by simp) ⟨?_, hinfo⟩
      rw [values, hmiddleware, StorageMiddleware.waitFor_storage]
      rfl
  | xread request blockMs =>
      obtain ⟨⟨storage, calls⟩, hread, hanswer⟩ := Option.bind_eq_some_iff.mp h
      obtain ⟨hvalues, hinfo⟩ := updateStorage_values hanswer
      exact hequal (by simp) ⟨hvalues.trans (Storage.xread_values hread), hinfo⟩

/-- The same for what comes on a connection. -/
theorem receive_sameData_iff {now later : Timepoint} {conn : Nat} {message : Message}
    {s s' : Server} (hle : now ≤ later)
    (hreplica : s.info.isReplica = true)
    (h : s.receive now conn message = some s') :
    s'.info = s.info ∧ (SameData later s.values s'.values ↔ ¬ s.Adds now message) := by
  obtain ⟨command, hparse, h⟩ | ⟨what, hparse, rfl⟩ := listen_cases (listen_of_receive h).2
  · exact execute_sameData_iff (s := s.recordRequest conn message) hle hreplica hparse h
  · refine ⟨rfl, iff_of_true (.refl later s.values) ?_⟩
    rw [Adds, hparse]
    exact id

/-- What else happens on the side of the clients changes no value: jobs and timeouts answer
readers, and waits store nothing. -/
theorem step_values {a : ServerAction} (ha : ∀ now conn message, a ≠ .receive now conn message)
    {s s' : Server} (h : s.step a = some s') : s'.values = s.values ∧ s'.info = s.info := by
  cases a with
  | receive now conn message => exact absurd rfl (ha now conn message)
  | say conn =>
      obtain ⟨⟨message, s₁⟩, hsay, rfl⟩ := Option.map_eq_some_iff.mp h
      obtain ⟨pending, -, rfl⟩ := say_cases hsay
      exact ⟨rfl, rfl⟩
  | disconnect conn =>
      obtain rfl := Option.some.inj h
      simp only [disconnect]
      split <;> exact ⟨rfl, rfl⟩
  | runJob =>
      obtain ⟨⟨storage, calls⟩, hrun, hanswer⟩ := Option.bind_eq_some_iff.mp h
      obtain ⟨hvalues, hinfo⟩ := updateStorage_values hanswer
      obtain ⟨job, jobs, -, hwake⟩ := Storage.runJob_replies hrun
      exact ⟨hvalues.trans (Storage.wake_replies hwake).values_eq, hinfo⟩
  | fireRead i =>
      obtain ⟨⟨storage, calls⟩, hfire, hanswer⟩ := Option.bind_eq_some_iff.mp h
      obtain ⟨hvalues, hinfo⟩ := updateStorage_values hanswer
      obtain ⟨handles, hwake⟩ := Storage.fire_replies hfire
      exact ⟨hvalues.trans (Storage.wake_replies hwake).values_eq, hinfo⟩
  | fireWait i =>
      obtain ⟨result, hfire, hupdate⟩ := Option.bind_eq_some_iff.mp h
      obtain ⟨hmiddleware, hinfo⟩ := update_middleware hupdate
      refine ⟨?_, hinfo⟩
      rw [values, hmiddleware, StorageMiddleware.fireWait_storage hfire]
      rfl

end Server

/-! ## The master's messages -/

namespace ReplicaTalker

/-- The same talker on another storage. -/
def onValues (values : Values) (t : ReplicaTalker) : ReplicaTalker :=
  { t with storage := { t.storage with values := values } }

/-- What a list of writes makes of the values. -/
def write (writes : List (Bytes × Value)) (values : Values) : Values :=
  writes.foldl (fun values entry => values.insert entry.1 entry.2) values

theorem write_sameData {now : Timepoint} {values values' : Values}
    (h : SameData now values values') (writes : List (Bytes × Value)) :
    SameData now (write writes values) (write writes values') := by
  induction writes generalizing values values' with
  | nil => exact h
  | cons entry writes ih => exact ih (h.insert entry.1 entry.2)

theorem restored_write (restored : List Restored) (storage : Storage Unit) :
    restored.foldl (fun s r => s.restore r.key r.value r.expireTime) storage =
      { storage with values := write (restored.map fun r =>
        (r.key, .string { data := r.value, expireTime := r.expireTime })) storage.values } := by
  induction restored generalizing storage with
  | nil => rfl
  | cons r restored ih => exact ih _

/-- What a command of the master writes, and that nothing else depends on the storage.  So the
same writes are made on any other storage. -/
def Writes (f : ReplicaTalker → Option ReplicaTalker) (t t' : ReplicaTalker) : Prop :=
  ∃ writes, t'.storage = { t.storage with values := write writes t.storage.values } ∧
    ∀ values, f (t.onValues values) = some (t'.onValues (write writes values))

/-- Nothing is written. -/
theorem Writes.nothing {f : ReplicaTalker → Option ReplicaTalker} {t t' : ReplicaTalker}
    (hstorage : t'.storage = t.storage)
    (h : ∀ values, f (t.onValues values) = some (t'.onValues values)) : Writes f t t' :=
  ⟨[], hstorage, h⟩

theorem execute_writes {now : Timepoint} {command : Command} {t t' : ReplicaTalker}
    (h : t.execute now command = some t') : Writes (execute now command) t t' := by
  cases command with
  | set key value expireMs =>
      obtain rfl := Option.some.inj h
      exact ⟨[(key, .string { data := value
                              expireTime := expireMs.map fun ms => now + ms * 10 ^ 6 })],
        rfl, fun _ => rfl⟩
  | replConf args =>
      cases args with
      | nil => cases h
      | cons name args =>
          simp only [execute] at h
          by_cases hgetack : toLowerCase name = ascii "getack"
          · rw [if_pos hgetack] at h
            cases args with
            | nil => cases h
            | cons arg args =>
                by_cases hstar : arg = ascii "*"
                · simp only [hstar, if_true] at h
                  obtain rfl := Option.some.inj h
                  refine .nothing rfl fun values => ?_
                  simp only [execute, hgetack, hstar, if_true]
                  rfl
                · simp only [hstar, if_false] at h
                  obtain rfl := Option.some.inj h
                  refine .nothing rfl fun values => ?_
                  simp only [execute, hgetack, hstar, if_true, if_false]
          · rw [if_neg hgetack] at h
            obtain rfl := Option.some.inj h
            refine .nothing rfl fun values => ?_
            simp only [execute, hgetack, if_false]
  | _ => exact .nothing (Option.some.inj h ▸ rfl) fun values => by rw [← Option.some.inj h]; rfl

theorem process_writes {now : Timepoint} {message : Message} {t t' : ReplicaTalker}
    (h : t.process now message = some t') : Writes (process now message) t t' := by
  unfold process at h
  cases hparse : Command.tryParse message with
  | ok command =>
      rw [hparse] at h
      obtain ⟨t₁, hexecute, rfl⟩ := Option.map_eq_some_iff.mp h
      obtain ⟨writes, hstorage, hany⟩ := execute_writes hexecute
      refine ⟨writes, hstorage, fun values => ?_⟩
      simp only [process, hparse, hany values]
      rfl
  | error fault =>
      rw [hparse] at h
      cases fault with
      | parseError what =>
          obtain rfl := Option.some.inj h
          refine .nothing rfl fun values => ?_
          simp only [process, hparse]
          rfl
      | undefinedBehaviour => cases h

theorem load_writes (clock : Nat → Timepoint) (dump : Bytes) (t : ReplicaTalker) :
    Writes (fun t => some (t.load clock dump)) t (t.load clock dump) := by
  rcases hparse : rdbParse clock dump with ⟨restored, _ | _⟩
  · refine ⟨restored.map fun r =>
      (r.key, .string { data := r.value, expireTime := r.expireTime }), ?_, fun values => ?_⟩
    · simp only [load, hparse, restored_write]
    · simp only [load, hparse, restored_write, onValues]
  · refine ⟨restored.map fun r =>
      (r.key, .string { data := r.value, expireTime := r.expireTime }), ?_, fun values => ?_⟩
    · simp only [load, hparse, restored_write]
    · simp only [load, hparse, restored_write, onValues]

/-- The master writes values into the storage; which, and what the talker does else, does
not depend on what is there. -/
theorem listen_writes {clock : Nat → Timepoint} {message : Message} {t t' : ReplicaTalker}
    (h : t.listen clock message = some t') : Writes (listen clock message) t t' := by
  have hstate : ∀ values, (t.onValues values).state = t.state := fun _ => rfl
  -- a message that was waited for is answered, any other is ignored
  have hhandshake : ∀ (p : Prop) [Decidable p] (next : ReplicaTalker → ReplicaTalker),
      (if p then some (next t) else some t) = some t' → (next t).storage = t.storage →
      (∀ values, next (t.onValues values) = (next t).onValues values) →
      (∀ values, (t.onValues values).listen clock message =
        if p then some (next (t.onValues values)) else some (t.onValues values)) →
      Writes (listen clock message) t t' := by
    intro p _ next ht hstorage hcomm hlisten
    by_cases hp : p
    · rw [if_pos hp] at ht
      obtain rfl := Option.some.inj ht
      refine .nothing hstorage fun values => ?_
      rw [hlisten, if_pos hp, hcomm]
    · rw [if_neg hp] at ht
      obtain rfl := Option.some.inj ht
      refine .nothing rfl fun values => ?_
      rw [hlisten, if_neg hp]
  cases hst : t.state with
  | waitFirstPong =>
      simp only [listen, hst] at h
      exact hhandshake _ (fun t => { t with state := .waitOkForReplConfPort }.nextSay
        (replConfPort t.tcpPort).construct) h rfl (fun _ => rfl)
        fun values => by simp only [listen, hstate, hst]
  | waitOkForReplConfPort =>
      simp only [listen, hst] at h
      exact hhandshake _ (fun t => { t with state := .waitOkForReplConfCapa }.nextSay
        replConfCapa.construct) h rfl (fun _ => rfl)
        fun values => by simp only [listen, hstate, hst]
  | waitOkForReplConfCapa =>
      simp only [listen, hst] at h
      exact hhandshake _ (fun t => { t with state := .waitForPsyncAnswer }.nextSay
        psync.construct) h rfl (fun _ => rfl)
        fun values => by simp only [listen, hstate, hst]
  | waitForPsyncAnswer =>
      simp only [listen, hst] at h
      cases message with
      | simpleString text =>
          obtain rfl := Option.some.inj h
          exact .nothing rfl fun values => by simp only [listen, hstate, hst]; rfl
      | _ =>
          obtain rfl := Option.some.inj h
          exact .nothing rfl fun values => by simp only [listen, hstate, hst]
  | waitForRdbFileSync =>
      simp only [listen, hst] at h
      cases message with
      | syncResponse dump =>
          obtain rfl := Option.some.inj h
          obtain ⟨writes, hstorage, hany⟩ := load_writes clock dump t
          refine ⟨writes, hstorage, fun values => ?_⟩
          simpa only [listen, hstate, hst] using hany values
      | _ =>
          obtain rfl := Option.some.inj h
          exact .nothing rfl fun values => by simp only [listen, hstate, hst]
  | waitServerCommands =>
      simp only [listen, hst] at h
      obtain ⟨writes, hstorage, hany⟩ := process_writes h
      exact ⟨writes, hstorage, fun values => by simpa only [listen, hstate, hst] using hany values⟩
  | undefined =>
      simp only [listen, hst] at h
      obtain rfl := Option.some.inj h
      exact .nothing rfl fun values => by simp only [listen, hstate, hst]
  | init =>
      simp only [listen, hst] at h
      obtain rfl := Option.some.inj h
      exact .nothing rfl fun values => by simp only [listen, hstate, hst]; rfl

end ReplicaTalker

/-! ## A replica, its clients and its master -/

namespace Server

/-- The values of the storage after an operation. -/
def setValues (values : Values) (s : Server) : Server :=
  s.setStorage { s.middleware.storage with values := values }

/-- `StorageMiddleware::set` behind the call of the storage: the replicas of this server
are told. -/
def pushSets : List SetRequest → Server → Option Server
  | [], s => some s
  | r :: requests, s =>
      (s.update ({ s.middleware with accepted := s.middleware.accepted ++ [r] }.push
        (Command.set r.key r.value r.expireMs).construct)).bind (pushSets requests)

theorem pushSets_values {requests : List SetRequest} {s s' : Server}
    (h : pushSets requests s = some s') : s'.values = s.values ∧ s'.info = s.info := by
  induction requests generalizing s with
  | nil =>
      obtain rfl := Option.some.inj h
      exact ⟨rfl, rfl⟩
  | cons r requests ih =>
      obtain ⟨s₁, hupdate, hrest⟩ := Option.bind_eq_some_iff.mp h
      obtain ⟨hmiddleware, hinfo⟩ := update_middleware hupdate
      obtain ⟨hvalues, hinfo'⟩ := ih hrest
      refine ⟨hvalues.trans ?_, hinfo'.trans hinfo⟩
      rw [values, hmiddleware]
      rfl

end Server

/-- A server that follows a master. -/
structure ReplicaServer where
  server : Server
  talker : ReplicaTalker
  /-- Recorded: a talker that got the same messages, on a storage without clients. -/
  reference : ReplicaTalker
  /-- Recorded: no reading of the clock by a step of the clients was later.  What the steps of
  the master read is not recorded: it decides what is stored and until when, in both storages
  alike, and erases nothing. -/
  clock : Timepoint

/-- What can happen to it: anything that can happen to a server through its clients, and
messages of the master. -/
inductive ReplicaServerAction where
  | client (a : ServerAction)
  | master (clock : Nat → Timepoint) (message : Message)

namespace ReplicaServer

/-- The clock behind a step of the clients. -/
def clockAfter (clock : Timepoint) : ServerAction → Timepoint
  | .receive now _ _ => max clock now
  | _ => clock

/-- One step.  The `ReplicaTalker` works on the storage of the server. -/
def step (s : ReplicaServer) : ReplicaServerAction → Option ReplicaServer
  | .client a => do
      let server ← s.server.step a
      return { s with server := server, clock := clockAfter s.clock a }
  | .master clock message => do
      let talker ← (s.talker.onValues s.server.values).listen clock message
      let server ← (s.server.setValues talker.storage.values).pushSets
        (talker.applied.drop s.talker.applied.length)
      let reference ← s.reference.listen clock message
      return { s with server := server, talker := talker, reference := reference }

/-- A server that has just started, and connects to its master. -/
def machine (server : Server) (start : Timepoint) : Machine ReplicaServer ReplicaServerAction where
  init :=
    let talker : ReplicaTalker :=
      { tcpPort := server.info.tcpPort, storage := { values := server.values } }
    { server := server, talker := talker, reference := talker, clock := start }
  step := step

/-- No client adds an entry.  XADD is the one command that writes and is not refused by a
replica. -/
def Careful (s : ReplicaServer) : ReplicaServerAction → Prop
  | .client (.receive now _ message) => ¬ s.server.Adds now message
  | _ => True

instance (s : ReplicaServer) (a : ReplicaServerAction) : Decidable (s.Careful a) := by
  unfold Careful
  split <;> infer_instance

/-- The data set is the same behind a step as before it, expiry by time aside. -/
def KeepsData (s s' : ReplicaServer) : Prop :=
  SameData s'.clock s.server.values s'.server.values

/-- The data set is what the master alone has made of it, expiry by time aside.  The reference
has got the same messages, and no client ever reached it. -/
def FollowsMaster (s : ReplicaServer) : Prop :=
  SameData s.clock s.reference.storage.values s.server.values

/-- The invariant of every run: the talker and its reference differ in what they store only,
and there in nothing that is live. -/
structure Inv (server : Server) (s : ReplicaServer) : Prop where
  info : s.server.info = server.info
  talker : ∃ values, s.talker = s.reference.onValues values

theorem Inv.master {server : Server} {s s' : ReplicaServer} (hs : s.Inv server)
    {clock : Nat → Timepoint} {message : Message}
    (h : s.step (.master clock message) = some s') :
    s'.Inv server ∧ (s.FollowsMaster → s'.FollowsMaster) := by
  simp only [step, Option.bind_eq_bind, Option.pure_def, Option.bind_eq_some_iff,
    Option.some.injEq] at h
  obtain ⟨talker, htalker, after, hpush, reference, hreference, rfl⟩ := h
  obtain ⟨old, hold⟩ := hs.talker
  obtain ⟨writes, hstorage, hany⟩ := ReplicaTalker.listen_writes hreference
  obtain ⟨hvalues, hinfo⟩ := Server.pushSets_values hpush
  have hsame : s.talker.onValues s.server.values = s.reference.onValues s.server.values := by
    rw [hold]
    rfl
  rw [hsame, hany] at htalker
  obtain rfl := Option.some.inj htalker
  refine ⟨⟨hinfo.trans hs.info, _, rfl⟩, fun hfollows => ?_⟩
  have hafter : after.values = ReplicaTalker.write writes s.server.values := hvalues
  simp only [FollowsMaster, hafter, hstorage]
  exact ReplicaTalker.write_sameData hfollows writes

theorem Inv.client {server : Server} (hreplica : server.info.isReplica = true)
    {s s' : ReplicaServer} (hs : s.Inv server) {a : ServerAction}
    (h : s.step (.client a) = some s') :
    s'.Inv server ∧ (s.KeepsData s' ↔ s.Careful (.client a)) ∧
      s'.reference = s.reference ∧ s.clock ≤ s'.clock := by
  simp only [step, Option.bind_eq_bind, Option.pure_def, Option.bind_eq_some_iff,
    Option.some.injEq] at h
  obtain ⟨after, hstep, rfl⟩ := h
  cases a with
  | receive now conn message =>
      obtain ⟨hinfo, hiff⟩ := Server.receive_sameData_iff (le_max_right s.clock now)
        (hs.info ▸ hreplica) hstep
      exact ⟨⟨hinfo.trans hs.info, hs.talker⟩, hiff, rfl, le_max_left s.clock now⟩
  | _ =>
      obtain ⟨hvalues, hinfo⟩ := Server.step_values (by simp) hstep
      refine ⟨⟨hinfo.trans hs.info, hs.talker⟩, iff_of_true ?_ trivial, rfl, le_rfl⟩
      rw [KeepsData]
      exact hvalues ▸ .refl _ _

theorem inv_of_reachable {server : Server} (hreplica : server.info.isReplica = true)
    {start : Timepoint} {s : ReplicaServer} (h : (machine server start).Reachable Anything s) :
    s.Inv server := by
  refine h.invariant ⟨rfl, server.values, rfl⟩ fun s a s' _ hs _ htaken => ?_
  cases a with
  | client a => exact (hs.client hreplica htaken).1
  | master clock message => exact (hs.master htaken).1

/-- **Write protection.**  On a replica a command of a client leaves the data set as it
is if and only if it does not add an entry to a stream; and in a run in which no client
does that, the data set is what the master has made of it. -/
theorem keepsData_iff {server : Server} (hreplica : server.info.isReplica = true)
    {start : Timepoint} {s : ReplicaServer} (h : (machine server start).Reachable Anything s) :
    (∀ a s', s.step (.client a) = some s' → (s.KeepsData s' ↔ s.Careful (.client a))) ∧
      ((machine server start).Reachable Careful s → s.FollowsMaster) := by
  refine ⟨fun a s' htaken => ((inv_of_reachable hreplica h).client hreplica htaken).2.1,
    fun hcareful => ?_⟩
  refine hcareful.invariant (I := FollowsMaster) (.refl start server.values)
    fun s a s' hbefore hs hallowed htaken => ?_
  have hinv := inv_of_reachable hreplica (hbefore.mono fun _ _ _ => trivial)
  cases a with
  | master clock message => exact (hinv.master htaken).2 hs
  | client a =>
      obtain ⟨-, hiff, hreference, hle⟩ := hinv.client hreplica htaken
      rw [FollowsMaster, hreference]
      exact (hs.later hle).trans (hiff.mpr hallowed)

/-- A replica without a file. -/
def replica : Server := { info := { role := ascii "slave", masterReplid := [] } }

/-- A command of a client as it is sent. -/
def command (words : List Bytes) : Message := .array (words.map .bulkString)

/-- A client tries to SET, and the master answers PING. -/
def refused : List ReplicaServerAction :=
  [.client (.receive 0 0 (command [ascii "set", ascii "k", ascii "v"])),
    .master (fun _ => 0) (.simpleString (ascii "PONG"))]

theorem keepsData_iff_refused :
    ∃ h : ((machine replica 0).run Careful (machine replica 0).init refused).isSome,
      (((machine replica 0).run Careful (machine replica 0).init refused).get h).FollowsMaster :=
  ⟨by decide +kernel, (keepsData_iff (by decide +kernel)
    ((Machine.reachable_of_run (by decide +kernel)).mono fun _ _ _ => trivial)).2
      (Machine.reachable_of_run (by decide +kernel))⟩

/-- `XADD k 1-1 a b` from a client makes a stream on the replica that its master does not have.
-/
theorem not_keepsData :
    ¬ ∀ (server : Server) (start : Timepoint) (s s' : ReplicaServer) (a : ServerAction),
      server.info.isReplica = true → (machine server start).Reachable Anything s →
      s.step (.client a) = some s' → s.KeepsData s' := by
  intro h
  let a : ServerAction := .receive 0 0
    (command [ascii "xadd", ascii "k", ascii "1-1", ascii "a", ascii "b"])
  have hreplica : replica.info.isReplica = true := by decide +kernel
  have hstep : ((machine replica 0).init.step (.client a)).isSome := by decide +kernel
  obtain ⟨s', htaken⟩ := Option.isSome_iff_exists.mp hstep
  have hkept := h replica 0 _ s' a hreplica .init htaken
  have hcareful := ((inv_of_reachable hreplica .init).client hreplica htaken).2.1.mp hkept
  exact absurd hcareful (by decide +kernel)

end ReplicaServer

end BuildYourOwnRedis
