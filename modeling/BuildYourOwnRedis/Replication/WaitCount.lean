/-
  Replication/WaitCount.lean --- the replicas that a pending WAIT has counted.

  A wait has one entry for each replica that must acknowledge something.  It takes the
  entry out at the first offset of that replica, also when the offset is too small, as the
  answer to an earlier GETACK may be; the offset that is enough then counts for nothing.
-/
import BuildYourOwnRedis.Replication.Moves

set_option autoImplicit false

namespace BuildYourOwnRedis

open Foundation

/-! ## The highest offset of a replica -/

/-- The highest of some offsets. -/
def highest (acks : List UInt64) : Nat := (acks.map UInt64.toNat).foldl max 0

theorem highest_append (acks : List UInt64) (offset : UInt64) :
    highest (acks ++ [offset]) = max (highest acks) offset.toNat := by
  simp [highest]

namespace StorageMiddleware

variable {κ : Type} {m m' : StorageMiddleware κ}

/-- The offsets of the replica with this number, and the last of them. -/
def acksOf (id : Nat) (m : StorageMiddleware κ) : Option (List UInt64 × UInt64) :=
  (m.replicas.find? fun r => r.id = id).map fun r => (r.acks, r.bytesAck)

/-- The highest offset that the replica with this number has acknowledged. -/
def highestAck (id : Nat) (m : StorageMiddleware κ) : Nat :=
  ((m.acksOf id).map fun p => highest p.1).getD 0

theorem find_map {f : ReplicaHandle κ → ReplicaHandle κ} (hf : ∀ r, (f r).id = r.id)
    (hreplicas : m'.replicas = m.replicas.map f) (id : Nat) :
    (m'.replicas.find? fun r => r.id = id) = (m.replicas.find? fun r => r.id = id).map f := by
  rw [hreplicas, List.find?_map]
  simp only [Function.comp_def, hf]

theorem acksOf_map {f : ReplicaHandle κ → ReplicaHandle κ}
    (hf : ∀ r, (f r).id = r.id ∧ (f r).acks = r.acks ∧ (f r).bytesAck = r.bytesAck)
    (hreplicas : m'.replicas = m.replicas.map f) (id : Nat) : m'.acksOf id = m.acksOf id := by
  rw [acksOf, find_map (fun r => (hf r).1) hreplicas, Option.map_map, acksOf]
  congr 1
  funext r
  simp only [Function.comp, (hf r).2.1, (hf r).2.2]

theorem acksOf_of_mem (hdistinct : (m.replicas.map ReplicaHandle.id).Nodup)
    {r : ReplicaHandle κ} (hr : r ∈ m.replicas) : m.acksOf r.id = some (r.acks, r.bytesAck) := by
  have hsome : (m.replicas.find? fun x => x.id = r.id).isSome :=
    List.find?_isSome.mpr ⟨r, hr, decide_eq_true rfl⟩
  obtain ⟨x, hx⟩ := Option.isSome_iff_exists.mp hsome
  have hid : x.id = r.id := by simpa using List.find?_some hx
  rw [acksOf, hx, List.inj_on_of_nodup_map hdistinct (List.mem_of_find?_eq_some hx) hr hid]
  rfl

theorem acksOf_acknowledge (id : Nat) (bytesAck : UInt64) (m : StorageMiddleware κ) (i : Nat) :
    (m.acknowledge id bytesAck).1.acksOf i = (m.acksOf i).map fun p =>
      if i = id then (p.1 ++ [bytesAck], bytesAck) else p := by
  have hid : ∀ r : ReplicaHandle κ,
      (if r.id = id then r.acknowledge bytesAck else r).id = r.id := by
    intro r
    split <;> rfl
  rw [acksOf, find_map hid (m.acknowledge_replicas id bytesAck), acksOf, Option.map_map,
    Option.map_map]
  cases hr : m.replicas.find? fun r => decide (r.id = i) with
  | none => rfl
  | some r =>
      obtain rfl : r.id = i := by simpa using List.find?_some hr
      simp only [Option.map_some, Function.comp]
      split <;> rfl

theorem acks_pushAll (messages : List Message) (r : ReplicaHandle κ) :
    (r.pushAll messages).acks = r.acks ∧ (r.pushAll messages).bytesAck = r.bytesAck := by
  unfold ReplicaHandle.pushAll
  split <;> exact ⟨rfl, rfl⟩

end StorageMiddleware

namespace Cluster

open StorageMiddleware

variable {replicas : Replicas} {s s' : Cluster} {w : WaitHandle Slot}

/-- A replica leaves. -/
def leaves (replicas : Replicas) : ClusterAction → Bool
  | .disconnect conn => (replicas conn).isSome
  | _ => false

/-- Clients do not pretend to be replicas, no replica leaves, and offsets fit an `int`.  An
offset that does not fit is not read by the master at all. -/
def Steady (replicas : Replicas) (s : Cluster) (a : ClusterAction) : Prop :=
  s.Honest a ∧ leaves replicas a = false ∧
    ∀ r ∈ s.server.middleware.replicas, bytes r.pushed < 2 ^ 31

instance (replicas : Replicas) (s : Cluster) (a : ClusterAction) :
    Decidable (s.Steady replicas a) :=
  inferInstanceAs (Decidable (_ ∧ _))

/-- The first offset that is enough for a wait finds the entry of its replica: no smaller
one has come since the wait started. -/
def Timely (s : Cluster) (a : ClusterAction) : Prop :=
  ∀ ack ∈ s.offsetComing a, ∀ w ∈ s.server.middleware.waits, ∀ r ∈ w.registered,
    r.slot.conn = ack.1 → s.server.middleware.highestAck r.id < r.bytesPushed.toNat →
      r.bytesPushed ≤ ack.2 → (r.id, r.bytesPushed) ∈ w.replicaAckWaitlist

instance (s : Cluster) (a : ClusterAction) : Decidable (s.Timely a) :=
  inferInstanceAs (Decidable (∀ ack ∈ s.offsetComing a, _))

/-- A steady step that is timely: an offset that is enough for a wait still finds the entry of
its replica. -/
def SteadyTimely (replicas : Replicas) (s : Cluster) (a : ClusterAction) : Prop :=
  s.Steady replicas a ∧ s.Timely a

instance (replicas : Replicas) (s : Cluster) (a : ClusterAction) :
    Decidable (s.SteadyTimely replicas a) :=
  inferInstanceAs (Decidable (_ ∧ _))

/-- How many of these replicas have a highest offset that is at least what had been pushed
to them. -/
def reached (m : StorageMiddleware Slot) (registered : List (ReplicaHandle Slot)) : Nat :=
  registered.countP fun r => r.bytesPushed.toNat ≤ m.highestAck r.id

/-- Every wait that is pending has counted exactly those that it registered and whose highest
offset is enough. -/
def WaitsCounted (s : Cluster) : Prop :=
  ∀ w ∈ s.server.middleware.waits,
    w.replicasReady = reached s.server.middleware w.registered

/-! ## Steps without an offset -/

/-- The offsets of the replicas are what they were; a new replica has none. -/
theorem Genuine.acksOf (h : s.Genuine replicas) {m : StorageMiddleware Slot}
    {a : ClusterAction} (hmoves : Moves replicas s m a) (ha : s.offsetComing a = none)
    (hstay : leaves replicas a = false) (id : Nat) :
    m.acksOf id = s.server.middleware.acksOf id ∨
      (s.server.middleware.acksOf id = none ∧ m.acksOf id = some ([], 0)) := by
  have hsame : ∀ {m₁ : StorageMiddleware Slot}, m₁.SameWaits m → m.acksOf id = m₁.acksOf id :=
    fun h => acksOf_map (f := fun r => r) (fun _ => ⟨rfl, rfl, rfl⟩) (by simp [h.replicas]) id
  have hpush : ∀ {m₁ : StorageMiddleware Slot} {g : ReplicaHandle Slot → List Message},
      m₁.replicas = s.server.middleware.replicas.map (fun r => r.pushAll (g r)) →
        m₁.acksOf id = s.server.middleware.acksOf id :=
    fun heq => acksOf_map (fun r => ⟨r.pushAll_id _, acks_pushAll _ r⟩) heq id
  cases hmoves with
  | same _ hm => exact .inl (hsame hm)
  | set hm => exact .inl ((hsame hm).trans (hpush (push_replicas _ _)))
  | wait _ hm => exact .inl ((hsame hm).trans (hpush (waitFor_replicas _ _ _)))
  | reply _ hm =>
      have hreply := hsame hm
      exact .inl hreply
  | @removed conn id' hid hm =>
      obtain ⟨r, hr, -, rfl⟩ := h.synchronized.served.registered conn id' hid
      have hsome := h.genuine r hr
      simp [leaves, hsome] at hstay
  | met _ _ hm =>
      rw [hsame hm, StorageMiddleware.acksOf, StorageMiddleware.acksOf, addReplica,
        List.find?_append]
      cases hr : s.server.middleware.replicas.find? fun r => decide (r.id = id) with
      | some r => exact .inl rfl
      | none =>
          by_cases hid : s.server.middleware.nextReplicaId = id
          · exact .inr ⟨rfl, by simp [hid]⟩
          · exact .inl (by simp [hid])
  | @attached _ _ r _ _ hm =>
      refine .inl ((hsame hm).trans (acksOf_map (f := fun x => if x.id = r.id then
        x.setState .write s.server.middleware.accepted.length else x) (fun x => ?_) rfl id))
      split <;> exact ⟨rfl, rfl, rfl⟩
  | acknowledged hcoming => simp [hcoming] at ha

/-! ## The invariant -/

/-- A wait counts right, and the entries it still has are those of replicas that it waits
for. -/
structure WaitCounted (m : StorageMiddleware Slot) (w : WaitHandle Slot) : Prop where
  tracks : w.Tracks m
  there : ∀ r ∈ w.registered, (m.acksOf r.id).isSome
  ready : w.replicasReady = reached m w.registered
  waitlist : ∀ r ∈ w.registered, (r.id, r.bytesPushed) ∈ w.replicaAckWaitlist →
    m.highestAck r.id < r.bytesPushed.toNat

/-- The invariant: the last offset of each replica is the highest, and waits count right.
Offsets grow, as replicas acknowledge what they have processed. -/
structure Counting (replicas : Replicas) (s : Cluster) : Prop extends Genuine replicas s where
  latest : ∀ id p, s.server.middleware.acksOf id = some p → highest p.1 = p.2.toNat
  waits : ∀ w ∈ s.server.middleware.waits, WaitCounted s.server.middleware w

theorem reached_congr {m m' : StorageMiddleware Slot} {registered : List (ReplicaHandle Slot)}
    (h : ∀ r ∈ registered, r.bytesPushed.toNat ≤ m'.highestAck r.id ↔
      r.bytesPushed.toNat ≤ m.highestAck r.id) : reached m' registered = reached m registered :=
  List.countP_congr fun r hr => by simpa using h r hr

theorem WaitCounted.mono {m m' : StorageMiddleware Slot} (h : WaitCounted m w)
    {New : ReplicaHandle Slot → Prop} (hgrows : m.Grows New m')
    (hacks : ∀ r ∈ w.registered, m'.acksOf r.id = m.acksOf r.id) : WaitCounted m' w := by
  have hhighest : ∀ r ∈ w.registered, m'.highestAck r.id = m.highestAck r.id := by
    intro r hr
    rw [highestAck, hacks r hr, highestAck]
  refine ⟨h.tracks.grows hgrows, fun r hr => hacks r hr ▸ h.there r hr, ?_, fun r hr hentry => ?_⟩
  · rw [h.ready]
    exact (reached_congr fun r hr => by rw [hhighest r hr]).symm
  · rw [hhighest r hr]
    exact h.waitlist r hr hentry

/-- A wait that starts counts the replicas that have acknowledged everything. -/
theorem Counting.newWait (h : s.Counting replicas) (count : UInt64) (slot : Slot) :
    WaitCounted s.server.middleware (s.server.middleware.newWait count slot) := by
  have hserved := h.synchronized.served
  have hready : ∀ r ∈ s.server.middleware.replicas, r.isReady = true ↔
      r.bytesPushed.toNat ≤ s.server.middleware.highestAck r.id := by
    intro r hr
    have hacks := acksOf_of_mem hserved.distinct hr
    rw [highestAck, hacks, Option.map_some, Option.getD_some, h.latest _ _ hacks,
      ← UInt64.le_iff_toNat_le]
    exact decide_eq_true_iff
  refine ⟨WaitHandle.tracks_newWait count slot hserved.distinct hserved.below, fun r hr => ?_,
    List.countP_congr fun r hr => ?_, fun r hr hentry => ?_⟩
  · rw [acksOf_of_mem hserved.distinct hr]
    rfl
  · rw [hready r hr, decide_eq_true_iff]
  · obtain ⟨r', hr', heq⟩ := List.mem_map.mp hentry
    obtain ⟨hmem, hunready⟩ := List.mem_filter.mp hr'
    obtain rfl := List.inj_on_of_nodup_map hserved.distinct hmem hr (Prod.mk.inj heq).1
    refine Nat.lt_of_not_le fun hle => ?_
    simp [(hready r' hmem).mpr hle] at hunready

/-! ## An offset comes -/

section

variable {m : StorageMiddleware Slot} {id : Nat} {offset : UInt64}

theorem highestAck_acknowledge {i : Nat} (hsome : (m.acksOf i).isSome) :
    (m.acknowledge id offset).1.highestAck i =
      if i = id then max (m.highestAck i) offset.toNat else m.highestAck i := by
  obtain ⟨p, hp⟩ := Option.isSome_iff_exists.mp hsome
  simp only [highestAck, acksOf_acknowledge, hp, Option.map_some, Option.getD_some]
  split
  · exact highest_append _ _
  · rfl

/-- Who is reached then: who was before, and the replica of the offset if it is enough.  An
offset that is too low changes nothing for anybody. -/
theorem WaitCounted.reached_iff (h : WaitCounted m w) {r : ReplicaHandle Slot}
    (hr : r ∈ w.registered) :
    r.bytesPushed.toNat ≤ (m.acknowledge id offset).1.highestAck r.id ↔
      (r.bytesPushed.toNat ≤ m.highestAck r.id ∨ (r.id = id ∧ r.bytesPushed ≤ offset)) := by
  rw [highestAck_acknowledge (h.there r hr), UInt64.le_iff_toNat_le]
  split <;> simp [*]

/-- The offset is enough for a replica that was not reached before. -/
theorem WaitCounted.reached_one (h : WaitCounted m w) {r : ReplicaHandle Slot}
    (hr : r ∈ w.registered) (hid : r.id = id)
    (hbefore : m.highestAck r.id < r.bytesPushed.toNat) (henough : r.bytesPushed ≤ offset) :
    reached (m.acknowledge id offset).1 w.registered = reached m w.registered + 1 := by
  have hone := countP_insert h.tracks.distinct hr
    (p := fun r => decide (r.bytesPushed.toNat ≤ m.highestAck r.id)) (by simpa using hbefore)
  refine Eq.trans (List.countP_congr fun y hy => ?_) hone
  rw [decide_eq_true_iff, h.reached_iff hy, Bool.or_eq_true, decide_eq_true_iff,
    decide_eq_true_iff, hid]
  refine or_congr_right ⟨fun hboth => hboth.1, fun hy' => ⟨hy', ?_⟩⟩
  obtain rfl := List.inj_on_of_nodup_map h.tracks.distinct hy hr (hy'.trans hid.symm)
  exact henough

/-- The offset reaches nobody who was not reached before. -/
theorem WaitCounted.reached_none (h : WaitCounted m w)
    (hnone : ∀ r ∈ w.registered, r.id = id → r.bytesPushed ≤ offset →
      r.bytesPushed.toNat ≤ m.highestAck r.id) :
    reached (m.acknowledge id offset).1 w.registered = reached m w.registered :=
  reached_congr fun r hr => by
    rw [h.reached_iff hr]
    exact ⟨fun hor => hor.elim (fun h => h) fun hand => hnone r hr hand.1 hand.2, .inl⟩

/-- A wait is told of an offset. -/
theorem WaitCounted.told (h : WaitCounted m w)
    (htimely : ∀ r ∈ w.registered, r.id = id → m.highestAck r.id < r.bytesPushed.toNat →
      r.bytesPushed ≤ offset → (r.id, r.bytesPushed) ∈ w.replicaAckWaitlist) :
    WaitCounted (m.acknowledge id offset).1 (w.updateReplicaAck id offset).1 := by
  have htracks := (h.tracks.updateReplicaAck id offset).grows
    (@grows_acknowledge _ (fun _ => True) id offset m)
  have hthere : ∀ r ∈ w.registered, ((m.acknowledge id offset).1.acksOf r.id).isSome := by
    intro r hr
    rw [acksOf_acknowledge, Option.isSome_map]
    exact h.there r hr
  have hother : ∀ r ∈ w.registered, r.id ≠ id →
      (m.acknowledge id offset).1.highestAck r.id = m.highestAck r.id := by
    intro r hr hne
    rw [highestAck_acknowledge (h.there r hr), if_neg hne]
  rcases w.updateReplicaAck_cases id offset with ⟨hnone, hsame⟩ | ⟨expected, hentry,
    w', hwaitlist, hregistered, -, hcases⟩
  · rw [hsame] at htracks ⊢
    refine ⟨htracks, hthere, ?_, fun r hr hmem => ?_⟩
    · rw [h.ready, h.reached_none fun r hr hid hle => ?_]
      refine Nat.le_of_not_lt fun hbefore => ?_
      exact hnone _ (htimely r hr hid hbefore hle) hid
    · rw [hother r hr (hnone _ hmem)]
      exact h.waitlist r hr hmem
  have hwaits : ∀ r ∈ w'.registered, (r.id, r.bytesPushed) ∈ w'.replicaAckWaitlist →
      (m.acknowledge id offset).1.highestAck r.id < r.bytesPushed.toNat := by
    intro r hr hmem
    rw [hregistered] at hr
    rw [hwaitlist] at hmem
    obtain ⟨hmem, hne⟩ := List.mem_filter.mp hmem
    rw [hother r hr (of_decide_eq_true hne)]
    exact h.waitlist r hr hmem
  obtain ⟨r₀, hr₀, heq⟩ := h.tracks.entries _ hentry
  obtain ⟨rfl, rfl⟩ := Prod.mk.inj heq
  rcases hcases with ⟨hless, hready, hresult⟩ | ⟨henough, hready, hresult⟩
  all_goals
    rw [hresult] at htracks ⊢
    refine ⟨htracks, hregistered ▸ hthere, ?_, hwaits⟩
    rw [hready, hregistered, h.ready]
  · refine (h.reached_none fun r hr hid hle => ?_).symm
    obtain rfl := List.inj_on_of_nodup_map h.tracks.distinct hr hr₀ hid
    exact absurd hle (UInt64.not_le.mpr hless)
  · exact (h.reached_one hr₀ rfl (h.waitlist r₀ hr₀ hentry) henough).symm

end

/-! ## Runs -/

theorem WaitCounted.same {m m' : StorageMiddleware Slot} (h : WaitCounted m w)
    (hsame : m.SameWaits m') : WaitCounted m' w :=
  h.mono ((@grows_refl _ (fun _ => True) m).same hsame) fun r _ => by
    rw [acksOf, hsame.replicas, acksOf]

/-- A step in which an offset comes. -/
theorem Moves.of_offsetComing {m : StorageMiddleware Slot} {a : ClusterAction}
    (h : Moves replicas s m a) {ack : Nat × UInt64} (ha : s.offsetComing a = some ack) :
    ∃ r up k offsets acked, ack.2 = UInt64.ofNat k ∧ s.server.handle ack.1 = some r ∧
      Log (s.nodes ack.1) r up (s.downstream ack.1) (k :: offsets) acked ∧
        (s.server.middleware.acknowledge r.id ack.2).1.SameWaits m := by
  cases h with
  | same hnone => simp [hnone] at ha
  | set => cases ha
  | wait => cases ha
  | reply => cases ha
  | removed => cases ha
  | met _ hnone => simp [hnone] at ha
  | attached hnone => simp [hnone] at ha
  | acknowledged hcoming hr hlog hm =>
      obtain rfl := Option.some.inj (hcoming.symm.trans ha)
      exact ⟨_, _, _, _, _, rfl, hr, hlog, hm⟩

/-- The handle of a replica that a wait has registered. -/
theorem Counting.id_iff (h : s.Counting replicas) (hw : w ∈ s.server.middleware.waits)
    {c : Nat} {r' : ReplicaHandle Slot} (hr' : s.server.handle c = some r')
    {r : ReplicaHandle Slot} (hr : r ∈ w.registered) : r.id = r'.id ↔ r.slot.conn = c := by
  have hcounted := h.waits w hw
  obtain ⟨hmem, rfl⟩ := Server.mem_of_handle hr'
  constructor
  · intro hid
    rw [(hcounted.tracks.kept r hr r' hmem hid.symm).1]
  · intro hconn
    obtain ⟨x, hx⟩ := Option.isSome_iff_exists.mp (Option.isSome_map.symm.trans
      (hcounted.there r hr))
    have hxmem := List.mem_of_find?_eq_some hx
    have hxid : x.id = r.id := by simpa using List.find?_some hx
    have hxconn := congrArg Slot.conn (hcounted.tracks.kept r hr x hxmem hxid).1
    have hxhandle := h.synchronized.served.handle_eq hxmem
    rw [hxconn, hconn] at hxhandle
    obtain rfl := Option.some.inj (hxhandle.symm.trans hr')
    exact hxid.symm

/-- A step without an offset. -/
theorem Counting.silent (h : s.Counting replicas) {a : ClusterAction}
    (ha : s.Steady replicas a) (hnone : s.offsetComing a = none)
    (hstep : s.step replicas a = some s') : s'.Counting replicas := by
  have hmoves := h.synchronized.moves ha.1 hstep
  have hacks := h.toGenuine.acksOf hmoves hnone ha.2.1
  have hwaits := (hmoves.waitsFrom h.synchronized.served.numbered.distinct).waits
  have hmono : ∀ {w}, WaitCounted s.server.middleware w →
      WaitCounted s'.server.middleware w := by
    refine fun hw => hw.mono hmoves.grows fun r hr => ?_
    refine (hacks r.id).resolve_right fun hnew => ?_
    have hsome := hw.there r hr
    simp [hnew.1] at hsome
  refine ⟨h.toGenuine.step ha.1 hstep, fun id p hp => ?_, fun w hw => ?_⟩
  · rcases hacks id with hsame | ⟨-, hnew⟩
    · exact h.latest id p (hsame ▸ hp)
    · obtain rfl := Option.some.inj (hnew.symm.trans hp)
      rfl
  · cases hwaits w hw with
    | kept hw => exact hmono (h.waits w hw)
    | started => exact hmono (h.newWait _ _)
    | told _ hcoming => simp [hcoming] at hnone

/-- An offset comes. -/
theorem Counting.offset (h : s.Counting replicas) {a : ClusterAction}
    (ha : s.SteadyTimely replicas a) {ack : Nat × UInt64} (hack : s.offsetComing a = some ack)
    (hstep : s.step replicas a = some s') : s'.Counting replicas := by
  have hserved := h.synchronized.served
  have hmoves := h.synchronized.moves ha.1.1 hstep
  obtain ⟨r, up, k, offsets, acked, hk, hr, hlog, hsame⟩ := hmoves.of_offsetComing hack
  obtain ⟨hmem, hconn⟩ := Server.mem_of_handle hr
  refine ⟨h.toGenuine.step ha.1.1 hstep, fun id p hp => ?_, fun w hw => ?_⟩
  · rw [acksOf, hsame.replicas, ← acksOf, acksOf_acknowledge] at hp
    obtain ⟨q, hq, rfl⟩ := Option.map_eq_some_iff.mp hp
    split
    · next heq =>
        subst heq
        obtain rfl := Option.some.inj ((acksOf_of_mem hserved.distinct hmem).symm.trans hq)
        have hle : bytes (s.nodes ack.1).processed ≤ bytes r.pushed := by
          rw [hlog.pushed, bytes_append]
          exact Nat.le_add_right _ _
        have hfits := ha.1.2.2 r hmem
        have hbelow := hlog.below k (by simp)
        have hexact : ack.2.toNat = k := by
          rw [hk, UInt64.toNat_ofNat_of_lt' (Nat.lt_of_le_of_lt (hbelow.trans hle)
            (Nat.lt_trans hfits (by decide)))]
        have hsorted := (List.pairwise_cons.mp hlog.sorted).1 k List.mem_cons_self
        rw [highest_append, h.latest _ _ hq, hexact]
        exact max_eq_right (hlog.bytesAck.trans hsorted)
    · exact h.latest id q hq
  · cases (hmoves.waitsFrom hserved.numbered.distinct).waits w hw with
    | kept _ hnone => simp [hnone] at hack
    | started hwait =>
        cases a <;> simp [isWait, offsetComing] at hwait hack
    | @told w c r' _ _ _ _ hold hcoming hr' =>
        obtain rfl := Option.some.inj (hcoming.symm.trans hack)
        obtain rfl := Option.some.inj (hr'.symm.trans hr)
        refine ((h.waits w hold).told fun x hx hid hbefore henough => ?_).same hsame
        exact ha.2 _ hack w hold x hx ((h.id_iff hold hr hx).mp hid) hbefore henough

theorem Counting.step (h : s.Counting replicas) {a : ClusterAction}
    (ha : s.SteadyTimely replicas a) (hstep : s.step replicas a = some s') :
    s'.Counting replicas := by
  cases hcoming : s.offsetComing a with
  | none => exact h.silent ha.1 hcoming hstep
  | some ack => exact h.offset ha hcoming hstep

/-- A wait misses an offset that is not timely. -/
theorem Counting.timely (h : s.Counting replicas) {a : ClusterAction}
    (ha : s.Steady replicas a) (hstep : s.step replicas a = some s') (hs' : s'.WaitsCounted) :
    s.Timely a := by
  intro ack hack w hw r hr hconn hbefore henough
  have hids := h.synchronized.served.numbered.distinct
  have hcounted := h.waits w hw
  obtain ⟨r', up, k, offsets, acked, -, hr', -, hsame⟩ :=
    (h.synchronized.moves ha.1 hstep).of_offsetComing hack
  have hid := (h.id_iff hw hr' hr).mpr hconn
  rcases w.updateReplicaAck_cases r'.id ack.2 with ⟨hnone, hresult⟩ | ⟨expected, hentry, -⟩
  · have hpending : w ∈ s'.server.middleware.waits := by
      rw [hsame.waits, acknowledge_eq_settle _ _ hids]
      refine List.mem_map.mpr ⟨(w, false), List.mem_filter.mpr ⟨?_, rfl⟩, rfl⟩
      exact List.mem_map.mpr ⟨w, hw, hresult⟩
    have hready := hs' w hpending
    have hone := hcounted.reached_one hr hid hbefore henough
    rw [hcounted.ready] at hready
    have hsameReached : reached s'.server.middleware w.registered =
        reached (s.server.middleware.acknowledge r'.id ack.2).1 w.registered := by
      refine reached_congr fun x _ => ?_
      rw [highestAck, acksOf, hsame.replicas, ← acksOf, ← highestAck]
    omega
  · exact (hcounted.tracks.entry_iff hr).mp ⟨_, hentry, hid.symm⟩

/-- **Counting.**  In every run whose steps are timely, each pending wait has counted exactly
the replicas that have acknowledged what had been pushed to them when it started; a further
step keeps this if and only if it is timely. -/
theorem waits_counted_iff {clock : Nat → Timepoint} {info : ServerInfo} {dbFile : Option Bytes}
    {server : Server} (hstart : Server.start clock info dbFile = some server) {s : Cluster}
    (hs : (machine server replicas).Reachable (SteadyTimely replicas) s) :
    s.WaitsCounted ∧ ∀ a s', s.Steady replicas a → s.step replicas a = some s' →
      (s'.WaitsCounted ↔ s.Timely a) := by
  have hcounting : s.Counting replicas := by
    refine hs.invariant ⟨genuine_initial hstart, ?_, ?_⟩
      fun _ _ _ _ hcounting ha hstep => hcounting.step ha hstep
    all_goals
      obtain ⟨values, rfl⟩ := Server.start_eq hstart
      simp [machine, initial, StorageMiddleware.acksOf]
  refine ⟨fun w hw => (hcounting.waits w hw).ready, fun a s' ha hstep => ?_⟩
  refine ⟨hcounting.timely ha hstep, fun htimely w hw => ?_⟩
  exact ((hcounting.step ⟨ha, htimely⟩ hstep).waits w hw).ready

/-- Two waits, with a SET before each, and the answers to both GETACKs; the first comes. -/
def overlap : List ClusterAction :=
  handshake 1 ++ [.request 0 2 (Command.set (ascii "key") (ascii "value") none).construct,
      .request 0 3 (Command.wait 1 0).construct,
      .request 0 2 (Command.set (ascii "key") (ascii "other") none).construct,
      .request 0 4 (Command.wait 1 0).construct] ++
    List.replicate 4 (.send 1) ++ List.replicate 4 (.deliver (fun _ => 0) 1) ++
    [.answer 1, .answer 1, .receive 0 1]

/-- The cluster after the first answer. -/
def afterOverlap : Option Cluster :=
  let server : Server := { info := { masterReplid := [] } }
  (machine server oneReplica).run (SteadyTimely oneReplica) (initial server oneReplica) overlap

theorem map_afterOverlap : afterOverlap.map (fun s =>
    ((s.step oneReplica (.receive 0 1)).isSome,
      decide (Steady oneReplica s (.receive 0 1)))) = some (true, true) := by
  decide +kernel

theorem afterOverlap_isSome : afterOverlap.isSome := by
  rw [← Option.isSome_map, map_afterOverlap]
  rfl

/-- The first answer is too small for the second wait, and the second one is not timely. -/
theorem waits_counted_iff_overlap :
    (afterOverlap.get afterOverlap_isSome).WaitsCounted ∧
      ∃ h : ((afterOverlap.get afterOverlap_isSome).step oneReplica (.receive 0 1)).isSome,
        ((((afterOverlap.get afterOverlap_isSome).step oneReplica (.receive 0 1)).get
          h).WaitsCounted ↔ (afterOverlap.get afterOverlap_isSome).Timely (.receive 0 1)) := by
  obtain ⟨s, hrun, hs⟩ := Option.map_eq_some_iff.mp map_afterOverlap
  obtain ⟨hstep, hsteady⟩ := Prod.mk.inj hs
  rw [Option.get_of_eq_some afterOverlap_isSome hrun]
  obtain ⟨hcounted, hnext⟩ := @waits_counted_iff oneReplica (fun _ => 0)
    { masterReplid := [] } none _ rfl _ (Machine.Reachable.run .init hrun)
  exact ⟨hcounted, hstep, hnext _ _ (of_decide_eq_true hsteady) (Option.some_get hstep).symm⟩

/-- The answer to the first wait is too low for the second, and uses up the entry of the
replica there.  So after the second answer the second wait has counted nobody. -/
theorem not_waits_counted : ¬∀ (replicas : Replicas) (clock : Nat → Timepoint)
    (info : ServerInfo) (dbFile : Option Bytes) (server : Server) (s : Cluster),
    Server.start clock info dbFile = some server →
    (machine server replicas).Reachable (Steady replicas) s → s.WaitsCounted := by
  intro hclaim
  obtain ⟨s, hrun, hcounts⟩ := Option.map_eq_some_iff.mp
    (by decide +kernel : ((machine { info := { masterReplid := [] } } oneReplica).run
      (Steady oneReplica) (initial { info := { masterReplid := [] } } oneReplica)
      (overlap ++ [.receive 0 1])).map (fun s => decide (∀ w ∈ s.server.middleware.waits,
        w.replicasReady = reached s.server.middleware w.registered)) = some false)
  exact of_decide_eq_false hcounts (hclaim oneReplica (fun _ => 0) { masterReplid := [] } none _
    s rfl (Machine.Reachable.run .init hrun))

end Cluster

end BuildYourOwnRedis
