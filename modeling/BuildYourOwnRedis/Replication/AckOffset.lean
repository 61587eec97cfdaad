/-
  Replication/AckOffset.lean --- an offset on its way from a replica to its master.

  Both sides count in 64 bits.  In between the offset is printed in decimal and read by
  `parseInt`: one that does not fit an `int` is refused there, and the acknowledgement is
  dropped without an answer.
-/
import BuildYourOwnRedis.Numerals
import BuildYourOwnRedis.Replication.ReplicaTalker

set_option autoImplicit false

namespace BuildYourOwnRedis

open Foundation

variable {κ : Type}

/-- The talker answers GETACK, the master reads the answer, and then it holds the offset
of the talker for the replica with this id. -/
def AckArrives (now : Timepoint) (t : ReplicaTalker) (id : Nat) (m : StorageMiddleware κ) :
    Prop :=
  ∃ t' answer args reply m' calls, t.process now StorageMiddleware.getAck = some t' ∧
    t'.pending = t.pending ++ [answer] ∧ Command.tryParse answer = .ok (.replConf args) ∧
    m.replicaProcessConf id args = some (reply, m', calls) ∧
    ∀ h ∈ m'.replicas, h.id = id → h.bytesAck = t.bytesIn

theorem ReplicaTalker.process_getAck (now : Timepoint) (t : ReplicaTalker) :
    ∃ t', t.process now StorageMiddleware.getAck = some t' ∧
      t'.pending = t.pending ++ [(replConfAck t.bytesIn).construct] := by
  have hname : toLowerCase (ascii "GETACK") = ascii "getack" := by decide
  refine ⟨{ t.nextSay (replConfAck t.bytesIn).construct with
    bytesIn := t.bytesIn + UInt64.ofNat StorageMiddleware.getAck.size
    processed := t.processed ++ [StorageMiddleware.getAck] }, ?_, rfl⟩
  rw [process, StorageMiddleware.getAck, Command.tryParse_construct_replConf]
  simp only [execute, hname, if_true, Option.map_some]
  rfl

namespace StorageMiddleware

variable {id : Nat} {m : StorageMiddleware κ}

/-- What the master makes of an offset. -/
theorem processConf_ack (n : UInt64) :
    m.processConf id [ascii "ACK", decimal n.toNat] =
      if n.toNat < 2 ^ 31 then some (false, m.acknowledge id n) else some (false, m, []) := by
  have hname : toLowerCase (ascii "ACK") = ascii "ack" := by decide
  by_cases hfits : n.toNat < 2 ^ 31
  · simp only [processConf, hname, if_true, parseInt_decimal hfits, if_pos hfits, toSizeT_toNat]
  · simp only [processConf, hname, if_true, parseInt_decimal_eq_none (Nat.le_of_not_lt hfits),
      if_neg hfits]

/-- The offset is stored with the replica. -/
theorem acknowledge_bytesAck (n : UInt64) {h : ReplicaHandle κ}
    (hmem : h ∈ (m.acknowledge id n).1.replicas) (hid : h.id = id) : h.bytesAck = n := by
  simp only [acknowledge, replyAll_replicas, modifyReplica] at hmem
  obtain ⟨h', -, rfl⟩ := List.mem_map.mp hmem
  by_cases h'id : h'.id = id
  · rw [if_pos h'id]
    rfl
  · rw [if_neg h'id] at hid
    exact absurd hid h'id

end StorageMiddleware

/-- What is sent and how it is read is determined; it remains what the master does with the two
arguments. -/
theorem ackArrives_iff_processConf (now : Timepoint) (t : ReplicaTalker) {id : Nat}
    {m : StorageMiddleware κ} (hregistered : m.replicas.any fun h => h.id = id) :
    AckArrives now t id m ↔
      ∃ reply m' calls, m.processConf id [ascii "ACK", decimal t.bytesIn.toNat] =
          some (reply, m', calls) ∧
        ∀ h ∈ m'.replicas, h.id = id → h.bytesAck = t.bytesIn := by
  obtain ⟨t', hprocess, hpending⟩ := t.process_getAck now
  have hparse := Command.tryParse_construct_replConf [ascii "ACK", decimal t.bytesIn.toNat]
  have hconf (args : List Bytes) : m.replicaProcessConf id args = m.processConf id args := by
    rw [StorageMiddleware.replicaProcessConf, if_pos hregistered]
  constructor
  · rintro ⟨t'', answer, args, reply, m', calls, hprocess', hpending', hargs, hm', hbytes⟩
    obtain rfl := Option.some.inj (hprocess.symm.trans hprocess')
    obtain rfl : answer = (replConfAck t.bytesIn).construct := by
      simpa using hpending'.symm.trans hpending
    obtain rfl := Command.replConf.inj (Except.ok.inj (hargs.symm.trans hparse))
    exact ⟨reply, m', calls, (hconf _).symm.trans hm', hbytes⟩
  · rintro ⟨reply, m', calls, hm', hbytes⟩
    exact ⟨t', _, _, reply, m', calls, hprocess, hpending, hparse, (hconf _).trans hm', hbytes⟩

/-- **An offset arrives exactly if it fits an `int`, or was there already.**  The replica
writes its counter as a 64-bit number and the master reads it with `parseInt`; one that does
not fit is dropped without an error. -/
theorem ackArrives_iff (now : Timepoint) (t : ReplicaTalker) {id : Nat}
    {m : StorageMiddleware κ} (hregistered : m.replicas.any fun h => h.id = id) :
    AckArrives now t id m ↔
      t.bytesIn.toNat < 2 ^ 31 ∨ ∀ h ∈ m.replicas, h.id = id → h.bytesAck = t.bytesIn := by
  rw [ackArrives_iff_processConf now t hregistered, StorageMiddleware.processConf_ack]
  by_cases hfits : t.bytesIn.toNat < 2 ^ 31
  · rw [if_pos hfits]
    refine iff_of_true ⟨false, (m.acknowledge id t.bytesIn).1, _, rfl, ?_⟩ (.inl hfits)
    exact fun h => StorageMiddleware.acknowledge_bytesAck t.bytesIn
  · rw [if_neg hfits, or_iff_right hfits]
    constructor
    · rintro ⟨reply, m', calls, heq, hbytes⟩
      obtain ⟨-, rfl, -⟩ : false = reply ∧ m = m' ∧ [] = calls := by simpa using heq
      exact hbytes
    · exact fun hbytes => ⟨false, m, [], rfl, hbytes⟩

/-- A talker that has processed so many bytes. -/
def talkerAt (bytesIn : UInt64) : ReplicaTalker :=
  { tcpPort := 6380, storage := {}, state := .waitServerCommands, bytesIn := bytesIn }

/-- A master with one replica. -/
def masterOfOne : StorageMiddleware Unit :=
  { nextReplicaId := 1, replicas := [{ id := 0, state := .write, slot := () }] }

theorem ackArrives_iff_small : AckArrives 0 (talkerAt 37) 0 masterOfOne ↔
    37 < 2 ^ 31 ∨ ∀ h ∈ masterOfOne.replicas, h.id = 0 → h.bytesAck = 37 :=
  ackArrives_iff 0 (talkerAt 37) (by decide)

/-- From 2 GiB on the master takes no notice of the acknowledgement, and its handle keeps the
offset that it had. -/
theorem not_ackArrives : ¬ AckArrives 0 (talkerAt (2 ^ 31)) 0 masterOfOne := by
  have hlarge : ¬ (talkerAt (2 ^ 31)).bytesIn.toNat < 2 ^ 31 := by decide
  rw [ackArrives_iff_processConf 0 (talkerAt (2 ^ 31)) (by decide),
    StorageMiddleware.processConf_ack, if_neg hlarge]
  rintro ⟨reply, m', calls, heq, hbytes⟩
  obtain ⟨-, rfl, -⟩ : false = reply ∧ masterOfOne = m' ∧ [] = calls := by simpa using heq
  exact absurd (hbytes _ (List.mem_singleton.mpr rfl) rfl) (by decide)

end BuildYourOwnRedis
