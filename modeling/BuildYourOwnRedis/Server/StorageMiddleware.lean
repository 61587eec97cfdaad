/-
  Server/StorageMiddleware.lean --- `StorageMiddleware`: the storage, the replicas that
  follow it, and the clients that wait for them.

  A slot is a value of a type `κ`; what an operation passes to slots is its second
  result, in order.  The order of the elements of a `std::unordered_map` is not specified;
  the replicas are a list here.

  Some fields are recorded for the statements about runs and read by no operation; their
  docstrings say so.
-/
import BuildYourOwnRedis.Storage.Storage

set_option autoImplicit false

namespace BuildYourOwnRedis

open Foundation

/-- `IReplicasManager::ReplState`.  Only a replica in WRITE is pushed commands.  PSYNC takes a
replica from MET to WRITE; nothing enters RESYNC. -/
inductive ReplState where
  | met
  | resync
  | write
  deriving DecidableEq, Repr

/-- The arguments of an accepted SET.  The SETs that a master has accepted, in order, are what
its replicas are to execute. -/
structure SetRequest where
  key : Bytes
  value : Bytes
  expireMs : Option Int
  deriving DecidableEq, Repr

/-- `StorageMiddleware::ReplicaHandle`.  The byte counters are 64-bit and wrap around.  What is
marked as recorded is read by no function of the sources and says what has happened. -/
structure ReplicaHandle (κ : Type) where
  id : Nat
  state : ReplState
  slot : κ
  bytesPushed : UInt64 := 0
  bytesAck : UInt64 := 0
  /-- Recorded: the messages that were pushed. -/
  pushed : List Message := []
  /-- Recorded: how many SETs had been accepted when WRITE was entered. -/
  attachedAt : Nat := 0
  /-- Recorded: the offsets that were acknowledged. -/
  acks : List UInt64 := []

/-- `StorageMiddleware::WaitHandle`.  The wait list holds the replicas whose acknowledgement is
still to come, each with the number of bytes that it is to acknowledge. -/
structure WaitHandle (κ : Type) where
  id : Nat
  replicasExpected : Nat
  replicasReady : Nat
  slot : κ
  replicaAckWaitlist : List (Nat × UInt64)
  /-- Recorded: the replicas when the wait started. -/
  registered : List (ReplicaHandle κ)
  /-- Recorded: how many SETs had been accepted when the wait started. -/
  acceptedBefore : Nat

/-- Recorded: a wait that replied. -/
structure WaitReply (κ : Type) where
  registered : List (ReplicaHandle κ)
  acceptedBefore : Nat
  count : Int

/-- `StorageMiddleware`, for slots of any type.  Handles and waits are numbered in the order in
which they are made, in place of the iterators and the owner pointers of the sources. -/
structure StorageMiddleware (κ : Type) where
  storage : Storage κ := {}
  nextReplicaId : Nat := 0
  replicas : List (ReplicaHandle κ) := []
  nextWaitId : Nat := 0
  waits : List (WaitHandle κ) := []
  timeoutJobs : List TimeoutJob := []
  /-- Recorded: the SETs that were accepted. -/
  accepted : List SetRequest := []
  /-- Recorded: the waits that replied. -/
  waitReplies : List (WaitReply κ) := []

section

variable {κ : Type}

/-! ## Replicas -/

namespace ReplicaHandle

/-- `ReplicaHandle::push`: only a replica in WRITE gets the message, and its size is counted
where it is queued, not where it is written. -/
def push (message : Message) (h : ReplicaHandle κ) : ReplicaHandle κ :=
  if h.state = .write then
    { h with
      bytesPushed := h.bytesPushed + UInt64.ofNat message.size
      pushed := h.pushed ++ [message] }
  else h

/-- The call of the slot in `ReplicaHandle::push`. -/
def pushCalls (message : Message) (h : ReplicaHandle κ) : List (κ × Message) :=
  if h.state = .write then [(h.slot, message)] else []

/-- `ReplicaHandle::set_state`. -/
def setState (state : ReplState) (accepted : Nat) (h : ReplicaHandle κ) : ReplicaHandle κ :=
  { h with
    state := state
    attachedAt := if h.state = .write then h.attachedAt else accepted }

/-- An offset comes. -/
def acknowledge (bytesAck : UInt64) (h : ReplicaHandle κ) : ReplicaHandle κ :=
  { h with bytesAck := bytesAck, acks := h.acks ++ [bytesAck] }

/-- Everything that was pushed is acknowledged. -/
def isReady (h : ReplicaHandle κ) : Bool := h.bytesPushed ≤ h.bytesAck

@[simp] theorem push_id (message : Message) (h : ReplicaHandle κ) :
    (h.push message).id = h.id := by
  unfold push
  split <;> rfl

@[simp] theorem push_slot (message : Message) (h : ReplicaHandle κ) :
    (h.push message).slot = h.slot := by
  unfold push
  split <;> rfl

end ReplicaHandle

namespace WaitHandle

/-- `WaitHandle::update_replica_ack`, and if it replies.  The entry is erased before the
offsets are compared, so an acknowledgement that is too low uses it up. -/
def updateReplicaAck (id : Nat) (bytesAck : UInt64) (w : WaitHandle κ) :
    WaitHandle κ × Bool :=
  match w.replicaAckWaitlist.find? fun entry => entry.1 = id with
  | none => (w, false)
  | some (_, expectedBytes) =>
      let w := { w with
        replicaAckWaitlist := w.replicaAckWaitlist.filter fun entry => entry.1 ≠ id }
      if bytesAck < expectedBytes then (w, false)
      else
        let w := { w with replicasReady := w.replicasReady + 1 }
        (w, w.replicasExpected ≤ w.replicasReady)

end WaitHandle

namespace StorageMiddleware

/-- `StorageMiddleware::push`: the message is offered to every replica.  Each has a slot of its
own, so the order of the map makes no difference; the calls of slots are given back, for the
server to make. -/
def push (message : Message) (m : StorageMiddleware κ) :
    StorageMiddleware κ × List (κ × Message) :=
  ({ m with replicas := m.replicas.map fun h => h.push message },
    m.replicas.flatMap fun h => h.pushCalls message)

/-- `StorageMiddleware::set`.  The SET is stored and then constructed anew for the replicas,
with its expiry as it was given and not as a point in time. -/
def set (now : Timepoint) (key value : Bytes) (expireMs : Option Int)
    (m : StorageMiddleware κ) : StorageMiddleware κ × List (κ × Message) :=
  let m : StorageMiddleware κ := { m with
    storage := m.storage.set now key value expireMs
    accepted := m.accepted ++ [⟨key, value, expireMs⟩] }
  m.push (Command.set key value expireMs).construct

/-- `StorageMiddleware::add_replica`.  A new replica is in MET, and nothing is pushed to it
yet. -/
def addReplica (slot : κ) (m : StorageMiddleware κ) : Nat × StorageMiddleware κ :=
  (m.nextReplicaId, { m with
    nextReplicaId := m.nextReplicaId + 1
    replicas := m.replicas ++ [{ id := m.nextReplicaId, state := .met, slot := slot }] })

/-- `StorageMiddleware::remove_replica`.  The waits are not told: an entry of their wait lists
for this replica stays there. -/
def removeReplica (id : Nat) (m : StorageMiddleware κ) : StorageMiddleware κ :=
  { m with replicas := m.replicas.filter fun h => h.id ≠ id }

/-- Change the replica with this id. -/
def modifyReplica (id : Nat) (f : ReplicaHandle κ → ReplicaHandle κ)
    (m : StorageMiddleware κ) : StorageMiddleware κ :=
  { m with replicas := m.replicas.map fun h => if h.id = id then f h else h }

/-- `StorageMiddleware::replica_set_state`. -/
def replicaSetState (id : Nat) (state : ReplState) (m : StorageMiddleware κ) :
    StorageMiddleware κ :=
  m.modifyReplica id fun h => h.setState state m.accepted.length

/-! ## Waits -/

/-- `WaitHandle::reply`.  The wait leaves the list and its timeout is made invalid.  The count
is narrowed from `std::size_t` to `int`. -/
def reply (w : WaitHandle κ) (m : StorageMiddleware κ) :
    StorageMiddleware κ × List (κ × Message) :=
  ({ m with
      waits := m.waits.filter fun x => x.id ≠ w.id
      timeoutJobs := invalidate w.id m.timeoutJobs
      waitReplies := m.waitReplies ++
        [⟨w.registered, w.acceptedBefore, toInt w.replicasReady⟩] },
    [(w.slot, .integer (toInt w.replicasReady))])

/-- Several waits reply. -/
def replyAll : List (WaitHandle κ) → StorageMiddleware κ →
    StorageMiddleware κ × List (κ × Message)
  | [], m => (m, [])
  | w :: ws, m =>
      let (m, calls) := m.reply w
      let (m, calls') := replyAll ws m
      (m, calls ++ calls')

/-- Replies only concern the waits. -/
theorem replyAll_replicas (ws : List (WaitHandle κ)) (m : StorageMiddleware κ) :
    (replyAll ws m).1.replicas = m.replicas := by
  induction ws generalizing m with
  | nil => rfl
  | cons w ws ih => exact ih (m.reply w).1

theorem replyAll_accepted (ws : List (WaitHandle κ)) (m : StorageMiddleware κ) :
    (replyAll ws m).1.accepted = m.accepted := by
  induction ws generalizing m with
  | nil => rfl
  | cons w ws ih => exact ih (m.reply w).1

theorem replyAll_nextReplicaId (ws : List (WaitHandle κ)) (m : StorageMiddleware κ) :
    (replyAll ws m).1.nextReplicaId = m.nextReplicaId := by
  induction ws generalizing m with
  | nil => rfl
  | cons w ws ih => exact ih (m.reply w).1

theorem replyAll_storage (ws : List (WaitHandle κ)) (m : StorageMiddleware κ) :
    (replyAll ws m).1.storage = m.storage := by
  induction ws generalizing m with
  | nil => rfl
  | cons w ws ih => exact ih (m.reply w).1

/-- An offset of a replica comes; every wait looks at it, and some reply. -/
def acknowledge (id : Nat) (bytesAck : UInt64) (m : StorageMiddleware κ) :
    StorageMiddleware κ × List (κ × Message) :=
  let updated := m.waits.map fun w => w.updateReplicaAck id bytesAck
  let m := m.modifyReplica id (·.acknowledge bytesAck)
  replyAll ((updated.filter Prod.snd).map Prod.fst) { m with waits := updated.map Prod.fst }

/-- `ReplicaHandle::process_conf`, and if the command is to be answered.  The arguments
are read without a check that they exist. -/
def processConf (id : Nat) (args : List Bytes) (m : StorageMiddleware κ) :
    Option (Bool × StorageMiddleware κ × List (κ × Message)) :=
  match args with
  | [] => none
  | name :: args =>
      if toLowerCase name = ascii "ack" then
        match args with
        | [] => none
        | value :: _ =>
            match parseInt value with
            | none => some (false, m, [])
            | some bytesAck => some (false, m.acknowledge id (toSizeT bytesAck))
      else some (true, m, [])

/-- `StorageMiddleware::replica_process_conf`, for a replica that may have been removed.  The
flag tells the talker whether the arguments were those of an acknowledgement. -/
def replicaProcessConf (id : Nat) (args : List Bytes) (m : StorageMiddleware κ) :
    Option (Bool × StorageMiddleware κ × List (κ × Message)) :=
  if m.replicas.any fun h => h.id = id then m.processConf id args
  else some (false, m, [])

/-- The constructor of `WaitHandle` and the counting in `WaitHandle::setup`.  A replica is
ready when all that was pushed to it has been acknowledged, whatever its state; the others are
to be waited for. -/
def newWait (count : UInt64) (slot : κ) (m : StorageMiddleware κ) : WaitHandle κ where
  id := m.nextWaitId
  replicasExpected := min count.toNat m.replicas.length
  replicasReady := m.replicas.countP ReplicaHandle.isReady
  slot := slot
  replicaAckWaitlist :=
    (m.replicas.filter fun h => !h.isReady).map fun h => (h.id, h.bytesPushed)
  registered := m.replicas
  acceptedBefore := m.accepted.length

/-- `REPLCONF GETACK *`. -/
def getAck : Message := (Command.replConf [ascii "GETACK", ascii "*"]).construct

/-- The replicas of a wait list are asked for their offsets. -/
def pushGetAck (waitlist : List (Nat × UInt64)) (m : StorageMiddleware κ) :
    StorageMiddleware κ × List (κ × Message) :=
  let asked := fun h : ReplicaHandle κ => waitlist.any fun entry => entry.1 = h.id
  ({ m with replicas := m.replicas.map fun h => if asked h then h.push getAck else h },
    (m.replicas.filter asked).flatMap fun h => h.pushCalls getAck)

/-- `StorageMiddleware::wait_for` and `WaitHandle::setup`.  Where enough replicas are ready the
reply is at once; otherwise the others are asked for their offsets, which itself counts as
bytes pushed. -/
def waitFor (count : UInt64) (slot : κ) (m : StorageMiddleware κ) :
    StorageMiddleware κ × List (κ × Message) :=
  let w := m.newWait count slot
  let m := { m with nextWaitId := m.nextWaitId + 1, waits := m.waits ++ [w] }
  if w.replicasExpected ≤ w.replicasReady then m.reply w
  else
    let (m, calls) := m.pushGetAck w.replicaAckWaitlist
    ({ m with timeoutJobs := m.timeoutJobs ++ [{ owner := w.id }] }, calls)

/-- The event loop takes a timeout of a wait out of its list and calls it. -/
def fireWait (i : Nat) (m : StorageMiddleware κ) :
    Option (StorageMiddleware κ × List (κ × Message)) :=
  match m.timeoutJobs[i]? with
  | none => none
  | some job =>
      let m := { m with timeoutJobs := m.timeoutJobs.eraseIdx i }
      if job.isValid then
        match m.waits.find? fun w => w.id = job.owner with
        | none => none
        | some w => some (m.reply w)
      else some (m, [])

end StorageMiddleware

end

end BuildYourOwnRedis
