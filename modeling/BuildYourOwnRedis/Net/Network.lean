/-
  Net/Network.lean --- `handlers_manager.cpp`, and the part of `handler.cpp` that reaches
  the poller and the manager.

  Handlers are objects with numbers, so that a reference to an object that has been
  destroyed can be told from one to an object made later for the same descriptor.  A call
  that reads or changes what has been removed ends with `removed`; nothing is said about
  what the program does after that.
-/
import BuildYourOwnRedis.Net.Handler

set_option autoImplicit false

namespace BuildYourOwnRedis

open Foundation

/-- What is used although it is not there.  In the sources this is undefined behaviour; here a
call ends with it, so that a run can be asked whether it happens. -/
inductive Removed where
  /-- the state of a handler that has been destroyed -/
  | handler (id : Nat)
  /-- an entry of the poller that has been erased -/
  | entry (fd : Nat)
  /-- an entry for a descriptor that is not registered, -1 for one that is ignored -/
  | unregistered (fd : Option Nat)
  deriving DecidableEq, Repr

/-- How a call ends.  Calls are composed so that what comes behind one is left out unless it
has returned. -/
inductive Ending where
  | returned
  | thrown (what : Thrown)
  | removed (what : Removed)
  deriving DecidableEq, Repr

/-- A job of the event loop that is bound to a handler; its handle makes it invalid when
the handler is destroyed. -/
structure Job where
  handler : Nat
  valid : Bool
  deriving DecidableEq, Repr

namespace Job

/-- `JobHandle::invalidate` for the jobs of a handler. -/
def invalidate (id : Nat) (job : Job) : Job :=
  if job.handler = id then { job with valid := false } else job

end Job

/-- The poller, the handlers and their jobs.  Handlers have numbers in place of addresses, and
no number is used again. -/
structure Network (T : Type) where
  serverFd : Nat
  poller : Poller
  /-- all handlers that have not been destroyed -/
  objects : AList fun _ : Nat => Handler T
  /-- `HandlersManager::_handlers`: the number of the handler for a descriptor -/
  manager : AList fun _ : Nat => Nat
  nextId : Nat
  onetime : List Job
  repeated : List Job

namespace Network

variable {T : Type}

/-- A call of a member function. -/
abbrev Call (T : Type) : Type := Network T → Network T × Ending

/-- Everything that a member function does reads its handler first. -/
def onHandler (id : Nat) (f : Handler T → Call T) : Call T := fun n =>
  match n.objects.lookup id with
  | some h => f h n
  | none => (n, .removed (.handler id))

/-- The handler has changed. -/
def setHandler (id : Nat) (h : Handler T) (n : Network T) : Network T :=
  { n with objects := n.objects.insert id h }

/-! ## HandlersManager -/

/-- The destructor of a handler that has closed. -/
def destroy (id : Nat) (n : Network T) : Network T :=
  { n with
    objects := n.objects.erase id
    onetime := n.onetime.map (Job.invalidate id)
    repeated := n.repeated.map (Job.invalidate id) }

/-- `HandlersManager::remove`.  It is only called by handlers that are closing, which have
no descriptor any more, so `~Handler` does not close a second time. -/
def remove (fd : Nat) (n : Network T) : Network T :=
  match n.manager.lookup fd with
  | none => n
  | some id => { n with manager := n.manager.erase fd }.destroy id

/-- A handler is made; it posts `start`, which registers it, so there is a time in which it is
open and not polled. -/
def create (managed : Bool) (fd : Nat) (talker : Talker T) (n : Network T) : Network T :=
  { n with
    objects := n.objects.insert n.nextId (.make managed fd talker)
    nextId := n.nextId + 1
    onetime := n.onetime ++ [⟨n.nextId, true⟩] }

/-- `HandlersManager::add`.  A descriptor that has a handler already is refused. -/
def add (C : TalkerClass T) (fd : Nat) : Call T := fun n =>
  if (n.manager.lookup fd).isSome then (n, .thrown .caught)
  else ({ n with manager := n.manager.insert fd n.nextId }.create true fd C.build, .returned)

/-! ## Handler -/

/-- `Handler::setup_poll`; through the signals of the handler and of the manager it calls
`_slot_add` of the poller. -/
def setupPoll (stray : PollBits) (write : Bool) (id : Nat) : Call T :=
  onHandler id fun h n =>
    match h.fd with
    | none => (n, .thrown .caught)
    | some fd =>
        let types := if write then [.readyToRead, .readyToWrite] else [.readyToRead]
        ({ n with poller := n.poller.addFd stray fd types (.handler id) }, .returned)

/-- `Handler::start`: the handler is registered for reading, and adds the repeated job that
writes what its talker says.  One that was closed meanwhile does nothing. -/
def startHandler (stray : PollBits) (id : Nat) : Call T :=
  onHandler id fun h n =>
    match h.fd with
    | none => (n, .returned)
    | some _ =>
        match setupPoll stray false id n with
        | (n, .returned) => ({ n with repeated := n.repeated ++ [⟨id, true⟩] }, .returned)
        | result => result

/-- `Handler::close`.  `_removed_fd_signal` has the poller's slot first and, when the
manager made the handler, the manager's second.  That one destroys the handler and with it
the signal; what follows in `emit` and in `close` is in local variables. -/
def close (C : TalkerClass T) (id : Nat) : Call T :=
  onHandler id fun h n =>
    match h.fd with
    | none => (n, .returned)
    | some fd =>
        let n := n.setHandler id { h with fd := none, talker := C.interrupt h.talker }
        let n := { n with poller := n.poller.removeFd fd }
        (if h.managed then n.remove fd else n, .returned)

/-- `Handler::write`. -/
def write (call : WriteCall) (id : Nat) : Call T :=
  onHandler id fun h n =>
    match h.writeOut call.results with
    | (h, .error thrown) => (n.setHandler id h, .thrown thrown)
    | (h, .ok false) => (n.setHandler id h, .returned)
    | (h, .ok true) => setupPoll call.stray (h.writeBuffer.length != 0) id (n.setHandler id h)

/-- The loop of `Handler::process_write` and its `catch`. -/
def processWriteLoop (C : TalkerClass T) : Nat → List WriteCall → Nat → Call T
  | 0, _, _ => fun n => (n, .returned)
  | fuel + 1, calls, id =>
      onHandler id fun h n =>
        match h.nextMessage with
        | none => (n, .returned)
        | some (m, h) =>
            if m.type = .leave then close C id (n.setHandler id h)
            else
              match write (calls.headD {}) id (n.setHandler id (h.append m)) with
              | (n, .returned) => processWriteLoop C fuel calls.tail id n
              | (n, .thrown .connReset) => close C id n
              | result => result

/-- `Handler::process_write`: each pending message of the talker is sent.  The loop is left
where the talker says to leave, or something is thrown. -/
def processWrite (C : TalkerClass T) (calls : List WriteCall) (id : Nat) : Call T :=
  onHandler id fun h => processWriteLoop C h.sayFuel calls id

/-- `Handler::process_read`.  What was received is parsed and listened to, unless the reading
has thrown.  After `close` it goes on to `process_write`. -/
def processRead (C : TalkerClass T) (received : Received) (calls : List WriteCall)
    (id : Nat) : Call T :=
  onHandler id fun h n =>
    match h.receive C received with
    | (h, .ok ()) => processWrite C calls id (n.setHandler id h)
    | (h, .error .caught) => (n.setHandler id h, .thrown .caught)
    | (h, .error .connReset) =>
        match close C id (n.setHandler id h) with
        | (n, .returned) => processWrite C calls id n
        | result => result

/-! ## Events -/

/-- What the kernel answers while an event is handled: the descriptors that `::accept`
gives, and what `::read` and `::write` give. -/
structure Answers where
  accepted : List Nat := []
  received : Received := ⟨[], .again⟩
  writes : List WriteCall := []
  deriving DecidableEq, Repr, Inhabited

/-- `_slot_fd_event` of a handler.  An event that comes behind the closing of the handler is
ignored, and an error is thrown after the connection has been closed. -/
def handlerEvent (C : TalkerClass T) (answers : Answers) (type : PollEventType) (id : Nat) :
    Call T :=
  onHandler id fun h n =>
    match h.fd with
    | none => (n, .returned)
    | some _ =>
        match type with
        | .readyToRead => processRead C answers.received answers.writes id n
        | .readyToWrite => write (answers.writes.headD {}) id n
        | .hangUp => close C id n
        | .error | .invalidFD =>
            match close C id n with
            | (n, .returned) => (n, .thrown .caught)
            | result => result

/-- A descriptor that is open. -/
def isOpen (fd : Nat) (n : Network T) : Bool :=
  fd == n.serverFd || n.objects.entries.any fun object => object.2.fd == some fd

/-- The loop of the server's slot and its `catch`.  The kernel gives no descriptor that is
open; such an answer counts as none. -/
def acceptAll (C : TalkerClass T) : List Nat → Call T
  | [], n => (n, .returned)
  | fd :: fds, n =>
      if n.isOpen fd then (n, .returned)
      else
        match add C fd n with
        | (n, .returned) => acceptAll C fds n
        | (n, .thrown .caught) => (n, .returned)
        | result => result

/-- `_slot_fd_event` of the server: all connections that have come are accepted, and every
other event of the socket is an error. -/
def serverEvent (C : TalkerClass T) (answers : Answers) (type : PollEventType) : Call T :=
  fun n =>
    if type = .readyToRead then acceptAll C answers.accepted n else (n, .thrown .caught)

/-- `Signal::emit` on the signal of an entry.  A slot whose handler has been destroyed is
not called. -/
def emit (C : TalkerClass T) (answers : Answers) (signal : EventSignal) (type : PollEventType) :
    Call T :=
  match signal with
  | .server => serverEvent C answers type
  | .handler id => fun n =>
      match n.objects.lookup id with
      | none => (n, .returned)
      | some _ => handlerEvent C answers type id n

end Network

end BuildYourOwnRedis
