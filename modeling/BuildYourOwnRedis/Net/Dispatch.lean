/-
  Net/Dispatch.lean --- the loop of `poller.cpp` over the descriptors with events, and the
  jobs of the event loop that reach handlers, as a transition system.

  One step of the loop looks at one bit of one descriptor.  Jobs only run between two
  rounds of it.
-/
import BuildYourOwnRedis.Foundation.Transition
import BuildYourOwnRedis.Net.Network

set_option autoImplicit false

namespace BuildYourOwnRedis

open Foundation

namespace PollEventType

/-- The bit that stands for an event in `revents`. -/
def mask : PollEventType → PollBits
  | .readyToRead => PollBits.pollIn
  | .readyToWrite => PollBits.pollOut
  | .hangUp => PollBits.pollHup
  | .error => PollBits.pollErr
  | .invalidFD => PollBits.pollNval

/-- The `flags` of the entry are looked at before the bit. -/
def asksFlags : PollEventType → Bool
  | .readyToRead | .readyToWrite => true
  | .hangUp | .error | .invalidFD => false

/-- The bits are looked at in this order. -/
def following : PollEventType → Option PollEventType
  | .invalidFD => some .error
  | .error => some .hangUp
  | .hangUp => some .readyToRead
  | .readyToRead => some .readyToWrite
  | .readyToWrite => none

end PollEventType

/-- Where the event loop is.  The loop of the poller over `_fds` is taken apart here, since the
events that it emits change what it goes over. -/
inductive Control where
  /-- between two jobs -/
  | idle
  /-- at the head of the loop over `_fds`: the positions to come with their `revents`, and
  `poll_res` -/
  | scan (rest : List (Nat × PollBits)) (left : Int)
  /-- in its body with a reference to the entry of a descriptor, before the bit of `type` -/
  | body (fd : Nat) (signal : EventSignal) (revents : PollBits) (type : PollEventType)
      (rest : List (Nat × PollBits)) (left : Int)
  /-- the program has been terminated by a `ConnReset` that nothing catches -/
  | ended
  | removed (what : Removed)
  deriving DecidableEq, Repr

/-- The program: the handlers and where the event loop is.  What the talkers do beside their
handlers is an action of its own. -/
structure Loop (T : Type) where
  network : Network T
  control : Control

/-- What can happen next.  Which of the queues has its turn is left open, which covers the
order that the event loop has. -/
inductive LoopAction (T : Type) where
  /-- the next job of `_onetime_jobs`, a `Handler::start` -/
  | onetime (stray : PollBits)
  /-- the `k`-th job of `_repeated_jobs` that a handler has added -/
  | repeated (k : Nat) (writes : List WriteCall)
  /-- the poller's job, up to the loop; `poll` gives these bits and this result -/
  | poll (revents : List PollBits) (result : Int)
  /-- the next step of the loop -/
  | next (answers : Network.Answers)
  /-- other parts of the program change what a talker has to say -/
  | talk (id : Nat) (talker : Talker T)
  /-- `Replica::start` makes a handler for a descriptor that was not open -/
  | replicaStart (fd : Nat)

namespace Poller

/-- `_fds` as `poll` leaves it: the positions with their `revents`, which are 0 where the
descriptor is -1. -/
def polled (revents : List PollBits) (p : Poller) : List (Nat × PollBits) :=
  (List.range p.fds.length).map fun i =>
    (i, if (p.watched i).isSome then revents.getD i 0 else 0)

/-- The entry that a reference is to: the one of the descriptor, while it is still the one
that was made for this signal. -/
def held (fd : Nat) (signal : EventSignal) (p : Poller) : Option SocketEventHandler :=
  (p.handlers.lookup fd).filter fun entry => entry.signal = signal

end Poller

namespace Loop

variable {T : Type}

/-- The program goes on after a call. -/
def finish (onwards : Control) : Network T × Ending → Loop T
  | (n, .returned) => ⟨n, onwards⟩
  -- an exception leaves the loop over `_fds`
  | (n, .thrown .caught) => ⟨n, .idle⟩
  | (n, .thrown .connReset) => ⟨n, .ended⟩
  | (n, .removed what) => ⟨n, .removed what⟩

/-- The body of the loop at one bit. -/
def checkBit (C : TalkerClass T) (answers : Network.Answers) (fd : Nat) (signal : EventSignal)
    (revents : PollBits) (type : PollEventType) : Network.Call T := fun n =>
  if type.asksFlags || revents.has type.mask then
    match n.poller.held fd signal with
    | none => (n, .removed (.entry fd))
    | some entry =>
        if (!type.asksFlags || entry.flags.has type.mask) && revents.has type.mask then
          Network.emit C answers entry.signal type n
        else (n, .returned)
  else (n, .returned)

/-- Behind the body: `break` when `poll_res` is 0. -/
def afterBody (rest : List (Nat × PollBits)) (left : Int) : Control :=
  if left = 0 then .idle else .scan rest left

/-- Behind one bit. -/
def afterBit (fd : Nat) (signal : EventSignal) (revents : PollBits) (type : PollEventType)
    (rest : List (Nat × PollBits)) (left : Int) : Control :=
  match type.following with
  | some type => .body fd signal revents type rest left
  | none => afterBody rest left

/-- The head of the loop: `_handlers[fd.fd]` where there are events. -/
def enter (p : Poller) : List (Nat × PollBits) → Int → Control
  | [], _ => .idle
  | (i, revents) :: rest, left =>
      if 0 < revents.toInt then
        match p.watched i with
        | none => .removed (.unregistered none)
        | some fd =>
            match p.handlers.lookup fd with
            | none => .removed (.unregistered (some fd))
            | some entry => .body fd entry.signal revents .invalidFD rest (left - 1)
      else afterBody rest left

/-- One step of the loop over `_fds`. -/
def dispatch (C : TalkerClass T) (answers : Network.Answers) (s : Loop T) : Option (Loop T) :=
  match s.control with
  | .scan rest left => some { s with control := enter s.network.poller rest left }
  | .body fd signal revents type rest left =>
      some (finish (afterBit fd signal revents type rest left)
        (checkBit C answers fd signal revents type s.network))
  | _ => none

/-- A job that runs between two rounds. -/
def runJob (C : TalkerClass T) (n : Network T) : LoopAction T → Option (Loop T)
  | .onetime stray =>
      match n.onetime with
      | [] => none
      | job :: jobs =>
          let n := { n with onetime := jobs }
          if job.valid then some (finish .idle (Network.startHandler stray job.handler n))
          else some ⟨n, .idle⟩
  | .repeated k writes =>
      n.repeated[k]?.map fun job =>
        if job.valid then finish .idle (Network.processWrite C writes job.handler n)
        else ⟨n, .idle⟩
  | .poll revents result =>
      -- a negative result is thrown
      if n.poller.handlers.keys.length = 0 ∨ result ≤ 0 then some ⟨n, .idle⟩
      else some ⟨n, .scan (n.poller.polled revents) result⟩
  | .replicaStart fd =>
      if n.isOpen fd then none else some ⟨n.create false fd C.build, .idle⟩
  | _ => none

/-- One step.  Between two jobs any of them may come; inside the loop of the poller only its
next step can, beside what talkers are given to say. -/
def step (C : TalkerClass T) (s : Loop T) : LoopAction T → Option (Loop T)
  | .next answers => dispatch C answers s
  | .talk id talker =>
      (s.network.objects.lookup id).map fun h =>
        { s with network := s.network.setHandler id { h with talker := talker } }
  | a => if s.control = .idle then runJob C s.network a else none

/-- The server listens and nobody has connected. -/
def start (serverFd : Nat) (stray : PollBits) : Loop T where
  network :=
    { serverFd := serverFd
      poller := Poller.empty.addFd stray serverFd [.readyToRead] .server
      objects := ∅
      manager := ∅
      nextId := 0
      onetime := []
      repeated := [] }
  control := .idle

/-- The program as a transition system. -/
def machine (C : TalkerClass T) (serverFd : Nat) (stray : PollBits) :
    Machine (Loop T) (LoopAction T) where
  init := start serverFd stray
  step := step C

/-! ## Events that close a handler -/

/-- The bit is set for a handler, and the event closes it and returns to the loop. -/
def closesInLoop (C : TalkerClass T) (answers : Network.Answers) (fd id : Nat)
    (revents : PollBits) (type : PollEventType) (n : Network T) : Bool :=
  match type with
  | .hangUp => revents.has PollBits.pollHup
  | .readyToRead =>
      revents.has PollBits.pollIn &&
        (n.poller.handlers.lookup fd).any (fun entry => entry.flags.has PollBits.pollIn) &&
        (n.objects.lookup id).any (Handler.closesOnRead C answers.received answers.writes)
  | .readyToWrite | .error | .invalidFD => false

/-- The next step is one from which the loop comes back to an entry that the event has
erased. -/
def comesBack (C : TalkerClass T) (s : Loop T) (a : LoopAction T) : Bool :=
  match a, s.control with
  | .next answers, .body fd (.handler id) revents type _ _ =>
      closesInLoop C answers fd id revents type s.network
  | _, _ => false

/-- No such step.  The condition looks at the state before the step and at what the kernel
answers in it. -/
def StaysOpen (C : TalkerClass T) (s : Loop T) (a : LoopAction T) : Prop :=
  comesBack C s a = false

instance (C : TalkerClass T) (s : Loop T) (a : LoopAction T) : Decidable (StaysOpen C s a) :=
  inferInstanceAs (Decidable (comesBack C s a = false))

end Loop

end BuildYourOwnRedis
