/-
  Storage/Storage.lean --- `Storage`: the values, and the readers that wait for entries.

  A callback is a value of a type `κ` that the storage never looks at; the calls are what
  an operation returns.  `none` as a result means that the operation is undefined: a value
  that is no stream is taken for one.

  A reader that blocks is a `WaitHandle`.  It is owned by the elements of the wait lists
  that hold it: a weak pointer to it can be locked as long as there is one, and when the
  last one is erased the handle is destroyed, which invalidates its timeout.  All wait
  lists are one list here; the list of a key are the elements with that key, in order.

  The jobs that a storage gives to the event loop are kept with it.  When a timeout fires
  is left open: any timeout can fire at any time.
-/
import BuildYourOwnRedis.Storage.Value

set_option autoImplicit false

namespace BuildYourOwnRedis

open Foundation

/-- `StreamsReadResult`. -/
abbrev StreamsReadResult : Type := List (Bytes × StreamRange)

/-- An element of a wait list.  It has a number of its own, since a handle keeps iterators to
its elements and erases by them. -/
structure WaitNode where
  node : Nat
  key : Bytes
  handle : Nat
  deriving DecidableEq, Repr

/-- `Storage::WaitHandle`.  The callback and the request are moved from when it replies. -/
structure StorageWait (κ : Type) where
  id : Nat
  request : StreamsReadRequest
  callback : Option κ
  streamIts : List (Bytes × Nat)
  deriving DecidableEq

/-- A job of `EventLoop::set_timeout` and the one it belongs to.  An owner that is answered or
destroyed takes the validity from it and leaves it in the list. -/
structure TimeoutJob where
  owner : Nat
  isValid : Bool := true
  deriving DecidableEq, Repr

/-- Take the validity from the timeouts of an owner. -/
def invalidate (owner : Nat) (jobs : List TimeoutJob) : List TimeoutJob :=
  jobs.map fun job => if job.owner = owner then { job with isValid := false } else job

/-- `Storage`, with what it has given to the event loop.  Handles and elements are numbered in
the order in which they are made and numbers are not used again, so that a weak pointer or an
iterator can be told from one to something made later. -/
structure Storage (κ : Type) where
  values : AList fun _ : Bytes => Value := ∅
  nodes : List WaitNode := []
  handles : List (StorageWait κ) := []
  nextHandle : Nat := 0
  nextNode : Nat := 0
  onetimeJobs : List (List Nat) := []
  timeoutJobs : List TimeoutJob := []

namespace Storage

variable {κ : Type}

/-- A call of a callback. -/
abbrev Call (κ : Type) : Type := κ × StreamsReadResult

/-! ## Values -/

/-- `Storage::restore`: whatever is stored at the key is replaced by a string.  The expiry is a
point in time, which may have passed. -/
def restore (key value : Bytes) (expireTime : Option Timepoint) (s : Storage κ) :
    Storage κ :=
  { s with values := s.values.insert key (.string { data := value, expireTime := expireTime }) }

/-- `Storage::set`; `Clock::now()` is read when there is an expiry.  The time point is taken
without overflow here; an expiry that SET accepts is below 2^31 milliseconds. -/
def set (now : Timepoint) (key value : Bytes) (expireMs : Option Int) (s : Storage κ) :
    Storage κ :=
  s.restore key value (expireMs.map fun ms => now + ms * 10 ^ 6)

/-- `Storage::get`: an expired string is erased, and a stream is answered like an absent key.
This is the only operation that looks at the expiry of a string. -/
def get (now : Timepoint) (key : Bytes) (s : Storage κ) : Option Bytes × Storage κ :=
  match s.values.lookup key with
  | none => (none, s)
  | some (.stream _) => (none, s)
  | some (.string str) =>
      if str.expireTime.any fun expire => now ≥ expire then
        (none, { s with values := s.values.erase key })
      else (some str.data, s)

/-- GET changes nothing but the values, and these at most by erasing the string that it came
upon. -/
theorem get_cases (now : Timepoint) (key : Bytes) (s : Storage κ) :
    ∃ values, (s.get now key).2 = { s with values := values } := by
  unfold get
  split
  · exact ⟨s.values, rfl⟩
  · exact ⟨s.values, rfl⟩
  · split
    · exact ⟨_, rfl⟩
    · exact ⟨s.values, rfl⟩

/-- `Storage::type`.  The expiry of a string is not looked at. -/
def type (key : Bytes) (s : Storage κ) : StorageType :=
  match s.values.lookup key with
  | none => .none
  | some value => value.type

/-- `Storage::keys`.  The order of a `std::unordered_map` is not specified. -/
def keys (s : Storage κ) : List Bytes := s.values.keys

/-- The handles in the wait list of a key, in order. -/
def waitList (key : Bytes) (s : Storage κ) : List Nat :=
  (s.nodes.filter fun n => n.key = key).map WaitNode.handle

/-- The stream that XADD appends to; a new one for an absent key. -/
def storedStream (key : Bytes) (s : Storage κ) : Except StreamErrorType StreamValue :=
  match s.values.lookup key with
  | none => .ok {}
  | some (.stream stream) => .ok stream
  | some (.string _) => .error .wrongKeyType

/-- What XADD does to the values. -/
def xaddValues (now : Timepoint) (key : Bytes) (id : InputStreamId)
    (values : StreamPartValue) (s : Storage κ) :
    Except StreamErrorType (StreamId × AList fun _ : Bytes => Value) :=
  match s.storedStream key with
  | .error e => .error e
  | .ok stream =>
      match stream.append now id values with
      | .error e => .error e
      | .ok (id, stream) => .ok (id, s.values.insert key (.stream stream))

/-- `Storage::xadd`: an appended entry posts a job that wakes the readers which wait for
this key now. -/
def xadd (now : Timepoint) (key : Bytes) (id : InputStreamId) (values : StreamPartValue)
    (s : Storage κ) : Except StreamErrorType StreamId × Storage κ :=
  match s.xaddValues now key id values with
  | .error e => (.error e, s)
  | .ok (id, stored) =>
      (.ok id, { s with
        values := stored
        onetimeJobs := s.onetimeJobs ++ [s.waitList key] })

/-- XADD fails and changes nothing, or it stores a stream and posts a job.  The job is posted
for whoever waits for the key, also if nobody does. -/
theorem xadd_cases (now : Timepoint) (key : Bytes) (id : InputStreamId)
    (values : StreamPartValue) (s : Storage κ) :
    (∃ e, s.xadd now key id values = (.error e, s)) ∨
    (∃ added stream, s.xadd now key id values = (.ok added, { s with
      values := s.values.insert key (.stream stream)
      onetimeJobs := s.onetimeJobs ++ [s.waitList key] })) := by
  unfold xadd
  cases hvalues : s.xaddValues now key id values with
  | error e => exact Or.inl ⟨e, rfl⟩
  | ok p =>
      obtain ⟨added, stored⟩ := p
      refine Or.inr ⟨added, ?_⟩
      unfold xaddValues at hvalues
      split at hvalues
      · cases hvalues
      · next stream _ =>
          split at hvalues
          · cases hvalues
          · next id' stream' _ =>
              obtain ⟨rfl, rfl⟩ : id' = added ∧
                  s.values.insert key (.stream stream') = stored := by
                simpa using hvalues
              exact ⟨stream', rfl⟩

/-- `Storage::xrange`.  The stored value is cast to a stream without a look at its type, so a
string makes the operation undefined. -/
def xrange (key : Bytes) (leftId rightId : BoundStreamId) (s : Storage κ) :
    Option StreamRange :=
  match s.values.lookup key with
  | none => some []
  | some value => do
      let stream ← value.asStream?
      stream.xrange leftId rightId

/-! ## Reading streams -/

/-- The loop of `Storage::xread`: the streams that have entries. -/
def readStreams (s : Storage κ) : StreamsReadRequest → Option StreamsReadResult
  | [] => some []
  | (key, id) :: request =>
      match s.values.lookup key with
      | none => readStreams s request
      | some value => do
          let stream ← value.asStream?
          let result ← readStreams s request
          if stream.xread id = [] then return result
          else return (key, stream.xread id) :: result

/-- `$` becomes the last id of the stream when a reader blocks. -/
def resolveId (s : Storage κ) (key : Bytes) (id : ReadStreamId) : Option ReadStreamId :=
  if id.isNextExpected then
    match s.values.lookup key with
    | none => (ReadStreamId.fromString (ascii "0")).toOption
    | some value => do
        let stream ← value.asStream?
        (ReadStreamId.fromString stream.lastId.toString).toOption
  else some id

/-- The same for every stream of a request. -/
def resolve (s : Storage κ) : StreamsReadRequest → Option StreamsReadRequest
  | [] => some []
  | (key, id) :: request => do
      let id ← resolveId s key id
      let request ← resolve s request
      return (key, id) :: request

/-- The elements that a handle puts at the ends of the wait lists of its keys. -/
def newNodes (handle : Nat) : Nat → StreamsReadRequest → List WaitNode
  | _, [] => []
  | node, (key, _) :: request => ⟨node, key, handle⟩ :: newNodes handle (node + 1) request

/-- `stream_its`: a key that comes again replaces the iterator. -/
def iterators (nodes : List WaitNode) : List (Bytes × Nat) :=
  nodes.foldl (fun its n => its.filter (fun it => it.1 ≠ n.key) ++ [(n.key, n.node)]) []

/-- A handle without an element in any wait list is destroyed. -/
def release (handle : Nat) (s : Storage κ) : Storage κ :=
  if s.nodes.any fun n => n.handle = handle then s
  else { s with
    handles := s.handles.filter fun h => h.id ≠ handle
    timeoutJobs := invalidate handle s.timeoutJobs }

/-- `std::make_shared<WaitHandle>` and `WaitHandle::setup`.  The handle is put at the end of
the wait list of each key, `$` is resolved now, and a timeout of 0 sets no timer.  A handle
that is in no list has no owner and is gone when `xread` returns. -/
def block (request : StreamsReadRequest) (blockMs : UInt64) (callback : κ)
    (s : Storage κ) : Option (Storage κ) := do
  let resolved ← s.resolve request
  let nodes := newNodes s.nextHandle s.nextNode request
  let s' : Storage κ := { s with
    nodes := s.nodes ++ nodes
    handles := s.handles ++ [⟨s.nextHandle, resolved, some callback, iterators nodes⟩]
    nextHandle := s.nextHandle + 1
    nextNode := s.nextNode + request.length
    timeoutJobs := if blockMs > 0 then s.timeoutJobs ++ [{ owner := s.nextHandle }]
      else s.timeoutJobs }
  return s'.release s.nextHandle

/-- `Storage::xread`.  A reader that does not block, or for whom there are entries at once, is
answered by the operation itself; the result holds only streams that have some. -/
def xread (request : StreamsReadRequest) (blockMs : Option UInt64) (callback : κ)
    (s : Storage κ) : Option (Storage κ × List (Call κ)) := do
  let result ← s.readStreams request
  match blockMs with
  | none => return (s, [(callback, result)])
  | some blockMs =>
      if 0 < result.length then return (s, [(callback, result)])
      else
        let s ← s.block request blockMs callback
        return (s, [])

/-! ## Replies -/

/-- The part of `WaitHandle::reply` behind the call: request and callback are gone, and
so are the elements that its iterators point to. -/
def unblock (h : StorageWait κ) (s : Storage κ) : Storage κ :=
  let s' : Storage κ := { s with
    nodes := s.nodes.filter fun n => n.node ∉ h.streamIts.map Prod.snd
    handles := s.handles.map fun x =>
      if x.id = h.id then { x with request := [], callback := none } else x }
  s'.release h.id

/-- `WaitHandle::reply`.  A callback that was moved from throws.  The request is read as it was
resolved when the reader blocked, and the result may be empty. -/
def reply (h : StorageWait κ) (s : Storage κ) : Option (Storage κ × Option (Call κ)) := do
  let result ← s.readStreams h.request
  match h.callback with
  | none => return (s, none)
  | some callback => return (s.unblock h, some (callback, result))

/-- Lock a weak pointer. -/
def lock (handle : Nat) (s : Storage κ) : Option (StorageWait κ) :=
  s.handles.find? fun h => h.id = handle

/-- The job that `Storage::xadd` posts.  An exception leaves its loop. -/
def wake : List Nat → Storage κ → Option (Storage κ × List (Call κ))
  | [], s => some (s, [])
  | handle :: handles, s =>
      match s.lock handle with
      | none => wake handles s
      | some h =>
          match s.reply h with
          | none => none
          | some (s, none) => some (s, [])
          | some (s, some call) =>
              match wake handles s with
              | none => none
              | some (s, calls) => some (s, call :: calls)

/-- The event loop runs the first of the one-time jobs. -/
def runJob (s : Storage κ) : Option (Storage κ × List (Call κ)) :=
  match s.onetimeJobs with
  | [] => none
  | handles :: jobs => wake handles { s with onetimeJobs := jobs }

/-- The event loop takes a timeout out of its list and calls it. -/
def fire (i : Nat) (s : Storage κ) : Option (Storage κ × List (Call κ)) :=
  match s.timeoutJobs[i]? with
  | none => none
  | some job =>
      let s : Storage κ := { s with timeoutJobs := s.timeoutJobs.eraseIdx i }
      if job.isValid then wake [job.owner] s else some (s, [])

end Storage

end BuildYourOwnRedis
