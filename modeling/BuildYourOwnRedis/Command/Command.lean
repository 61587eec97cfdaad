/-
  Command/Command.lean --- the requests a server understands and the messages they are
  written as: `command.cpp` and `command_storage.cpp`.

  The classes derived from `Command` are the constructors of one type.  Every
  `try_parse` throws `CommandParseError`, whose text the client gets as an error reply.
  WAIT alone reads `data[1]` and `data[2]` without a check that they exist, which the
  language leaves undefined; that is a fault of its own here.
-/
import BuildYourOwnRedis.Resp.Message
import BuildYourOwnRedis.Storage.StreamId

set_option autoImplicit false

namespace BuildYourOwnRedis

open Foundation

/-- `StreamPartValue`. -/
abbrev StreamPartValue : Type := List (Bytes × Bytes)

/-- `StreamsReadRequest`. -/
abbrev StreamsReadRequest : Type := List (Bytes × ReadStreamId)

/-- What ends `try_parse` without a command.  Undefined behaviour is kept apart from an
exception: a handler can answer the one and not the other. -/
inductive CommandFault where
  /-- `CommandParseError` with its text -/
  | parseError (what : Bytes)
  /-- an element behind the end of the vector is read -/
  | undefinedBehaviour
  deriving DecidableEq, Repr

/-- `Command` and the classes derived from it, with their members as the arguments.  Absent
optional members are `none`; a `std::size_t` is 64 bits wide. -/
inductive Command where
  | ping
  | echo (data : Bytes)
  | info (args : List Bytes)
  | replConf (args : List Bytes)
  | psync (args : List Bytes)
  | wait (replicas timeoutMs : UInt64)
  | keys (arg : Bytes)
  | config (action : Bytes) (args : List Bytes)
  | set (key value : Bytes) (expireMs : Option Int)
  | get (key : Bytes)
  | type (key : Bytes)
  | xadd (key : Bytes) (streamId : InputStreamId) (values : StreamPartValue)
  | xrange (key : Bytes) (leftId rightId : BoundStreamId)
  | xread (request : StreamsReadRequest) (blockMs : Option UInt64)
  deriving DecidableEq, Repr

/-- `CommandType`, less the tag `Unknown` that no class has. -/
inductive CommandType where
  | ping
  | echo
  | set
  | get
  | info
  | replConf
  | psync
  | wait
  | keys
  | config
  | type
  | xadd
  | xrange
  | xread
  deriving DecidableEq, Repr

namespace Command

/-- `Command::type`: every constructor stores the type of its class, so the type is a function
of the command here. -/
def commandType : Command → CommandType
  | .ping => .ping
  | .echo _ => .echo
  | .info _ => .info
  | .replConf _ => .replConf
  | .psync _ => .psync
  | .wait _ _ => .wait
  | .keys _ => .keys
  | .config _ _ => .config
  | .set _ _ _ => .set
  | .get _ => .get
  | .type _ => .type
  | .xadd _ _ _ => .xadd
  | .xrange _ _ _ => .xrange
  | .xread _ _ => .xread

/-! ## Reading arguments -/

/-- An argument must be a bulk string; otherwise the error has this text. -/
def argument (what : Bytes) : Message → Except CommandFault Bytes
  | .bulkString data => .ok data
  | .undefined | .leave | .simpleString _ | .simpleError _ | .integer _ | .syncResponse _
  | .array _ => .error (.parseError what)

/-- All arguments from here on. -/
def arguments (what : Bytes) : List Message → Except CommandFault (List Bytes)
  | [] => .ok []
  | m :: ms =>
      match argument what m with
      | .error fault => .error fault
      | .ok arg =>
          match arguments what ms with
          | .error fault => .error fault
          | .ok args => .ok (arg :: args)

/-- `StreamIdParseError` is passed on as `CommandParseError`. -/
def streamIdResult {α : Type} : Except Bytes α → Except CommandFault α
  | .ok id => .ok id
  | .error what => .error (.parseError what)

/-- `std::quoted`: in quotes, a backslash before quotes and backslashes. -/
def quoted (text : Bytes) : Bytes :=
  ascii "\"" ++ text.flatMap (fun b => if b = 34 ∨ b = 92 then [92, b] else [b]) ++ ascii "\""

/-! ## `try_parse` of each command

The list holds the elements of the array behind the command name. -/

/-- `"… recieved "` and a number. -/
def recieved (text : Bytes) (count : Nat) : CommandFault :=
  .parseError (text ++ decimal count)

/-- `EchoCommand::try_parse`.  The number in the text of the error counts the name of the
command too. -/
def tryParseEcho (data : List Message) : Except CommandFault Command :=
  match data with
  | [m] => (argument (ascii "ECHO command must have first argument with type BulkString")
      m).map .echo
  | _ => .error (recieved (ascii "ECHO command must have 1 argument, recieved ")
      (data.length + 1))

/-- `InfoCommand::try_parse`.  The parts that are asked for are compared in lower case later,
so they are stored so. -/
def tryParseInfo (data : List Message) : Except CommandFault Command :=
  (arguments (ascii "invalid type") data).map fun args => .info (args.map toLowerCase)

/-- `ReplConfCommand::try_parse`. -/
def tryParseReplConf (data : List Message) : Except CommandFault Command :=
  (arguments (ascii "invalid type") data).map .replConf

/-- `PsyncCommand::try_parse`. -/
def tryParsePsync (data : List Message) : Except CommandFault Command :=
  (arguments (ascii "invalid type") data).map .psync

/-- An argument of WAIT, which is read as an `int`. -/
def waitArgument (position : Bytes) : List Message → Except CommandFault Int
  | [] => .error .undefinedBehaviour
  | m :: _ =>
      match argument (ascii "WAIT command must have " ++ position ++
        ascii " argument with type BulkString") m with
      | .error fault => .error fault
      | .ok text =>
          match parseInt text with
          | none => .error (.parseError
              (ascii "WAIT command must have " ++ position ++ ascii " argument as number"))
          | some value => .ok value

/-- `WaitCommand::try_parse`.  The check of the number of arguments refuses exactly
three of them. -/
def tryParseWait (data : List Message) : Except CommandFault Command :=
  if data.length = 3 then
    .error (recieved (ascii "WAIT command must have 2 arguments, recieved ") 3)
  else do
    let replicas ← waitArgument (ascii "first") data
    let timeoutMs ← waitArgument (ascii "second") data.tail
    return .wait (toSizeT replicas) (toSizeT timeoutMs)

/-- A command whose first argument is a key: KEYS, GET and TYPE. -/
def tryParseKey (name : Bytes) (build : Bytes → Command) (data : List Message) :
    Except CommandFault Command :=
  match data with
  | [] => .error (recieved (name ++ ascii " command must have at least 1 argument, recieved ")
      1)
  | m :: _ => (argument
      (name ++ ascii " command must have first argument with type BulkString") m).map build

/-- `KeysCommand::try_parse`. -/
def tryParseKeys : List Message → Except CommandFault Command :=
  tryParseKey (ascii "KEYS") .keys

/-- `GetCommand::try_parse`. -/
def tryParseGet : List Message → Except CommandFault Command :=
  tryParseKey (ascii "GET") .get

/-- `TypeCommand::try_parse`. -/
def tryParseType : List Message → Except CommandFault Command :=
  tryParseKey (ascii "TYPE") .type

/-- `ConfigCommand::try_parse`.  Without any argument there is an action that is empty; it is
refused when the command is executed. -/
def tryParseConfig : List Message → Except CommandFault Command
  | [] => .ok (.config [] [])
  | m :: ms => do
      let action ← argument
        (ascii "CONFIG command must have first argument with type BulkString") m
      let args ← arguments (ascii "CONFIG arguments should be BulkString") ms
      return .config action args

/-- The argument of PX must be a positive number. -/
def pxArgument (m : Message) : Except CommandFault Int :=
  match argument (ascii "invalid px argument type") m with
  | .error fault => .error fault
  | .ok text =>
      match parseInt text with
      | none => .error (.parseError (ascii "invalid px argument value"))
      | some value =>
          if value ≤ 0 then .error (.parseError (ascii "invalid px argument value"))
          else .ok value

/-- The parameters of SET behind the value; a later PX replaces an earlier one. -/
def setParams (expireMs : Option Int) : List Message → Except CommandFault (Option Int)
  | [] => .ok expireMs
  | [m] =>
      match argument (ascii "invalid type") m with
      | .error fault => .error fault
      | .ok param =>
          if toLowerCase param = ascii "px" then .error (.parseError
            (ascii "param " ++ quoted (toLowerCase param) ++ ascii " requires argument"))
          else .error (.parseError (ascii "unknown param " ++ quoted (toLowerCase param)))
  | m :: value :: ms =>
      match argument (ascii "invalid type") m with
      | .error fault => .error fault
      | .ok param =>
          if toLowerCase param = ascii "px" then
            match pxArgument value with
            | .error fault => .error fault
            | .ok value => setParams (some value) ms
          else .error (.parseError (ascii "unknown param " ++ quoted (toLowerCase param)))

/-- `SetCommand::try_parse`.  The key is looked at before it is seen that the value is missing,
so the type of a lone key decides which of two errors it is. -/
def tryParseSet : List Message → Except CommandFault Command
  | [] => .error (.parseError (ascii "not enough arguments"))
  | [key] =>
      match argument (ascii "invalid type") key with
      | .error fault => .error fault
      | .ok _ => .error (.parseError (ascii "not enough arguments"))
  | key :: value :: params => do
      let key ← argument (ascii "invalid type") key
      let value ← argument (ascii "invalid type") value
      let expireMs ← setParams none params
      return .set key value expireMs

/-- The pairs of XADD. -/
def xaddPairs : List Message → Except CommandFault StreamPartValue
  | [] => .ok []
  | [_] => .error (.parseError (ascii "expected pairs of values"))
  | key :: value :: rest => do
      let key ← argument (ascii "pair key has invalid type") key
      let value ← argument (ascii "pair value has invalid type") value
      let pairs ← xaddPairs rest
      return (key, value) :: pairs

/-- `XAddCommand::try_parse`.  Behind the id the arguments are taken in pairs, and at least one
pair is asked for. -/
def tryParseXAdd (data : List Message) : Except CommandFault Command :=
  match data with
  | key :: streamId :: _ :: _ :: _ => do
      let key ← argument (ascii "stream_key has invalid type") key
      let streamId ← argument (ascii "stream_id has invalid type") streamId
      let streamId ← streamIdResult (InputStreamId.fromString streamId)
      let values ← xaddPairs (data.drop 2)
      return .xadd key streamId values
  | _ => .error (.parseError (ascii "XADD expects at least 4 arguments"))

/-- `XRangeCommand::try_parse`, for exactly three arguments.  Whether the bounds are in order
is not looked at. -/
def tryParseXRange : List Message → Except CommandFault Command
  | [key, left, right] => do
      let key ← argument (ascii "stream_key has invalid type") key
      let left ← argument (ascii "left_stream_id has invalid type") left
      let left ← streamIdResult (BoundStreamId.fromString left)
      let right ← argument (ascii "right_stream_id has invalid type") right
      let right ← streamIdResult (BoundStreamId.fromString right)
      return .xrange key left right
  | _ => .error (.parseError (ascii "XRANGE expects 3 arguments"))

/-- The ids of XREAD. -/
def readStreamIds : List Message → Except CommandFault (List ReadStreamId)
  | [] => .ok []
  | m :: ms => do
      let id ← argument (ascii "stream_id has invalid type") m
      let id ← streamIdResult (ReadStreamId.fromString id)
      let ids ← readStreamIds ms
      return id :: ids

/-- The arguments of XREAD behind `streams`: as many keys as ids. -/
def xreadStreams (data : List Message) : Except CommandFault StreamsReadRequest :=
  if data.length < 2 then .error (.parseError
    (ascii "XREAD expects at least one full pair of key and id for streams"))
  else do
    let expectedStreams := data.length / 2
    let keys ← arguments (ascii "stream_key has invalid type") (data.take expectedStreams)
    let ids ← readStreamIds ((data.drop expectedStreams).take expectedStreams)
    if (data.drop (2 * expectedStreams)).length ≠ 0 then
      .error (.parseError (ascii "unxepected arg after streams"))
    else .ok (keys.zip ids)

/-- The argument of `block`. -/
def blockArgument (m : Message) : Except CommandFault UInt64 :=
  match argument (ascii "XREAD block must have argument with type BulkString") m with
  | .error fault => .error fault
  | .ok text =>
      match parseUInt64 text with
      | none => .error (.parseError (ascii "XREAD block must have argument as number"))
      | some timeoutMs => .ok timeoutMs

/-- The arguments of XREAD.  Without `streams` the request stays empty. -/
def xreadArgs (blockMs : Option UInt64) : List Message → Except CommandFault Command
  | [] => .ok (.xread [] blockMs)
  | m :: ms =>
      match argument (ascii "expected bulk string for arg") m with
      | .error fault => .error fault
      | .ok arg =>
          if toLowerCase arg = ascii "streams" then
            (xreadStreams ms).map fun request => .xread request blockMs
          else if toLowerCase arg = ascii "block" then
            match ms with
            | [] => .error (.parseError (ascii "XREAD expects an argument after block"))
            | timeoutMs :: ms =>
                match blockArgument timeoutMs with
                | .error fault => .error fault
                | .ok timeoutMs => xreadArgs (some timeoutMs) ms
          else .error (.parseError
            (ascii "unexpected arg for XREAD: " ++ toLowerCase arg))

/-- `XReadCommand::try_parse`.  The number of arguments is the only check in front; everything
else is found in one pass over them. -/
def tryParseXRead (data : List Message) : Except CommandFault Command :=
  if data.length + 1 < 4 then
    .error (.parseError (ascii "XREAD expects at least 3 arguments"))
  else xreadArgs none data

/-- `"unknown command"`. -/
def unknownCommand : CommandFault := .parseError (ascii "unknown command")

/-- The command that a name in lower case stands for. -/
def typeOfName (command : Bytes) : Option CommandType :=
  if command = ascii "ping" then some .ping
  else if command = ascii "echo" then some .echo
  else if command = ascii "set" then some .set
  else if command = ascii "get" then some .get
  else if command = ascii "info" then some .info
  else if command = ascii "replconf" then some .replConf
  else if command = ascii "psync" then some .psync
  else if command = ascii "wait" then some .wait
  else if command = ascii "keys" then some .keys
  else if command = ascii "config" then some .config
  else if command = ascii "type" then some .type
  else if command = ascii "xadd" then some .xadd
  else if command = ascii "xrange" then some .xrange
  else if command = ascii "xread" then some .xread
  else none

/-- `try_parse` of the class of a command. -/
def tryParseAs : CommandType → List Message → Except CommandFault Command
  | .ping => fun _ => .ok .ping
  | .echo => tryParseEcho
  | .set => tryParseSet
  | .get => tryParseGet
  | .info => tryParseInfo
  | .replConf => tryParseReplConf
  | .psync => tryParsePsync
  | .wait => tryParseWait
  | .keys => tryParseKeys
  | .config => tryParseConfig
  | .type => tryParseType
  | .xadd => tryParseXAdd
  | .xrange => tryParseXRange
  | .xread => tryParseXRead

/-- `Command::try_parse`.  A command is an array whose first element is a bulk string, and its
name is told in any letters; everything else is an unknown command. -/
def tryParse : Message → Except CommandFault Command
  | .array (.bulkString name :: data) =>
      match typeOfName (toLowerCase name) with
      | some t => tryParseAs t data
      | none => .error unknownCommand
  | _ => .error unknownCommand

/-! ## `construct` -/

/-- The parts of the array that `construct` builds. -/
def parts : Command → List Bytes
  | .ping => [ascii "PING"]
  | .echo data => [ascii "ECHO", data]
  | .info args => ascii "INFO" :: args
  | .replConf args => ascii "REPLCONF" :: args
  | .psync args => ascii "PSYNC" :: args
  | .wait replicas timeoutMs =>
      [ascii "WAIT", decimal replicas.toNat, decimal timeoutMs.toNat]
  | .keys arg => [ascii "KEYS", arg]
  | .config action args => ascii "CONFIG" :: toUpperCase action :: args
  | .set key value expireMs => [ascii "SET", key, value] ++
      match expireMs with
      | some expireMs => [ascii "PX", decimalInt expireMs]
      | none => []
  | .get key => [ascii "GET", key]
  | .type key => [ascii "TYPE", key]
  | .xadd key streamId values => [ascii "XADD", key, streamId.toString] ++
      values.flatMap fun (key, value) => [key, value]
  | .xrange key leftId rightId =>
      [ascii "XRANGE", key, leftId.toString, rightId.toString]
  | .xread request blockMs => [ascii "XREAD"] ++
      (match blockMs with
      | some blockMs => [ascii "block", decimal blockMs.toNat]
      | none => []) ++
      [ascii "streams"] ++ request.flatMap fun (key, id) => [key, id.toString]

/-- `Command::construct`: the array of bulk strings that a client would send for the command.
The talkers use it to send commands themselves. -/
def construct (command : Command) : Message :=
  .array (command.parts.map .bulkString)

/-! ## Reading back what is constructed -/

@[simp] theorem argument_bulkString (what data : Bytes) :
    argument what (.bulkString data) = .ok data := rfl

@[simp] theorem arguments_bulkStrings (what : Bytes) (args : List Bytes) :
    arguments what (args.map .bulkString) = .ok args := by
  induction args with
  | nil => rfl
  | cons arg args ih => simp [arguments, ih]

/-- An expiry that SET accepts: absent, or a positive `int`.  It is read by `parseInt`, and the
sign is checked behind that. -/
def ExpiryFits (expireMs : Option Int) : Prop :=
  ∀ ms ∈ expireMs, 0 < ms ∧ ms < 2 ^ 31

/-- What PX accepts is positive and fits an `int`. -/
theorem pxArgument_range {m : Message} {ms : Int} (h : pxArgument m = .ok ms) :
    0 < ms ∧ ms < 2 ^ 31 := by
  unfold pxArgument at h
  split at h
  · cases h
  · split at h
    · cases h
    · next hparse =>
      split at h
      · cases h
      · obtain rfl := Except.ok.inj h
        exact ⟨by omega, (parseInt_range hparse).2⟩

theorem pxArgument_decimalInt {ms : Int} (hpos : 0 < ms) (hfits : ms < 2 ^ 31) :
    pxArgument (.bulkString (decimalInt ms)) = .ok ms := by
  have hparse : parseInt (decimalInt ms) = some ms := parseInt_decimalInt (by omega) hfits
  have hle : ¬ ms ≤ 0 := by omega
  simp only [pxArgument, argument_bulkString, hparse, hle, if_false]

/-- `setParams` reads back the expiry that `SetCommand::construct` writes. -/
theorem setParams_px {ms : Int} (hpos : 0 < ms) (hfits : ms < 2 ^ 31) :
    setParams none [.bulkString (ascii "PX"), .bulkString (decimalInt ms)] =
      .ok (some ms) := by
  have hparam : toLowerCase (ascii "PX") = ascii "px" := by decide
  simp only [setParams, argument_bulkString, hparam, if_true,
    pxArgument_decimalInt hpos hfits]

/-- A SET that is pushed to a replica is parsed there as the same SET. -/
theorem tryParse_construct_set (key value : Bytes) {expireMs : Option Int}
    (h : ExpiryFits expireMs) :
    tryParse (construct (.set key value expireMs)) = .ok (.set key value expireMs) := by
  have hname : toLowerCase (ascii "SET") = ascii "set" := by decide
  cases expireMs with
  | none => rfl
  | some ms =>
      obtain ⟨hpos, hfits⟩ := h ms rfl
      have hset : tryParse (construct (.set key value (some ms))) =
          tryParseSet [.bulkString key, .bulkString value, .bulkString (ascii "PX"),
            .bulkString (decimalInt ms)] := rfl
      rw [hset]
      simp only [tryParseSet, argument_bulkString, setParams_px hpos hfits]
      rfl

/-- REPLCONF is read back whatever its arguments are. -/
theorem tryParse_construct_replConf (args : List Bytes) :
    tryParse (construct (.replConf args)) = .ok (.replConf args) := by
  have h : tryParse (construct (.replConf args)) = tryParseReplConf (args.map .bulkString) :=
    rfl
  rw [h, tryParseReplConf, arguments_bulkStrings]
  rfl

/-! ## What is known of a parsed command -/

/-- Every value that a computation returns has a property. -/
def Yields {α : Type} (r : Except CommandFault α) (p : α → Prop) : Prop :=
  ∀ a, r = .ok a → p a

@[simp] theorem yields_error {α : Type} {p : α → Prop} (fault : CommandFault) :
    Yields (.error fault) p := nofun

@[simp] theorem yields_ok {α : Type} {p : α → Prop} {a : α} : Yields (.ok a) p ↔ p a := by
  simp [Yields]

@[simp] theorem yields_pure {α : Type} {p : α → Prop} {a : α} :
    Yields (pure a) p ↔ p a := yields_ok

theorem yields_map {α β : Type} {p : β → Prop} {r : Except CommandFault α} {f : α → β}
    (h : Yields r fun a => p (f a)) : Yields (r.map f) p := by
  cases r with
  | error fault => exact yields_error fault
  | ok a => exact yields_ok.mpr (h a rfl)

theorem yields_bind {α β : Type} {p : β → Prop} {r : Except CommandFault α}
    {f : α → Except CommandFault β} (h : Yields r fun a => Yields (f a) p) :
    Yields (r >>= f) p := by
  cases r with
  | error fault => exact yields_error fault
  | ok a => exact h a rfl

theorem yields_of_forall {α : Type} {p : α → Prop} {r : Except CommandFault α}
    (h : ∀ a, p a) : Yields r p :=
  fun a _ => h a

/-- A command of the expected type. -/
abbrev HasType (t : CommandType) (c : Command) : Prop := c.commandType = t

theorem tryParseEcho_type (data : List Message) :
    Yields (tryParseEcho data) (HasType .echo) := by
  unfold tryParseEcho
  split
  · exact yields_map (yields_of_forall fun _ => rfl)
  · exact yields_error _

theorem tryParseInfo_type (data : List Message) :
    Yields (tryParseInfo data) (HasType .info) :=
  yields_map (yields_of_forall fun _ => rfl)

theorem tryParseReplConf_type (data : List Message) :
    Yields (tryParseReplConf data) (HasType .replConf) :=
  yields_map (yields_of_forall fun _ => rfl)

theorem tryParsePsync_type (data : List Message) :
    Yields (tryParsePsync data) (HasType .psync) :=
  yields_map (yields_of_forall fun _ => rfl)

theorem tryParseKey_type {t : CommandType} {build : Bytes → Command}
    (h : ∀ key, (build key).commandType = t) (name : Bytes) (data : List Message) :
    Yields (tryParseKey name build data) (HasType t) := by
  unfold tryParseKey
  split
  · exact yields_error _
  · exact yields_map (yields_of_forall h)

theorem tryParseWait_type (data : List Message) :
    Yields (tryParseWait data) (HasType .wait) := by
  unfold tryParseWait
  split
  · exact yields_error _
  · exact yields_bind (yields_of_forall fun _ =>
      yields_bind (yields_of_forall fun _ => yields_pure.mpr rfl))

theorem tryParseConfig_type (data : List Message) :
    Yields (tryParseConfig data) (HasType .config) := by
  unfold tryParseConfig
  split
  · exact yields_ok.mpr rfl
  · exact yields_bind (yields_of_forall fun _ =>
      yields_bind (yields_of_forall fun _ => yields_pure.mpr rfl))

theorem tryParseXAdd_type (data : List Message) :
    Yields (tryParseXAdd data) (HasType .xadd) := by
  unfold tryParseXAdd
  split
  · refine yields_bind (yields_of_forall fun _ => yields_bind (yields_of_forall fun _ => ?_))
    exact yields_bind (yields_of_forall fun _ =>
      yields_bind (yields_of_forall fun _ => yields_pure.mpr rfl))
  · exact yields_error _

theorem tryParseXRange_type (data : List Message) :
    Yields (tryParseXRange data) (HasType .xrange) := by
  unfold tryParseXRange
  split
  · refine yields_bind (yields_of_forall fun _ => yields_bind (yields_of_forall fun _ => ?_))
    refine yields_bind (yields_of_forall fun _ => yields_bind (yields_of_forall fun _ => ?_))
    exact yields_bind (yields_of_forall fun _ => yields_pure.mpr rfl)
  · exact yields_error _

theorem xreadArgs_type (blockMs : Option UInt64) (data : List Message) :
    Yields (xreadArgs blockMs data) (HasType .xread) := by
  fun_induction xreadArgs blockMs data with
  | case1 blockMs => exact yields_ok.mpr rfl
  | case3 blockMs m ms arg harg hstreams => exact yields_map (yields_of_forall fun _ => rfl)
  | case6 blockMs m arg harg timeoutMs ms hstreams hblock timeoutMs' hvalue ih => exact ih
  | case2 | case4 | case5 | case7 => exact yields_error _

theorem tryParseXRead_type (data : List Message) :
    Yields (tryParseXRead data) (HasType .xread) := by
  unfold tryParseXRead
  split
  · exact yields_error _
  · exact xreadArgs_type none data

/-- The expiry read from the parameters of SET is positive and fits an `int`. -/
theorem setParams_fits (expireMs : Option Int) (data : List Message)
    (hfits : ExpiryFits expireMs) : Yields (setParams expireMs data) ExpiryFits := by
  fun_induction setParams expireMs data with
  | case1 expireMs => exact yields_ok.mpr hfits
  | case7 expireMs m value ms param hparam hpx value' hvalue ih =>
      refine ih fun ms hms => ?_
      obtain rfl := Option.mem_some.mp hms
      exact pxArgument_range hvalue
  | case2 | case3 | case4 | case5 | case6 | case8 => exact yields_error _

/-- A SET has an expiry that is read back when it is pushed to a replica. -/
theorem tryParseSet_fits (data : List Message) :
    Yields (tryParseSet data) fun c =>
      ∃ key value expireMs, c = .set key value expireMs ∧ ExpiryFits expireMs := by
  unfold tryParseSet
  split
  · exact yields_error _
  · split <;> exact yields_error _
  · next key value params =>
      refine yields_bind (yields_of_forall fun key => ?_)
      refine yields_bind (yields_of_forall fun value => ?_)
      refine yields_bind fun expireMs hparams => yields_pure.mpr ?_
      exact ⟨key, value, expireMs, rfl, setParams_fits none params nofun _ hparams⟩

/-- `try_parse` of a class builds a command of that class. -/
theorem tryParseAs_type (t : CommandType) (data : List Message) :
    Yields (tryParseAs t data) (HasType t) := by
  cases t with
  | ping => exact yields_ok.mpr rfl
  | echo => exact tryParseEcho_type data
  | get => exact @tryParseKey_type .get .get (fun _ => rfl) (ascii "GET") data
  | info => exact tryParseInfo_type data
  | replConf => exact tryParseReplConf_type data
  | psync => exact tryParsePsync_type data
  | wait => exact tryParseWait_type data
  | keys => exact @tryParseKey_type .keys .keys (fun _ => rfl) (ascii "KEYS") data
  | config => exact tryParseConfig_type data
  | type => exact @tryParseKey_type .type .type (fun _ => rfl) (ascii "TYPE") data
  | xadd => exact tryParseXAdd_type data
  | xrange => exact tryParseXRange_type data
  | xread => exact tryParseXRead_type data
  | set =>
      rintro c hc
      obtain ⟨key, value, expireMs, rfl, -⟩ := tryParseSet_fits data c hc
      rfl

/-- Every SET that was parsed from a message is parsed the same after it is pushed. -/
theorem tryParse_set_fits {m : Message} {key value : Bytes} {expireMs : Option Int}
    (h : tryParse m = .ok (.set key value expireMs)) : ExpiryFits expireMs := by
  unfold tryParse at h
  split at h
  · next name data =>
    split at h
    · next t htype =>
      obtain rfl : CommandType.set = t := tryParseAs_type t data _ h
      obtain ⟨key', value', expireMs', heq, hfits⟩ := tryParseSet_fits data _ h
      obtain ⟨-, -, rfl⟩ := Command.set.inj heq
      exact hfits
    · cases h
  · cases h

end Command

end BuildYourOwnRedis
