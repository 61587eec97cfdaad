/-
  Server/CommandLine.lean --- `ServerInfo::build`: the arguments of the program.

  The loop takes one option after the other and overwrites what an option before it has set.
  A list of arguments is well formed when it is one option behind the other; then of every
  option the last occurrence counts.  Any other list is refused with a text that depends on
  the first place where no option stands.

  `std::atoi` is not defined for a number that is no `int`.
-/
import BuildYourOwnRedis.Server.ServerInfo

set_option autoImplicit false

namespace BuildYourOwnRedis

open Foundation

/-! ## `ServerInfo::build` -/

/-- `std::isspace` in the `"C"` locale. -/
def isSpace (b : Byte) : Bool := b == 32 || (9 ≤ b && b ≤ 13)

/-- `std::atoi`: blanks, a sign, and the digits up to the first other byte. -/
def atoi (text : Bytes) : Option Int :=
  let text := text.dropWhile isSpace
  let digits := if text.head? = some minusByte ∨ text.head? = some plusByte then text.tail else text
  let magnitude : Int := decimalValue (digits.takeWhile isDigit)
  let value := if text.head? = some minusByte then -magnitude else magnitude
  if -2 ^ 31 ≤ value ∧ value < 2 ^ 31 then some value else none

/-- How `ServerInfo::build` fails.  `std::atoi` is undefined where the number does not fit, so
this is kept apart from the exceptions with a text. -/
inductive BuildFault where
  /-- `std::runtime_error` -/
  | runtimeError (what : Bytes)
  | undefinedBehaviour
  deriving DecidableEq, Repr

/-- `ServerInfo` with its `debug_level`. -/
structure CommandLine where
  info : ServerInfo
  debugLevel : Nat := 0
  deriving DecidableEq, Repr

namespace CommandLine

/-- The loop of `ServerInfo::build`. -/
def buildLoop (line : CommandLine) : List Bytes → Except BuildFault CommandLine
  | [] => .ok line
  | arg :: args =>
      if arg = ascii "--port" then
        match args with
        | [] => .error (.runtimeError (ascii "--port requires argument"))
        | value :: args =>
            match atoi value with
            | none => .error .undefinedBehaviour
            | some port => buildLoop { line with info := { line.info with tcpPort := port } } args
      else if arg = ascii "--replicaof" then
        match args with
        | [] => .error (.runtimeError (ascii "--replicaof requires argument \"[host port]\""))
        | value :: args =>
            match splitAtDelim [32] value with
            | none => .error (.runtimeError (ascii "--replicaof requires argument [host port]"))
            | some (host, port) =>
                match atoi port with
                | none => .error .undefinedBehaviour
                | some port => buildLoop { line with info := { line.info with
                    role := ascii "slave", masterHost := host, masterPort := port } } args
      else if arg = ascii "--dir" then
        match args with
        | [] => .error (.runtimeError (ascii "--dir requires argument"))
        | value :: args => buildLoop { line with info := { line.info with dir := value } } args
      else if arg = ascii "--dbfilename" then
        match args with
        | [] => .error (.runtimeError (ascii "--dbfilename requires argument"))
        | value :: args =>
            buildLoop { line with info := { line.info with dbfilename := value } } args
      else if arg = ascii "-v" then buildLoop { line with debugLevel := 1 } args
      else if arg = ascii "-vv" then buildLoop { line with debugLevel := 2 } args
      else .error (.runtimeError (ascii "unexpected argument: " ++ arg))

/-- `ServerInfo::build` behind the name of the program; `masterReplid` is what
`random_hexstring` gives. -/
def build (masterReplid : Bytes) (args : List Bytes) : Except BuildFault CommandLine :=
  buildLoop { info := { masterReplid := masterReplid } } args

end CommandLine

/-! ## Options -/

/-- An option with its argument, as it can stand on a command line.  Each constructor carries
what its argument must be, so a list of options stands for arguments that are accepted. -/
inductive CommandOption where
  | port (text : Bytes) (value : Int) (hvalue : atoi text = some value)
  | replicaof (host : Bytes) (hhost : 32 ∉ host) (text : Bytes) (port : Int)
      (hport : atoi text = some port)
  | dir (path : Bytes)
  | dbfilename (name : Bytes)
  | verbose
  | veryVerbose

namespace CommandOption

/-- The arguments that give an option. -/
def args : CommandOption → List Bytes
  | port text _ _ => [ascii "--port", text]
  | replicaof host _ text _ _ => [ascii "--replicaof", host ++ [32] ++ text]
  | dir path => [ascii "--dir", path]
  | dbfilename name => [ascii "--dbfilename", name]
  | verbose => [ascii "-v"]
  | veryVerbose => [ascii "-vv"]

/-- What an option sets. -/
def apply (line : CommandLine) : CommandOption → CommandLine
  | port _ value _ => { line with info := { line.info with tcpPort := value } }
  | replicaof host _ _ number _ => { line with info := { line.info with
      role := ascii "slave", masterHost := host, masterPort := number } }
  | dir path => { line with info := { line.info with dir := path } }
  | dbfilename name => { line with info := { line.info with dbfilename := name } }
  | verbose => { line with debugLevel := 1 }
  | veryVerbose => { line with debugLevel := 2 }

def port? : CommandOption → Option Int
  | port _ value _ => some value
  | _ => none

def replicaof? : CommandOption → Option (Bytes × Int)
  | replicaof host _ _ number _ => some (host, number)
  | _ => none

def dir? : CommandOption → Option Bytes
  | dir path => some path
  | _ => none

def dbfilename? : CommandOption → Option Bytes
  | dbfilename name => some name
  | _ => none

def debugLevel? : CommandOption → Option Nat
  | verbose => some 1
  | veryVerbose => some 2
  | _ => none

end CommandOption

/-- The last of the values that options give. -/
def lastOf {α : Type} (value? : CommandOption → Option α) (options : List CommandOption) :
    Option α :=
  (options.filterMap value?).getLast?

/-- What options mean: of each the last one counts. -/
def CommandLine.of (masterReplid : Bytes) (options : List CommandOption) : CommandLine where
  info :=
    { tcpPort := (lastOf CommandOption.port? options).getD 6379
      dir := (lastOf CommandOption.dir? options).getD []
      dbfilename := (lastOf CommandOption.dbfilename? options).getD []
      role := if (lastOf CommandOption.replicaof? options).isSome then ascii "slave"
        else ascii "master"
      masterReplid := masterReplid
      masterHost := ((lastOf CommandOption.replicaof? options).map Prod.fst).getD []
      masterPort := ((lastOf CommandOption.replicaof? options).map Prod.snd).getD 0 }
  debugLevel := (lastOf CommandOption.debugLevel? options).getD 0

/-- Arguments that do not begin with an option, and how they are refused.  What an option needs
may be missing, or be a number that does not fit; and the first argument may be no option at
all. -/
inductive Stuck : List Bytes → BuildFault → Prop where
  | port : Stuck [ascii "--port"] (.runtimeError (ascii "--port requires argument"))
  | portValue {text : Bytes} (args : List Bytes) (h : atoi text = none) :
      Stuck (ascii "--port" :: text :: args) .undefinedBehaviour
  | replicaof : Stuck [ascii "--replicaof"]
      (.runtimeError (ascii "--replicaof requires argument \"[host port]\""))
  | replicaofValue {value : Bytes} (args : List Bytes) (h : 32 ∉ value) :
      Stuck (ascii "--replicaof" :: value :: args)
        (.runtimeError (ascii "--replicaof requires argument [host port]"))
  | replicaofPort {host text : Bytes} (args : List Bytes) (hhost : 32 ∉ host)
      (h : atoi text = none) :
      Stuck (ascii "--replicaof" :: (host ++ [32] ++ text) :: args) .undefinedBehaviour
  | dir : Stuck [ascii "--dir"] (.runtimeError (ascii "--dir requires argument"))
  | dbfilename :
      Stuck [ascii "--dbfilename"] (.runtimeError (ascii "--dbfilename requires argument"))
  | unexpected {arg : Bytes} (args : List Bytes)
      (h : arg ∉ [ascii "--port", ascii "--replicaof", ascii "--dir", ascii "--dbfilename",
        ascii "-v", ascii "-vv"]) :
      Stuck (arg :: args) (.runtimeError (ascii "unexpected argument: " ++ arg))

namespace CommandLine

variable {line : CommandLine} {args : List Bytes} {masterReplid : Bytes} {fault : BuildFault}

/-! ## One turn of the loop -/

theorem splitAtDelim_host {host : Bytes} (hhost : 32 ∉ host) (text : Bytes) :
    splitAtDelim [32] (host ++ [32] ++ text) = some (host, text) :=
  splitAtDelim_single text hhost

/-- Where the arguments begin with an option, the loop applies it and goes on behind it. -/
theorem buildLoop_option (line : CommandLine) (option : CommandOption) (args : List Bytes) :
    buildLoop line (option.args ++ args) = buildLoop (option.apply line) args := by
  rw [buildLoop.eq_def]
  cases option with
  | port text value hvalue =>
      refine (if_pos rfl).trans ?_
      change (match atoi text with | none => _ | some port => _) = _
      rw [hvalue]
      rfl
  | replicaof host hhost text number hnumber =>
      refine (if_neg (by decide)).trans ((if_pos rfl).trans ?_)
      change (match splitAtDelim [32] (host ++ [32] ++ text) with
        | none => _ | some (host, port) => _) = _
      rw [splitAtDelim_host hhost]
      change (match atoi text with | none => _ | some port => _) = _
      rw [hnumber]
      rfl
  | dir path =>
      exact (if_neg (by decide)).trans ((if_neg (by decide)).trans (if_pos rfl))
  | dbfilename name =>
      exact (if_neg (by decide)).trans ((if_neg (by decide)).trans ((if_neg (by decide)).trans
        (if_pos rfl)))
  | verbose =>
      exact (if_neg (by decide)).trans ((if_neg (by decide)).trans ((if_neg (by decide)).trans
        ((if_neg (by decide)).trans (if_pos rfl))))
  | veryVerbose =>
      exact (if_neg (by decide)).trans ((if_neg (by decide)).trans ((if_neg (by decide)).trans
        ((if_neg (by decide)).trans ((if_neg (by decide)).trans (if_pos rfl)))))

/-- Where they do not begin with one, the loop ends, as the first place says. -/
theorem buildLoop_stuck (line : CommandLine) (h : Stuck args fault) :
    buildLoop line args = .error fault := by
  rw [buildLoop.eq_def]
  cases h with
  | port => exact if_pos rfl
  | portValue args h =>
      refine (if_pos rfl).trans ?_
      simp only [h]
  | replicaof => exact (if_neg (by decide)).trans (if_pos rfl)
  | replicaofValue args h =>
      refine (if_neg (by decide)).trans ((if_pos rfl).trans ?_)
      simp only [splitAtDelim_single_eq_none h]
  | replicaofPort args hhost h =>
      refine (if_neg (by decide)).trans ((if_pos rfl).trans ?_)
      simp only [splitAtDelim_host hhost, h]
  | dir => exact (if_neg (by decide)).trans ((if_neg (by decide)).trans (if_pos rfl))
  | dbfilename =>
      exact (if_neg (by decide)).trans ((if_neg (by decide)).trans ((if_neg (by decide)).trans
        (if_pos rfl)))
  | unexpected args h =>
      simp only [List.mem_cons, List.not_mem_nil, or_false, not_or] at h
      obtain ⟨hport, hreplicaof, hdir, hdbfilename, hv, hvv⟩ := h
      simp only [hport, hreplicaof, hdir, hdbfilename, hv, hvv, if_false]

/-- There is nothing else: arguments that are not empty begin with an option, or are refused.
-/
theorem option_or_stuck (arg : Bytes) (args : List Bytes) :
    (∃ option : CommandOption, ∃ rest, arg :: args = option.args ++ rest) ∨
      ∃ fault, Stuck (arg :: args) fault := by
  by_cases hport : arg = ascii "--port"
  · subst hport
    rcases args with _ | ⟨text, args⟩
    · exact .inr ⟨_, .port⟩
    · cases hvalue : atoi text with
      | none => exact .inr ⟨_, .portValue args hvalue⟩
      | some value => exact .inl ⟨.port text value hvalue, args, rfl⟩
  by_cases hreplicaof : arg = ascii "--replicaof"
  · subst hreplicaof
    rcases args with _ | ⟨value, args⟩
    · exact .inr ⟨_, .replicaof⟩
    · by_cases hspace : 32 ∈ value
      · obtain ⟨host, text, rfl, hhost⟩ := List.eq_append_cons_of_mem hspace
        rw [List.append_cons]
        cases hnumber : atoi text with
        | none => exact .inr ⟨_, .replicaofPort args hhost hnumber⟩
        | some number => exact .inl ⟨.replicaof host hhost text number hnumber, args, rfl⟩
      · exact .inr ⟨_, .replicaofValue args hspace⟩
  by_cases hdir : arg = ascii "--dir"
  · subst hdir
    rcases args with _ | ⟨path, args⟩
    · exact .inr ⟨_, .dir⟩
    · exact .inl ⟨.dir path, args, rfl⟩
  by_cases hdbfilename : arg = ascii "--dbfilename"
  · subst hdbfilename
    rcases args with _ | ⟨name, args⟩
    · exact .inr ⟨_, .dbfilename⟩
    · exact .inl ⟨.dbfilename name, args, rfl⟩
  by_cases hv : arg = ascii "-v"
  · exact .inl ⟨.verbose, args, hv ▸ rfl⟩
  by_cases hvv : arg = ascii "-vv"
  · exact .inl ⟨.veryVerbose, args, hvv ▸ rfl⟩
  exact .inr ⟨_, .unexpected args (by simp [hport, hreplicaof, hdir, hdbfilename, hv, hvv])⟩

/-- A list of arguments is options and then nothing, or something that is no option. -/
theorem exists_options (args : List Bytes) : ∃ (options : List CommandOption) (rest : List Bytes),
    args = options.flatMap CommandOption.args ++ rest ∧
      (rest = [] ∨ ∃ fault, Stuck rest fault) := by
  induction hlength : args.length using Nat.strong_induction_on generalizing args with
  | _ n ih =>
      cases args with
      | nil => exact ⟨[], [], rfl, .inl rfl⟩
      | cons arg args =>
          rcases option_or_stuck arg args with ⟨option, rest, heq⟩ | hstuck
          · have hpos : 0 < option.args.length := by cases option <;> simp [CommandOption.args]
            have hlt : rest.length < n := by
              rw [← hlength, heq, List.length_append]
              omega
            obtain ⟨options, rest', rfl, hrest'⟩ := ih rest.length hlt rest rfl
            exact ⟨option :: options, rest', by simp [heq], hrest'⟩
          · exact ⟨[], arg :: args, rfl, .inr hstuck⟩

/-- The options are taken one after the other. -/
theorem buildLoop_options (line : CommandLine) (options : List CommandOption)
    (rest : List Bytes) : buildLoop line (options.flatMap CommandOption.args ++ rest) =
      buildLoop (options.foldl CommandOption.apply line) rest := by
  induction options generalizing line with
  | nil => rfl
  | cons option options ih =>
      rw [List.flatMap_cons, List.append_assoc, buildLoop_option, ih, List.foldl_cons]

/-! ## The last option counts -/

theorem lastOf_map {α β : Type} (f : α → β) (v : CommandOption → Option α)
    (options : List CommandOption) :
    lastOf (fun option => (v option).map f) options = (lastOf v options).map f := by
  rw [lastOf, lastOf, ← List.getLast?_map, List.map_filterMap]

theorem lastOf_none {α : Type} (options : List CommandOption) :
    lastOf (fun _ => (none : Option α)) options = none := by
  rw [lastOf, List.filterMap_eq_nil_iff.mpr fun _ _ => rfl]
  rfl

/-- What every option overwrites or leaves as it is. -/
theorem foldl_lastOf {α : Type} (v : CommandOption → Option α) (g : CommandLine → α)
    (happly : ∀ line option, g (CommandOption.apply line option) = (v option).getD (g line))
    (line : CommandLine) (options : List CommandOption) :
    g (options.foldl CommandOption.apply line) = (lastOf v options).getD (g line) := by
  induction options generalizing line with
  | nil => rfl
  | cons option options ih =>
      rw [List.foldl_cons, ih, happly]
      cases hvalue : v option with
      | none => rw [lastOf, lastOf, List.filterMap_cons_none hvalue, Option.getD_none]
      | some value =>
          rw [lastOf, lastOf, List.filterMap_cons_some hvalue, List.getLast?_cons]
          rfl

theorem eq_of_fields {line line' : CommandLine} (htcpPort : line.info.tcpPort = line'.info.tcpPort)
    (hdir : line.info.dir = line'.info.dir)
    (hdbfilename : line.info.dbfilename = line'.info.dbfilename)
    (hrole : line.info.role = line'.info.role)
    (hreplid : line.info.masterReplid = line'.info.masterReplid)
    (hoffset : line.info.masterReplOffset = line'.info.masterReplOffset)
    (hhost : line.info.masterHost = line'.info.masterHost)
    (hport : line.info.masterPort = line'.info.masterPort)
    (hdebug : line.debugLevel = line'.debugLevel) : line = line' := by
  rcases line with ⟨⟨_, _, _, _, _, _, _, _⟩, _⟩
  rcases line' with ⟨⟨_, _, _, _, _, _, _, _⟩, _⟩
  simp only at htcpPort hdir hdbfilename hrole hreplid hoffset hhost hport hdebug
  subst htcpPort hdir hdbfilename hrole hreplid hoffset hhost hport hdebug
  rfl

theorem foldl_apply (masterReplid : Bytes) (options : List CommandOption) :
    options.foldl CommandOption.apply { info := { masterReplid := masterReplid } } =
      of masterReplid options := by
  refine eq_of_fields ?_ ?_ ?_ ?_ ?_ ?_ ?_ ?_ ?_
  · exact foldl_lastOf CommandOption.port? (fun line => line.info.tcpPort)
      (fun _ option => by cases option <;> rfl) _ options
  · exact foldl_lastOf CommandOption.dir? (fun line => line.info.dir)
      (fun _ option => by cases option <;> rfl) _ options
  · exact foldl_lastOf CommandOption.dbfilename? (fun line => line.info.dbfilename)
      (fun _ option => by cases option <;> rfl) _ options
  · rw [foldl_lastOf (fun option => option.replicaof?.map fun _ => ascii "slave")
      (fun line => line.info.role) (fun _ option => by cases option <;> rfl), lastOf_map, of]
    cases lastOf CommandOption.replicaof? options <;> rfl
  · rw [foldl_lastOf (fun _ => none) (fun line => line.info.masterReplid)
      (fun _ option => by cases option <;> rfl), lastOf_none]
    rfl
  · rw [foldl_lastOf (fun _ => none) (fun line => line.info.masterReplOffset)
      (fun _ option => by cases option <;> rfl), lastOf_none]
    rfl
  · rw [foldl_lastOf (fun option => option.replicaof?.map Prod.fst)
      (fun line => line.info.masterHost) (fun _ option => by cases option <;> rfl), lastOf_map]
    rfl
  · rw [foldl_lastOf (fun option => option.replicaof?.map Prod.snd)
      (fun line => line.info.masterPort) (fun _ option => by cases option <;> rfl), lastOf_map]
    rfl
  · exact foldl_lastOf CommandOption.debugLevel? CommandLine.debugLevel
      (fun _ option => by cases option <;> rfl) _ options

/-- **The command line.**  It is accepted exactly if it is one option behind the other, and of
every option the last one counts; it is refused exactly as the first place says at which there
is no option. -/
theorem build_eq_iff (masterReplid : Bytes) (args : List Bytes) :
    (∀ line, build masterReplid args = .ok line ↔ ∃ options : List CommandOption,
      args = options.flatMap CommandOption.args ∧ line = of masterReplid options) ∧
    ∀ fault, build masterReplid args = .error fault ↔ ∃ (options : List CommandOption)
      (rest : List Bytes), args = options.flatMap CommandOption.args ++ rest ∧
        Stuck rest fault := by
  have hok : ∀ options : List CommandOption, args = options.flatMap CommandOption.args →
      build masterReplid args = .ok (of masterReplid options) := by
    rintro options rfl
    have hloop := buildLoop_options { info := { masterReplid := masterReplid } } options []
    rw [List.append_nil, foldl_apply] at hloop
    exact hloop
  have herror : ∀ (options : List CommandOption) (rest : List Bytes) (fault : BuildFault),
      args = options.flatMap CommandOption.args ++ rest → Stuck rest fault →
      build masterReplid args = .error fault := by
    rintro options rest fault rfl hstuck
    rw [build, buildLoop_options]
    exact buildLoop_stuck _ hstuck
  obtain ⟨options, rest, hargs, hrest⟩ := exists_options args
  refine ⟨fun line => ⟨fun h => ?_, ?_⟩, fun fault => ⟨fun h => ?_, ?_⟩⟩
  · rcases hrest with rfl | ⟨fault, hstuck⟩
    · rw [List.append_nil] at hargs
      rw [hok options hargs] at h
      exact ⟨options, hargs, (Except.ok.inj h).symm⟩
    · rw [herror options rest fault hargs hstuck] at h
      cases h
  · rintro ⟨options, hargs, rfl⟩
    exact hok options hargs
  · rcases hrest with rfl | ⟨fault', hstuck⟩
    · rw [List.append_nil] at hargs
      rw [hok options hargs] at h
      cases h
    · rw [herror options rest fault' hargs hstuck] at h
      exact ⟨options, rest, hargs, Except.error.inj h ▸ hstuck⟩
  · rintro ⟨options, rest, hargs, hstuck⟩
    exact herror options rest fault hargs hstuck

/-- The port comes twice; a host without a port is refused. -/
example : (build [] [ascii "--port", ascii "1", ascii "--replicaof", ascii "localhost 6380",
    ascii "--port", ascii "6381x"]).toOption.map (fun line => (line.info.tcpPort,
      line.info.isReplica, line.info.masterHost, line.info.masterPort)) =
        some (6381, true, ascii "localhost", 6380) ∧
    build [] [ascii "-v", ascii "--replicaof", ascii "localhost"] =
      .error (.runtimeError (ascii "--replicaof requires argument [host port]")) := by
  decide +kernel

end CommandLine

end BuildYourOwnRedis
