/-
  Command/Defined.lean --- which requests make `try_parse` read an element that is not
  there.

  Every class checks how many elements there are before it reads them, except WAIT: its
  check refuses three arguments and nothing else.
-/
import BuildYourOwnRedis.Command.Command

set_option autoImplicit false

namespace BuildYourOwnRedis

open Foundation

namespace Command

/-- A computation that reads no element behind the end of the vector.  It may fail with an
error, which has a text and is answered. -/
def Defined {α : Type} (r : Except CommandFault α) : Prop :=
  r ≠ .error .undefinedBehaviour

section

variable {α β : Type}

@[simp] theorem defined_ok (a : α) : Defined (.ok a : Except CommandFault α) := nofun

@[simp] theorem defined_pure (a : α) : Defined (pure a : Except CommandFault α) := nofun

@[simp] theorem defined_parseError (what : Bytes) :
    Defined (.error (.parseError what) : Except CommandFault α) := nofun

theorem defined_map {r : Except CommandFault α} (h : Defined r) (f : α → β) :
    Defined (r.map f) := by
  cases r with
  | ok a => exact defined_ok (f a)
  | error fault =>
      intro heq
      exact h (congrArg Except.error (Except.error.inj heq))

theorem defined_bind {r : Except CommandFault α} {f : α → Except CommandFault β}
    (h : Defined r) (hf : ∀ a, Defined (f a)) : Defined (r >>= f) := by
  cases r with
  | ok a => exact hf a
  | error fault =>
      intro heq
      exact h (congrArg Except.error (Except.error.inj heq))

end

/-! ## Arguments -/

theorem argument_defined (what : Bytes) (m : Message) : Defined (argument what m) := by
  unfold argument
  split <;> simp

theorem arguments_defined (what : Bytes) (ms : List Message) :
    Defined (arguments what ms) := by
  induction ms with
  | nil => exact defined_ok []
  | cons m ms ih =>
      have hbind : arguments what (m :: ms) =
          argument what m >>= fun arg => arguments what ms >>= fun args =>
            pure (arg :: args) := by
        rw [arguments]
        cases argument what m with
        | error fault => rfl
        | ok arg => cases arguments what ms <;> rfl
      rw [hbind]
      exact defined_bind (argument_defined what m) fun arg =>
        defined_bind ih fun args => defined_pure _

theorem streamIdResult_defined {α : Type} (r : Except Bytes α) :
    Defined (streamIdResult r) := by
  cases r with
  | ok id => exact defined_ok id
  | error what => exact defined_parseError what

/-- A fault of `argument` that is passed on has a text, so it is no undefined read. -/
theorem defined_of_argument {α : Type} {what : Bytes} {m : Message} {fault : CommandFault}
    (h : argument what m = .error fault) :
    Defined (.error fault : Except CommandFault α) := by
  intro heq
  obtain rfl := Except.error.inj heq
  exact argument_defined what m h

theorem pxArgument_defined (m : Message) : Defined (pxArgument m) := by
  unfold pxArgument
  split
  · next harg => exact defined_of_argument harg
  · split
    · exact defined_parseError _
    · split <;> simp

theorem setParams_defined (expireMs : Option Int) (ms : List Message) :
    Defined (setParams expireMs ms) := by
  fun_induction setParams expireMs ms with
  | case1 expireMs => exact defined_ok expireMs
  | case2 expireMs m fault harg => exact defined_of_argument harg
  | case5 expireMs m value ms fault harg => exact defined_of_argument harg
  | case6 expireMs m value ms param harg hpx fault hvalue =>
      intro heq
      obtain rfl := Except.error.inj heq
      exact pxArgument_defined value hvalue
  | case7 expireMs m value ms param harg hpx value' hvalue ih => exact ih
  | case3 | case4 | case8 => exact defined_parseError _

theorem xaddPairs_defined (ms : List Message) : Defined (xaddPairs ms) := by
  fun_induction xaddPairs ms with
  | case1 => exact defined_ok []
  | case2 m => exact defined_parseError _
  | case3 key value rest ih =>
      refine defined_bind (argument_defined _ key) fun key => ?_
      exact defined_bind (argument_defined _ value) fun value =>
        defined_bind ih fun pairs => defined_pure _

theorem readStreamIds_defined (ms : List Message) : Defined (readStreamIds ms) := by
  induction ms with
  | nil => exact defined_ok []
  | cons m ms ih =>
      refine defined_bind (argument_defined _ m) fun id => ?_
      exact defined_bind (streamIdResult_defined _) fun id =>
        defined_bind ih fun ids => defined_pure _

theorem xreadStreams_defined (ms : List Message) : Defined (xreadStreams ms) := by
  unfold xreadStreams
  split
  · exact defined_parseError _
  · refine defined_bind (arguments_defined _ _) fun keys => ?_
    refine defined_bind (readStreamIds_defined _) fun ids => ?_
    split <;> simp

theorem blockArgument_defined (m : Message) : Defined (blockArgument m) := by
  unfold blockArgument
  split
  · next harg => exact defined_of_argument harg
  · split <;> simp

theorem xreadArgs_defined (blockMs : Option UInt64) (ms : List Message) :
    Defined (xreadArgs blockMs ms) := by
  fun_induction xreadArgs blockMs ms with
  | case1 blockMs => exact defined_ok _
  | case2 blockMs m ms fault harg => exact defined_of_argument harg
  | case3 blockMs m ms arg harg hstreams => exact defined_map (xreadStreams_defined ms) _
  | case5 blockMs m arg harg hstreams hblock timeoutMs ms fault hvalue =>
      intro heq
      obtain rfl := Except.error.inj heq
      exact blockArgument_defined _ hvalue
  | case6 blockMs m arg harg timeoutMs ms hstreams hblock timeoutMs' hvalue ih => exact ih
  | case4 | case7 => exact defined_parseError _

/-! ## Commands -/

theorem tryParseKey_defined (name : Bytes) (build : Bytes → Command) (ms : List Message) :
    Defined (tryParseKey name build ms) := by
  unfold tryParseKey
  split
  · exact defined_parseError _
  · exact defined_map (argument_defined _ _) build

theorem tryParseSet_defined (ms : List Message) : Defined (tryParseSet ms) := by
  unfold tryParseSet
  split
  · exact defined_parseError _
  · split
    · next harg => exact defined_of_argument harg
    · exact defined_parseError _
  · refine defined_bind (argument_defined _ _) fun key => ?_
    refine defined_bind (argument_defined _ _) fun value => ?_
    exact defined_bind (setParams_defined none _) fun expireMs => defined_pure _

theorem tryParseXAdd_defined (ms : List Message) : Defined (tryParseXAdd ms) := by
  unfold tryParseXAdd
  split
  · refine defined_bind (argument_defined _ _) fun key => ?_
    refine defined_bind (argument_defined _ _) fun streamId => ?_
    refine defined_bind (streamIdResult_defined _) fun streamId => ?_
    exact defined_bind (xaddPairs_defined _) fun values => defined_pure _
  · exact defined_parseError _

theorem tryParseXRange_defined (ms : List Message) : Defined (tryParseXRange ms) := by
  unfold tryParseXRange
  split
  · refine defined_bind (argument_defined _ _) fun key => ?_
    refine defined_bind (argument_defined _ _) fun left => ?_
    refine defined_bind (streamIdResult_defined _) fun left => ?_
    refine defined_bind (argument_defined _ _) fun right => ?_
    exact defined_bind (streamIdResult_defined _) fun right => defined_pure _
  · exact defined_parseError _

/-- Every class but that of WAIT compares the number of its arguments before it reads them. -/
theorem tryParseAs_defined {t : CommandType} (h : t ≠ .wait) (ms : List Message) :
    Defined (tryParseAs t ms) := by
  cases t with
  | wait => exact absurd rfl h
  | ping => exact defined_ok _
  | echo =>
      simp only [tryParseAs, tryParseEcho]
      split
      · exact defined_map (argument_defined _ _) _
      · exact defined_parseError _
  | set => exact tryParseSet_defined ms
  | get => exact tryParseKey_defined _ _ ms
  | info => exact defined_map (arguments_defined _ ms) _
  | replConf => exact defined_map (arguments_defined _ ms) _
  | psync => exact defined_map (arguments_defined _ ms) _
  | keys => exact tryParseKey_defined _ _ ms
  | config =>
      simp only [tryParseAs, tryParseConfig]
      split
      · exact defined_ok _
      · refine defined_bind (argument_defined _ _) fun action => ?_
        exact defined_bind (arguments_defined _ _) fun args => defined_pure _
  | type => exact tryParseKey_defined _ _ ms
  | xadd => exact tryParseXAdd_defined ms
  | xrange => exact tryParseXRange_defined ms
  | xread =>
      simp only [tryParseAs, tryParseXRead]
      split
      · exact defined_parseError _
      · exact xreadArgs_defined none ms

/-! ## WAIT -/

/-- WAIT with nothing behind it, or with a number and nothing behind that. -/
def isCutOffWait : Message → Bool
  | .array [.bulkString name] => toLowerCase name = ascii "wait"
  | .array [.bulkString name, .bulkString count] =>
      toLowerCase name = ascii "wait" ∧ (parseInt count).isSome
  | _ => false

/-- An argument of WAIT that is there is read, or refused with a text. -/
theorem waitArgument_defined (position : Bytes) (m : Message) (ms : List Message) :
    Defined (waitArgument position (m :: ms)) := by
  simp only [waitArgument]
  split
  · next harg => exact defined_of_argument harg
  · split <;> simp

theorem tryParseWait_one (m : Message) :
    tryParseWait [m] = .error .undefinedBehaviour ↔
      ∃ count, m = .bulkString count ∧ (parseInt count).isSome := by
  have hwait : tryParseWait [m] = waitArgument (ascii "first") [m] >>= fun _ =>
      .error .undefinedBehaviour := by
    rfl
  rw [hwait]
  cases m with
  | bulkString count =>
      cases hparse : parseInt count with
      | none =>
          have hfirst : waitArgument (ascii "first") [.bulkString count] = .error (.parseError
              (ascii "WAIT command must have " ++ ascii "first" ++
                ascii " argument as number")) := by
            simp [waitArgument, hparse]
          rw [hfirst]
          refine iff_of_false (defined_parseError _) ?_
          rintro ⟨_, heq, hsome⟩
          obtain rfl := Message.bulkString.inj heq
          simp [hparse] at hsome
      | some value =>
          have hfirst : waitArgument (ascii "first") [.bulkString count] = .ok value := by
            simp [waitArgument, hparse]
          rw [hfirst]
          exact iff_of_true rfl ⟨count, rfl, by simp [hparse]⟩
  | undefined | leave | simpleString _ | simpleError _ | integer _ | syncResponse _ | array _ =>
      refine iff_of_false (defined_parseError _) ?_
      rintro ⟨_, heq, -⟩
      cases heq

theorem tryParseWait_defined (m₁ m₂ : Message) (ms : List Message) :
    Defined (tryParseWait (m₁ :: m₂ :: ms)) := by
  unfold tryParseWait
  split
  · exact defined_parseError _
  · refine defined_bind (waitArgument_defined _ m₁ _) fun replicas => ?_
    exact defined_bind (waitArgument_defined _ m₂ ms) fun timeoutMs => defined_pure _

/-- A name that stands for another command is not this one. -/
theorem else_of_ne {p : Prop} [Decidable p] {t u : CommandType} {rest : Option CommandType}
    (ht : t ≠ u) (h : (if p then some t else rest) = some u) : rest = some u := by
  split at h
  · exact absurd (Option.some.inj h) ht
  · exact h

theorem typeOfName_wait_iff {name : Bytes} :
    typeOfName name = some .wait ↔ name = ascii "wait" := by
  refine ⟨fun h => ?_, fun h => h ▸ by decide⟩
  unfold typeOfName at h
  iterate 7 replace h := else_of_ne (by decide) h
  split at h
  · next hname => exact hname
  · iterate 6 replace h := else_of_ne (by decide) h
    cases h

/-- **Only a WAIT that is cut off makes `try_parse` read an element that is not there.**  Every
other class compares the number of arguments, or its iterator with the end, before it reads
one. -/
theorem tryParse_undefined_iff (m : Message) :
    tryParse m = .error .undefinedBehaviour ↔ isCutOffWait m := by
  unfold tryParse
  split
  · next name data =>
      by_cases hwait : toLowerCase name = ascii "wait"
      · rw [typeOfName_wait_iff.mpr hwait]
        match data with
        | [] => exact iff_of_true rfl (by simp [isCutOffWait, hwait])
        | [m] =>
            refine (tryParseWait_one m).trans ?_
            cases m <;> simp [isCutOffWait, hwait]
        | m₁ :: m₂ :: ms =>
            exact iff_of_false (tryParseWait_defined m₁ m₂ ms) (by simp [isCutOffWait])
      · refine iff_of_false ?_ ?_
        · cases htype : typeOfName (toLowerCase name) with
          | none => exact defined_parseError _
          | some t =>
              refine tryParseAs_defined (fun h => hwait ?_) data
              exact typeOfName_wait_iff.mp (h ▸ htype)
        · unfold isCutOffWait
          grind
  · next hother =>
      refine iff_of_false (defined_parseError _) ?_
      unfold isCutOffWait
      split
      · exact absurd rfl (hother _ _)
      · exact absurd rfl (hother _ _)
      · simp

end Command

end BuildYourOwnRedis
