/-
  Command/ErrorTexts.lean --- the texts of `CommandParseError`.

  Some repeat an argument: an unknown parameter of SET or XREAD, and every id that cannot be
  read.  The text becomes a simple error, which ends at the first CR LF, so an argument that
  holds one ends the reply early.  No other text holds one.
-/
import BuildYourOwnRedis.Command.Command
import BuildYourOwnRedis.Resp.Framing

set_option autoImplicit false

namespace BuildYourOwnRedis

open Foundation

/-! ## Texts without a delimiter -/

/-- The letters of a text literal are looked at one by one. -/
theorem cr_notMem_ascii {letters : List Char}
    (h : letters.all (fun c => UInt8.ofNat c.toNat != 13) = true) :
    (13 : Byte) ∉ ascii (String.ofList letters) := by
  rw [ascii, String.toList_ofList]
  intro hmem
  obtain ⟨c, hc, heq⟩ := List.mem_map.mp hmem
  have hother := List.all_eq_true.mp h c hc
  simp [heq] at hother

theorem not_crlf_ascii {letters : List Char}
    (h : letters.all (fun c => UInt8.ofNat c.toNat != 13) = true) :
    ¬ crlf <:+: ascii (String.ofList letters) :=
  not_crlf_of_not_mem (cr_notMem_ascii h)

theorem not_crlf_append {front text : Bytes} (hfront : (13 : Byte) ∉ front)
    (h : ¬ crlf <:+: text) : ¬ crlf <:+: front ++ text := by
  induction front with
  | nil => exact h
  | cons b front ih =>
      obtain ⟨hb, hrest⟩ := not_or.mp (mt List.mem_cons.mpr hfront)
      exact not_crlf_cons (Ne.symm hb) (ih hrest)

/-- A byte behind a text is the LF of a delimiter, or it makes none. -/
theorem not_crlf_concat {b : Byte} (hb : b ≠ 10) {text : Bytes} (h : ¬ crlf <:+: text) :
    ¬ crlf <:+: text ++ [b] := by
  rintro ⟨front, rest, heq⟩
  rcases rest.eq_nil_or_concat with rfl | ⟨rest, last, rfl⟩
  · rw [List.append_nil] at heq
    have hlast := congrArg List.getLast? heq
    simp only [crlf, List.getLast?_append, List.getLast?_cons_cons, List.getLast?_singleton,
      Option.some_or, Option.some.injEq] at hlast
    exact hb hlast.symm
  · rw [List.concat_eq_append, ← List.append_assoc] at heq
    exact h ⟨front, rest, (List.append_inj' heq rfl).1⟩

theorem toLowerByte_eq_iff {b : Byte} {target : Byte} (htarget : target < 65) :
    toLowerByte b = target ↔ b = target := by
  unfold toLowerByte
  split
  · next hupper =>
      rw [UInt8.lt_iff_toNat_lt] at htarget
      simp only [UInt8.le_iff_toNat_le] at hupper
      simp only [← UInt8.toNat_inj, UInt8.toNat_add]
      simp only [UInt8.reduceToNat] at *
      omega
  · rfl

/-- Neither CR nor LF has two cases. -/
theorem not_crlf_toLowerCase {text : Bytes} (h : ¬ crlf <:+: text) :
    ¬ crlf <:+: toLowerCase text := by
  rintro ⟨front, rest, heq⟩
  obtain ⟨text₁, rest', rfl, htext₁, hrest⟩ := List.map_eq_append_iff.mp heq.symm
  obtain ⟨front', delim, rfl, hfront, hdelim⟩ := List.map_eq_append_iff.mp htext₁
  obtain ⟨cr, lf', rfl, hcr, hlf'⟩ := List.map_eq_cons_iff.mp hdelim
  obtain ⟨lf, behind, rfl, hlf, hbehind⟩ := List.map_eq_cons_iff.mp hlf'
  obtain rfl := List.map_eq_nil_iff.mp hbehind
  obtain rfl := (toLowerByte_eq_iff (by decide)).mp hcr
  obtain rfl := (toLowerByte_eq_iff (by decide)).mp hlf
  exact h ⟨front', rest', rfl⟩

/-- Quotes and backslashes part no delimiter and join none. -/
theorem not_crlf_quoted {text : Bytes} (h : ¬ crlf <:+: text) :
    ¬ crlf <:+: Command.quoted text := by
  have hinner : ¬ crlf <:+: text.flatMap fun b => if b = 34 ∨ b = 92 then [92, b] else [b] := by
    induction text with
    | nil => simp [crlf]
    | cons b text ih =>
        have hrest := ih fun hin => h (hin.trans (List.suffix_cons b text).isInfix)
        rw [List.flatMap_cons]
        by_cases hb : b = 34 ∨ b = 92
        · rw [if_pos hb]
          refine not_crlf_append ?_ hrest
          rcases hb with rfl | rfl <;> decide
        · rw [if_neg hb, List.singleton_append]
          intro hin
          rcases List.infix_cons_iff.mp hin with hfirst | hin
          · obtain ⟨tail, htail⟩ := hfirst
            simp only [crlf, List.cons_append, List.nil_append, List.cons.injEq] at htail
            obtain ⟨rfl, htail⟩ := htail
            cases text with
            | nil => cases htail
            | cons b' text =>
                rw [List.flatMap_cons] at htail
                split at htail
                · simp at htail
                · obtain ⟨rfl, -⟩ : 10 = b' ∧ tail = _ := by simpa using htail
                  exact h ⟨[], text, rfl⟩
          · exact hrest hin
  rw [Command.quoted, List.append_assoc]
  exact not_crlf_append (by decide) (not_crlf_concat (by decide) hinner)

/-! ## Errors -/

namespace Command

/-- If this is an error, its text holds no delimiter, so that it is written as one line and a
client reads all of it. -/
def Clean {α : Type} (r : Except CommandFault α) : Prop :=
  ∀ what, r = .error (.parseError what) → ¬ crlf <:+: what

/-- An argument holds no delimiter. -/
def Inline : Message → Prop
  | .bulkString data => ¬ crlf <:+: data
  | _ => True

section

variable {α β : Type}

theorem clean_ok (a : α) : Clean (.ok a : Except CommandFault α) := fun _ h => by cases h

theorem clean_undefined : Clean (.error .undefinedBehaviour : Except CommandFault α) :=
  fun _ h => by cases h

theorem clean_error {what : Bytes} (h : ¬ crlf <:+: what) :
    Clean (.error (.parseError what) : Except CommandFault α) := by
  intro what' heq
  obtain rfl := CommandFault.parseError.inj (Except.error.inj heq)
  exact h

/-- A text that repeats nothing. -/
theorem clean_fixed {what : Bytes} (h : (13 : Byte) ∉ what) :
    Clean (.error (.parseError what) : Except CommandFault α) :=
  clean_error (not_crlf_of_not_mem h)

theorem clean_recieved {text : Bytes} (h : (13 : Byte) ∉ text) (count : Nat) :
    Clean (.error (recieved text count) : Except CommandFault α) := by
  refine clean_fixed fun hmem => ?_
  rcases List.mem_append.mp hmem with hmem | hmem
  · exact h hmem
  · exact not_mem_decimal (by decide) hmem

theorem Clean.bind {r : Except CommandFault α} {f : α → Except CommandFault β} (h : Clean r)
    (hf : ∀ a, r = .ok a → Clean (f a)) : Clean (r >>= f) := by
  cases r with
  | error fault =>
      intro what heq
      exact h what (congrArg Except.error (Except.error.inj heq))
  | ok a => exact hf a rfl

theorem Clean.map {r : Except CommandFault α} (h : Clean r) (f : α → β) : Clean (r.map f) := by
  cases r with
  | error fault =>
      intro what heq
      exact h what (congrArg Except.error (Except.error.inj heq))
  | ok a => exact clean_ok (f a)

/-- An error that is passed on. -/
theorem Clean.of_error {r : Except CommandFault α} {fault : CommandFault} (h : Clean r)
    (heq : r = .error fault) : Clean (.error fault : Except CommandFault β) := by
  intro what hwhat
  obtain rfl := Except.error.inj hwhat
  exact h what heq

end

theorem clean_argument {what : Bytes} (h : (13 : Byte) ∉ what) (m : Message) :
    Clean (argument what m) := by
  cases m with
  | bulkString data => exact clean_ok data
  | _ => exact clean_fixed h

theorem clean_arguments {what : Bytes} (h : (13 : Byte) ∉ what) (ms : List Message) :
    Clean (arguments what ms) := by
  induction ms with
  | nil => exact clean_ok []
  | cons m ms ih =>
      unfold arguments
      split
      · next hm => exact (clean_argument h m).of_error hm
      · split
        · next hms => exact ih.of_error hms
        · exact clean_ok _

theorem not_crlf_of_argument {what text : Bytes} {m : Message} (hm : Inline m)
    (h : argument what m = .ok text) : ¬ crlf <:+: text := by
  cases m with
  | bulkString data => exact Except.ok.inj h ▸ hm
  | _ => cases h

/-! ## Ids -/

/-- An error of an id, whatever was to be read. -/
theorem clean_streamIdError {α β : Type} {what : Bytes}
    (h : Clean (streamIdResult (.error what : Except Bytes α))) :
    Clean (streamIdResult (.error what : Except Bytes β)) :=
  h.of_error rfl

/-- What a text without a delimiter makes of the error of an id. -/
theorem clean_streamId {text : Bytes} (h : ¬ crlf <:+: text) :
    Clean (streamIdResult (StreamId.fromString text)) := by
  unfold StreamId.fromString
  split
  · exact clean_fixed (cr_notMem_ascii rfl)
  · split
    · exact clean_ok _
    · simp only
      split
      · exact clean_error (not_crlf_append (cr_notMem_ascii rfl) h)
      · split
        · exact clean_ok _
        · split
          · exact clean_error (not_crlf_append (cr_notMem_ascii rfl) h)
          · exact clean_ok _

theorem clean_inputStreamId {text : Bytes} (h : ¬ crlf <:+: text) :
    Clean (streamIdResult (InputStreamId.fromString text)) := by
  unfold InputStreamId.fromString
  split
  · exact clean_ok _
  · split
    · exact clean_ok _
    · split
      · exact clean_error (not_crlf_append (cr_notMem_ascii rfl) h)
      · split
        · exact clean_error (not_crlf_append (cr_notMem_ascii rfl) h)
        · split
          · exact clean_ok _
          · split
            · exact clean_error (not_crlf_append (cr_notMem_ascii rfl) h)
            · exact clean_ok _

theorem clean_boundStreamId {text : Bytes} (h : ¬ crlf <:+: text) :
    Clean (streamIdResult (BoundStreamId.fromString text)) := by
  have hid := clean_streamId h
  unfold BoundStreamId.fromString
  split
  · exact clean_ok _
  · split
    · exact clean_ok _
    · split
      · exact clean_ok _
      · next heq =>
          rw [heq] at hid
          exact clean_streamIdError hid

theorem clean_readStreamId {text : Bytes} (h : ¬ crlf <:+: text) :
    Clean (streamIdResult (ReadStreamId.fromString text)) := by
  have hid := clean_streamId h
  unfold ReadStreamId.fromString
  split
  · exact clean_ok _
  · split
    · exact clean_ok _
    · next heq =>
        rw [heq] at hid
        exact clean_streamIdError hid

/-! ## `try_parse` -/

theorem clean_waitArgument {position : Bytes} (h : (13 : Byte) ∉ position) (data : List Message) :
    Clean (waitArgument position data) := by
  have htype : (13 : Byte) ∉ ascii "WAIT command must have " ++ position ++
      ascii " argument with type BulkString" := by
    simp only [List.mem_append, not_or]
    exact ⟨⟨cr_notMem_ascii rfl, h⟩, cr_notMem_ascii rfl⟩
  have hnumber : (13 : Byte) ∉ ascii "WAIT command must have " ++ position ++
      ascii " argument as number" := by
    simp only [List.mem_append, not_or]
    exact ⟨⟨cr_notMem_ascii rfl, h⟩, cr_notMem_ascii rfl⟩
  unfold waitArgument
  split
  · exact clean_undefined
  · split
    · next heq => exact (clean_argument htype _).of_error heq
    · split
      · exact clean_fixed hnumber
      · exact clean_ok _

theorem clean_tryParseKey {name : Bytes} (h : (13 : Byte) ∉ name) (build : Bytes → Command)
    (data : List Message) : Clean (tryParseKey name build data) := by
  unfold tryParseKey
  split
  · refine clean_recieved ?_ 1
    simp only [List.mem_append, not_or]
    exact ⟨h, cr_notMem_ascii rfl⟩
  · refine (clean_argument ?_ _).map build
    simp only [List.mem_append, not_or]
    exact ⟨h, cr_notMem_ascii rfl⟩

theorem clean_pxArgument (m : Message) : Clean (pxArgument m) := by
  unfold pxArgument
  split
  · next heq => exact (clean_argument (cr_notMem_ascii rfl) m).of_error heq
  · split
    · exact clean_fixed (cr_notMem_ascii rfl)
    · split
      · exact clean_fixed (cr_notMem_ascii rfl)
      · exact clean_ok _

theorem clean_setParams (expireMs : Option Int) (data : List Message)
    (h : ∀ m ∈ data, Inline m) : Clean (setParams expireMs data) := by
  have hparam : ∀ {text : Bytes}, ¬ crlf <:+: text →
      ¬ crlf <:+: ascii "unknown param " ++ quoted (toLowerCase text) := fun htext =>
    not_crlf_append (cr_notMem_ascii rfl) (not_crlf_quoted (not_crlf_toLowerCase htext))
  fun_induction setParams expireMs data with
  | case1 expireMs => exact clean_ok _
  | case2 expireMs m fault hm => exact (clean_argument (cr_notMem_ascii rfl) m).of_error hm
  | case3 expireMs m param hm hpx =>
      refine clean_error ?_
      rw [hpx]
      exact not_crlf_of_not_mem (by decide +kernel)
  | case4 expireMs m param hm hpx =>
      exact clean_error (hparam (not_crlf_of_argument (h m List.mem_cons_self) hm))
  | case5 expireMs m value ms fault hm =>
      exact (clean_argument (cr_notMem_ascii rfl) m).of_error hm
  | case6 expireMs m value ms param hm hpx fault hvalue =>
      exact (clean_pxArgument value).of_error hvalue
  | case7 expireMs m value ms param hm hpx ms' hvalue ih =>
      exact ih fun x hx => h x (List.mem_cons_of_mem _ (List.mem_cons_of_mem _ hx))
  | case8 expireMs m value ms param hm hpx =>
      exact clean_error (hparam (not_crlf_of_argument (h m List.mem_cons_self) hm))

theorem clean_tryParseSet {data : List Message} (h : ∀ m ∈ data, Inline m) :
    Clean (tryParseSet data) := by
  unfold tryParseSet
  split
  · exact clean_fixed (cr_notMem_ascii rfl)
  · split
    · next heq => exact (clean_argument (cr_notMem_ascii rfl) _).of_error heq
    · exact clean_fixed (cr_notMem_ascii rfl)
  · next key value params =>
      refine (clean_argument (cr_notMem_ascii rfl) key).bind fun _ _ => ?_
      refine (clean_argument (cr_notMem_ascii rfl) value).bind fun _ _ => ?_
      refine (clean_setParams none params fun m hm => h m (by simp [hm])).bind fun _ _ => ?_
      exact clean_ok _

theorem clean_xaddPairs (data : List Message) : Clean (xaddPairs data) := by
  fun_induction xaddPairs data with
  | case1 => exact clean_ok _
  | case2 m => exact clean_fixed (cr_notMem_ascii rfl)
  | case3 key value rest ih =>
      refine (clean_argument (cr_notMem_ascii rfl) key).bind fun _ _ => ?_
      refine (clean_argument (cr_notMem_ascii rfl) value).bind fun _ _ => ?_
      exact ih.bind fun _ _ => clean_ok _

theorem clean_tryParseXAdd {data : List Message} (h : ∀ m ∈ data, Inline m) :
    Clean (tryParseXAdd data) := by
  unfold tryParseXAdd
  split
  · next key streamId _ _ _ =>
      refine (clean_argument (cr_notMem_ascii rfl) key).bind fun _ _ => ?_
      refine (clean_argument (cr_notMem_ascii rfl) streamId).bind fun text htext => ?_
      have hinline := not_crlf_of_argument (h streamId (by simp)) htext
      refine (clean_inputStreamId hinline).bind fun _ _ => ?_
      exact (clean_xaddPairs _).bind fun _ _ => clean_ok _
  · exact clean_fixed (cr_notMem_ascii rfl)

theorem clean_tryParseXRange {data : List Message} (h : ∀ m ∈ data, Inline m) :
    Clean (tryParseXRange data) := by
  unfold tryParseXRange
  split
  · next key left right =>
      refine (clean_argument (cr_notMem_ascii rfl) key).bind fun _ _ => ?_
      refine (clean_argument (cr_notMem_ascii rfl) left).bind fun text htext => ?_
      refine (clean_boundStreamId (not_crlf_of_argument (h left (by simp)) htext)).bind
        fun _ _ => ?_
      refine (clean_argument (cr_notMem_ascii rfl) right).bind fun text htext => ?_
      refine (clean_boundStreamId (not_crlf_of_argument (h right (by simp)) htext)).bind
        fun _ _ => ?_
      exact clean_ok _
  · exact clean_fixed (cr_notMem_ascii rfl)

theorem clean_readStreamIds {data : List Message} (h : ∀ m ∈ data, Inline m) :
    Clean (readStreamIds data) := by
  induction data with
  | nil => exact clean_ok _
  | cons m ms ih =>
      refine (clean_argument (cr_notMem_ascii rfl) m).bind fun text htext => ?_
      refine (clean_readStreamId (not_crlf_of_argument (h m (by simp)) htext)).bind
        fun _ _ => ?_
      exact (ih fun x hx => h x (List.mem_cons_of_mem _ hx)).bind fun _ _ => clean_ok _

theorem clean_xreadStreams {data : List Message} (h : ∀ m ∈ data, Inline m) :
    Clean (xreadStreams data) := by
  unfold xreadStreams
  split
  · exact clean_fixed (cr_notMem_ascii rfl)
  · refine (clean_arguments (cr_notMem_ascii rfl) _).bind fun _ _ => ?_
    refine (clean_readStreamIds fun m hm => ?_).bind fun _ _ => ?_
    · exact h m (List.mem_of_mem_drop (List.mem_of_mem_take hm))
    · split
      · exact clean_fixed (cr_notMem_ascii rfl)
      · exact clean_ok _

theorem clean_blockArgument (m : Message) : Clean (blockArgument m) := by
  unfold blockArgument
  split
  · next heq => exact (clean_argument (cr_notMem_ascii rfl) m).of_error heq
  · split
    · exact clean_fixed (cr_notMem_ascii rfl)
    · exact clean_ok _

theorem clean_xreadArgs (blockMs : Option UInt64) (data : List Message)
    (h : ∀ m ∈ data, Inline m) : Clean (xreadArgs blockMs data) := by
  fun_induction xreadArgs blockMs data with
  | case1 blockMs => exact clean_ok _
  | case2 blockMs m ms fault hm => exact (clean_argument (cr_notMem_ascii rfl) m).of_error hm
  | case3 blockMs m ms arg harg hstreams =>
      exact (clean_xreadStreams fun x hx => h x (List.mem_cons_of_mem _ hx)).map _
  | case4 blockMs m arg harg hstreams hblock => exact clean_fixed (cr_notMem_ascii rfl)
  | case5 blockMs m arg harg hstreams hblock timeoutMs ms fault hfault =>
      exact (clean_blockArgument timeoutMs).of_error hfault
  | case6 blockMs m arg harg timeoutMs ms hstreams hblock timeoutMs' hvalue ih =>
      exact ih fun x hx => h x (List.mem_cons_of_mem _ (List.mem_cons_of_mem _ hx))
  | case7 blockMs m ms arg harg hstreams hblock =>
      have hinline := not_crlf_of_argument (h m List.mem_cons_self) harg
      exact clean_error (not_crlf_append (cr_notMem_ascii rfl) (not_crlf_toLowerCase hinline))

theorem clean_tryParseAs (t : CommandType) {data : List Message} (h : ∀ m ∈ data, Inline m) :
    Clean (tryParseAs t data) := by
  cases t with
  | ping => exact clean_ok _
  | echo =>
      simp only [tryParseAs, tryParseEcho]
      split
      · exact (clean_argument (cr_notMem_ascii rfl) _).map _
      · exact clean_recieved (cr_notMem_ascii rfl) _
  | set => exact clean_tryParseSet h
  | get => exact clean_tryParseKey (cr_notMem_ascii rfl) _ data
  | keys => exact clean_tryParseKey (cr_notMem_ascii rfl) _ data
  | type => exact clean_tryParseKey (cr_notMem_ascii rfl) _ data
  | info => exact (clean_arguments (cr_notMem_ascii rfl) data).map _
  | replConf => exact (clean_arguments (cr_notMem_ascii rfl) data).map _
  | psync => exact (clean_arguments (cr_notMem_ascii rfl) data).map _
  | wait =>
      simp only [tryParseAs, tryParseWait]
      split
      · exact clean_recieved (cr_notMem_ascii rfl) 3
      · refine (clean_waitArgument (cr_notMem_ascii rfl) data).bind fun _ _ => ?_
        exact (clean_waitArgument (cr_notMem_ascii rfl) data.tail).bind fun _ _ => clean_ok _
  | config =>
      simp only [tryParseAs]
      unfold tryParseConfig
      split
      · exact clean_ok _
      · refine (clean_argument (cr_notMem_ascii rfl) _).bind fun _ _ => ?_
        exact (clean_arguments (cr_notMem_ascii rfl) _).bind fun _ _ => clean_ok _
  | xadd => exact clean_tryParseXAdd h
  | xrange => exact clean_tryParseXRange h
  | xread =>
      simp only [tryParseAs, tryParseXRead]
      split
      · exact clean_fixed (cr_notMem_ascii rfl)
      · exact clean_xreadArgs none data h

/-- No argument of a request holds a delimiter.  Bulk strings may hold one on the wire; it is
the error texts that repeat arguments which must not. -/
def InlineRequest : Message → Prop
  | .array elements => ∀ m ∈ elements, Inline m
  | _ => True

/-- The text of an error holds a delimiter only if an argument does. -/
theorem clean_tryParse {m : Message} (h : InlineRequest m) : Clean (tryParse m) := by
  unfold tryParse
  split
  · next name data =>
      split
      · exact clean_tryParseAs _ fun x hx => h x (List.mem_cons_of_mem _ hx)
      · exact clean_fixed (cr_notMem_ascii rfl)
  · exact clean_fixed (cr_notMem_ascii rfl)

end Command

end BuildYourOwnRedis
