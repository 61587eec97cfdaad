/-
  Server/Says.lean --- what a server says in a step.

  `Says` follows every connection: what is put at the end of `_pending`, and of the record of
  all that was.  All that a server says is delimited, but for the dump that PSYNC sends, the
  line in front of it, and the error texts that repeat an argument.
-/
import BuildYourOwnRedis.Command.ErrorTexts
import BuildYourOwnRedis.Resp.UniqueCode
import BuildYourOwnRedis.Server.DeferredReplies

set_option autoImplicit false

namespace BuildYourOwnRedis

open Foundation

/-! ## Delimited replies -/

theorem delimited_bulkString (data : Bytes) : (Message.bulkString data).Delimited := by
  simp only [Message.Delimited]

theorem delimited_simpleString {text : Bytes} (h : ¬ crlf <:+: text) :
    (Message.simpleString text).Delimited := by
  simpa only [Message.Delimited] using h

theorem delimited_simpleError {text : Bytes} (h : ¬ crlf <:+: text) :
    (Message.simpleError text).Delimited := by
  simpa only [Message.Delimited] using h

theorem delimited_array {elements : List Message} (h : ∀ m ∈ elements, m.Delimited) :
    (Message.array elements).Delimited := by
  simpa only [Message.Delimited, Message.delimitedAll_iff] using h

theorem delimited_bulkStrings (texts : List Bytes) :
    (Message.array (texts.map .bulkString)).Delimited :=
  delimited_array (List.forall_mem_map.mpr fun text _ => delimited_bulkString text)

theorem delimited_construct (command : Command) : command.construct.Delimited :=
  delimited_bulkStrings command.parts

theorem delimited_entriesMessage (entries : StreamRange) :
    (entriesMessage entries).Delimited := by
  refine delimited_array (List.forall_mem_map.mpr fun entry _ => ?_)
  have hpairs : (Message.array (entry.2.flatMap fun pair =>
      [.bulkString pair.1, .bulkString pair.2])).Delimited := by
    refine delimited_array fun m hm => ?_
    obtain ⟨pair, -, hm⟩ := List.mem_flatMap.mp hm
    rcases List.mem_pair.mp hm with rfl | rfl
    · exact delimited_bulkString _
    · exact delimited_bulkString _
  refine delimited_array fun m hm => ?_
  rcases List.mem_pair.mp hm with rfl | rfl
  · exact delimited_bulkString _
  · exact hpairs

theorem delimited_streamsMessage (result : StreamsReadResult) :
    (streamsMessage result).Delimited := by
  refine delimited_array (List.forall_mem_map.mpr fun part _ => delimited_array fun m hm => ?_)
  rcases List.mem_pair.mp hm with rfl | rfl
  · exact delimited_bulkString _
  · exact delimited_entriesMessage part.2

theorem delimited_configMessage (info : ServerInfo) (action : Bytes) (args : List Bytes) :
    (configMessage info action args).Delimited := by
  unfold configMessage
  split
  · refine delimited_array fun m hm => ?_
    obtain ⟨key, -, hm⟩ := List.mem_flatMap.mp hm
    split at hm
    · rcases List.mem_pair.mp hm with rfl | rfl
      · exact delimited_bulkString _
      · exact delimited_bulkString _
    · cases hm
  · exact delimited_simpleError (not_crlf_ascii rfl)

theorem delimited_xaddReply (result : Except StreamErrorType StreamId) :
    (match result with
      | .ok id => Message.bulkString id.toString
      | .error e => .simpleError e.toString).Delimited := by
  cases result with
  | ok id => exact delimited_bulkString _
  | error e => exact delimited_simpleError (by cases e <;> exact not_crlf_ascii rfl)

namespace StorageMiddleware

variable {κ : Type}

theorem delimited_push (message : Message) (h : message.Delimited) (m : StorageMiddleware κ) :
    ∀ call ∈ (m.push message).2, call.2.Delimited := by
  intro call hcall
  obtain ⟨r, -, hr⟩ := List.mem_flatMap.mp hcall
  unfold ReplicaHandle.pushCalls at hr
  split at hr
  · exact List.mem_singleton.mp hr ▸ h
  · cases hr

theorem delimited_reply (w : WaitHandle κ) (m : StorageMiddleware κ) :
    ∀ call ∈ (m.reply w).2, call.2.Delimited := by
  intro call hcall
  exact List.mem_singleton.mp hcall ▸ trivial

theorem delimited_replyAll (ws : List (WaitHandle κ)) (m : StorageMiddleware κ) :
    ∀ call ∈ (replyAll ws m).2, call.2.Delimited := by
  induction ws generalizing m with
  | nil => simp [replyAll]
  | cons w ws ih =>
      intro call hcall
      rcases List.mem_append.mp hcall with hcall | hcall
      · exact delimited_reply w m call hcall
      · exact ih _ call hcall

theorem delimited_waitFor (count : UInt64) (slot : κ) (m : StorageMiddleware κ) :
    ∀ call ∈ (m.waitFor count slot).2, call.2.Delimited := by
  intro call hcall
  simp only [waitFor] at hcall
  split at hcall
  · exact delimited_reply _ _ call hcall
  · obtain ⟨r, -, hr⟩ := List.mem_flatMap.mp hcall
    unfold ReplicaHandle.pushCalls at hr
    split at hr
    · exact List.mem_singleton.mp hr ▸ delimited_construct _
    · cases hr

theorem delimited_fireWait {i : Nat} {m : StorageMiddleware κ}
    {result : StorageMiddleware κ × List (κ × Message)} (h : m.fireWait i = some result) :
    ∀ call ∈ result.2, call.2.Delimited := by
  unfold fireWait at h
  split at h
  · cases h
  · simp only at h
    split at h
    · split at h
      · cases h
      · obtain rfl := Option.some.inj h
        exact delimited_reply _ _
    · obtain rfl := Option.some.inj h
      simp

end StorageMiddleware

namespace Server

/-! ## Saying -/

/-- More has been said on every connection, and nothing was requested.  `P` is what is known of
each new message, by its connection. -/
structure Says (P : Nat → Message → Prop) (s s' : Server) : Prop where
  said : ∀ c, ∃ more : List (Option Nat × Message),
    (s'.talkers c).pending = (s.talkers c).pending ++ more.map Prod.snd ∧
      (s'.talkers c).queued = (s.talkers c).queued ++ more ∧ ∀ q ∈ more, P c q.2
  requests : ∀ c, (s'.talkers c).requests = (s.talkers c).requests

variable {P : Nat → Message → Prop} {s s' s'' : Server}

theorem says_nothing (hpending : ∀ c, (s'.talkers c).pending = (s.talkers c).pending)
    (hqueued : ∀ c, (s'.talkers c).queued = (s.talkers c).queued)
    (hrequests : ∀ c, (s'.talkers c).requests = (s.talkers c).requests) : Says P s s' :=
  ⟨fun c => ⟨[], by simp [hpending], by simp [hqueued], by simp⟩, hrequests⟩

theorem Says.refl (s : Server) : Says P s s :=
  says_nothing (fun _ => rfl) (fun _ => rfl) (fun _ => rfl)

theorem Says.trans (h : Says P s s') (h' : Says P s' s'') : Says P s s'' := by
  refine ⟨fun c => ?_, fun c => (h'.requests c).trans (h.requests c)⟩
  obtain ⟨xs, hpending, hqueued, hxs⟩ := h.said c
  obtain ⟨ys, hpending', hqueued', hys⟩ := h'.said c
  refine ⟨xs ++ ys, ?_, ?_, ?_⟩
  · rw [hpending', hpending, List.map_append, List.append_assoc]
  · rw [hqueued', hqueued, List.append_assoc]
  · intro q hq
    rcases List.mem_append.mp hq with hq | hq
    · exact hxs q hq
    · exact hys q hq

theorem says_nextSay {slot : Slot} {message : Message} (h : P slot.conn message)
    (s : Server) : Says P s (s.nextSay slot message) := by
  refine ⟨fun c => ?_, fun c => ?_⟩
  · rw [nextSay_talker]
    split
    · next hconn =>
        subst hconn
        exact ⟨[(slot.request, message)], rfl, rfl, by simpa using h⟩
    · exact ⟨[], by simp, by simp, by simp⟩
  · rw [nextSay_talker]
    split <;> rfl

theorem Says.nextSay (h : Says P s s') {slot : Slot} {message : Message}
    (hmessage : P slot.conn message) : Says P s (s'.nextSay slot message) :=
  h.trans (says_nextSay hmessage s')

theorem says_callAll {calls : List (Slot × Message)}
    (hcalls : ∀ call ∈ calls, P call.1.conn call.2) (h : s.callAll calls = some s') :
    Says P s s' := by
  induction calls generalizing s with
  | nil =>
      obtain rfl := Option.some.inj h
      exact .refl s
  | cons call calls ih =>
      obtain ⟨slot, message⟩ := call
      rw [callAll] at h
      split at h
      · exact (says_nextSay (hcalls _ List.mem_cons_self) s).trans
          (ih (fun x hx => hcalls x (List.mem_cons_of_mem _ hx)) h)
      · cases h

theorem says_answerAll {calls : List (Storage.Call Slot)}
    (hcalls : ∀ call ∈ calls, P call.1.conn (streamsMessage call.2))
    (h : s.answerAll calls = some s') : Says P s s' := by
  induction calls generalizing s with
  | nil =>
      obtain rfl := Option.some.inj h
      exact .refl s
  | cons call calls ih =>
      obtain ⟨slot, result⟩ := call
      have hrest : ∀ x ∈ calls, P x.1.conn (streamsMessage x.2) :=
        fun x hx => hcalls x (List.mem_cons_of_mem _ hx)
      rw [answerAll] at h
      split at h
      · exact (says_nextSay (hcalls _ List.mem_cons_self) s).trans (ih hrest h)
      · split at h
        · cases h
        · exact ih hrest h

theorem says_update {result : StorageMiddleware Slot × List (Slot × Message)}
    (hcalls : ∀ call ∈ result.2, P call.1.conn call.2) (h : s.update result = some s') :
    Says P s s' := by
  have hspoken := says_callAll hcalls h
  exact ⟨hspoken.said, hspoken.requests⟩

theorem says_updateStorage {result : Storage Slot × List (Storage.Call Slot)}
    (hcalls : ∀ call ∈ result.2, P call.1.conn (streamsMessage call.2))
    (h : s.updateStorage result = some s') : Says P s s' := by
  have hspoken := says_answerAll hcalls h
  exact ⟨hspoken.said, hspoken.requests⟩

theorem says_register (conn : Nat) (s : Server) : Says P s (s.register conn).2 := by
  unfold register
  split
  · exact .refl s
  · refine says_nothing (fun c => ?_) (fun c => ?_) (fun c => ?_)
    all_goals
      rw [modifyTalker_talkers]
      split <;> rfl

/-! ## The commands -/

section

variable (hP : ∀ c m, m.Delimited → P c m)
include hP

theorem says_listenReplConf {slot : Slot} {args : List Bytes}
    (h : s.listenReplConf slot args = some s') : Says P s s' := by
  obtain ⟨answered, result, s₁, hconf, hupdate, rfl⟩ := listenReplConf_cases h
  have hcalls : ∀ call ∈ result.2, P call.1.conn call.2 := by
    intro call hcall
    rcases StorageMiddleware.replicaProcessConf_cases hconf with rfl | ⟨bytesAck, rfl⟩
    · cases hcall
    · exact hP _ _ (StorageMiddleware.delimited_replyAll _ _ call hcall)
  have hspoken : Says P s s₁ := (says_register slot.conn s).trans (says_update hcalls hupdate)
  split
  · exact hspoken.nextSay (hP _ _ (delimited_simpleString (not_crlf_ascii rfl)))
  · exact hspoken

/-- A command, other than PSYNC, says what is delimited. -/
theorem says_execute {now : Timepoint} {slot : Slot} {command : Command}
    (hpsync : ∀ args, command = .psync args → ∀ m, P slot.conn m)
    (h : s.execute now slot command = some s') : Says P s s' := by
  have hreply : ∀ {m : Message}, m.Delimited → ∀ s, Says P s (s.nextSay slot m) :=
    fun hm s => says_nextSay (hP _ _ hm) s
  cases command with
  | ping => exact Option.some.inj h ▸ hreply (delimited_simpleString (not_crlf_ascii rfl)) s
  | echo data => exact Option.some.inj h ▸ hreply (delimited_bulkString _) s
  | info args => exact Option.some.inj h ▸ hreply (delimited_bulkString _) s
  | type key => exact Option.some.inj h ▸ hreply (delimited_bulkString _) s
  | keys arg => exact Option.some.inj h ▸ hreply (delimited_bulkStrings _) s
  | config action args =>
      exact Option.some.inj h ▸ hreply (delimited_configMessage s.info action args) s
  | get key =>
      obtain rfl := Option.some.inj h
      have hspoken := hreply (delimited_bulkString ((s.middleware.storage.get now key).1.getD []))
        (s.setStorage (s.middleware.storage.get now key).2)
      exact ⟨hspoken.said, hspoken.requests⟩
  | xadd key id values =>
      obtain rfl := Option.some.inj h
      have hspoken := hreply
        (delimited_xaddReply (s.middleware.storage.xadd now key id values).1)
        (s.setStorage (s.middleware.storage.xadd now key id values).2)
      exact ⟨hspoken.said, hspoken.requests⟩
  | xrange key leftId rightId =>
      obtain ⟨entries, -, rfl⟩ := Option.map_eq_some_iff.mp h
      exact hreply (delimited_entriesMessage entries) s
  | psync args =>
      have hany := hpsync args rfl
      obtain rfl := Option.some.inj h
      have hsaid : Says P s ((s.nextSay slot (.simpleString (fullResync s.info))).nextSay slot
          (.syncResponse s.dump)) := (says_nextSay (hany _) s).nextSay (hany _)
      simp only [listenPsync]
      split
      · exact hsaid
      · exact ⟨hsaid.said, hsaid.requests⟩
  | replConf args => exact says_listenReplConf hP h
  | wait replicas timeoutMs =>
      exact says_update (fun call hcall =>
        hP _ _ (StorageMiddleware.delimited_waitFor _ _ _ call hcall)) h
  | xread request blockMs =>
      obtain ⟨result, -, hanswer⟩ := Option.bind_eq_some_iff.mp h
      exact says_updateStorage (fun call _ => hP _ _ (delimited_streamsMessage call.2)) hanswer
  | set key value expireMs =>
      simp only [execute] at h
      split at h
      · exact Option.some.inj h ▸ hreply (delimited_simpleError (not_crlf_ascii rfl)) s
      · obtain ⟨s₁, hset, h⟩ := Option.bind_eq_some_iff.mp h
        obtain rfl := Option.some.inj h
        refine (says_update (fun call hcall => hP _ _ ?_) hset).nextSay
          (hP _ _ (delimited_simpleString (not_crlf_ascii rfl)))
        exact StorageMiddleware.delimited_push _ (delimited_construct _) _ call hcall

/-- So does what is answered to a message, if the text of an error is. -/
theorem says_listen {now : Timepoint} {slot : Slot} {message : Message}
    (hpsync : ∀ args, Command.tryParse message = .ok (.psync args) → ∀ m, P slot.conn m)
    (herror : ∀ what, Command.tryParse message = .error (.parseError what) →
      P slot.conn (.simpleError what))
    (h : s.listen now slot message = some s') : Says P s s' := by
  obtain ⟨command, hparse, h⟩ | ⟨what, hparse, rfl⟩ := listen_cases h
  · exact says_execute hP (fun args heq => hpsync args (heq ▸ hparse)) h
  · exact says_nextSay (herror what hparse) s

theorem says_runJob (h : s.runJob = some s') : Says P s s' := by
  obtain ⟨result, -, hanswer⟩ := Option.bind_eq_some_iff.mp h
  exact says_updateStorage (fun call _ => hP _ _ (delimited_streamsMessage call.2)) hanswer

theorem says_fireRead {i : Nat} (h : s.fireRead i = some s') : Says P s s' := by
  obtain ⟨result, -, hanswer⟩ := Option.bind_eq_some_iff.mp h
  exact says_updateStorage (fun call _ => hP _ _ (delimited_streamsMessage call.2)) hanswer

theorem says_fireWait {i : Nat} (h : s.fireWait i = some s') : Says P s s' := by
  obtain ⟨result, hfire, hupdate⟩ := Option.bind_eq_some_iff.mp h
  exact says_update (fun call hcall =>
    hP _ _ (StorageMiddleware.delimited_fireWait hfire call hcall)) hupdate

end

theorem says_disconnect (conn : Nat) (s : Server) : Says P s (s.disconnect conn) := by
  unfold disconnect
  refine says_nothing (fun c => ?_) (fun c => ?_) (fun c => ?_)
  all_goals
    rw [modifyTalker_talkers]
    cases (s.talkers conn).replicaId <;> split <;> rfl

end Server

end BuildYourOwnRedis
