/-
  Net/Wiring.lean --- who is registered with whom: what holds between the poller, the
  manager, the handlers and the jobs whenever the event loop has control.

  Most calls change buffers and talkers only.  They leave the wiring the same; the others
  make a handler, register it, or close it.
-/
import BuildYourOwnRedis.Net.Network

set_option autoImplicit false

namespace BuildYourOwnRedis

open Foundation

namespace Network

variable {T : Type} {n n' : Network T} {id fd : Nat}

/-- What the poller and the manager know of a handler. -/
def link (n : Network T) (id : Nat) : Option (Bool × Option Nat) :=
  (n.objects.lookup id).map Handler.link

theorem link_eq_some {managed : Bool} {fd? : Option Nat} (h : n.link id = some (managed, fd?)) :
    ∃ handler, n.objects.lookup id = some handler ∧ handler.managed = managed ∧
      handler.fd = fd? := by
  obtain ⟨handler, hlookup, heq⟩ := Option.map_eq_some_iff.mp h
  exact ⟨handler, hlookup, congrArg Prod.fst heq, congrArg Prod.snd heq⟩

theorem link_of_lookup {h : Handler T} (hlookup : n.objects.lookup id = some h) :
    n.link id = some (h.managed, h.fd) := by
  rw [link, hlookup]
  rfl

/-- The wiring of a network: which descriptor is registered for whom, which handler has it, and
where the jobs are bound.  This is the invariant behind the absence of dangling references. -/
structure Wired (n : Network T) : Prop where
  server : ∀ fd, n.poller.owner fd = some .server ↔ fd = n.serverFd
  owned : ∀ fd id, n.poller.owner fd = some (.handler id) →
    ∃ managed, n.link id = some (managed, some fd)
  fresh : ∀ id, (n.link id).isSome → id < n.nextId
  /-- the manager's handlers are open -/
  isOpen : ∀ id, n.link id ≠ some (true, none)
  kept : ∀ fd id, n.link id = some (true, some fd) → n.manager.lookup fd = some id
  apart : ∀ fd id id' m m', n.link id = some (m, some fd) → n.link id' = some (m', some fd) →
    id = id'
  notServer : ∀ id m, n.link id ≠ some (m, some n.serverFd)
  /-- a valid job is bound to a handler that is there -/
  alive : ∀ job ∈ n.onetime ++ n.repeated, job.valid = true → (n.link job.handler).isSome
  /-- an open handler with a repeated job is registered -/
  started : ∀ job ∈ n.repeated, job.valid = true → ∀ m fd,
    n.link job.handler = some (m, some fd) → n.poller.owner fd = some (.handler job.handler)

/-! ## Calls that leave the wiring alone -/

/-- Two networks that are wired in the same way.  Their handlers may differ in what they have
read and are to write. -/
structure Same (n n' : Network T) : Prop where
  serverFd : n'.serverFd = n.serverFd
  owner : n'.poller.owner = n.poller.owner
  watched : n'.poller.watched = n.poller.watched
  link : n'.link = n.link
  manager : n'.manager = n.manager
  nextId : n'.nextId = n.nextId
  onetime : n'.onetime = n.onetime
  repeated : n'.repeated = n.repeated

theorem Same.refl (n : Network T) : Same n n := ⟨rfl, rfl, rfl, rfl, rfl, rfl, rfl, rfl⟩

theorem Same.trans {n'' : Network T} (h : Same n n') (h' : Same n' n'') : Same n n'' where
  serverFd := h'.serverFd.trans h.serverFd
  owner := h'.owner.trans h.owner
  watched := h'.watched.trans h.watched
  link := h'.link.trans h.link
  manager := h'.manager.trans h.manager
  nextId := h'.nextId.trans h.nextId
  onetime := h'.onetime.trans h.onetime
  repeated := h'.repeated.trans h.repeated

theorem Wired.same (hw : Wired n) (h : Same n n') : Wired n' where
  server := by rw [h.owner, h.serverFd]; exact hw.server
  owned := by rw [h.owner, h.link]; exact hw.owned
  fresh := by rw [h.link, h.nextId]; exact hw.fresh
  isOpen := by rw [h.link]; exact hw.isOpen
  kept := by rw [h.link, h.manager]; exact hw.kept
  apart := by rw [h.link]; exact hw.apart
  notServer := by rw [h.link, h.serverFd]; exact hw.notServer
  alive := by rw [h.link, h.onetime, h.repeated]; exact hw.alive
  started := by rw [h.link, h.repeated, h.owner]; exact hw.started

/-- A handler changes its buffers and its talker. -/
theorem same_setHandler {h : Handler T} (hlink : n.link id = some h.link) :
    Same n (n.setHandler id h) := by
  have hsame : (n.setHandler id h).link = n.link := by
    funext id'
    rcases eq_or_ne id' id with rfl | hne
    · rw [hlink]
      simp [link, setHandler]
    · simp [link, setHandler, AList.lookup_insert_ne hne]
  exact ⟨rfl, rfl, rfl, hsame, rfl, rfl, rfl, rfl⟩

@[simp] theorem lookup_setHandler (h : Handler T) :
    (n.setHandler id h).objects.lookup id = some h := by
  simp [setHandler]

/-- A handler that is registered sets up what is polled for it. -/
theorem setupPoll_registered {h : Handler T} (hlookup : n.objects.lookup id = some h)
    (hfd : h.fd = some fd) (howner : n.poller.owner fd = some (.handler id))
    (stray : PollBits) (write : Bool) :
    ∃ n', setupPoll stray write id n = (n', .returned) ∧ Same n n' ∧
      n'.objects.lookup id = some h := by
  let types := if write then [PollEventType.readyToRead, .readyToWrite] else [.readyToRead]
  refine ⟨{ n with poller := n.poller.addFd stray fd types (.handler id) },
    by simp only [setupPoll, onHandler, hlookup, hfd]; rfl, ?_, hlookup⟩
  refine ⟨rfl, ?_, ?_, rfl, rfl, rfl, rfl, rfl⟩
  · rw [Poller.owner_addFd, ← howner, Function.update_eq_self]
  · exact Poller.watched_addFd (by rw [howner]; rfl)

/-- A handler that is open is registered.  Only between its making and its `start` is a handler
not. -/
def Registered (id : Nat) (h : Handler T) (n : Network T) : Prop :=
  ∀ fd, h.fd = some fd → n.poller.owner fd = some (.handler id)

theorem Registered.same {h h' : Handler T} (hreg : Registered id h n) (hsame : Same n n')
    (hlink : h'.link = h.link) : Registered id h' n' := by
  intro fd hfd
  rw [hsame.owner]
  exact hreg fd ((congrArg Prod.snd hlink).symm.trans hfd)

/-- How `write` ends. -/
def writeEnding : Except Thrown Bool → Ending
  | .ok _ => .returned
  | .error thrown => .thrown thrown

/-- `Handler::write` of a handler that is registered. -/
theorem write_registered {h : Handler T} (hlookup : n.objects.lookup id = some h)
    (hreg : Registered id h n) (call : WriteCall) :
    ∃ n', write call id n = (n', writeEnding (h.writeOut call.results).2) ∧ Same n n' ∧
      n'.objects.lookup id = some (h.writeOut call.results).1 := by
  have hlink := Handler.link_writeOut call.results h
  rcases hout : h.writeOut call.results with ⟨h', thrown | again⟩
  all_goals
    rw [hout] at hlink
    have hsame : Same n (n.setHandler id h') :=
      same_setHandler ((link_of_lookup hlookup).trans (congrArg some hlink.symm))
    have hset : (n.setHandler id h').objects.lookup id = some h' := lookup_setHandler h'
  · exact ⟨_, by simp only [write, onHandler, hlookup, hout]; rfl, hsame, hset⟩
  · cases again with
    | false => exact ⟨_, by simp only [write, onHandler, hlookup, hout]; rfl, hsame, hset⟩
    | true =>
        obtain ⟨fd, hfd⟩ := Handler.fd_of_writeOut hout
        have hfd' := (congrArg Prod.snd hlink).trans hfd
        obtain ⟨n', hcall, hsame', hlookup'⟩ := setupPoll_registered hset hfd'
          (hreg.same hsame hlink fd hfd') call.stray (h'.writeBuffer.length != 0)
        refine ⟨n', ?_, hsame.trans hsame', hlookup'⟩
        simp only [write, onHandler, hlookup, hout]
        exact hcall

/-- A call ends with `close`, or it leaves the wiring alone.  The flag tells which; for `close`
there is one lemma, whatever led to it. -/
def EndsIn (C : TalkerClass T) (id : Nat) (n : Network T) (result : Network T × Ending) :
    Bool → Prop
  | true => ∃ n' h', result = close C id n' ∧ Same n n' ∧ n'.objects.lookup id = some h'
  | false => ∃ n' ending, result = (n', ending) ∧ Same n n' ∧
      (ending = .returned ∨ ending = .thrown .caught)

theorem EndsIn.of_same {C : TalkerClass T} {result : Network T × Ending} {closes : Bool}
    (hsame : Same n n') (h : EndsIn C id n' result closes) : EndsIn C id n result closes := by
  cases closes with
  | true =>
      obtain ⟨n₁, h₁, heq, hsame₁, hlookup⟩ := h
      exact ⟨n₁, h₁, heq, hsame.trans hsame₁, hlookup⟩
  | false =>
      obtain ⟨n₁, ending, heq, hsame₁, hending⟩ := h
      exact ⟨n₁, ending, heq, hsame.trans hsame₁, hending⟩

/-- `Handler::process_write` of a handler that is registered. -/
theorem processWriteLoop_registered (C : TalkerClass T) (fuel : Nat) (calls : List WriteCall)
    {h : Handler T} (hlookup : n.objects.lookup id = some h) (hreg : Registered id h n) :
    EndsIn C id n (processWriteLoop C fuel calls id n) (Handler.givesUp fuel calls h) := by
  induction fuel generalizing n h calls with
  | zero => exact ⟨n, .returned, rfl, .refl n, .inl rfl⟩
  | succ fuel ih =>
      simp only [processWriteLoop, onHandler, hlookup, Handler.givesUp]
      cases hnext : h.nextMessage with
      | none => exact ⟨n, .returned, rfl, .refl n, .inl rfl⟩
      | some said =>
          obtain ⟨m, h₁⟩ := said
          have hlink := Handler.link_nextMessage hnext
          simp only
          by_cases hleave : m.type = .leave
          · have hpopped : Same n (n.setHandler id h₁) :=
              same_setHandler ((link_of_lookup hlookup).trans (congrArg some hlink.symm))
            simp only [hleave, if_true]
            exact ⟨_, h₁, rfl, hpopped, lookup_setHandler h₁⟩
          · have hadded : Same n (n.setHandler id (h₁.append m)) :=
              same_setHandler ((link_of_lookup hlookup).trans (congrArg some hlink.symm))
            have hreg₁ : Registered id (h₁.append m) (n.setHandler id (h₁.append m)) :=
              hreg.same hadded hlink
            obtain ⟨n₁, hwrite, hsame, hlookup₁⟩ := write_registered
              (lookup_setHandler (h₁.append m)) hreg₁ (calls.headD {})
            have hlink₁ := Handler.link_writeOut (calls.headD {}).results (h₁.append m)
            have hsame₁ := hadded.trans hsame
            simp only [hleave, if_false, hwrite]
            rcases hout : (h₁.append m).writeOut (calls.headD {}).results with
              ⟨h₂, (_ | _) | again⟩
            all_goals rw [hout] at hlookup₁ hlink₁
            · exact ⟨n₁, h₂, rfl, hsame₁, hlookup₁⟩
            · exact ⟨n₁, _, rfl, hsame₁, .inr rfl⟩
            · exact (ih calls.tail hlookup₁ (hreg₁.same hsame hlink₁)).of_same hsame₁

/-! ## Closing -/

/-- A handler is closed.  `left` is what is known of it afterwards: nothing when the manager
has destroyed it. -/
structure Closed (id fd : Nat) (left : Option (Bool × Option Nat)) (n n' : Network T) :
    Prop where
  serverFd : n'.serverFd = n.serverFd
  owner : n'.poller.owner = Function.update n.poller.owner fd none
  link : n'.link = Function.update n.link id left
  manager : ∀ fd', fd' ≠ fd → n'.manager.lookup fd' = n.manager.lookup fd'
  nextId : n'.nextId = n.nextId
  onetime : ∀ job ∈ n'.onetime, job.valid = true →
    job ∈ n.onetime ∧ (left = none → job.handler ≠ id)
  repeated : ∀ job ∈ n'.repeated, job.valid = true →
    job ∈ n.repeated ∧ (left = none → job.handler ≠ id)
  left_fd : ∀ m fd?, left = some (m, fd?) → m = false ∧ fd? = none

theorem Closed.link_of_open {left : Option (Bool × Option Nat)} (hc : Closed id fd left n n')
    {id' fd' : Nat} {m : Bool} (h : n'.link id' = some (m, some fd')) :
    id' ≠ id ∧ n.link id' = some (m, some fd') := by
  rw [hc.link] at h
  rcases eq_or_ne id' id with rfl | hne
  · rw [Function.update_self] at h
    exact absurd (hc.left_fd _ _ h).2 (by simp)
  · rw [Function.update_of_ne hne] at h
    exact ⟨hne, h⟩

theorem Wired.closed (hw : Wired n) {m : Bool} (hlink : n.link id = some (m, some fd))
    {left : Option (Bool × Option Nat)} (hc : Closed id fd left n n') : Wired n' where
  server fd' := by
    have hserver : fd ≠ n.serverFd := fun heq => hw.notServer id m (heq ▸ hlink)
    rw [hc.owner, hc.serverFd, ← hw.server]
    rcases eq_or_ne fd' fd with rfl | hne
    · rw [Function.update_self, hw.server]
      simp [hserver]
    · rw [Function.update_of_ne hne]
  owned fd' id' h := by
    rw [hc.owner] at h
    rcases eq_or_ne fd' fd with rfl | hne
    · rw [Function.update_self] at h
      cases h
    · rw [Function.update_of_ne hne] at h
      obtain ⟨m', hlink'⟩ := hw.owned fd' id' h
      have hid : id' ≠ id := by
        rintro rfl
        rw [hlink] at hlink'
        exact hne (by simpa using (congrArg (fun l => l.map Prod.snd) hlink').symm)
      exact ⟨m', by rw [hc.link, Function.update_of_ne hid, hlink']⟩
  fresh id' h := by
    rw [hc.nextId]
    rcases eq_or_ne id' id with rfl | hne
    · exact hw.fresh id' (by rw [hlink]; rfl)
    · rw [hc.link, Function.update_of_ne hne] at h
      exact hw.fresh id' h
  isOpen id' h := by
    rw [hc.link] at h
    rcases eq_or_ne id' id with rfl | hne
    · rw [Function.update_self] at h
      exact absurd (hc.left_fd _ _ h).1 (by simp)
    · rw [Function.update_of_ne hne] at h
      exact hw.isOpen id' h
  kept fd' id' h := by
    obtain ⟨hne, hold⟩ := hc.link_of_open h
    rw [hc.manager fd', hw.kept fd' id' hold]
    rintro rfl
    exact hne (hw.apart _ _ _ _ _ hold hlink)
  apart fd' id₁ id₂ m₁ m₂ h₁ h₂ :=
    hw.apart fd' id₁ id₂ m₁ m₂ (hc.link_of_open h₁).2 (hc.link_of_open h₂).2
  notServer id' m' h := by
    rw [hc.serverFd] at h
    exact hw.notServer id' m' (hc.link_of_open h).2
  alive job hjob hvalid := by
    have hold : job ∈ n.onetime ++ n.repeated ∧ (left = none → job.handler ≠ id) := by
      rcases List.mem_append.mp hjob with h | h
      · exact ⟨List.mem_append_left _ (hc.onetime job h hvalid).1, (hc.onetime job h hvalid).2⟩
      · exact ⟨List.mem_append_right _ (hc.repeated job h hvalid).1,
          (hc.repeated job h hvalid).2⟩
    rw [hc.link]
    rcases eq_or_ne job.handler id with heq | hne
    · rw [heq, Function.update_self]
      exact Option.isSome_iff_ne_none.mpr fun hnone => hold.2 hnone heq
    · rw [Function.update_of_ne hne]
      exact hw.alive job hold.1 hvalid
  started job hjob hvalid m' fd' h := by
    obtain ⟨hne, hold⟩ := hc.link_of_open h
    rw [hc.owner, Function.update_of_ne]
    · exact hw.started job (hc.repeated job hjob hvalid).1 hvalid m' fd' hold
    · rintro rfl
      exact hne (hw.apart _ _ _ _ _ hold hlink)

/-- A valid job that is left is one of before, and its handler has not been destroyed. -/
theorem valid_of_mem_map_invalidate {jobs : List Job} {job : Job}
    (hjob : job ∈ jobs.map (Job.invalidate id)) (hvalid : job.valid = true) :
    job ∈ jobs ∧ job.handler ≠ id := by
  obtain ⟨job', hmem, rfl⟩ := List.mem_map.mp hjob
  unfold Job.invalidate at hvalid ⊢
  split at hvalid
  · cases hvalid
  · next hne =>
      rw [if_neg hne]
      exact ⟨hmem, hne⟩

/-- `Handler::close` of a handler that is open. -/
theorem close_open (C : TalkerClass T) (hw : Wired n) {h : Handler T}
    (hlookup : n.objects.lookup id = some h) (hfd : h.fd = some fd) :
    ∃ n', close C id n = (n', .returned) ∧
      Closed id fd (if h.managed then none else some (false, none)) n n' := by
  have hlink : n.link id = some (h.managed, some fd) := hfd ▸ link_of_lookup hlookup
  have howner := Poller.owner_removeFd fd n.poller
  simp only [close, onHandler, hlookup, hfd]
  cases hmanaged : h.managed with
  | true =>
      have hkept := hw.kept fd id (hmanaged ▸ hlink)
      simp only [if_true, remove, setHandler, hkept]
      refine ⟨_, rfl, rfl, howner, ?_, ?_, rfl, ?_, ?_, ?_⟩
      · funext id'
        rcases eq_or_ne id' id with rfl | hne
        · simp [link, destroy]
        · simp [link, destroy, AList.lookup_erase_ne hne, AList.lookup_insert_ne hne, hne]
      · exact fun fd' hne => AList.lookup_erase_ne hne
      · intro job hjob hvalid
        have := valid_of_mem_map_invalidate hjob hvalid
        exact ⟨this.1, fun _ => this.2⟩
      · intro job hjob hvalid
        have := valid_of_mem_map_invalidate hjob hvalid
        exact ⟨this.1, fun _ => this.2⟩
      · intro m fd? heq
        cases heq
  | false =>
      simp only [Bool.false_eq_true, if_false]
      refine ⟨_, rfl, rfl, howner, ?_, fun _ _ => rfl, rfl, fun job hjob _ => ⟨hjob, ?_⟩,
        fun job hjob _ => ⟨hjob, ?_⟩, ?_⟩
      · funext id'
        rcases eq_or_ne id' id with rfl | hne
        · simp [link, setHandler, Handler.link]
        · simp [link, setHandler, AList.lookup_insert_ne hne, hne]
      · exact fun heq => nomatch heq
      · exact fun heq => nomatch heq
      · intro m fd? heq
        cases heq
        exact ⟨rfl, rfl⟩

/-- `Handler::close`, also of a handler that has been closed before. -/
theorem close_wired (C : TalkerClass T) (hw : Wired n) {h : Handler T}
    (hlookup : n.objects.lookup id = some h) :
    ∃ n', close C id n = (n', .returned) ∧ Wired n' := by
  cases hfd : h.fd with
  | none => exact ⟨n, by simp only [close, onHandler, hlookup, hfd], hw⟩
  | some fd =>
      obtain ⟨n', hclose, hclosed⟩ := close_open C hw hlookup hfd
      exact ⟨n', hclose, hw.closed (hfd ▸ link_of_lookup hlookup) hclosed⟩

/-! ## Making and registering a handler -/

/-- A descriptor that is not open belongs to nobody. -/
theorem not_open (h : n.isOpen fd = false) :
    fd ≠ n.serverFd ∧ ∀ id m, n.link id ≠ some (m, some fd) := by
  simp only [isOpen, Bool.or_eq_false_iff, beq_eq_false_iff_ne, List.any_eq_false,
    beq_iff_eq] at h
  refine ⟨h.1, fun id m hlink => ?_⟩
  obtain ⟨handler, hlookup, -, hfd⟩ := link_eq_some hlink
  exact h.2 _ (AList.mem_lookup_iff.mp hlookup) hfd

/-- A handler is made for a descriptor that was not open.  `n` is the network before, with
the descriptor in the manager's map when the manager makes the handler. -/
theorem Wired.create (hw : Wired n) (hopen : n.isOpen fd = false) (managed : Bool)
    (talker : Talker T) {manager : AList fun _ : Nat => Nat}
    (hmanager : ∀ fd', fd' ≠ fd → manager.lookup fd' = n.manager.lookup fd')
    (hself : managed = true → manager.lookup fd = some n.nextId) :
    Wired ({ n with manager := manager }.create managed fd talker) := by
  obtain ⟨hserver, hnobody⟩ := not_open hopen
  have hnew : n.link n.nextId = none := by
    refine Option.not_isSome_iff_eq_none.mp fun h => ?_
    exact absurd (hw.fresh _ h) (lt_irrefl _)
  have hlink : ({ n with manager := manager }.create managed fd talker).link =
      Function.update n.link n.nextId (some (managed, some fd)) := by
    funext id
    rcases eq_or_ne id n.nextId with rfl | hne
    · simp [link, Network.create, Handler.make, Handler.link]
    · simp [link, Network.create, AList.lookup_insert_ne hne, hne]
  -- a handler with another descriptor is one of before
  have hold : ∀ {id fd' : Nat} {m : Bool}, fd' ≠ fd →
      ({ n with manager := manager }.create managed fd talker).link id = some (m, some fd') →
      n.link id = some (m, some fd') := by
    intro id fd' m hne h
    rw [hlink] at h
    rcases eq_or_ne id n.nextId with rfl | hid
    · rw [Function.update_self] at h
      cases h
      exact absurd rfl hne
    · rwa [Function.update_of_ne hid] at h
  -- and the new one has this one alone
  have hnewest : ∀ {id : Nat} {m : Bool},
      ({ n with manager := manager }.create managed fd talker).link id = some (m, some fd) →
      id = n.nextId ∧ m = managed := by
    intro id m h
    rw [hlink] at h
    rcases eq_or_ne id n.nextId with rfl | hid
    · rw [Function.update_self] at h
      cases h
      exact ⟨rfl, rfl⟩
    · rw [Function.update_of_ne hid] at h
      exact absurd h (hnobody id m)
  have hkeeps : ∀ id, (n.link id).isSome →
      ({ n with manager := manager }.create managed fd talker).link id = n.link id := by
    intro id h
    rw [hlink, Function.update_of_ne]
    rintro rfl
    rw [hnew] at h
    cases h
  refine ⟨hw.server, ?_, ?_, ?_, ?_, ?_, ?_, ?_, ?_⟩
  · intro fd' id h
    obtain ⟨m, hm⟩ := hw.owned fd' id h
    exact ⟨m, (hkeeps id (by rw [hm]; rfl)).trans hm⟩
  · intro id h
    rw [hlink] at h
    rcases eq_or_ne id n.nextId with rfl | hid
    · exact Nat.lt_succ_self _
    · rw [Function.update_of_ne hid] at h
      exact Nat.lt_succ_of_lt (hw.fresh id h)
  · intro id h
    rw [hlink] at h
    rcases eq_or_ne id n.nextId with rfl | hid
    · rw [Function.update_self] at h
      cases h
    · rw [Function.update_of_ne hid] at h
      exact hw.isOpen id h
  · intro fd' id h
    rcases eq_or_ne fd' fd with rfl | hne
    · obtain ⟨rfl, hm⟩ := hnewest h
      exact hself hm.symm
    · exact (hmanager fd' hne).trans (hw.kept fd' id (hold hne h))
  · intro fd' id id' m m' h h'
    rcases eq_or_ne fd' fd with rfl | hne
    · exact (hnewest h).1.trans (hnewest h').1.symm
    · exact hw.apart fd' id id' m m' (hold hne h) (hold hne h')
  · intro id m h
    exact hw.notServer id m (hold hserver.symm h)
  · intro job hjob hvalid
    rw [hlink]
    rcases eq_or_ne job.handler n.nextId with heq | hne
    · rw [heq, Function.update_self]
      rfl
    · rw [Function.update_of_ne hne]
      refine hw.alive job ?_ hvalid
      simp only [Network.create, List.append_assoc, List.mem_append, List.mem_singleton] at hjob ⊢
      rcases hjob with hjob | rfl | hjob
      · exact .inl hjob
      · exact absurd rfl hne
      · exact .inr hjob
  · intro job hjob hvalid m fd' h
    have hthere := hw.alive job (List.mem_append_right _ hjob) hvalid
    rw [hkeeps _ hthere] at h
    exact hw.started job hjob hvalid m fd' h

/-- `HandlersManager::add` for a descriptor that is not open. -/
theorem add_wired (C : TalkerClass T) (hw : Wired n) (hopen : n.isOpen fd = false) :
    Wired (add C fd n).1 ∧ (add C fd n).1.poller = n.poller ∧
      ((add C fd n).2 = .returned ∨ (add C fd n).2 = .thrown .caught) := by
  unfold add
  split
  · exact ⟨hw, rfl, .inr rfl⟩
  · refine ⟨hw.create hopen true C.build (fun fd' hne => ?_) fun _ => ?_, rfl, .inl rfl⟩
    · exact AList.lookup_insert_ne hne
    · exact AList.lookup_insert _

/-- The server's slot. -/
theorem acceptAll_wired (C : TalkerClass T) (fds : List Nat) (hw : Wired n) :
    Wired (acceptAll C fds n).1 ∧ (acceptAll C fds n).1.poller = n.poller ∧
      (acceptAll C fds n).2 = .returned := by
  induction fds generalizing n with
  | nil => exact ⟨hw, rfl, rfl⟩
  | cons fd fds ih =>
      simp only [acceptAll]
      cases hopen : n.isOpen fd with
      | true => exact ⟨hw, rfl, rfl⟩
      | false =>
          have hadd := add_wired C hw hopen
          simp only [Bool.false_eq_true, if_false]
          rcases hresult : add C fd n with ⟨n₁, ending⟩
          rw [hresult] at hadd
          obtain ⟨hw₁, hpoller, rfl | rfl⟩ := hadd
          · have hrest := ih hw₁
            exact ⟨hrest.1, hrest.2.1.trans hpoller, hrest.2.2⟩
          · exact ⟨hw₁, hpoller, rfl⟩

/-- `Handler::start`. -/
theorem startHandler_wired (hw : Wired n) {h : Handler T}
    (hlookup : n.objects.lookup id = some h) (stray : PollBits) :
    Wired (startHandler stray id n).1 ∧ (startHandler stray id n).2 = .returned := by
  simp only [startHandler, onHandler, hlookup]
  cases hfd : h.fd with
  | none => exact ⟨hw, rfl⟩
  | some fd =>
      simp only [setupPoll, onHandler, hlookup, hfd, Bool.false_eq_true, if_false]
      have hlink : n.link id = some (h.managed, some fd) := hfd ▸ link_of_lookup hlookup
      have hserver : fd ≠ n.serverFd := fun heq => hw.notServer id _ (heq ▸ hlink)
      refine ⟨⟨?_, ?_, hw.fresh, hw.isOpen, hw.kept, hw.apart, hw.notServer, ?_, ?_⟩, trivial⟩
      · intro fd'
        rw [Poller.owner_addFd, ← hw.server]
        rcases eq_or_ne fd' fd with rfl | hne
        · rw [Function.update_self, hw.server]
          simp [hserver]
        · rw [Function.update_of_ne hne]
      · intro fd' id' h'
        rw [Poller.owner_addFd] at h'
        rcases eq_or_ne fd' fd with rfl | hne
        · rw [Function.update_self] at h'
          cases h'
          exact ⟨_, hlink⟩
        · rw [Function.update_of_ne hne] at h'
          exact hw.owned fd' id' h'
      · intro job hjob hvalid
        rw [← List.append_assoc] at hjob
        rcases List.mem_append.mp hjob with hold | hnew
        · exact hw.alive job hold hvalid
        · obtain rfl := List.mem_singleton.mp hnew
          exact hlink ▸ rfl
      · intro job hjob hvalid m fd' h'
        rw [Poller.owner_addFd]
        rcases List.mem_append.mp hjob with hold | hnew
        · have howner := hw.started job hold hvalid m fd' h'
          rcases eq_or_ne fd' fd with rfl | hne
          · rw [Function.update_self, hw.apart fd' id job.handler _ _ hlink h']
          · rw [Function.update_of_ne hne, howner]
        · obtain rfl := List.mem_singleton.mp hnew
          obtain rfl : fd = fd' := by
            have heq := hlink.symm.trans h'
            simpa using congrArg (fun l => l.map Prod.snd) heq
          rw [Function.update_self]

end Network

end BuildYourOwnRedis
