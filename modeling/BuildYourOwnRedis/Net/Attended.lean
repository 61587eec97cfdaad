/-
  Net/Attended.lean --- no connection is left unattended.

  What a talker has to say is sent by a repeated job, and what the kernel has not taken at
  once is sent when `poll` reports that it would take more.  So an open handler is in one of
  two cases: its start is still to come and it has nothing to write, or it has its job, it is
  polled for reading, and it is polled for writing exactly while there is something to write.

  Two things can break this.  When `::write` fails with another error than `ECONNRESET`, the
  exception leaves `write` before `setup_poll`; and a stray bit of the uninitialized flags can
  ask for writing that nobody wants.
-/
import BuildYourOwnRedis.Net.Registrations
import BuildYourOwnRedis.Net.Removal

set_option autoImplicit false

namespace BuildYourOwnRedis

open Foundation

namespace PollBits

/-- Setting a bit sets it. -/
theorem has_or_self (bits mask : PollBits) (hmask : mask ≠ 0) : (bits ||| mask).has mask := by
  have habsorb : (bits ||| mask) &&& mask = mask := by
    ext i
    simp +contextual
  simpa [has, habsorb] using hmask

/-- Setting a bit leaves another one. -/
theorem has_or_of_and_eq_zero (bits : PollBits) {mask mask' : PollBits}
    (h : mask &&& mask' = 0) : (bits ||| mask).has mask' = bits.has mask' := by
  rw [has, BitVec.and_or_distrib_right, h]
  simp [has]

/-- The types that `setup_poll` asks for. -/
theorem has_ofTypes (stray : PollBits) (hstray : stray.has pollOut = false) (write : Bool) :
    let bits := ofTypes stray
      (if write then [.readyToRead, .readyToWrite] else [.readyToRead])
    bits.has pollIn = true ∧ bits.has pollOut = write := by
  cases write with
  | false =>
      refine ⟨has_or_self stray pollIn (by decide), ?_⟩
      exact (has_or_of_and_eq_zero stray (by decide)).trans hstray
  | true =>
      refine ⟨?_, has_or_self _ pollOut (by decide)⟩
      exact (has_or_of_and_eq_zero _ (by decide)).trans (has_or_self stray pollIn (by decide))

end PollBits

theorem Poller.owner_of_kept {p : Poller} {fd : Nat} {entry : PollFd} {flags : PollBits}
    {signal : EventSignal} (h : p.kept fd = some (entry, flags, signal)) :
    p.owner fd = some signal := by
  obtain ⟨handler, hlookup, hentry⟩ := Option.bind_eq_some_iff.mp h
  obtain ⟨entry', -, heq⟩ := Option.map_eq_some_iff.mp hentry
  obtain ⟨-, -, rfl⟩ : entry' = entry ∧ handler.flags = flags ∧ handler.signal = signal := by
    simpa using heq
  rw [owner, hlookup, Option.map_some]

/-! ## Writing that does not fail -/

/-- No `::write` fails with another error than `ECONNRESET`, and the uninitialized flags do
not happen to ask for writing. -/
structure WriteCall.Clean (call : WriteCall) : Prop where
  results : .failed ∉ call.results
  stray : call.stray.has PollBits.pollOut = false

instance (call : WriteCall) : Decidable call.Clean :=
  decidable_of_iff (.failed ∉ call.results ∧ call.stray.has PollBits.pollOut = false)
    ⟨fun h => ⟨h.1, h.2⟩, fun h => ⟨h.1, h.2⟩⟩

theorem WriteCall.clean_headD {calls : List WriteCall} (h : ∀ call ∈ calls, call.Clean) :
    (calls.headD {}).Clean := by
  cases calls with
  | nil => exact ⟨by simp, by decide⟩
  | cons call calls => exact h call List.mem_cons_self

namespace Handler

variable {T : Type}

/-! Reading and saying leave the bytes that are to be sent. -/

@[simp] theorem writeBuffer_listenAll (C : TalkerClass T) (fuel : Nat) (h : Handler T) :
    (h.listenAll C fuel).1.writeBuffer = h.writeBuffer := by
  induction fuel generalizing h with
  | zero => rfl
  | succ fuel ih =>
      unfold listenAll
      split
      · rfl
      · rfl
      · split
        · rfl
        · exact ih _

theorem writeBuffer_receive (C : TalkerClass T) (received : Received) (h : Handler T) :
    (h.receive C received).1.writeBuffer = h.writeBuffer := by
  have hread : (h.read received).1.writeBuffer = h.writeBuffer := by
    unfold read
    split <;> rfl
  unfold receive
  split
  · next h' heq => rw [writeBuffer_listenAll, ← hread, heq]
  · next h' thrown heq => rw [← hread, heq]

theorem writeBuffer_nextMessage {m : Message} {h h' : Handler T}
    (hnext : h.nextMessage = some (m, h')) : h'.writeBuffer = h.writeBuffer := by
  obtain ⟨said, -, heq⟩ := Option.map_eq_some_iff.mp hnext
  cases heq
  rfl

theorem writeLoop_clean {results : List Written} (h : .failed ∉ results) (size total : Nat) :
    writeLoop results size total ≠ .error .caught := by
  induction results generalizing total with
  | nil => simp [writeLoop]
  | cons result results ih =>
      obtain ⟨hfirst, hrest⟩ := not_or.mp (mt List.mem_cons.mpr h)
      unfold writeLoop
      split
      · simp
      · cases result with
        | transferred n => exact ih hrest _
        | again | reset => simp
        | failed => exact absurd rfl hfirst

/-- `write` of an open handler resets the connection, does nothing because there is nothing
to write, or goes on to `setup_poll`. -/
theorem writeOut_clean {results : List Written} (h : .failed ∉ results) {handler : Handler T}
    (hfd : handler.fd.isSome) :
    handler.writeOut results = (handler, .error .connReset) ∨
      (handler.writeBuffer = [] ∧ handler.writeOut results = (handler, .ok false)) ∨
      ∃ buffer, handler.writeOut results =
        ({ handler with writeBuffer := buffer }, .ok true) := by
  obtain ⟨fd, hfd⟩ := Option.isSome_iff_exists.mp hfd
  unfold writeOut
  split
  · next hempty => exact .inr (.inl ⟨List.length_eq_zero_iff.mp hempty, rfl⟩)
  · simp only [hfd]
    cases hloop : writeLoop results handler.writeBuffer.length 0 with
    | error thrown =>
        cases thrown with
        | connReset => exact .inl rfl
        | caught => exact absurd hloop (writeLoop_clean h _ _)
    | ok total => exact .inr (.inr ⟨_, rfl⟩)

/-- `write` of a handler that has closed. -/
theorem writeOut_closed (results : List Written) {handler : Handler T}
    (hfd : handler.fd = none) :
    handler.writeOut results = (handler, .ok false) ∨
      handler.writeOut results = (handler, .error .caught) := by
  unfold writeOut
  rw [hfd]
  split
  · exact .inl rfl
  · exact .inr rfl

end Handler

/-! ## The two cases -/

namespace Network

variable {T : Type} {n n' : Network T} {id fd : Nat}

/-- The handlers that a list of jobs is still valid for. -/
def pendingOf (jobs : List Job) : List Nat := (jobs.filter Job.valid).map Job.handler

/-- The handlers whose start is still to come. -/
def starts (n : Network T) : List Nat := pendingOf n.onetime

/-- The handler has its job, and its descriptor is polled for reading. -/
structure Started (n : Network T) (id fd : Nat) (bits : PollBits) : Prop where
  started : id ∉ n.starts
  job : ⟨id, true⟩ ∈ n.repeated
  kept : n.poller.kept fd = some (⟨some fd, bits⟩, bits, .handler id)
  reads : bits.has PollBits.pollIn = true

/-- The handler is not left alone: it is closed, it waits for its `start`, or its events are
polled.  It is polled for writing exactly while something is left to write. -/
inductive Attended (n : Network T) (id : Nat) (h : Handler T) : Prop where
  | closed (hfd : h.fd = none)
  | waiting {fd : Nat} (hfd : h.fd = some fd) (hstart : id ∈ n.starts)
      (howner : n.poller.owner fd = none) (hempty : h.writeBuffer = [])
  | started {fd : Nat} {bits : PollBits} (hfd : h.fd = some fd) (hstarted : n.Started id fd bits)
      (hwrites : bits.has PollBits.pollOut = true ↔ h.writeBuffer ≠ [])

/-- The socket that listens is polled for reading, so new connections are noticed. -/
def Listens (n : Network T) : Prop :=
  ∃ bits, n.poller.kept n.serverFd = some (⟨some n.serverFd, bits⟩, bits, .server) ∧
    bits.has PollBits.pollIn = true

/-- All handlers but perhaps one are attended.  This is the state inside a call on one handler,
before its `setup_poll`. -/
structure TendedBut (id : Nat) (n : Network T) : Prop where
  wired : Wired n
  listens : Listens n
  once : n.starts.Nodup
  others : ∀ id' h, id' ≠ id → n.objects.lookup id' = some h → Attended n id' h

/-- All handlers are attended, and the socket that listens too.  It holds between two steps. -/
structure Tended (n : Network T) : Prop where
  wired : Wired n
  listens : Listens n
  once : n.starts.Nodup
  attended : ∀ id h, n.objects.lookup id = some h → Attended n id h

theorem Tended.but (ht : Tended n) (id : Nat) : TendedBut id n :=
  ⟨ht.wired, ht.listens, ht.once, fun id' h _ => ht.attended id' h⟩

theorem TendedBut.tended (ht : TendedBut id n)
    (hself : ∀ h, n.objects.lookup id = some h → Attended n id h) : Tended n := by
  refine ⟨ht.wired, ht.listens, ht.once, fun id' h hlookup => ?_⟩
  rcases eq_or_ne id' id with rfl | hne
  · exact hself h hlookup
  · exact ht.others id' h hne hlookup

/-- The jobs of a handler are the same, and what is polled for it. -/
theorem Attended.congr {h : Handler T} (ha : Attended n id h)
    (hstarts : id ∈ n'.starts ↔ id ∈ n.starts)
    (hjob : ⟨id, true⟩ ∈ n.repeated → ⟨id, true⟩ ∈ n'.repeated)
    (hkept : ∀ fd, h.fd = some fd → n'.poller.kept fd = n.poller.kept fd)
    (howner : ∀ fd, h.fd = some fd → n'.poller.owner fd = n.poller.owner fd) :
    Attended n' id h := by
  cases ha with
  | closed hfd => exact .closed hfd
  | waiting hfd hstart hnone hempty =>
      exact .waiting hfd (hstarts.mpr hstart) ((howner _ hfd).trans hnone) hempty
  | started hfd hs hwrites =>
      exact .started hfd ⟨mt hstarts.mp hs.started, hjob hs.job, (hkept _ hfd).trans hs.kept,
        hs.reads⟩ hwrites

/-- Two handlers do not have one descriptor. -/
theorem Wired.fd_ne (hw : Wired n) {h h' : Handler T} {id' : Nat} (hne : id' ≠ id)
    (hlookup : n.objects.lookup id = some h) (hfd : h.fd = some fd)
    (hlookup' : n.objects.lookup id' = some h') {fd' : Nat} (hfd' : h'.fd = some fd') :
    fd' ≠ fd := by
  rintro rfl
  exact hne (hw.apart fd' id' id _ _ (hfd' ▸ link_of_lookup hlookup')
    (hfd ▸ link_of_lookup hlookup))

/-- Nor has one that of the server. -/
theorem Wired.fd_ne_server (hw : Wired n) {h : Handler T}
    (hlookup : n.objects.lookup id = some h) (hfd : h.fd = some fd) : n.serverFd ≠ fd := by
  rintro rfl
  exact hw.notServer id _ (hfd ▸ link_of_lookup hlookup)

/-! ## A handler changes its buffers and its talker -/

theorem TendedBut.setHandler (ht : TendedBut id n) {h : Handler T}
    (hlink : n.link id = some h.link) : TendedBut id (n.setHandler id h) := by
  refine ⟨ht.wired.same (same_setHandler hlink), ht.listens, ht.once,
    fun id' h' hne hlookup => ?_⟩
  rw [Network.setHandler, AList.lookup_insert_ne hne] at hlookup
  exact (ht.others id' h' hne hlookup).congr .rfl (fun h => h) (fun _ _ => rfl) fun _ _ => rfl

/-- The bytes that are to be sent stay. -/
theorem Tended.setHandler (ht : Tended n) {h h' : Handler T}
    (hlookup : n.objects.lookup id = some h) (hlink : h'.link = h.link)
    (hbuffer : h'.writeBuffer = h.writeBuffer) : Tended (n.setHandler id h') := by
  have hfds : h'.fd = h.fd := congrArg Prod.snd hlink
  refine ((ht.but id).setHandler ((link_of_lookup hlookup).trans
    (congrArg some hlink.symm))).tended fun h₁ hlookup₁ => ?_
  obtain rfl : h' = h₁ := Option.some.inj ((lookup_setHandler h').symm.trans hlookup₁)
  cases ht.attended id h hlookup with
  | closed hfd => exact .closed (hfds.trans hfd)
  | waiting hfd hstart howner hempty =>
      exact .waiting (hfds.trans hfd) hstart howner (hbuffer.trans hempty)
  | started hfd hs hwrites =>
      exact .started (hfds.trans hfd) ⟨hs.started, hs.job, hs.kept, hs.reads⟩
        (hbuffer ▸ hwrites)

/-! ## A handler sets up what is polled for it -/

/-- The poller changes what it keeps of this handler's descriptor only. -/
theorem TendedBut.addFd (ht : TendedBut id n) {h : Handler T}
    (hlookup : n.objects.lookup id = some h) (hfd : h.fd = some fd) {stray : PollBits}
    {types : List PollEventType} {jobs : List Job} (hjobs : n.repeated ⊆ jobs)
    (hw : Wired { n with
      poller := n.poller.addFd stray fd types (.handler id), repeated := jobs }) :
    TendedBut id { n with
      poller := n.poller.addFd stray fd types (.handler id), repeated := jobs } := by
  refine ⟨hw, ?_, ht.once, fun id' h' hne hlookup' => ?_⟩
  · obtain ⟨bits, hkept, hreads⟩ := ht.listens
    refine ⟨bits, ?_, hreads⟩
    rw [Poller.kept_addFd, Function.update_of_ne (ht.wired.fd_ne_server hlookup hfd), hkept]
  · refine (ht.others id' h' hne hlookup').congr .rfl (fun hjob => hjobs hjob)
      (fun fd' hfd' => ?_) fun fd' hfd' => ?_
    · rw [Poller.kept_addFd,
        Function.update_of_ne (ht.wired.fd_ne hne hlookup hfd hlookup' hfd')]
    · rw [Poller.owner_addFd,
        Function.update_of_ne (ht.wired.fd_ne hne hlookup hfd hlookup' hfd')]

/-- `setup_poll`, as `write` calls it. -/
theorem TendedBut.setupPoll (ht : TendedBut id n) {h : Handler T}
    (hlookup : n.objects.lookup id = some h) (hfd : h.fd = some fd) {bits stray : PollBits}
    (hs : n.Started id fd bits) (hstray : stray.has PollBits.pollOut = false) :
    ∃ n', setupPoll stray (h.writeBuffer.length != 0) id n = (n', .returned) ∧ Tended n' := by
  obtain ⟨n', hcall, hsame, hlookup'⟩ := setupPoll_registered hlookup hfd
    (Poller.owner_of_kept hs.kept) stray (h.writeBuffer.length != 0)
  refine ⟨n', hcall, ?_⟩
  simp only [Network.setupPoll, onHandler, hlookup, hfd, Prod.mk.injEq, and_true] at hcall
  subst hcall
  refine (ht.addFd hlookup hfd (List.Subset.refl _) (ht.wired.same hsame)).tended
    fun h₁ hlookup₁ => ?_
  obtain rfl : h = h₁ := Option.some.inj (hlookup'.symm.trans hlookup₁)
  obtain ⟨hreads, hwrites⟩ := PollBits.has_ofTypes stray hstray (h.writeBuffer.length != 0)
  refine .started hfd ⟨hs.started, hs.job, ?_, hreads⟩ ?_
  · simp only [Poller.kept_addFd, Function.update_self]
  · rw [hwrites]
    simp

/-! ## A handler writes -/

/-- Between `send` and `setup_poll`: what is to be sent may be more than what is polled
for. -/
inductive Writing (n : Network T) (id : Nat) (h : Handler T) : Prop where
  | closed (hfd : h.fd = none)
  | started {fd : Nat} {bits : PollBits} (hfd : h.fd = some fd) (hstarted : n.Started id fd bits)
      (hquiet : h.writeBuffer = [] → bits.has PollBits.pollOut = false)

theorem Attended.writing {h : Handler T} (ha : Attended n id h) (hreg : Registered id h n) :
    Writing n id h := by
  cases ha with
  | closed hfd => exact .closed hfd
  | waiting hfd _ hnone _ =>
      have howner := hreg _ hfd
      rw [hnone] at howner
      cases howner
  | started hfd hs hwrites =>
      exact .started hfd hs fun hempty => Bool.eq_false_iff.mpr fun hout => hwrites.mp hout hempty

/-- `send` only adds to the buffer. -/
theorem Writing.append {h h' : Handler T} (hwriting : Writing n id h) (hlink : h'.link = h.link)
    (hbuffer : h'.writeBuffer = h.writeBuffer) (m : Message) :
    Writing (n.setHandler id (h'.append m)) id (h'.append m) := by
  have hfds : (h'.append m).fd = h.fd := congrArg Prod.snd hlink
  cases hwriting with
  | closed hfd => exact .closed (hfds.trans hfd)
  | started hfd hs hquiet =>
      refine .started (hfds.trans hfd) ⟨hs.started, hs.job, hs.kept, hs.reads⟩ fun hempty => ?_
      rw [Handler.append, hbuffer] at hempty
      exact hquiet (List.append_eq_nil_iff.mp hempty).1

/-- **`write`.**  Where it returns or throws what the loop catches, the handler is attended
again; where it throws `ConnReset`, nothing has changed. -/
theorem TendedBut.write (ht : TendedBut id n) {h : Handler T}
    (hlookup : n.objects.lookup id = some h) (hwriting : Writing n id h) {call : WriteCall}
    (hcall : call.Clean) :
    ∃ n' ending, write call id n = (n', ending) ∧
      (ending = .thrown .connReset ∧ n' = n.setHandler id h ∨
        (ending = .returned ∨ ending = .thrown .caught) ∧ Tended n') := by
  have hset : TendedBut id (n.setHandler id h) := ht.setHandler (link_of_lookup hlookup)
  cases hwriting with
  | closed hfd =>
      have hsame : Tended (n.setHandler id h) := hset.tended fun h₁ hlookup₁ => by
        obtain rfl : h = h₁ := Option.some.inj ((lookup_setHandler h).symm.trans hlookup₁)
        exact .closed hfd
      simp only [Network.write, onHandler, hlookup]
      rcases Handler.writeOut_closed call.results hfd with hout | hout
      · simp only [hout]
        exact ⟨_, _, rfl, .inr ⟨.inl rfl, hsame⟩⟩
      · simp only [hout]
        exact ⟨_, _, rfl, .inr ⟨.inr rfl, hsame⟩⟩
  | started hfd hs hquiet =>
      have hopen : h.fd.isSome := by rw [hfd]; rfl
      simp only [Network.write, onHandler, hlookup]
      rcases Handler.writeOut_clean hcall.results hopen with hout | ⟨hempty, hout⟩ | ⟨buffer, hout⟩
      · simp only [hout]
        exact ⟨_, _, rfl, .inl ⟨rfl, rfl⟩⟩
      · simp only [hout]
        refine ⟨_, _, rfl, .inr ⟨.inl rfl, hset.tended fun h₁ hlookup₁ => ?_⟩⟩
        obtain rfl : h = h₁ := Option.some.inj ((lookup_setHandler h).symm.trans hlookup₁)
        refine .started hfd ⟨hs.started, hs.job, hs.kept, hs.reads⟩ ?_
        rw [hquiet hempty]
        simp [hempty]
      · simp only [hout]
        have hset' : TendedBut id (n.setHandler id { h with writeBuffer := buffer }) :=
          ht.setHandler ((link_of_lookup hlookup).trans rfl)
        obtain ⟨n', hsetup, htended⟩ := hset'.setupPoll (lookup_setHandler _) hfd
          ⟨hs.started, hs.job, hs.kept, hs.reads⟩ hcall.stray
        exact ⟨n', .returned, hsetup, .inr ⟨.inl rfl, htended⟩⟩

/-! ## A handler closes -/

theorem pendingOf_invalidate (id : Nat) (jobs : List Job) :
    pendingOf (jobs.map (Job.invalidate id)) = (pendingOf jobs).filter (· ≠ id) := by
  induction jobs with
  | nil => rfl
  | cons job jobs ih =>
      simp only [pendingOf, List.map_cons, List.filter_cons, Job.invalidate] at ih ⊢
      by_cases hid : job.handler = id
      · cases hvalid : job.valid <;> simp [hid, ih]
      · cases hvalid : job.valid <;> simp [hid, hvalid, ih]

theorem mem_invalidate {jobs : List Job} {id' : Nat} (hne : id' ≠ id) (hjob : ⟨id', true⟩ ∈ jobs) :
    ⟨id', true⟩ ∈ jobs.map (Job.invalidate id) :=
  List.mem_map.mpr ⟨_, hjob, if_neg hne⟩

/-- The handler's descriptor is taken out of the poller. -/
theorem TendedBut.removeFd (ht : TendedBut id n) {h : Handler T}
    (hlookup : n.objects.lookup id = some h) (hfd : h.fd = some fd) (hw : Wired n')
    (hserver : n'.serverFd = n.serverFd) (hpoller : n'.poller = n.poller.removeFd fd)
    (hobjects : ∀ id', id' ≠ id → n'.objects.lookup id' = n.objects.lookup id')
    (honce : n'.starts.Nodup) (hstarts : ∀ id', id' ≠ id → (id' ∈ n'.starts ↔ id' ∈ n.starts))
    (hjobs : ∀ id', id' ≠ id → ⟨id', true⟩ ∈ n.repeated → ⟨id', true⟩ ∈ n'.repeated) :
    TendedBut id n' := by
  refine ⟨hw, ?_, honce, fun id' h' hne hlookup' => ?_⟩
  · obtain ⟨bits, hkept, hreads⟩ := ht.listens
    refine ⟨bits, ?_, hreads⟩
    rw [hserver, hpoller, Poller.kept_removeFd,
      Function.update_of_ne (ht.wired.fd_ne_server hlookup hfd), hkept]
  · rw [hobjects id' hne] at hlookup'
    refine (ht.others id' h' hne hlookup').congr (hstarts id' hne) (hjobs id' hne)
      (fun fd' hfd' => ?_) fun fd' hfd' => ?_
    · rw [hpoller, Poller.kept_removeFd,
        Function.update_of_ne (ht.wired.fd_ne hne hlookup hfd hlookup' hfd')]
    · rw [hpoller, Poller.owner_removeFd,
        Function.update_of_ne (ht.wired.fd_ne hne hlookup hfd hlookup' hfd')]

/-- `close`. -/
theorem TendedBut.close (C : TalkerClass T) (ht : TendedBut id n) {h : Handler T}
    (hlookup : n.objects.lookup id = some h) :
    ∃ n', close C id n = (n', .returned) ∧ Tended n' ∧
      ∀ h', n'.objects.lookup id = some h' → h'.fd = none := by
  cases hfd : h.fd with
  | none =>
      have hself : ∀ h', n.objects.lookup id = some h' → h'.fd = none := fun h' hlookup' =>
        Option.some.inj (hlookup.symm.trans hlookup') ▸ hfd
      exact ⟨n, by simp only [Network.close, onHandler, hlookup, hfd],
        ht.tended fun h' hlookup' => .closed (hself h' hlookup'), hself⟩
  | some fd =>
      obtain ⟨n', hclose, hclosed⟩ := close_open C ht.wired hlookup hfd
      have hw := ht.wired.closed (hfd ▸ link_of_lookup hlookup) hclosed
      have hself : ∀ h', n'.objects.lookup id = some h' → h'.fd = none := by
        intro h' hlookup'
        have hlink := link_of_lookup hlookup'
        rw [hclosed.link, Function.update_self] at hlink
        exact (hclosed.left_fd _ _ hlink).2
      refine ⟨n', hclose, TendedBut.tended ?_ fun h' hlookup' => .closed (hself h' hlookup'), hself⟩
      simp only [Network.close, onHandler, hlookup, hfd, Prod.mk.injEq, and_true] at hclose
      cases hmanaged : h.managed with
      | true =>
          have hkept := ht.wired.kept fd id (by rw [link_of_lookup hlookup, hmanaged, hfd])
          simp only [hmanaged, if_true, remove, Network.setHandler, hkept] at hclose
          subst hclose
          refine ht.removeFd hlookup hfd hw rfl rfl (fun id' hne => ?_) ?_ (fun id' hne => ?_)
            fun id' hne => mem_invalidate hne
          · simp [destroy, AList.lookup_erase_ne hne, AList.lookup_insert_ne hne]
          · rw [starts, destroy, pendingOf_invalidate]
            exact ht.once.filter _
          · rw [starts, destroy, pendingOf_invalidate, List.mem_filter]
            simp [starts, hne]
      | false =>
          simp only [hmanaged, Bool.false_eq_true, if_false] at hclose
          subst hclose
          exact ht.removeFd hlookup hfd hw rfl rfl (fun id' hne => AList.lookup_insert_ne hne)
            ht.once (fun _ _ => .rfl) fun _ _ hjob => hjob

/-! ## A handler says what there is to say -/

/-- `process_write` of a handler that is not waiting for its start. -/
theorem Tended.processWriteLoop (C : TalkerClass T) (ht : Tended n) {h : Handler T}
    (hlookup : n.objects.lookup id = some h) (hreg : Registered id h n) (fuel : Nat)
    {calls : List WriteCall} (hcalls : ∀ call ∈ calls, call.Clean) :
    Tended (processWriteLoop C fuel calls id n).1 := by
  induction fuel generalizing n h calls with
  | zero => exact ht
  | succ fuel ih =>
      simp only [Network.processWriteLoop, onHandler, hlookup]
      cases hnext : h.nextMessage with
      | none => exact ht
      | some said =>
          obtain ⟨m, h₁⟩ := said
          have hlink := Handler.link_nextMessage hnext
          have hbuffer := Handler.writeBuffer_nextMessage hnext
          have hnow : n.link id = some h₁.link := by
            rw [hlink]
            exact link_of_lookup hlookup
          simp only
          by_cases hleave : m.type = .leave
          · obtain ⟨n', hclose, htended, -⟩ := TendedBut.close C
              ((ht.but id).setHandler (h := h₁) hnow) (lookup_setHandler h₁)
            simp only [hleave, if_true, hclose]
            exact htended
          · have hset : TendedBut id (n.setHandler id (h₁.append m)) :=
              (ht.but id).setHandler (hnow.trans rfl)
            have hsame : Same n (n.setHandler id (h₁.append m)) :=
              same_setHandler (hnow.trans rfl)
            have hwriting := ((ht.attended id h hlookup).writing hreg).append hlink hbuffer m
            obtain ⟨n', ending, hwrite, hend⟩ := hset.write (lookup_setHandler _) hwriting
              (WriteCall.clean_headD hcalls)
            obtain ⟨n₂, hwrite₂, hsame₂, hlookup₂⟩ := write_registered
              (lookup_setHandler (h₁.append m)) (hreg.same hsame hlink) (calls.headD {})
            obtain ⟨rfl, -⟩ : n' = n₂ ∧ _ := Prod.mk.inj (hwrite.symm.trans hwrite₂)
            simp only [hleave, if_false, hwrite]
            rcases hend with ⟨rfl, hn⟩ | ⟨rfl | rfl, htended⟩
            · rw [hn]
              obtain ⟨n₁, hclose, htended, -⟩ := TendedBut.close C
                (hset.setHandler (link_of_lookup (lookup_setHandler _))) (lookup_setHandler _)
              simp only [hclose]
              exact htended
            · refine ih htended hlookup₂ ?_ fun call hcall =>
                hcalls call (List.mem_of_mem_tail hcall)
              exact (hreg.same hsame hlink).same hsame₂ (Handler.link_writeOut _ _)
            · exact htended

theorem Tended.processWrite (C : TalkerClass T) (ht : Tended n)
    (hreg : ∀ h, n.objects.lookup id = some h → Registered id h n) {calls : List WriteCall}
    (hcalls : ∀ call ∈ calls, call.Clean) : Tended (processWrite C calls id n).1 := by
  cases hlookup : n.objects.lookup id with
  | none =>
      simp only [Network.processWrite, onHandler, hlookup]
      exact ht
  | some h =>
      simp only [Network.processWrite, onHandler, hlookup]
      exact ht.processWriteLoop C hlookup (hreg h hlookup) _ hcalls

/-! ## Events -/

/-- `process_read`. -/
theorem Tended.processRead (C : TalkerClass T) (ht : Tended n) {h : Handler T}
    (hlookup : n.objects.lookup id = some h) (hreg : Registered id h n) (received : Received)
    {calls : List WriteCall} (hcalls : ∀ call ∈ calls, call.Clean) :
    Tended (processRead C received calls id n).1 := by
  have hlink := Handler.link_receive C received h
  have hbuffer := Handler.writeBuffer_receive C received h
  simp only [Network.processRead, onHandler, hlookup]
  rcases hreceive : h.receive C received with ⟨h₁, (_ | _) | ⟨⟩⟩
  all_goals
    rw [hreceive] at hlink hbuffer
    have hset := ht.setHandler hlookup hlink hbuffer
  · -- what is to be said behind `close` is for a handler that is gone or has no descriptor
    obtain ⟨n', hclose, htended, hgone⟩ := (hset.but id).close C (lookup_setHandler h₁)
    simp only [hclose]
    refine htended.processWrite C (fun h' hlookup' fd hfd => ?_) hcalls
    rw [hgone h' hlookup'] at hfd
    cases hfd
  · exact hset
  · refine hset.processWrite C (fun h' hlookup' => ?_) hcalls
    obtain rfl : h₁ = h' := Option.some.inj ((lookup_setHandler h₁).symm.trans hlookup')
    exact hreg.same (same_setHandler ((link_of_lookup hlookup).trans
      (congrArg some hlink.symm))) hlink

/-- An event of a handler. -/
theorem Tended.handlerEvent (C : TalkerClass T) (ht : Tended n) {h : Handler T}
    (hlookup : n.objects.lookup id = some h) (hreg : Registered id h n) {answers : Answers}
    (hclean : ∀ call ∈ answers.writes, call.Clean) (type : PollEventType) :
    Tended (handlerEvent C answers type id n).1 := by
  obtain ⟨nc, hclose, hclosed, -⟩ := (ht.but id).close C hlookup
  simp only [Network.handlerEvent, onHandler, hlookup]
  split
  · exact ht
  · cases type with
    | readyToRead => exact ht.processRead C hlookup hreg answers.received hclean
    | readyToWrite =>
        have hattended := ht.attended id h hlookup
        obtain ⟨n', ending, hwrite, hend⟩ := (ht.but id).write hlookup (hattended.writing hreg)
          (WriteCall.clean_headD hclean)
        simp only [hwrite]
        rcases hend with ⟨-, rfl⟩ | ⟨-, htended⟩
        · exact ht.setHandler hlookup rfl rfl
        · exact htended
    | hangUp =>
        simp only [hclose]
        exact hclosed
    | error =>
        simp only [hclose]
        exact hclosed
    | invalidFD =>
        simp only [hclose]
        exact hclosed

/-- A handler is made, and posts its start. -/
theorem Tended.create (ht : Tended n) (hopen : n.isOpen fd = false) {managed : Bool}
    {talker : Talker T} {manager : AList fun _ : Nat => Nat}
    (hw : Wired ({ n with manager := manager }.create managed fd talker)) :
    Tended ({ n with manager := manager }.create managed fd talker) := by
  obtain ⟨hserver, hnobody⟩ := not_open hopen
  have hnew : n.nextId ∉ n.starts := by
    intro hmem
    obtain ⟨job, hjob, heq⟩ := List.mem_map.mp hmem
    obtain ⟨hjob, hvalid⟩ := List.mem_filter.mp hjob
    have hthere := ht.wired.alive job (List.mem_append_left _ hjob) hvalid
    exact (ht.wired.fresh _ hthere).ne heq
  have hstarts : ({ n with manager := manager }.create managed fd talker).starts =
      n.starts ++ [n.nextId] := by
    simp [starts, pendingOf, Network.create]
  refine ⟨hw, ht.listens, ?_, fun id' h' hlookup' => ?_⟩
  · rw [hstarts]
    exact List.nodup_append.mpr ⟨ht.once, List.nodup_singleton _, fun a ha b hb => by
      rintro rfl
      exact hnew (List.mem_singleton.mp hb ▸ ha)⟩
  · rcases eq_or_ne id' n.nextId with rfl | hne
    · obtain rfl : Handler.make managed fd talker = h' := by
        rw [Network.create, AList.lookup_insert] at hlookup'
        exact Option.some.inj hlookup'
      refine .waiting rfl (by rw [hstarts]; simp) ?_ rfl
      -- the descriptor was nobody's
      cases howner : n.poller.owner fd with
      | none => exact howner
      | some signal =>
          cases signal with
          | server => exact absurd ((ht.wired.server fd).mp howner) hserver
          | handler id =>
              obtain ⟨m, hlink⟩ := ht.wired.owned fd id howner
              exact absurd hlink (hnobody id m)
    · have hlookup : n.objects.lookup id' = some h' :=
        (AList.lookup_insert_ne hne).symm.trans hlookup'
      exact (ht.attended id' h' hlookup).congr (by rw [hstarts]; simp [hne]) (fun hjob => hjob)
        (fun _ _ => rfl) fun _ _ => rfl

/-- The server's slot. -/
theorem Tended.acceptAll (C : TalkerClass T) (ht : Tended n) (fds : List Nat) :
    Tended (acceptAll C fds n).1 := by
  induction fds generalizing n with
  | nil => exact ht
  | cons fd fds ih =>
      simp only [Network.acceptAll]
      cases hopen : n.isOpen fd with
      | true => exact ht
      | false =>
          have hw := (add_wired C ht.wired hopen).1
          simp only [Bool.false_eq_true, if_false, add] at hw ⊢
          split at hw
          · next hknown =>
              simp only [hknown, if_true]
              exact ht
          · next hunknown =>
              simp only [hunknown]
              exact ih (ht.create hopen hw)

/-- `start`, when its job has been taken. -/
theorem startHandler_tended (ht : TendedBut id n) {h : Handler T}
    (hlookup : n.objects.lookup id = some h) (hstart : id ∉ n.starts)
    (hempty : h.fd.isSome → h.writeBuffer = []) {stray : PollBits}
    (hstray : stray.has PollBits.pollOut = false) :
    (startHandler stray id n).2 = .returned ∧ Tended (startHandler stray id n).1 := by
  obtain ⟨hw, hreturned⟩ := startHandler_wired ht.wired hlookup stray
  refine ⟨hreturned, ?_⟩
  simp only [startHandler, onHandler, hlookup] at hw ⊢
  cases hfd : h.fd with
  | none =>
      refine ht.tended fun h' hlookup' => .closed ?_
      rw [← Option.some.inj (hlookup.symm.trans hlookup'), hfd]
  | some fd =>
      simp only [hfd, Network.setupPoll, onHandler, hlookup, Bool.false_eq_true, if_false] at hw ⊢
      refine (ht.addFd hlookup hfd (List.subset_append_left _ _) hw).tended fun h' hlookup' => ?_
      obtain rfl : h = h' := Option.some.inj (hlookup.symm.trans hlookup')
      obtain ⟨hreads, hwrites⟩ := PollBits.has_ofTypes stray hstray false
      refine .started hfd ⟨hstart, by simp, ?_, hreads⟩ ?_
      · simp only [Poller.kept_addFd, Function.update_self]
        rfl
      · rw [hempty (by rw [hfd]; rfl)]
        exact ⟨fun hout => absurd (hwrites.symm.trans hout) (by decide), fun h => absurd rfl h⟩

end Network

/-! ## The event loop -/

namespace LoopAction

variable {T : Type}

/-- What the kernel answers to the writes of an action, and what stands in the flags.  No
answer is a failure other than a reset: such a failure would leave the handler without its
`setup_poll`. -/
def Clean : LoopAction T → Prop
  | .onetime stray => stray.has PollBits.pollOut = false
  | .repeated _ writes => ∀ call ∈ writes, call.Clean
  | .next answers => ∀ call ∈ answers.writes, call.Clean
  | .poll _ _ | .talk _ _ | .replicaStart _ => True

instance (a : LoopAction T) : Decidable a.Clean := by
  cases a <;> unfold Clean <;> infer_instance

end LoopAction

namespace Loop

variable {T : Type} {n : Network T} {s s' : Loop T} {fd : Nat} {signal : EventSignal}

open Network

/-- No write fails otherwise than by a reset, and no stray bit asks for writing. -/
def WritesClean (_ : Loop T) (a : LoopAction T) : Prop := a.Clean

instance (s : Loop T) (a : LoopAction T) : Decidable (WritesClean s a) :=
  inferInstanceAs (Decidable a.Clean)

@[simp] theorem network_finish (onwards : Control) (result : Network T × Ending) :
    (finish onwards result).network = result.1 := by
  unfold finish
  split <;> rfl

/-- One bit of one descriptor. -/
theorem checkBit_tended (C : TalkerClass T) (ht : Tended n) {answers : Answers}
    (hclean : ∀ call ∈ answers.writes, call.Clean) (fd : Nat) (signal : EventSignal)
    (revents : PollBits) (type : PollEventType) :
    Tended (checkBit C answers fd signal revents type n).1 := by
  unfold checkBit
  split
  swap
  · exact ht
  split
  · exact ht
  next entry hheld =>
  obtain ⟨hentry, hsignal⟩ := Option.filter_eq_some_iff.mp hheld
  have howner : n.poller.owner fd = some signal := by
    rw [Poller.owner, hentry, Option.map_some, of_decide_eq_true hsignal]
  split
  swap
  · exact ht
  rw [of_decide_eq_true hsignal]
  cases signal with
  | server =>
      simp only [emit, serverEvent]
      split
      · exact ht.acceptAll C _
      · exact ht
  | handler id =>
      obtain ⟨h, hlookup, hfd⟩ := ht.wired.lookup_owner howner
      simp only [emit, hlookup]
      exact ht.handlerEvent C hlookup
        (fun fd' hfd' => Option.some.inj (hfd.symm.trans hfd') ▸ howner) hclean type

theorem wired_onetime_tail (hw : Wired n) {job : Job} {jobs : List Job}
    (hjobs : n.onetime = job :: jobs) : Wired { n with onetime := jobs } :=
  ⟨hw.server, hw.owned, hw.fresh, hw.isOpen, hw.kept, hw.apart, hw.notServer,
    fun job' hjob' => hw.alive job' (by
      rw [hjobs]
      exact List.mem_cons_of_mem _ hjob'), hw.started⟩

/-- The first of the jobs that run once, when it is still valid. -/
theorem onetime_tended (ht : Tended n) {job : Job} {jobs : List Job}
    (hjobs : n.onetime = job :: jobs) (hvalid : job.valid = true) {stray : PollBits}
    (hstray : stray.has PollBits.pollOut = false) :
    Tended (startHandler stray job.handler { n with onetime := jobs }).1 := by
  have hstarts : n.starts = job.handler :: pendingOf jobs := by
    rw [starts, hjobs]
    simp [pendingOf, hvalid]
  have honce := ht.once
  rw [hstarts, List.nodup_cons] at honce
  have hthere := ht.wired.alive job (by rw [hjobs]; exact List.mem_cons_self) hvalid
  obtain ⟨h, hlookup⟩ := Option.isSome_iff_exists.mp (Option.isSome_map.symm.trans hthere)
  have hbut : TendedBut job.handler { n with onetime := jobs } := by
    refine ⟨wired_onetime_tail ht.wired hjobs, ht.listens, honce.2, fun id' h' hne hlookup' => ?_⟩
    refine (ht.attended id' h' hlookup').congr ?_ (fun hjob => hjob) (fun _ _ => rfl)
      fun _ _ => rfl
    rw [hstarts]
    simp [starts, hne]
  refine (startHandler_tended hbut hlookup honce.1 (fun hopen => ?_) hstray).2
  -- what is waiting for its start has nothing to write
  cases ht.attended job.handler h hlookup with
  | closed hfd => rw [hfd] at hopen; cases hopen
  | waiting _ _ _ hempty => exact hempty
  | started _ hs _ => exact absurd (by rw [hstarts]; exact List.mem_cons_self) hs.started

/-- A job that is not valid any more is thrown away. -/
theorem skipped_tended (ht : Tended n) {job : Job} {jobs : List Job}
    (hjobs : n.onetime = job :: jobs) (hinvalid : job.valid ≠ true) :
    Tended { n with onetime := jobs } := by
  have hstarts : n.starts = Network.starts { n with onetime := jobs } := by
    rw [starts, hjobs]
    simp [starts, pendingOf, hinvalid]
  refine ⟨wired_onetime_tail ht.wired hjobs, ht.listens, hstarts ▸ ht.once,
    fun id' h' hlookup' => ?_⟩
  exact (ht.attended id' h' hlookup').congr (by rw [hstarts]) (fun hjob => hjob)
    (fun _ _ => rfl) fun _ _ => rfl

/-- A job between two rounds. -/
theorem runJob_tended (C : TalkerClass T) (ht : Tended n) {a : LoopAction T} (ha : a.Clean)
    (h : runJob C n a = some s) : Tended s.network := by
  cases a with
  | onetime stray =>
      simp only [runJob] at h
      split at h
      · cases h
      · next job jobs hjobs =>
          split at h
          · next hvalid =>
              obtain rfl := Option.some.inj h
              rw [network_finish]
              exact onetime_tended ht hjobs hvalid ha
          · next hinvalid =>
              obtain rfl := Option.some.inj h
              exact skipped_tended ht hjobs hinvalid
  | repeated k writes =>
      obtain ⟨job, hjob, rfl⟩ := Option.map_eq_some_iff.mp h
      have hmem := List.mem_of_getElem? hjob
      split
      swap
      · exact ht
      next hvalid =>
      rw [network_finish]
      refine ht.processWrite C (fun handler hlookup fd hfd => ?_) ha
      exact ht.wired.started job hmem hvalid handler.managed fd (hfd ▸ link_of_lookup hlookup)
  | poll revents result =>
      simp only [runJob] at h
      split at h
      all_goals
        obtain rfl := Option.some.inj h
        exact ht
  | replicaStart fd =>
      simp only [runJob] at h
      split at h
      · cases h
      · next hopen =>
          obtain rfl := Option.some.inj h
          exact ht.create (Bool.eq_false_iff.mpr hopen) (ht.wired.create
            (Bool.eq_false_iff.mpr hopen) false C.build (fun _ _ => rfl) (by simp))
  | next answers => cases h
  | talk id talker => cases h

/-- **One step** keeps all handlers attended, by cases on the jobs and on the place in the loop
of the poller; each of them touches one handler at most. -/
theorem tended_step (C : TalkerClass T) {a : LoopAction T} (ht : Tended s.network)
    (ha : a.Clean) (hstep : step C s a = some s') : Tended s'.network := by
  have hjob : ∀ a, a.Clean → (if s.control = .idle then runJob C s.network a else none) = some s' →
      Tended s'.network := by
    intro a ha hrun
    split at hrun
    · exact runJob_tended C ht ha hrun
    · cases hrun
  rcases s with ⟨n, control⟩
  cases a with
  | next answers =>
      cases control with
      | scan rest left =>
          obtain rfl := Option.some.inj hstep
          exact ht
      | body fd signal revents type rest left =>
          obtain rfl := Option.some.inj hstep
          rw [network_finish]
          exact checkBit_tended C ht ha fd signal revents type
      | idle => cases hstep
      | ended => cases hstep
      | removed what => cases hstep
  | talk id talker =>
      obtain ⟨handler, hlookup, rfl⟩ := Option.map_eq_some_iff.mp hstep
      exact ht.setHandler hlookup rfl rfl
  | onetime stray => exact hjob _ ha hstep
  | repeated k writes => exact hjob _ ha hstep
  | poll revents result => exact hjob _ ha hstep
  | replicaStart fd => exact hjob _ ha hstep

theorem tended_start (serverFd : Nat) (stray : PollBits) :
    Tended (start (T := T) serverFd stray).network := by
  refine ⟨(safe_start serverFd stray).wired, ⟨.ofTypes stray [.readyToRead], ?_, ?_⟩,
    List.nodup_nil, fun id h hlookup => ?_⟩
  · simp only [start, Poller.kept_addFd, Function.update_self]
  · exact PollBits.has_or_self stray PollBits.pollIn (by decide)
  · cases hlookup

/-- **No connection is left unattended**, whatever happens in whatever order: the socket that
listens is polled, and every handler that is open either waits for its start with nothing to
write, or has its job and is polled for writing exactly while there is something to write. -/
theorem attended_of_reachable (C : TalkerClass T) (serverFd : Nat) (stray : PollBits)
    (hs : (machine C serverFd stray).Reachable WritesClean s) :
    Listens s.network ∧ s.network.starts.Nodup ∧
      ∀ id h, s.network.objects.lookup id = some h → Attended s.network id h := by
  have htended : Tended s.network := hs.invariant (tended_start serverFd stray)
    fun _ _ _ _ ht ha hstep => tended_step C ht ha hstep
  exact ⟨htended.listens, htended.once, htended.attended⟩

/-- A client connects and sends a PING; its event comes with what `::write` answers. -/
def pings (written : Written) : List (LoopAction Unit) :=
  connects ++ [.poll [0, PollBits.pollIn] 1, .next {}, .next {}, .next {}, .next {}, .next {},
    .next { received := ⟨[ascii "*1\r\n$4\r\nPING\r\n"], .again⟩, writes := [⟨[written], 0⟩] }]

/-- The kernel takes four bytes of the answer. -/
theorem attended_of_reachable_pings :
    let run := (machine pongClass 3 0).run WritesClean (start 3 0) (pings (.transferred 4))
    ∃ h : run.isSome, Listens (run.get h).network ∧ (run.get h).network.starts.Nodup ∧
      ∀ id handler, (run.get h).network.objects.lookup id = some handler →
        Attended (run.get h).network id handler := by
  intro run
  have h : run.isSome := by decide +kernel
  exact ⟨h, attended_of_reachable pongClass 3 0 (Machine.reachable_of_run h)⟩

/-- When the write fails, the answer stays in the buffer and nobody polls for it. -/
example : ((machine pongClass 3 0).run Anything (start 3 0) (pings .failed)).map (fun s =>
    (s.control, (s.network.objects.lookup 0).map Handler.writeBuffer,
      (s.network.poller.kept 5).map fun kept => kept.2.1)) =
      some (.idle, some (ascii "+PONG\r\n"), some PollBits.pollIn) := by
  decide +kernel

end Loop

end BuildYourOwnRedis
