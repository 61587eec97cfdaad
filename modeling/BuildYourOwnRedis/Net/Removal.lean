/-
  Net/Removal.lean --- when a connection that has been removed is used again.

  `Handler::close` runs inside the event that the poller has sent, and the poller goes on
  with a reference to the entry that has been erased.  What closes a handler in another way
  does not come back to it.
-/
import BuildYourOwnRedis.Net.Dispatch
import BuildYourOwnRedis.Net.Wiring

set_option autoImplicit false

namespace BuildYourOwnRedis

open Foundation

namespace Network

variable {T : Type} {n : Network T} {id fd : Nat}

/-! ## Events -/

/-- `Handler::process_read` of a handler that is registered, unless it reads the end of the
stream or `ECONNRESET`. -/
theorem processRead_registered (C : TalkerClass T) (received : Received)
    (calls : List WriteCall) {h : Handler T} (hlookup : n.objects.lookup id = some h)
    (hreg : Registered id h n) (hreset : (h.receive C received).2 ≠ .error .connReset) :
    EndsIn C id n (processRead C received calls id n) (h.closesOnRead C received calls) := by
  have hlink := Handler.link_receive C received h
  simp only [processRead, onHandler, hlookup, Handler.closesOnRead]
  rcases hreceive : h.receive C received with ⟨h₁, (_ | _) | ⟨⟩⟩
  · rw [hreceive] at hreset
    exact absurd rfl hreset
  all_goals
    rw [hreceive] at hlink
    have hsame : Same n (n.setHandler id h₁) :=
      same_setHandler ((link_of_lookup hlookup).trans (congrArg some hlink.symm))
  · exact ⟨_, _, rfl, hsame, .inr rfl⟩
  · have hwrite := processWriteLoop_registered C h₁.sayFuel calls (lookup_setHandler h₁)
      (hreg.same hsame hlink)
    simp only [processWrite, onHandler, lookup_setHandler]
    exact hwrite.of_same hsame

/-- Whose events come in: the server, or a handler that has this descriptor. -/
theorem Wired.lookup_owner (hw : Wired n) (howner : n.poller.owner fd = some (.handler id)) :
    ∃ h, n.objects.lookup id = some h ∧ h.fd = some fd := by
  obtain ⟨m, hlink⟩ := hw.owned fd id howner
  obtain ⟨h, hlookup, -, hfd⟩ := link_eq_some hlink
  exact ⟨h, hlookup, hfd⟩

/-- What an event may do to the wiring: where it returns, the poller is as before.  So the loop
over the set can go on with the position behind it. -/
structure Undisturbed (n : Network T) (result : Network T × Ending) : Prop where
  wired : Wired result.1
  present : ∀ what, result.2 ≠ .removed what
  kept : result.2 = .returned →
    result.1.poller.owner = n.poller.owner ∧ result.1.poller.watched = n.poller.watched

theorem Undisturbed.of_same {result : Network T × Ending} (hw : Wired n)
    (hsame : Same n result.1) (hpresent : ∀ what, result.2 ≠ .removed what) :
    Undisturbed n result :=
  ⟨hw.same hsame, hpresent, fun _ => ⟨hsame.owner, hsame.watched⟩⟩

theorem Undisturbed.of_endsIn {C : TalkerClass T} {result : Network T × Ending} (hw : Wired n)
    (h : EndsIn C id n result false) : Undisturbed n result := by
  obtain ⟨n', ending, rfl, hsame, rfl | rfl⟩ := h
  · exact .of_same hw hsame fun _ => nofun
  · exact .of_same hw hsame fun _ => nofun

end Network

namespace Loop

variable {T : Type} {n : Network T} {fd : Nat} {signal : EventSignal}

open Network

/-- The reference to an entry is good while the descriptor has the owner. -/
theorem held_of_owner (h : n.poller.owner fd = some signal) :
    ∃ entry, n.poller.handlers.lookup fd = some entry ∧ entry.signal = signal ∧
      n.poller.held fd signal = some entry := by
  obtain ⟨entry, hentry, hsignal⟩ := Option.map_eq_some_iff.mp h
  exact ⟨entry, hentry, hsignal, by simp [Poller.held, hentry, hsignal]⟩

/-- And no longer. -/
theorem held_of_gone (h : n.poller.owner fd = none) : n.poller.held fd signal = none := by
  have hentry := Option.map_eq_none_iff.mp h
  simp [Poller.held, hentry]

/-- **One bit.**  Unless the event closes the handler and returns, the wiring holds behind it
and the poller is as before. -/
theorem checkBit_undisturbed (C : TalkerClass T) (answers : Answers) (revents : PollBits)
    (type : PollEventType) (hw : Wired n) (howner : n.poller.owner fd = some signal)
    (hopen : ∀ id, signal = .handler id →
      closesInLoop C answers fd id revents type n = false) :
    Undisturbed n (checkBit C answers fd signal revents type n) := by
  have hnothing : Undisturbed n (n, Ending.returned) := .of_same hw (.refl n) fun _ => nofun
  obtain ⟨entry, hentry, hsignal, hheld⟩ := held_of_owner howner
  unfold checkBit
  split
  swap
  · exact hnothing
  rw [hheld]
  simp only
  split
  swap
  · exact hnothing
  next hset =>
  rw [hsignal]
  cases signal with
  | server =>
      simp only [emit, serverEvent]
      split
      · have haccept := acceptAll_wired C answers.accepted hw
        refine ⟨haccept.1, fun what => ?_, fun _ => ?_⟩
        · rw [haccept.2.2]
          nofun
        · rw [haccept.2.1]
          exact ⟨rfl, rfl⟩
      · exact .of_same hw (.refl n) fun _ => nofun
  | handler id =>
      have hstays := hopen id rfl
      obtain ⟨h, hlookup, hfd⟩ := hw.lookup_owner howner
      simp only [emit, handlerEvent, onHandler, hlookup, hfd]
      obtain ⟨nc, hclose, hclosed⟩ := close_open C hw hlookup hfd
      have hlink : n.link id = some (h.managed, some fd) := hfd ▸ link_of_lookup hlookup
      have hreg : Registered id h n :=
        fun fd' hfd' => Option.some.inj (hfd.symm.trans hfd') ▸ howner
      cases type with
      | readyToRead =>
          simp only [PollEventType.asksFlags, PollEventType.mask, Bool.not_true, Bool.false_or,
            Bool.and_eq_true] at hset
          simp only [closesInLoop, hset.1, hset.2, hentry, hlookup, Option.any_some,
            Bool.true_and] at hstays
          have hreset : (h.receive C answers.received).2 ≠ .error .connReset := by
            intro heq
            unfold Handler.closesOnRead at hstays
            rcases hreceive : h.receive C answers.received with ⟨h₁, result⟩
            rw [hreceive] at heq hstays
            simp only at heq
            rw [heq] at hstays
            cases hstays
          have hread := processRead_registered C answers.received answers.writes hlookup hreg
            hreset
          rw [hstays] at hread
          exact .of_endsIn hw hread
      | readyToWrite =>
          obtain ⟨n', hwrite, hsame, -⟩ := write_registered hlookup hreg
            (answers.writes.headD {})
          simp only [hwrite]
          refine .of_same hw hsame fun what => ?_
          simp only [writeEnding]
          split <;> nofun
      | hangUp =>
          simp only [PollEventType.asksFlags, PollEventType.mask, Bool.not_false, Bool.true_or,
            Bool.true_and] at hset
          simp only [closesInLoop, hset] at hstays
          cases hstays
      | error =>
          simp only [hclose]
          exact ⟨hw.closed hlink hclosed, fun _ => nofun, nofun⟩
      | invalidFD =>
          simp only [hclose]
          exact ⟨hw.closed hlink hclosed, fun _ => nofun, nofun⟩

/-! ## Runs -/

/-- The positions with events are polled for a descriptor.  `poll` gives no events for an entry
that it ignores. -/
def Watches (p : Poller) (rest : List (Nat × PollBits)) : Prop :=
  ∀ position ∈ rest, 0 < position.2.toInt → (p.watched position.1).isSome

/-- What holds where the event loop is: the positions to come have descriptors, and the entry
that the body refers to is still registered. -/
def Sound (p : Poller) : Control → Prop
  | .idle => True
  | .scan rest _ => Watches p rest
  | .body fd signal _ _ rest _ => p.owner fd = some signal ∧ Watches p rest
  | .ended => True
  | .removed _ => False

/-- The invariant of a run: the wiring is right, and the loop over the set holds nothing that
has been removed. -/
structure Safe (s : Loop T) : Prop where
  wired : Wired s.network
  sound : Sound s.network.poller s.control

theorem Sound.congr {p p' : Poller} {control : Control} (h : Sound p control)
    (howner : p'.owner = p.owner) (hwatched : p'.watched = p.watched) : Sound p' control := by
  cases control with
  | scan rest left =>
      unfold Sound Watches at h ⊢
      rwa [hwatched]
  | body fd signal revents type rest left =>
      unfold Sound Watches at h ⊢
      rwa [howner, hwatched]
  | idle => exact h
  | ended => exact h
  | removed what => exact h

/-- An idle loop asks nothing of the poller. -/
theorem Safe.idle (hw : Wired n) : Safe ⟨n, .idle⟩ := ⟨hw, trivial⟩

theorem safe_start (serverFd : Nat) (stray : PollBits) :
    Safe (start serverFd stray : Loop T) := by
  refine .idle ⟨?_, ?_, ?_, ?_, ?_, ?_, ?_, ?_, ?_⟩
  · intro fd
    simp only [Poller.owner_addFd]
    rcases eq_or_ne fd serverFd with rfl | hne
    · simp
    · simp [Poller.owner, Poller.empty, hne]
  · intro fd id h
    simp only [Poller.owner_addFd] at h
    rcases eq_or_ne fd serverFd with rfl | hne
    · simp at h
    · simp [Poller.owner, Poller.empty, hne] at h
  all_goals intros; simp_all [Network.link]

/-- A call that leaves the poller alone, and the place behind it. -/
theorem safe_finish {result : Network T × Ending} {onwards : Control}
    (h : Undisturbed n result) (honwards : Sound n.poller onwards) :
    Safe (finish onwards result) := by
  rcases result with ⟨n', _ | (_ | _) | what⟩
  · exact ⟨h.wired, honwards.congr (h.kept rfl).1 (h.kept rfl).2⟩
  · exact ⟨h.wired, trivial⟩
  · exact ⟨h.wired, trivial⟩
  · exact absurd rfl (h.present what)

/-- `poll` reports nothing for the positions that it ignores. -/
theorem watches_polled (revents : List PollBits) (p : Poller) :
    Watches p (p.polled revents) := by
  intro position hmem hpos
  obtain ⟨i, -, rfl⟩ := List.mem_map.mp hmem
  by_contra hnone
  rw [if_neg hnone] at hpos
  simp at hpos

theorem sound_afterBody {p : Poller} {rest : List (Nat × PollBits)} (h : Watches p rest)
    (left : Int) : Sound p (afterBody rest left) := by
  unfold afterBody
  split
  · trivial
  · exact h

/-- **Every descriptor that is looked up is registered.**  The loop looks one up where a
position has events, and such a position is polled for a descriptor. -/
theorem sound_enter {p : Poller} {rest : List (Nat × PollBits)} (h : Watches p rest)
    (left : Int) : Sound p (enter p rest left) := by
  match rest with
  | [] => trivial
  | (i, revents) :: rest =>
      have hrest : Watches p rest := fun position hmem =>
        h position (List.mem_cons_of_mem _ hmem)
      simp only [enter]
      split
      · next hpos =>
          obtain ⟨fd, hfd⟩ := Option.isSome_iff_exists.mp (h _ List.mem_cons_self hpos)
          obtain ⟨entry, hentry⟩ := Poller.exists_lookup_of_watched hfd
          simp only [hfd, hentry]
          exact ⟨by rw [Poller.owner, hentry]; rfl, hrest⟩
      · exact sound_afterBody hrest left

/-- A job between two rounds of the loop over `_fds` may close its handler. -/
theorem safe_runJob (C : TalkerClass T) (hw : Wired n) {a : LoopAction T} {s : Loop T}
    (h : runJob C n a = some s) : Safe s := by
  cases a with
  | onetime stray =>
      simp only [runJob] at h
      split at h
      · cases h
      · next job jobs hjobs =>
          -- the others stay
          have hw₁ : Wired { n with onetime := jobs } :=
            ⟨hw.server, hw.owned, hw.fresh, hw.isOpen, hw.kept, hw.apart, hw.notServer,
              fun job' hjob' => hw.alive job' (by
                rw [hjobs]
                exact List.mem_cons_of_mem _ hjob'), hw.started⟩
          split at h
          · next hvalid =>
              have hthere := hw.alive job (by rw [hjobs]; exact List.mem_cons_self) hvalid
              obtain ⟨handler, hlookup⟩ := Option.isSome_iff_exists.mp
                (Option.isSome_map.symm.trans hthere)
              have hstart := startHandler_wired hw₁ hlookup stray
              obtain rfl := Option.some.inj h
              rcases hresult : startHandler stray job.handler { n with onetime := jobs } with
                ⟨n₁, ending⟩
              rw [hresult] at hstart
              obtain ⟨hw₂, rfl⟩ := hstart
              exact .idle hw₂
          · obtain rfl := Option.some.inj h
            exact .idle hw₁
  | repeated k writes =>
      obtain ⟨job, hjob, rfl⟩ := Option.map_eq_some_iff.mp h
      have hmem := List.mem_of_getElem? hjob
      split
      swap
      · exact .idle hw
      next hvalid =>
      have hthere := hw.alive job (List.mem_append_right _ hmem) hvalid
      obtain ⟨handler, hlookup⟩ := Option.isSome_iff_exists.mp
        (Option.isSome_map.symm.trans hthere)
      have hwrite := processWriteLoop_registered C handler.sayFuel writes hlookup
        fun fd hfd => hw.started job hmem hvalid handler.managed fd
          (hfd ▸ link_of_lookup hlookup)
      simp only [processWrite, onHandler, hlookup]
      cases hgives : handler.givesUp handler.sayFuel writes with
      | false =>
          rw [hgives] at hwrite
          exact safe_finish (.of_endsIn hw hwrite) trivial
      | true =>
          rw [hgives] at hwrite
          obtain ⟨n₁, h₁, heq, hsame, hlookup₁⟩ := hwrite
          obtain ⟨n₂, hclose, hw₂⟩ := close_wired C (hw.same hsame) hlookup₁
          rw [heq, hclose]
          exact .idle hw₂
  | poll revents result =>
      simp only [runJob] at h
      split at h
      all_goals obtain rfl := Option.some.inj h
      · exact .idle hw
      · exact ⟨hw, watches_polled revents n.poller⟩
  | replicaStart fd =>
      simp only [runJob] at h
      split at h
      · cases h
      · next hopen =>
          obtain rfl := Option.some.inj h
          exact .idle (hw.create (Bool.eq_false_iff.mpr hopen) false C.build
            (fun _ _ => rfl) (by simp))
  | next answers => cases h
  | talk id talker => cases h

/-- **One step** keeps the wiring right, unless an event closes a handler and returns to the
loop, which still refers to its entry. -/
theorem safe_step (C : TalkerClass T) {s s' : Loop T} {a : LoopAction T} (h : Safe s)
    (hopen : StaysOpen C s a) (hstep : step C s a = some s') : Safe s' := by
  have hjob : ∀ a, (if s.control = .idle then runJob C s.network a else none) = some s' →
      Safe s' := by
    intro a hrun
    split at hrun
    · exact safe_runJob C h.wired hrun
    · cases hrun
  rcases s with ⟨n, control⟩
  cases a with
  | next answers =>
      have hsound := h.sound
      cases control with
      | scan rest left =>
          obtain rfl := Option.some.inj hstep
          exact ⟨h.wired, sound_enter hsound left⟩
      | body fd signal revents type rest left =>
          obtain rfl := Option.some.inj hstep
          refine safe_finish (checkBit_undisturbed C answers revents type h.wired hsound.1 ?_) ?_
          · rintro id rfl
            exact hopen
          · unfold afterBit
            split
            · exact hsound
            · exact sound_afterBody hsound.2 left
      | idle => cases hstep
      | ended => cases hstep
      | removed what => cases hstep
  | talk id talker =>
      obtain ⟨handler, hlookup, rfl⟩ := Option.map_eq_some_iff.mp hstep
      have hlink : n.link id = some (handler.managed, handler.fd) := link_of_lookup hlookup
      have hsame : Same n (n.setHandler id { handler with talker := talker }) :=
        same_setHandler hlink
      exact ⟨h.wired.same hsame, h.sound.congr hsame.owner hsame.watched⟩
  | onetime stray => exact hjob _ hstep
  | repeated k writes => exact hjob _ hstep
  | poll revents result => exact hjob _ hstep
  | replicaStart fd => exact hjob _ hstep

/-! ## The other steps -/

/-- An event that closes a handler of the manager and returns: the handler is used at once,
or the entry of its descriptor is gone. -/
theorem checkBit_closes (C : TalkerClass T) (answers : Answers) {id : Nat}
    {revents : PollBits} {type : PollEventType} (hw : Wired n)
    (howner : n.poller.owner fd = some (.handler id)) (hlink : n.link id = some (true, some fd))
    (hcloses : closesInLoop C answers fd id revents type n = true) :
    ∃ n' ending, checkBit C answers fd (.handler id) revents type n = (n', ending) ∧
      ((∃ what, ending = .removed what) ∨
        ending = .returned ∧ n'.poller.owner fd = none) := by
  obtain ⟨entry, hentry, hsignal, hheld⟩ := held_of_owner howner
  obtain ⟨h, hlookup, hmanaged, hfd⟩ := link_eq_some hlink
  cases type with
  | hangUp =>
      obtain ⟨nc, hclose, hclosed⟩ := close_open C hw hlookup hfd
      refine ⟨nc, .returned, ?_, .inr ⟨rfl, by rw [hclosed.owner, Function.update_self]⟩⟩
      simp only [closesInLoop] at hcloses
      simp [checkBit, PollEventType.asksFlags, PollEventType.mask, hcloses, hheld, hsignal,
        emit, handlerEvent, onHandler, hlookup, hfd, hclose]
  | readyToRead =>
      simp only [closesInLoop, hentry, hlookup, Option.any_some, Bool.and_eq_true] at hcloses
      obtain ⟨⟨hbit, hflags⟩, hreads⟩ := hcloses
      have hcheck : checkBit C answers fd (.handler id) revents .readyToRead n =
          processRead C answers.received answers.writes id n := by
        simp [checkBit, PollEventType.asksFlags, PollEventType.mask, hbit, hflags, hheld,
          hsignal, emit, handlerEvent, onHandler, hlookup, hfd]
      rw [hcheck]
      by_cases hreset : (h.receive C answers.received).2 = .error .connReset
      · -- `process_write` runs on the handler that `close` has destroyed
        have hlink' := Handler.link_receive C answers.received h
        rcases hreceive : h.receive C answers.received with ⟨h₁, result⟩
        rw [hreceive] at hreset hlink'
        simp only at hreset
        have hsame : Same n (n.setHandler id h₁) :=
          same_setHandler ((link_of_lookup hlookup).trans (congrArg some hlink'.symm))
        obtain ⟨nc, hclose, hclosed⟩ := close_open C (hw.same hsame) (lookup_setHandler h₁)
          ((congrArg Prod.snd hlink').trans hfd)
        have hgone : nc.objects.lookup id = none := by
          have hmanaged₁ : h₁.managed = true := (congrArg Prod.fst hlink').trans hmanaged
          have hnone := congrFun hclosed.link id
          rw [Function.update_self, hmanaged₁] at hnone
          exact Option.map_eq_none_iff.mp hnone
        refine ⟨nc, .removed (.handler id), ?_, .inl ⟨_, rfl⟩⟩
        simp only [processRead, onHandler, hlookup, hreceive, hreset, hclose, processWrite,
          hgone]
      · have hreg : Registered id h n := fun fd' hfd' =>
          Option.some.inj (hfd.symm.trans hfd') ▸ howner
        have hread := processRead_registered C answers.received answers.writes hlookup hreg
          hreset
        rw [hreads] at hread
        obtain ⟨n₁, h₁, heq, hsame, hlookup₁⟩ := hread
        have hfd₁ : h₁.fd = some fd := by
          have := (link_of_lookup hlookup₁).symm.trans ((congrFun hsame.link id).trans hlink)
          simpa using congrArg (fun l => l.map Prod.snd) this
        obtain ⟨nc, hclose, hclosed⟩ := close_open C (hw.same hsame) hlookup₁ hfd₁
        exact ⟨nc, .returned, heq.trans hclose,
          .inr ⟨rfl, by rw [hclosed.owner, Function.update_self]⟩⟩
  | readyToWrite => cases hcloses
  | error => cases hcloses
  | invalidFD => cases hcloses

/-- The next step, or whichever step of the loop comes after it, uses what has been removed.
The second part is for a reference that dangles at once and is read one step later. -/
def UsesRemoved (C : TalkerClass T) (s : Loop T) (answers : Answers) : Prop :=
  ∃ s', step C s (.next answers) = some s' ∧
    ((∃ what, s'.control = .removed what) ∨
      ∀ answers', ∃ s'' what, step C s' (.next answers') = some s'' ∧
        s''.control = .removed what)

theorem usesRemoved_of_closes (C : TalkerClass T) {s : Loop T} (h : Safe s) {answers : Answers}
    {fd id : Nat} {revents : PollBits} {type : PollEventType} {rest : List (Nat × PollBits)}
    {left : Int} (hcontrol : s.control = .body fd (.handler id) revents type rest left)
    (hlink : s.network.link id = some (true, some fd))
    (hcloses : closesInLoop C answers fd id revents type s.network = true) :
    UsesRemoved C s answers := by
  rcases s with ⟨n, control⟩
  obtain rfl : control = _ := hcontrol
  obtain ⟨n', ending, hcheck, hending⟩ := checkBit_closes C answers h.wired h.sound.1 hlink
    hcloses
  have hstep : step C ⟨n, .body fd (.handler id) revents type rest left⟩ (.next answers) =
      some (finish (afterBit fd (.handler id) revents type rest left) (n', ending)) := by
    simp only [step, dispatch, hcheck]
  refine ⟨_, hstep, ?_⟩
  obtain ⟨what, rfl⟩ | ⟨rfl, hgone⟩ := hending
  · exact .inl ⟨what, rfl⟩
  · right
    intro answers'
    -- the flags of the entry are asked for at the next bit
    have hnext : ∃ type', type.following = some type' ∧ type'.asksFlags = true := by
      cases type with
      | hangUp => exact ⟨.readyToRead, rfl, rfl⟩
      | readyToRead => exact ⟨.readyToWrite, rfl, rfl⟩
      | readyToWrite => cases hcloses
      | error => cases hcloses
      | invalidFD => cases hcloses
    obtain ⟨type', hfollowing, hasks⟩ := hnext
    refine ⟨⟨n', .removed (.entry fd)⟩, .entry fd, ?_, rfl⟩
    simp [step, dispatch, finish, afterBit, hfollowing, checkBit, hasks, held_of_gone hgone]

/-- **A removed connection is not used again while no event closes a handler and returns to
the loop.**  In every run without such an event no step uses a handler that has been
destroyed or an entry that has been erased, and no descriptor is looked up that is not
registered.  At such an event of a handler of the manager one of them is used. -/
theorem neverUsesRemoved (C : TalkerClass T) (serverFd : Nat) (stray : PollBits) {s : Loop T}
    (h : (machine C serverFd stray).Reachable (StaysOpen C) s) :
    (∀ what, s.control ≠ .removed what) ∧
    ∀ answers fd id revents type rest left,
      s.control = .body fd (.handler id) revents type rest left →
      s.network.link id = some (true, some fd) →
      ¬ StaysOpen C s (.next answers) → UsesRemoved C s answers := by
  have hsafe : Safe s := h.invariant (safe_start serverFd stray)
    fun s a s' _ hs hopen hstep => safe_step C hs hopen hstep
  refine ⟨fun what heq => ?_, ?_⟩
  · have hsound := hsafe.sound
    rw [heq] at hsound
    exact hsound
  · intro answers fd id revents type rest left hcontrol hlink hnot
    refine usesRemoved_of_closes C hsafe hcontrol hlink ?_
    unfold StaysOpen comesBack at hnot
    rw [hcontrol] at hnot
    simpa using hnot

/-- A talker that answers every message with a PONG. -/
def pongClass : TalkerClass Unit where
  build := ⟨(), []⟩
  expected _ := .any
  listen _ talker := ({ talker with pending := talker.pending ++ [.simpleString (ascii "PONG")] },
    false)
  interrupt talker := talker

/-- A client connects; the server's socket is the one with descriptor 3. -/
def connects : List (LoopAction Unit) :=
  [.poll [PollBits.pollIn] 1, .next {}, .next {}, .next {}, .next {},
    .next { accepted := [5] }, .next {}, .onetime 0]

/-- The poller reports an error of the first client, whose handler closes and is destroyed; the
exception keeps the loop over `_fds` from coming back to it. -/
def fails : List (LoopAction Unit) :=
  [.poll [0, PollBits.pollErr] 1, .next {}, .next {}, .next {}, .next {}]

/-- A client that connects and fails, the turn of the job it leaves behind, and a second client
that gets the same descriptor, sends a PING and gets its answer. -/
theorem neverUsesRemoved_ping :
    let ping := ascii "*1\r\n$4\r\nPING\r\n"
    let run := (machine pongClass 3 0).run (StaysOpen pongClass) (start 3 0)
      (connects ++ fails ++ [.repeated 0 []] ++ connects ++
        [.poll [0, 0, PollBits.pollIn] 1, .next {}, .next {}, .next {}, .next {}, .next {},
          .next {}, .next { received := ⟨[ping], .again⟩, writes := [⟨[.transferred 7], 0⟩] }])
    ∃ h : run.isSome, (∀ what, (run.get h).control ≠ .removed what) ∧
      ∀ answers fd id revents type rest left,
        (run.get h).control = .body fd (.handler id) revents type rest left →
        (run.get h).network.link id = some (true, some fd) →
        ¬ StaysOpen pongClass (run.get h) (.next answers) →
        UsesRemoved pongClass (run.get h) answers := by
  intro ping run
  have h : run.isSome := by decide +kernel
  exact ⟨h, neverUsesRemoved pongClass 3 0 (Machine.reachable_of_run h)⟩

-- the handler 0 is gone with its entry and its job, and the handler 1 has the descriptor 5
example : ((machine pongClass 3 0).run (StaysOpen pongClass) (start 3 0)
    (connects ++ fails ++ [.repeated 0 []] ++ connects)).map
      (fun s => (s.network.link 0, s.network.link 1, s.network.repeated.map Job.valid)) =
    some (none, some (true, some 5), [false, true]) := by
  decide +kernel

/-- A client that connects and leaves: `process_read` reads the end of the stream, closes
the handler, which destroys it, and goes on to `process_write`. -/
theorem not_neverUsesRemoved :
    ¬ ∀ s, (machine pongClass 3 0).Reachable Anything s → ∀ what, s.control ≠ .removed what := by
  intro hclaim
  have hrun : ((machine pongClass 3 0).run Anything (start 3 0)
      (connects ++ [.poll [0, PollBits.pollIn] 1, .next {}, .next {}, .next {}, .next {},
        .next {}, .next { received := ⟨[], .closed⟩ }])).map (fun s => s.control) =
      some (.removed (.handler 0)) := by
    decide +kernel
  obtain ⟨s, hs, hcontrol⟩ := Option.map_eq_some_iff.mp hrun
  exact hclaim s (Machine.Reachable.run .init hs) _ hcontrol

end Loop

end BuildYourOwnRedis
