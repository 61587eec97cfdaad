/-
  Net/Registrations.lean --- the poll set mirrors the registrations.

  A registry is what the calls of `add_fd` and `remove_fd` say: a function that gives each
  descriptor what it was registered with last.  The poller keeps it in two structures that
  a stored index links, with positions that are given up and never used again.  Each call
  changes what the poller keeps of one descriptor and of no other, whatever the positions.
-/
import BuildYourOwnRedis.Net.Poller

set_option autoImplicit false

namespace BuildYourOwnRedis

/-! ## Calls and registrations -/

/-- What a descriptor is registered with: the types of events, and the signal that is called
for them. -/
structure Registration where
  types : List PollEventType
  signal : EventSignal
  deriving DecidableEq, Repr

namespace Registration

/-- `events` and `flags` of a registration, when the bits that nothing sets are 0. -/
def bits (r : Registration) : PollBits := PollBits.ofTypes 0 r.types

end Registration

/-- A call of one of the two slots of a poller.  The calls come in any order, and for
descriptors that are registered or not. -/
inductive PollCall where
  | addFd (fd : Nat) (types : List PollEventType) (signal : EventSignal)
  | removeFd (fd : Nat)
  deriving DecidableEq, Repr

namespace PollCall

/-- The descriptor of a call. -/
def fd : PollCall → Nat
  | .addFd fd _ _ => fd
  | .removeFd fd => fd

/-- What the descriptor of a call is registered with afterwards. -/
def registration : PollCall → Option Registration
  | .addFd _ types signal => some ⟨types, signal⟩
  | .removeFd _ => none

/-- What a descriptor is registered with after these calls: the last one that names it
decides. -/
def registered (calls : List PollCall) (fd : Nat) : Option Registration :=
  (calls.reverse.find? fun c => c.fd = fd).bind registration

theorem registered_append (calls : List PollCall) (c : PollCall) :
    registered (calls ++ [c]) = Function.update (registered calls) c.fd c.registration := by
  funext fd
  rw [registered, List.reverse_append, List.reverse_singleton, List.singleton_append,
    List.find?_cons]
  by_cases h : c.fd = fd
  · subst h
    simp
  · rw [Function.update_of_ne (Ne.symm h)]
    simp [h, registered]

end PollCall

namespace Poller

/-- A call; `flags` is taken for 0 before its bits are set. -/
def call (p : Poller) : PollCall → Poller
  | .addFd fd types signal => p.addFd 0 fd types signal
  | .removeFd fd => p.removeFd fd

/-- A new poller behind these calls. -/
def calls (cs : List PollCall) : Poller := cs.foldl call empty

theorem calls_append (cs : List PollCall) (c : PollCall) :
    calls (cs ++ [c]) = (calls cs).call c := by
  rw [calls, List.foldl_append]
  rfl

/-! ## The two structures agree -/

variable {p : Poller} {fd fd' : Nat} {handler handler' : SocketEventHandler}

/-- The position of a handler is that of an entry with its descriptor. -/
theorem exists_entry (h : p.handlers.lookup fd = some handler) :
    ∃ events, p.fds[handler.posInFds]? = some ⟨some fd, events⟩ := by
  have hbind := (p.agree handler.posInFds fd).mpr (by rw [h]; rfl)
  obtain ⟨⟨fd₀, events⟩, hentry, hfd⟩ := Option.bind_eq_some_iff.mp hbind
  obtain rfl : fd₀ = some fd := hfd
  exact ⟨events, hentry⟩

/-- An entry with a descriptor is at the position of its handler. -/
theorem exists_handler {i : Nat} {entry : PollFd} (hentry : p.fds[i]? = some entry)
    (hfd : entry.fd = some fd) :
    ∃ handler, p.handlers.lookup fd = some handler ∧ handler.posInFds = i := by
  have hpos := (p.agree i fd).mp (by rw [hentry]; exact hfd)
  exact Option.map_eq_some_iff.mp hpos

/-- Two handlers at one position are of one descriptor. -/
theorem fd_of_posInFds (h : p.handlers.lookup fd = some handler)
    (h' : p.handlers.lookup fd' = some handler') (hpos : handler.posInFds = handler'.posInFds) :
    fd = fd' := by
  obtain ⟨events, hentry⟩ := exists_entry h
  obtain ⟨events', hentry'⟩ := exists_entry h'
  rw [hpos, hentry'] at hentry
  exact (Option.some.inj (congrArg PollFd.fd (Option.some.inj hentry))).symm

/-- A change at the position of one descriptor is none at that of another. -/
theorem getElem?_modify_other (h : p.handlers.lookup fd = some handler)
    (h' : p.handlers.lookup fd' = some handler') (hne : fd' ≠ fd) (change : PollFd → PollFd) :
    (p.fds.modify handler.posInFds change)[handler'.posInFds]? = p.fds[handler'.posInFds]? :=
  List.getElem?_modify_ne _ _ fun hpos => hne (fd_of_posInFds h h' hpos).symm

/-! ## What is kept of a descriptor -/

/-- The entry, the flags and the signal that a poller keeps of a descriptor. -/
def kept (p : Poller) (fd : Nat) : Option (PollFd × PollBits × EventSignal) :=
  (p.handlers.lookup fd).bind fun handler =>
    p.fds[handler.posInFds]?.map fun entry => (entry, handler.flags, handler.signal)

/-- A handler that stays, at an entry that stays. -/
theorem kept_congr {q : Poller} (hlookup : q.handlers.lookup fd = p.handlers.lookup fd)
    (hfds : ∀ handler, p.handlers.lookup fd = some handler →
      q.fds[handler.posInFds]? = p.fds[handler.posInFds]?) : q.kept fd = p.kept fd := by
  rw [kept, kept, hlookup]
  refine Option.bind_congr fun handler h => ?_
  rw [hfds handler h]

theorem kept_addFd (stray : PollBits) (fd : Nat) (types : List PollEventType)
    (signal : EventSignal) (p : Poller) :
    (p.addFd stray fd types signal).kept = Function.update p.kept fd
      (some (⟨some fd, .ofTypes stray types⟩, .ofTypes stray types, signal)) := by
  funext fd'
  unfold addFd
  rcases eq_or_ne fd' fd with rfl | hne
  · rw [Function.update_self]
    split
    · simp [kept, pushFd]
    · next handler hknown =>
        obtain ⟨events, hentry⟩ := exists_entry hknown
        simp [kept, changeFd, hentry]
  · rw [Function.update_of_ne hne]
    split
    · refine kept_congr (AList.lookup_insert_ne hne) fun handler' h' => ?_
      obtain ⟨events, hentry⟩ := exists_entry h'
      exact List.getElem?_append_left (List.getElem?_eq_some_iff.mp hentry).1
    · next handler hknown =>
        exact kept_congr (AList.lookup_insert_ne hne)
          fun handler' h' => getElem?_modify_other hknown h' hne _

theorem kept_removeFd (fd : Nat) (p : Poller) :
    (p.removeFd fd).kept = Function.update p.kept fd none := by
  funext fd'
  unfold removeFd
  rcases eq_or_ne fd' fd with rfl | hne
  · rw [Function.update_self]
    split
    · next hnone => simp [kept, hnone]
    · simp [kept, dropFd]
  · rw [Function.update_of_ne hne]
    split
    · rfl
    · next handler hknown =>
        exact kept_congr (AList.lookup_erase_ne hne)
          fun handler' h' => getElem?_modify_other hknown h' hne _

/-- The poller keeps what the calls say. -/
theorem kept_calls (cs : List PollCall) (fd : Nat) :
    (calls cs).kept fd = (PollCall.registered cs fd).map
      fun r => (⟨some fd, r.bits⟩, r.bits, r.signal) := by
  induction cs using List.reverseRecOn generalizing fd with
  | nil => rfl
  | append_singleton cs c ih =>
      rw [calls_append, PollCall.registered_append]
      cases c with
      | addFd fd₀ types signal =>
          rw [call, kept_addFd]
          rcases eq_or_ne fd fd₀ with rfl | hne
          · simp [PollCall.fd, PollCall.registration, Registration.bits]
          · rw [Function.update_of_ne hne, PollCall.fd, Function.update_of_ne hne, ih]
      | removeFd fd₀ =>
          rw [call, kept_removeFd]
          rcases eq_or_ne fd fd₀ with rfl | hne
          · simp [PollCall.fd, PollCall.registration]
          · rw [Function.update_of_ne hne, PollCall.fd, Function.update_of_ne hne, ih]

/-! ## The poll set -/

/-- The poll set is that of a registry, which knows of each descriptor only what it is
registered with.  This is what the two structures of the poller and its positions are for. -/
structure Mirrors (p : Poller) (registered : Nat → Option Registration) : Prop where
  /-- one entry for a registered descriptor, where its handler says, and both as registered -/
  entry : ∀ fd r, registered fd = some r → ∃ i,
    p.handlers.lookup fd = some ⟨r.bits, r.signal, i⟩ ∧ p.fds[i]? = some ⟨some fd, r.bits⟩ ∧
    ∀ j entry, p.fds[j]? = some entry → entry.fd = some fd → j = i
  /-- no handler for any other -/
  unknown : ∀ fd, registered fd = none → p.handlers.lookup fd = none
  /-- an entry that no handler points to is ignored -/
  ignored : ∀ i entry, p.fds[i]? = some entry →
    (∀ fd handler, p.handlers.lookup fd = some handler → handler.posInFds ≠ i) → entry.fd = none
  /-- no two handlers point to one entry -/
  apart : ∀ fd fd' handler handler', p.handlers.lookup fd = some handler →
    p.handlers.lookup fd' = some handler' → fd ≠ fd' → handler.posInFds ≠ handler'.posInFds

theorem lookup_eq_none_of_kept (h : p.kept fd = none) : p.handlers.lookup fd = none := by
  cases hlookup : p.handlers.lookup fd with
  | none => rfl
  | some handler =>
      obtain ⟨events, hentry⟩ := exists_entry hlookup
      simp [kept, hlookup, hentry] at h

/-- **The poll set mirrors the registrations**, whatever was added, changed, removed and added
again before.  No sequence of calls is excluded: a descriptor may be removed that was never
added. -/
theorem calls_mirrors (cs : List PollCall) : (calls cs).Mirrors (PollCall.registered cs) where
  entry fd r hr := by
    have hkept := kept_calls cs fd
    rw [hr, Option.map_some] at hkept
    obtain ⟨⟨flags, signal, i⟩, hlookup, hmap⟩ := Option.bind_eq_some_iff.mp hkept
    obtain ⟨entry, hentry, heq⟩ := Option.map_eq_some_iff.mp hmap
    simp only [Prod.mk.injEq] at heq
    obtain ⟨rfl, rfl, rfl⟩ := heq
    refine ⟨i, hlookup, hentry, fun j other hother hfd => ?_⟩
    obtain ⟨handler', hlookup', hpos⟩ := exists_handler hother hfd
    rw [hlookup] at hlookup'
    obtain rfl := Option.some.inj hlookup'
    exact hpos.symm
  unknown fd hr := by
    apply lookup_eq_none_of_kept
    rw [kept_calls, hr]
    rfl
  ignored i entry hentry hnone := by
    cases hfd : entry.fd with
    | none => rfl
    | some fd =>
        obtain ⟨handler, hlookup, hpos⟩ := exists_handler hentry hfd
        exact absurd hpos (hnone fd handler hlookup)
  apart fd fd' handler handler' h h' hne := fun hpos => hne (fd_of_posInFds h h' hpos)

/-- A descriptor that comes back gets a position of its own. -/
example : (calls [.addFd 5 [.readyToRead] (.handler 0), .addFd 7 [.readyToRead] (.handler 1),
    .removeFd 5, .addFd 5 [.readyToWrite] (.handler 2)]).fds =
      [⟨none, .pollIn⟩, ⟨some 7, .pollIn⟩, ⟨some 5, .pollOut⟩] := by
  decide

end Poller

end BuildYourOwnRedis
