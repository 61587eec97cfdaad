/-
  Net/Poller.lean --- `poller.h` and `poller.cpp`: the descriptors that are polled, and
  whom their events are for.

  `_fds` only grows: a descriptor that is taken out leaves a position that `poll` ignores.
  `_handlers` keeps the position of each descriptor.  That the two agree is a field of the
  structure.
-/
import BuildYourOwnRedis.Utils

set_option autoImplicit false

namespace BuildYourOwnRedis

open Foundation

/-- `PollEventType`: what the poller tells the handler of a descriptor.  The events of one
`poll` come one by one, each as a call of its own. -/
inductive PollEventType where
  | readyToRead
  | readyToWrite
  | hangUp
  | error
  | invalidFD
  deriving DecidableEq, Repr

/-- The bits of `events`, `revents` and `flags`, which are `short`. -/
abbrev PollBits : Type := BitVec 16

namespace PollBits

/-- `POLLIN`. -/
def pollIn : PollBits := 0x01

/-- `POLLOUT`. -/
def pollOut : PollBits := 0x04

/-- `POLLERR`. -/
def pollErr : PollBits := 0x08

/-- `POLLHUP`. -/
def pollHup : PollBits := 0x10

/-- `POLLNVAL`. -/
def pollNval : PollBits := 0x20

/-- `bits & mask` as a condition. -/
def has (bits mask : PollBits) : Bool := bits &&& mask != 0

/-- The bits that a list of types asks for.  The variable that they are set in is not
initialized; `stray` is what stands in it. -/
def ofTypes (stray : PollBits) (types : List PollEventType) : PollBits :=
  let flags := if .readyToRead ∈ types then stray ||| pollIn else stray
  if .readyToWrite ∈ types then flags ||| pollOut else flags

end PollBits

/-- Whose signal an entry keeps: the server's for the listening socket, or that of a
handler, which has a number. -/
inductive EventSignal where
  | server
  | handler (id : Nat)
  deriving DecidableEq, Repr

/-- `pollfd`; a descriptor of -1 is `none`, and an entry with it is ignored by `poll`. -/
structure PollFd where
  fd : Option Nat
  events : PollBits
  deriving DecidableEq, Repr

/-- `Poller::SocketEventHandler`: what a descriptor is registered with, and where its entry is
in the set. -/
structure SocketEventHandler where
  flags : PollBits
  signal : EventSignal
  posInFds : Nat
  deriving DecidableEq, Repr

/-- `Poller`: the set that `poll` is given, and the handlers of the descriptors.  That the two
agree is a field, so that no operation can let them come apart. -/
structure Poller where
  fds : List PollFd
  handlers : AList fun _ : Nat => SocketEventHandler
  agree : ∀ i fd, fds[i]?.bind PollFd.fd = some fd ↔
    (handlers.lookup fd).map SocketEventHandler.posInFds = some i

namespace Poller

/-- A new poller. -/
def empty : Poller := ⟨[], ∅, by simp⟩

/-- The descriptor at a position. -/
def watched (p : Poller) (i : Nat) : Option Nat := p.fds[i]?.bind PollFd.fd

/-- Whom the events of a descriptor are for. -/
def owner (p : Poller) (fd : Nat) : Option EventSignal :=
  (p.handlers.lookup fd).map SocketEventHandler.signal

/-- `_slot_add` for a descriptor that is new. -/
def pushFd (flags : PollBits) (fd : Nat) (signal : EventSignal) (p : Poller)
    (hnew : p.handlers.lookup fd = none) : Poller where
  fds := p.fds ++ [⟨some fd, flags⟩]
  handlers := p.handlers.insert fd ⟨flags, signal, p.fds.length⟩
  agree i fd' := by
    have hold := p.agree i fd'
    rcases Nat.lt_trichotomy i p.fds.length with hlt | rfl | hgt
    · rw [List.getElem?_append_left hlt, hold]
      rcases eq_or_ne fd' fd with rfl | hne
      · simp [hnew, hlt.ne']
      · rw [AList.lookup_insert_ne hne]
    · have hnone : p.fds[p.fds.length]? = none := List.getElem?_eq_none le_rfl
      rw [hnone] at hold
      rcases eq_or_ne fd' fd with rfl | hne
      · simp
      · rw [AList.lookup_insert_ne hne, ← hold]
        simp [hne.symm]
    · have hnone : p.fds[i]? = none := List.getElem?_eq_none hgt.le
      rw [hnone] at hold
      rw [List.getElem?_eq_none (by simp only [List.length_append, List.length_singleton]; omega)]
      rcases eq_or_ne fd' fd with rfl | hne
      · simp [hgt.ne]
      · rw [AList.lookup_insert_ne hne, ← hold]

/-- `_slot_add` for a descriptor that is known. -/
def changeFd (flags : PollBits) (fd : Nat) (signal : EventSignal) (p : Poller)
    (entry : SocketEventHandler) (hknown : p.handlers.lookup fd = some entry) : Poller where
  fds := p.fds.modify entry.posInFds fun known => { known with events := flags }
  handlers := p.handlers.insert fd { entry with flags := flags, signal := signal }
  agree i fd' := by
    have hold := p.agree i fd'
    have hbind : (p.fds.modify entry.posInFds fun known =>
        { known with events := flags })[i]?.bind PollFd.fd = p.fds[i]?.bind PollFd.fd := by
      rw [List.getElem?_modify]
      cases p.fds[i]? with
      | none => rfl
      | some known =>
          simp only [Option.map_eq_map, Option.map_some, Option.bind_some]
          split <;> rfl
    rw [hbind, hold]
    rcases eq_or_ne fd' fd with rfl | hne
    · simp [hknown]
    · rw [AList.lookup_insert_ne hne]

/-- `_slot_add`.  A descriptor that is known keeps its place in the set and gets the new bits
and the new signal; `stray` is what stands in the flags before they are set. -/
def addFd (stray : PollBits) (fd : Nat) (types : List PollEventType) (signal : EventSignal)
    (p : Poller) : Poller :=
  let flags := PollBits.ofTypes stray types
  match h : p.handlers.lookup fd with
  | none => p.pushFd flags fd signal h
  | some entry => p.changeFd flags fd signal entry h

/-- `_slot_remove` for a descriptor that is known. -/
def dropFd (fd : Nat) (p : Poller) (entry : SocketEventHandler)
    (hknown : p.handlers.lookup fd = some entry) : Poller where
  fds := p.fds.modify entry.posInFds fun known => { known with fd := none }
  handlers := p.handlers.erase fd
  agree i fd' := by
    have hold := p.agree i fd'
    have hhere := p.agree entry.posInFds fd
    rw [List.getElem?_modify]
    rcases eq_or_ne i entry.posInFds with rfl | hpos
    · -- the position is given up; no other descriptor had it
      rcases eq_or_ne fd' fd with rfl | hne
      · cases p.fds[entry.posInFds]? <;> simp
      · have hother : (p.handlers.lookup fd').map SocketEventHandler.posInFds ≠
            some entry.posInFds := by
          intro heq
          have := hold.mpr heq
          rw [hhere.mpr (by rw [hknown]; rfl)] at this
          exact hne (Option.some.inj this).symm
        rw [AList.lookup_erase_ne hne]
        constructor
        · intro h
          cases hat : p.fds[entry.posInFds]? <;> simp [hat] at h
        · exact fun h => absurd h hother
    · have hsame : (fun known : PollFd => if entry.posInFds = i then
          { known with fd := none } else known) <$> p.fds[i]? = p.fds[i]? := by
        simp [hpos.symm]
      rw [hsame, hold]
      rcases eq_or_ne fd' fd with rfl | hne
      · simp [hknown, hpos.symm]
      · rw [AList.lookup_erase_ne hne]

/-- `_slot_remove`.  The entry of the descriptor stays in the set, where it is ignored from now
on; a descriptor that is not known is passed over. -/
def removeFd (fd : Nat) (p : Poller) : Poller :=
  match h : p.handlers.lookup fd with
  | none => p
  | some entry => p.dropFd fd entry h

/-! ## Who owns a descriptor -/

variable (stray : PollBits) (fd : Nat) (types : List PollEventType) (signal : EventSignal)
  (p : Poller)

theorem owner_addFd :
    (p.addFd stray fd types signal).owner = Function.update p.owner fd (some signal) := by
  funext fd'
  unfold addFd
  rcases eq_or_ne fd' fd with rfl | hne
  · rw [Function.update_self]
    split <;> simp [owner, pushFd, changeFd]
  · rw [Function.update_of_ne hne]
    split <;> simp [owner, pushFd, changeFd, AList.lookup_insert_ne hne]

theorem owner_removeFd : (p.removeFd fd).owner = Function.update p.owner fd none := by
  funext fd'
  unfold removeFd
  rcases eq_or_ne fd' fd with rfl | hne
  · rw [Function.update_self]
    split
    · next h => simp [owner, h]
    · simp [owner, dropFd]
  · rw [Function.update_of_ne hne]
    split
    · rfl
    · simp [owner, dropFd, AList.lookup_erase_ne hne]

variable {stray fd types signal p}

/-- A descriptor that is known keeps its position, and no position is appended. -/
theorem watched_addFd (h : (p.owner fd).isSome) :
    (p.addFd stray fd types signal).watched = p.watched := by
  funext i
  unfold addFd
  split
  · next hnone => simp [owner, hnone] at h
  · next entry hknown =>
      simp only [watched, changeFd, List.getElem?_modify]
      cases p.fds[i]? with
      | none => rfl
      | some known =>
          simp only [Option.map_eq_map, Option.map_some, Option.bind_some]
          split <;> rfl

/-- A descriptor that is polled has an entry. -/
theorem exists_lookup_of_watched {i : Nat} (h : p.watched i = some fd) :
    ∃ entry, p.handlers.lookup fd = some entry := by
  have hpos := (p.agree i fd).mp h
  obtain ⟨entry, hentry, -⟩ := Option.map_eq_some_iff.mp hpos
  exact ⟨entry, hentry⟩

end Poller

end BuildYourOwnRedis
