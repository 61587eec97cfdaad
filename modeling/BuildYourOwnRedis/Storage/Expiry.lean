/-
  Storage/Expiry.lean --- strings with a deadline.

  `Reference` says what a store with expiry is for: a map in which a string is absent from
  its deadline on.  A `Storage` erases an expired string when GET finds it, and at no other
  time, so the others still see it.  `Follows` relates the two: at every later time the
  same values are live in both.
-/
import BuildYourOwnRedis.Foundation.Transition
import BuildYourOwnRedis.Storage.Storage

set_option autoImplicit false

namespace BuildYourOwnRedis

open Foundation

/-- The deadline of a string is there or over. -/
def Value.isExpired (now : Timepoint) : Value → Bool
  | .string str => str.expireTime.any fun expire => now ≥ expire
  | .stream _ => false

/-- What is stored, unless it has expired. -/
def liveAt (now : Timepoint) (stored : Option Value) : Option Value :=
  stored.filter fun value => !value.isExpired now

/-- What expired stays expired. -/
theorem Value.isExpired_mono {now later : Timepoint} (hle : now ≤ later) {value : Value}
    (h : value.isExpired now = true) : value.isExpired later = true := by
  cases value with
  | stream stream => cases h
  | string str =>
      simp only [isExpired, Option.any_eq_true, decide_eq_true_eq] at h ⊢
      obtain ⟨expire, hexpire, hge⟩ := h
      exact ⟨expire, hexpire, le_trans hge hle⟩

theorem liveAt_eq_self {now : Timepoint} {stored : Option Value}
    (h : stored.any (Value.isExpired now) = false) : liveAt now stored = stored := by
  cases stored with
  | none => rfl
  | some value => simpa [liveAt, Option.filter] using h

theorem liveAt_eq_none {now : Timepoint} {stored : Option Value}
    (h : stored.any (Value.isExpired now) = true) : liveAt now stored = none := by
  cases stored with
  | none => rfl
  | some value => simpa [liveAt, Option.filter] using h

/-- Only strings expire. -/
theorem Value.string_of_isExpired {now : Timepoint} {stored : Option Value}
    (h : stored.any (Value.isExpired now) = true) : ∃ str, stored = some (.string str) := by
  obtain ⟨value, rfl, hvalue⟩ := (Option.any_eq_true _ _).mp h
  cases value with
  | string str => exact ⟨str, rfl⟩
  | stream stream => cases hvalue

/-- GET erases only what has expired: what is live from then on stays as it is. -/
theorem liveAt_get {κ : Type} {now later : Timepoint} (hle : now ≤ later) (key key' : Bytes)
    (s : Storage κ) :
    liveAt later ((s.get now key).2.values.lookup key') = liveAt later (s.values.lookup key') := by
  unfold Storage.get
  split
  · rfl
  · rfl
  · next str hlookup =>
      split
      · next hexpired =>
          by_cases hkey : key' = key
          · subst hkey
            have hthen : (some (Value.string str)).any (Value.isExpired later) = true :=
              @Value.isExpired_mono now later hle (.string str) hexpired
            rw [AList.lookup_erase, hlookup, liveAt_eq_none hthen]
            rfl
          · rw [AList.lookup_erase_ne hkey]
      · rfl

/-! ## The commands on keys -/

/-- The operations on keys and values, those that a client asks for and the one by which a dump
is loaded. -/
inductive KeyCommand where
  | restore (key value : Bytes) (expireTime : Option Timepoint)
  | set (key value : Bytes) (expireMs : Option Int)
  | get (key : Bytes)
  | xadd (key : Bytes) (inId : InputStreamId) (values : StreamPartValue)
  | type (key : Bytes)
  | keys
  deriving DecidableEq

/-- What they return. -/
inductive KeyAnswer where
  | done
  | value (data : Option Bytes)
  | added (id : Except StreamErrorType StreamId)
  | type (type : StorageType)
  | keys (keys : List Bytes)

/-- What a `Storage` does. -/
def Storage.perform {κ : Type} (now : Timepoint) (s : Storage κ) :
    KeyCommand → KeyAnswer × Storage κ
  | .restore key value expireTime => (.done, s.restore key value expireTime)
  | .set key value expireMs => (.done, s.set now key value expireMs)
  | .get key => (.value (s.get now key).1, (s.get now key).2)
  | .xadd key inId values =>
      (.added (s.xadd now key inId values).1, (s.xadd now key inId values).2)
  | .type key => (.type (s.type key), s)
  | .keys => (.keys s.keys, s)

/-! ## The reference -/

/-- A map in which a string is absent from its deadline on. -/
def Reference : Type := Bytes → Option Value

namespace Reference

/-- What is at a key now. -/
def live (now : Timepoint) (key : Bytes) (m : Reference) : Option Value := liveAt now (m key)

/-- Put a value at a key. -/
def store (key : Bytes) (value : Value) (m : Reference) : Reference :=
  fun key' => if key' = key then some value else m key'

theorem live_store (now : Timepoint) (key key' : Bytes) (value : Value) (m : Reference) :
    (m.store key value).live now key' =
      if key' = key then liveAt now (some value) else m.live now key' := by
  unfold live store
  split <;> rfl

/-- The type of what is at a key. -/
def typeOf : Option Value → StorageType
  | none => .none
  | some value => value.type

/-- The string at a key. -/
def dataOf : Option Value → Option Bytes
  | some (.string str) => some str.data
  | _ => none

/-- XADD appends to a stream, which is a new one where nothing is. -/
def append (now : Timepoint) (inId : InputStreamId) (values : StreamPartValue) :
    Option Value → Except StreamErrorType (StreamId × StreamValue)
  | none => ({} : StreamValue).append now inId values
  | some (.stream stream) => stream.append now inId values
  | some (.string _) => .error .wrongKeyType

/-- The map after a command. -/
def perform (now : Timepoint) (m : Reference) : KeyCommand → Reference
  | .restore key value expireTime =>
      m.store key (.string { data := value, expireTime := expireTime })
  | .set key value expireMs =>
      m.store key (.string
        { data := value, expireTime := expireMs.map fun ms => now + ms * 10 ^ 6 })
  | .xadd key inId values =>
      match append now inId values (m.live now key) with
      | .ok (_, stream) => m.store key (.stream stream)
      | .error _ => m
  | _ => m

/-- The answers that are right, by what is live at the time.  The order of the keys is left
open, as that of a `std::unordered_map` is. -/
def Allows (now : Timepoint) (m : Reference) : KeyCommand → KeyAnswer → Prop
  | .restore _ _ _, answer => answer = .done
  | .set _ _ _, answer => answer = .done
  | .get key, answer => answer = .value (dataOf (m.live now key))
  | .xadd key inId values, answer =>
      answer = .added ((append now inId values (m.live now key)).map Prod.fst)
  | .type key, answer => answer = .type (typeOf (m.live now key))
  | .keys, answer => ∃ keys, answer = .keys keys ∧ keys.Nodup ∧
      ∀ key, key ∈ keys ↔ (m.live now key).isSome

end Reference

/-! ## Both together -/

/-- A storage, the map it is to behave as, and the last reading of the clock.  Both get the
same commands; the map drops a string when its time is over, the storage when GET comes upon
it. -/
structure Expiring where
  storage : Storage Unit := {}
  reference : Reference := fun _ => none
  clock : Timepoint

/-- A command, and the clock when it is executed. -/
structure Timed where
  now : Timepoint
  command : KeyCommand
  deriving DecidableEq

namespace Expiring

/-- One step. -/
def step (s : Expiring) (a : Timed) : Option Expiring :=
  some {
    storage := (s.storage.perform a.now a.command).2
    reference := s.reference.perform a.now a.command
    clock := a.now }

/-- An empty storage. -/
def machine (start : Timepoint) : Machine Expiring Timed where
  init := { clock := start }
  step := step

/-- The clock does not go back. -/
def NonDecreasing (s : Expiring) (a : Timed) : Prop := s.clock ≤ a.now

/-- TYPE and XADD are not given a key, and KEYS finds none, whose string has expired and
is still stored. -/
def Fresh (s : Expiring) (a : Timed) : Prop :=
  match a.command with
  | .type key => (s.storage.values.lookup key).any (Value.isExpired a.now) = false
  | .xadd key _ _ => (s.storage.values.lookup key).any (Value.isExpired a.now) = false
  | .keys => ∀ key ∈ s.storage.values.keys,
      (s.storage.values.lookup key).any (Value.isExpired a.now) = false
  | _ => True

/-- Both: the clock does not go back, and the command does not come upon an expired string that
is still stored, unless it is one that looks at the expiry. -/
def Careful (s : Expiring) (a : Timed) : Prop := s.NonDecreasing a ∧ s.Fresh a

instance (s : Expiring) (a : Timed) : Decidable (s.NonDecreasing a) :=
  inferInstanceAs (Decidable (_ ≤ _))

instance (s : Expiring) (a : Timed) : Decidable (s.Fresh a) := by
  unfold Fresh
  split <;> infer_instance

instance (s : Expiring) (a : Timed) : Decidable (s.Careful a) :=
  inferInstanceAs (Decidable (_ ∧ _))

/-- The storage answers as the map does.  Where the map allows several answers, the one of the
storage is among them. -/
def Agrees (s : Expiring) (a : Timed) : Prop :=
  s.reference.Allows a.now a.command (s.storage.perform a.now a.command).1

/-- From now on the same values are live in the storage and in the map, at any later time,
though the storage may hold more. -/
def Follows (s : Expiring) : Prop :=
  ∀ key later, s.clock ≤ later →
    liveAt later (s.storage.values.lookup key) = s.reference.live later key

/-! ## The simulation -/

/-- A key is stored in both. -/
theorem Follows.store {s : Expiring} (hs : s.Follows) {now : Timepoint} (hclock : s.clock ≤ now)
    {storage : Storage Unit} {key : Bytes} {value : Value}
    (hvalues : storage.values = s.storage.values.insert key value) :
    Follows ⟨storage, s.reference.store key value, now⟩ := by
  intro key' later hlater
  rw [hvalues, Reference.live_store]
  split
  · next hkey => rw [hkey, AList.lookup_insert]
  · next hkey =>
      rw [AList.lookup_insert_ne hkey]
      exact hs key' later (le_trans hclock hlater)

/-- The clock goes on. -/
theorem Follows.later {s : Expiring} (hs : s.Follows) {now : Timepoint}
    (hclock : s.clock ≤ now) : Follows { s with clock := now } :=
  fun key later hlater => hs key later (le_trans hclock hlater)

theorem Follows.get {s : Expiring} (hs : s.Follows) {now : Timepoint}
    (hclock : s.clock ≤ now) (key : Bytes) :
    Follows { s with storage := (s.storage.get now key).2, clock := now } := by
  intro key' later hle
  exact (liveAt_get hle key key' s.storage).trans (hs.later hclock key' later hle)

/-- What XADD finds is what is there. -/
theorem xaddValues_eq {κ : Type} {now : Timepoint} {inId : InputStreamId}
    {values : StreamPartValue} {s : Storage κ} {key : Bytes} :
    s.xaddValues now key inId values =
      (Reference.append now inId values (s.values.lookup key)).map
        fun p => (p.1, s.values.insert key (.stream p.2)) := by
  unfold Storage.xaddValues Storage.storedStream Reference.append
  cases s.values.lookup key with
  | none =>
      simp only
      cases StreamValue.append now inId values {} <;> rfl
  | some value =>
      cases value with
      | string str => rfl
      | stream stream =>
          simp only
          cases stream.append now inId values <;> rfl

/-- XADD as an append to what is stored. -/
theorem xadd_eq {κ : Type} (now : Timepoint) (key : Bytes) (inId : InputStreamId)
    (values : StreamPartValue) (s : Storage κ) :
    (s.xadd now key inId values).1 =
      (Reference.append now inId values (s.values.lookup key)).map Prod.fst ∧
    (s.xadd now key inId values).2.values =
      match Reference.append now inId values (s.values.lookup key) with
      | .ok (_, stream) => s.values.insert key (.stream stream)
      | .error _ => s.values := by
  unfold Storage.xadd
  rw [xaddValues_eq]
  rcases Reference.append now inId values (s.values.lookup key) with e | ⟨id, stream⟩
  · exact ⟨rfl, rfl⟩
  · exact ⟨rfl, rfl⟩

theorem Follows.xadd {s : Expiring} (hs : s.Follows) {now : Timepoint}
    (hclock : s.clock ≤ now) {key : Bytes} (inId : InputStreamId) (values : StreamPartValue)
    (hfresh : (s.storage.values.lookup key).any (Value.isExpired now) = false) :
    Follows ⟨(s.storage.xadd now key inId values).2,
      s.reference.perform now (.xadd key inId values), now⟩ := by
  obtain ⟨-, hvalues⟩ := xadd_eq now key inId values s.storage
  have hat : s.reference.live now key = s.storage.values.lookup key := by
    rw [← hs key now hclock, liveAt_eq_self hfresh]
  simp only [Reference.perform, hat]
  cases happend : Reference.append now inId values (s.storage.values.lookup key) with
  | error e =>
      rw [happend] at hvalues
      intro key' later hlater
      rw [hvalues]
      exact hs key' later (le_trans hclock hlater)
  | ok p =>
      rw [happend] at hvalues
      exact hs.store hclock hvalues

theorem Follows.step {s s' : Expiring} {a : Timed} (hs : s.Follows) (hallowed : s.Careful a)
    (h : s.step a = some s') : s'.Follows := by
  obtain ⟨now, command⟩ := a
  obtain ⟨hclock, hfresh⟩ := hallowed
  obtain rfl := Option.some.inj h
  cases command with
  | restore key value expireTime => exact hs.store hclock rfl
  | set key value expireMs => exact hs.store hclock rfl
  | get key => exact hs.get hclock key
  | xadd key inId values => exact hs.xadd hclock inId values hfresh
  | type key => exact hs.later hclock
  | keys => exact hs.later hclock

/-! ## The answers -/

theorem get_eq {κ : Type} (now : Timepoint) (key : Bytes) (s : Storage κ) :
    (s.get now key).1 = Reference.dataOf (liveAt now (s.values.lookup key)) := by
  unfold Storage.get
  cases s.values.lookup key with
  | none => rfl
  | some value =>
      cases value with
      | stream stream => rfl
      | string str =>
          simp only
          split
          · next hexpired => rw [liveAt_eq_none (by exact hexpired)]; rfl
          · next hlive =>
              have hnow : (some (Value.string str)).any (Value.isExpired now) = false := by
                simpa only [Value.isExpired, Option.any_some, Bool.not_eq_true] using hlive
              rw [liveAt_eq_self hnow]
              rfl

/-- **One command.**  An answer is right exactly if it does not come from an expired string,
where so far the same values are live in both and the clock does not go back. -/
theorem agrees_iff {s : Expiring} (hs : s.Follows) {a : Timed} (hclock : s.NonDecreasing a) :
    s.Agrees a ↔ s.Fresh a := by
  obtain ⟨now, command⟩ := a
  have hat : ∀ key, s.reference.live now key = liveAt now (s.storage.values.lookup key) :=
    fun key => (hs key now hclock).symm
  cases command with
  | restore key value expireTime => exact iff_of_true rfl trivial
  | set key value expireMs => exact iff_of_true rfl trivial
  | get key =>
      refine iff_of_true ?_ trivial
      simp only [Agrees, Reference.Allows, Storage.perform, hat, get_eq]
  | type key =>
      simp only [Agrees, Reference.Allows, Storage.perform, hat, Fresh, KeyAnswer.type.injEq]
      cases hexpired : (s.storage.values.lookup key).any (Value.isExpired now) with
      | false =>
          rw [liveAt_eq_self hexpired]
          refine iff_of_true ?_ rfl
          unfold Storage.type Reference.typeOf
          cases s.storage.values.lookup key <;> rfl
      | true =>
          obtain ⟨str, hlookup⟩ := Value.string_of_isExpired hexpired
          rw [liveAt_eq_none hexpired]
          simp [Storage.type, hlookup, Value.type, Reference.typeOf]
  | xadd key inId values =>
      simp only [Agrees, Reference.Allows, Storage.perform, hat, Fresh, KeyAnswer.added.injEq,
        (xadd_eq now key inId values s.storage).1]
      cases hexpired : (s.storage.values.lookup key).any (Value.isExpired now) with
      | false => simp [liveAt_eq_self hexpired]
      | true =>
          obtain ⟨str, hlookup⟩ := Value.string_of_isExpired hexpired
          rw [liveAt_eq_none hexpired, hlookup]
          simp only [Reference.append, StreamValue.append]
          cases inId.isNull <;> simp [Except.map, SortedMap.last?, SortedMap.empty]
  | keys =>
      simp only [Agrees, Reference.Allows, Storage.perform, hat, Fresh, KeyAnswer.keys.injEq,
        exists_eq_left', Storage.keys]
      have hnodup := s.storage.values.nodupKeys
      have hmem : ∀ key, key ∈ s.storage.values.keys ↔
          (s.storage.values.lookup key).isSome := fun key => (AList.lookup_isSome).symm
      constructor
      · rintro ⟨-, hkeys⟩ key hkey
        have hsome := (hkeys key).mp hkey
        cases hexpired : (s.storage.values.lookup key).any (Value.isExpired now) with
        | false => rfl
        | true => simp [liveAt_eq_none hexpired] at hsome
      · intro hfresh
        refine ⟨hnodup, fun key => ?_⟩
        by_cases hkey : key ∈ s.storage.values.keys
        · rw [liveAt_eq_self (hfresh key hkey)]
          exact hmem key
        · have hnone : s.storage.values.lookup key = none :=
            AList.lookup_eq_none.mpr hkey
          simp [hkey, hnone, liveAt]

/-- **Expiry.**  In a run in which TYPE, XADD and KEYS never come upon an expired string
that is still stored, a further command is answered as the map with expiry answers it if
and only if it does not come upon one either. -/
theorem agrees_iff_fresh {start : Timepoint} {s : Expiring}
    (h : (machine start).Reachable Careful s) {a : Timed} (hclock : s.NonDecreasing a) :
    s.Agrees a ↔ s.Fresh a := by
  refine agrees_iff (h.invariant ?_ fun s a s' _ hs hallowed htaken => hs.step hallowed htaken)
    hclock
  intro key later _
  rfl

/-- A string that GET has erased is a fresh key for XADD. -/
theorem agrees_iff_fresh_erased :
    let run := (machine 0).run Careful (machine 0).init
      [⟨0, .set [107] [118] (some 1)⟩, ⟨10 ^ 6, .get [107]⟩]
    ∃ h : run.isSome, (run.get h).Agrees ⟨10 ^ 6, .xadd [107] { ms := 1 } []⟩ ↔
      (run.get h).Fresh ⟨10 ^ 6, .xadd [107] { ms := 1 } []⟩ :=
  ⟨by decide +kernel, agrees_iff_fresh (Machine.reachable_of_run (by decide +kernel))
    (by decide +kernel)⟩

/-- An expired string that nobody has asked for since: TYPE still tells that it is there. -/
theorem not_agrees :
    ¬ ∀ (start : Timepoint) (s : Expiring) (a : Timed),
      (machine start).Reachable NonDecreasing s → s.NonDecreasing a → s.Agrees a := by
  intro h
  have hrun : ((machine 0).run NonDecreasing (machine 0).init
      [⟨0, .set [107] [118] (some 1)⟩]).map (fun s => (decide (s.clock ≤ 10 ^ 6),
        s.storage.type [107], Reference.typeOf (s.reference.live (10 ^ 6) [107]))) =
      some (true, .string, .none) := by
    decide +kernel
  obtain ⟨s, hreached, hs⟩ := Option.map_eq_some_iff.mp hrun
  simp only [Prod.mk.injEq, decide_eq_true_eq] at hs
  obtain ⟨hclock, hstored, hlive⟩ := hs
  have hagrees : KeyAnswer.type (s.storage.type [107]) = .type (Reference.typeOf
      (s.reference.live (10 ^ 6) [107])) :=
    h 0 s ⟨10 ^ 6, .type [107]⟩ (Machine.Reachable.run .init hreached) hclock
  rw [hstored, hlive] at hagrees
  cases hagrees

end Expiring

end BuildYourOwnRedis
