/-
  Net/Deadline.lean --- when a timeout fires: `EventLoop::set_timeout` and the commands
  that ask for one.

  A timeout is a `std::size_t` of milliseconds, as XREAD reads it or as WAIT converts it
  from an `int`.  On its way to the clock it becomes a signed number, is multiplied and
  added to a reading.  Where all of this fits 64 bits the loop keeps to it, in every run;
  from 2^63 on the count is negative and the timeout lies in the past.
-/
import BuildYourOwnRedis.Command.Command
import BuildYourOwnRedis.Net.EventLoop

set_option autoImplicit false

namespace BuildYourOwnRedis

open Foundation

namespace EventLoop

variable {s s' : EventLoop} {maxUnqueueEvents : Nat}

/-! ## The log of a run -/

/-- The log only grows. -/
theorem Change.log (h : Change s s') : s.log <+: s'.log := by
  cases h with
  | quiet h => rw [(Prod.mk.inj (Prod.mk.inj (Prod.mk.inj h).2).2).2]
  | repeatJob => exact List.prefix_rfl
  | post | setTimeout | invalidate | callOnetime | callTimeout => exact List.prefix_append _ _

theorem log_of_run {actions : List Action}
    (h : (machine maxUnqueueEvents).run Anything s actions = some s') : s.log <+: s'.log := by
  induction actions generalizing s with
  | nil => rw [Option.some.inj h]
  | cons a actions ih =>
      rw [Machine.run] at h
      split at h
      · split at h
        · next s₁ htaken => exact (step_change htaken).log.trans (ih h)
        · cases h
      · cases h

/-- What stands once in a list of numbers comes from one entry. -/
theorem eq_of_filterMap_nodup {f : LoopEntry → Option Nat} {log : List LoopEntry} {n : Nat}
    {e e' : LoopEntry} (h : (log.filterMap f).Nodup) (he : e ∈ log) (he' : e' ∈ log)
    (hn : f e = some n) (hn' : f e' = some n) : e = e' := by
  induction log with
  | nil => cases he
  | cons entry log ih =>
      have hnew (h' : f entry = some n) : n ∉ log.filterMap f := by
        rw [List.filterMap_cons_some h'] at h
        exact (List.nodup_cons.mp h).1
      have hrest : (log.filterMap f).Nodup := by
        refine h.sublist ?_
        exact (List.sublist_cons_self entry log).filterMap f
      rcases List.mem_cons.mp he with rfl | hold
      · rcases List.mem_cons.mp he' with rfl | hold'
        · rfl
        · exact absurd (List.mem_filterMap.mpr ⟨e', hold', hn'⟩) (hnew hn)
      · rcases List.mem_cons.mp he' with rfl | hold'
        · exact absurd (List.mem_filterMap.mpr ⟨e, hold, hn⟩) (hnew hn')
        · exact ih hrest hold hold'

/-- A job is scheduled for one time only. -/
theorem Inv.scheduled_unique (h : s.Inv) {job : Nat} {fireTime fireTime' : Int}
    (hs : .scheduled job fireTime ∈ s.log) (hs' : .scheduled job fireTime' ∈ s.log) :
    fireTime = fireTime' :=
  (LoopEntry.scheduled.inj (eq_of_filterMap_nodup h.scheduledOnce hs hs' rfl rfl)).2

/-- The turn of a timeout job comes when the time has been reached that was stored. -/
theorem Inv.turn_after (h : s.Inv) {job : Nat} {fireTime now : Int} {ran : Bool}
    (hs : .scheduled job fireTime ∈ s.log) (hturn : .timeoutTurn job now ran ∈ s.log) :
    fireTime ≤ now := by
  obtain ⟨before, after, hlog⟩ := List.append_of_mem hturn
  obtain ⟨-, fireTime', hdue, hs'⟩ := h.turns before _ after hlog
  have hmem : .scheduled job fireTime' ∈ s.log := by
    rw [hlog]
    exact List.mem_append_left _ hs'
  exact h.scheduled_unique hs hmem ▸ hdue

/-- What `set_timeout` writes down. -/
theorem scheduled_of_step {now fireTime : Int} {ms : UInt64}
    (htaken : s.step (.request (.setTimeout now ms fireTime)) = some s') :
    .scheduled s.nextJob fireTime ∈ s'.log := by
  simp only [step, request] at htaken
  split at htaken
  · split at htaken
    · rw [← Option.some.inj htaken]
      exact List.mem_append_right _ (List.mem_singleton.mpr rfl)
    · cases htaken
  · cases htaken

/-! ## Timeouts -/

/-- From 2^63 on the count has become negative. -/
theorem nanoseconds_eq (ms : UInt64) :
    nanoseconds ms =
      (if ms.toNat < 2 ^ 63 then (ms.toNat : Int) else ms.toNat - 2 ^ 64) * 10 ^ 6 := by
  have hsigned : ms.toInt64.toInt = ms.toBitVec.toInt := rfl
  rw [nanoseconds, hsigned, BitVec.toInt_eq_toNat_cond, UInt64.toNat_toBitVec]
  grind

/-- A timeout that is set for so many milliseconds when the clock says `now` is stored as
that time, whatever arithmetic does that is not defined, and in no run the job has its turn
before. -/
def OnTime (now : Int) (ms : UInt64) : Prop :=
  ∀ fireTime, MayFireAt now ms fireTime → fireTime = now + ms.toNat * 10 ^ 6 ∧
    ∀ maxUnqueueEvents s s' s'' actions,
      (machine maxUnqueueEvents).Reachable Anything s →
      s.step (.request (.setTimeout now ms fireTime)) = some s' →
      (machine maxUnqueueEvents).run Anything s' actions = some s'' →
      ∀ now' ran, .timeoutTurn s.nextJob now' ran ∈ s''.log → now + ms.toNat * 10 ^ 6 ≤ now'

/-- **A timeout is kept exactly if its time fits the clock.**  The milliseconds are counted in
nanoseconds, in a signed 64-bit type, and added to the time; where either does not fit, any
time point may be stored, so also one that is too early. -/
theorem onTime_iff (now : Int) (ms : UInt64) :
    OnTime now ms ↔
      FitsInt64 (ms.toNat * 10 ^ 6) ∧ FitsInt64 (now + ms.toNat * 10 ^ 6) := by
  have hns := nanoseconds_eq ms
  have hms := ms.toNat_lt
  constructor
  · intro h
    -- where something overflows, more than one number may be stored
    have hfits : FitsInt64 (nanoseconds ms) ∧ FitsInt64 (now + nanoseconds ms) := by
      by_contra hover
      have hany (fireTime : Int) : MayFireAt now ms fireTime :=
        fun h₁ h₂ => absurd ⟨h₁, h₂⟩ hover
      have hzero := (h 0 (hany 0)).1
      have hone := (h 1 (hany 1)).1
      omega
    have hstored := (h (now + nanoseconds ms) fun _ _ => rfl).1
    rw [Int.add_left_cancel hstored] at hfits
    exact hfits
  · rintro ⟨hns', hsum⟩ fireTime hmay
    have hexact : nanoseconds ms = ms.toNat * 10 ^ 6 := by
      rw [hns, if_pos]
      unfold FitsInt64 at hns'
      omega
    rw [← hexact] at hns' hsum ⊢
    obtain rfl := hmay hns' hsum
    refine ⟨rfl, fun maxUnqueueEvents s s' s'' actions hreach htaken hrun now' ran hturn => ?_⟩
    have htaken' : (machine maxUnqueueEvents).step s
        (.request (.setTimeout now ms (now + nanoseconds ms))) = some s' := htaken
    have hreach' := (hreach.step trivial htaken').run hrun
    have hscheduled := (log_of_run hrun).subset (scheduled_of_step htaken)
    exact (inv_of_reachable hreach').turn_after hscheduled hturn

/-- The message `WAIT 1 -1`. -/
def waitMinusOne : Message :=
  .array (.map .bulkString [ascii "WAIT", ascii "1", ascii "-1"])

/-- A negative timeout of WAIT, which is a number of 64 bits with the highest one set: its time
lies one millisecond in the past. -/
theorem not_onTime : ∃ ms, Command.tryParse waitMinusOne = .ok (.wait 1 ms) ∧ ¬ OnTime 0 ms := by
  refine ⟨2 ^ 64 - 1, by decide +kernel, fun h => ?_⟩
  exact absurd (h (-1000000) (by decide +kernel)).1 (by decide +kernel)

end EventLoop

end BuildYourOwnRedis
