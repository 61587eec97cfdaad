/-
  Net/Rounds.lean --- what the event loop does in one round.

  A handler says what there is to say in a repeated job, and the poller polls in one.  In
  every round each of them has one turn, also the jobs that are added while the round is at
  the repeated jobs; and when the loop over the timeouts ends, no timeout is left that was
  due when it began.  A body can add jobs and invalidate them at any point of its run.

  The two loops differ in what their iterators see.  The one over the repeated jobs moves on
  behind the body, so it comes to whatever the body has added.  The one over the timeouts has
  moved on before: when the last timeout is erased it is `end()`, and the timeouts which the
  body of this one adds wait for the next round, due or not (`unseen`).
-/
import BuildYourOwnRedis.Net.EventLoop

set_option autoImplicit false

namespace BuildYourOwnRedis

open Foundation

/-- An event loop, with what it has done in this round.  The record is read by no step; it
begins anew where the loop comes to the jobs in question. -/
structure Round where
  loop : EventLoop
  /-- the repeated jobs that have had their turn, and whether their bodies were called -/
  turns : List (Nat × Bool) := []
  /-- the last reading of the clock when the loop over the timeouts began -/
  began : Int := 0
  /-- the timeouts that were added in this round when the iterator over them was `end()` -/
  unseen : List Nat := []

namespace Round

open EventLoop

/-- The turns behind a step; a round begins where the queue of one-time jobs is empty. -/
def turnsAfter (r : Round) : Action → List (Nat × Bool)
  | .proceed _ =>
      match r.loop.place with
      | .onetime => if r.loop.onetimeJobs = [] then [] else r.turns
      | .repeated next =>
          r.turns ++ r.loop.repeatedJobs[next]?.toList.map fun job => (job, r.loop.valid job)
      | _ => r.turns
  | _ => r.turns

/-- Where the repeated jobs are through, the loop over the timeouts begins. -/
def beganAfter (r : Round) : Action → Int
  | .proceed _ =>
      match r.loop.place with
      | .repeated next => if r.loop.repeatedJobs[next]? = none then r.loop.clock else r.began
      | _ => r.began
  | _ => r.began

/-- The timeout that a request adds. -/
def added (s : EventLoop) : Request → List Nat
  | .setTimeout _ _ _ => [s.nextJob]
  | _ => []

/-- The timeouts added at `end()`.  The only body that runs there is that of a timeout which
was the last of the list when it was erased. -/
def unseenAfter (r : Round) : Action → List Nat
  | .proceed _ =>
      match r.loop.place with
      | .repeated next => if r.loop.repeatedJobs[next]? = none then [] else r.unseen
      | _ => r.unseen
  | .request request =>
      if r.loop.place = .timeouts none then r.unseen ++ added r.loop request else r.unseen
  | _ => r.unseen

/-- One step. -/
def step (r : Round) (a : Action) : Option Round :=
  (r.loop.step a).map fun loop =>
    { loop := loop, turns := r.turnsAfter a, began := r.beganAfter a, unseen := r.unseenAfter a }

/-- An event loop without jobs. -/
def machine (maxUnqueueEvents : Nat) : Machine Round Action where
  init := { loop := .make maxUnqueueEvents }
  step := step

/-! ## What holds in every state -/

/-- The repeated jobs before the iterator have had their turn, and the one it is at while its
body runs. -/
structure Turning (r : Round) : Prop where
  inOrder : r.turns.map Prod.fst <+: r.loop.repeatedJobs
  upTo : ∀ next, r.loop.place = .repeated next →
    r.turns.length = next + if r.loop.calling then 1 else 0
  skipped : ∀ turn ∈ r.turns, turn.2 = true ∨ .invalidated turn.1 ∈ r.loop.log
  known : ∀ job ∈ r.loop.repeatedJobs, job < r.loop.nextJob

/-- The timeout was not due when the loop over the timeouts began.  Whether it is due by now is
not said. -/
def Later (r : Round) (job : Nat) : Prop :=
  ∃ fireTime, r.loop.fireTime job = some fireTime ∧ r.began < fireTime

/-- The timeouts before the iterator were not due.  An iterator that is not `end()` stands at
a job; behind `end()` there is only what has been added since it was reached. -/
structure Passing (r : Round) : Prop where
  began : ∀ it, r.loop.place = .timeouts it → r.began ≤ r.loop.clock
  atJob : ∀ next, r.loop.place = .timeouts (some next) →
    next < r.loop.timeoutJobs.length ∧ r.unseen = [] ∧
      ∀ job ∈ r.loop.timeoutJobs.take next, r.Later job
  atEnd : r.loop.place = .timeouts none →
    ∃ passed, r.loop.timeoutJobs = passed ++ r.unseen ∧ ∀ job ∈ passed, r.Later job

variable {r r' : Round} {loop : EventLoop} {job next : Nat} {now began : Int}
variable {unseen more : List Nat}

/-! ### Steps that leave the round where it is -/

/-- Jobs are only added and invalidated, and `more` are the timeouts that are added.  This is
all that the body of a job can do to the lists that the loop goes over. -/
structure Keeps (s s' : EventLoop) (more : List Nat) : Prop where
  place : s'.place = s.place
  calling : s'.calling = s.calling
  clock : s.clock ≤ s'.clock
  nextJob : s.nextJob ≤ s'.nextJob
  log : s.log ⊆ s'.log
  repeatedJobs : s.repeatedJobs <+: s'.repeatedJobs
  new : ∀ job ∈ s'.repeatedJobs, job ∈ s.repeatedJobs ∨ job < s'.nextJob
  timeoutJobs : s'.timeoutJobs = s.timeoutJobs ++ more
  fireTime : ∀ job fireTime, s.fireTime job = some fireTime → s'.fireTime job = some fireTime

theorem keeps_request {s s' : EventLoop} {request : Request}
    (h : s.request request = some s') : Keeps s s' (added s request) := by
  cases request with
  | post =>
      obtain rfl := Option.some.inj h
      exact ⟨rfl, rfl, le_rfl, by simp [nextJob, post], List.subset_append_left _ _,
        List.prefix_rfl, fun _ => .inl, (List.append_nil _).symm, fun _ _ => fireTime_made rfl⟩
  | «repeat» =>
      obtain rfl := Option.some.inj h
      refine ⟨rfl, rfl, le_rfl, by simp [nextJob, repeatJob], List.Subset.refl _,
        List.prefix_append _ _, fun job hjob => ?_, (List.append_nil _).symm,
        fun _ _ => fireTime_made rfl⟩
      rcases List.mem_append.mp hjob with hold | hnew
      · exact .inl hold
      · exact .inr (by simp [nextJob, repeatJob, List.mem_singleton.mp hnew])
  | setTimeout now ms fireTime =>
      simp only [request] at h
      split at h
      · next hnow =>
          obtain rfl := Option.some.inj h
          exact ⟨rfl, rfl, hnow.1, by simp [nextJob, setTimeout], List.subset_append_left _ _,
            List.prefix_rfl, fun _ => .inl, rfl, fun _ _ => fireTime_made rfl⟩
      · cases h
  | invalidate job =>
      simp only [request] at h
      split at h
      · obtain rfl := Option.some.inj h
        exact ⟨rfl, rfl, le_rfl, by simp [nextJob, EventLoop.invalidate],
          List.subset_append_left _ _, List.prefix_rfl, fun _ => .inl, (List.append_nil _).symm,
          fun other _ hfire => (fireTime_invalidate job other).trans hfire⟩
      · cases h
  | emplace =>
      obtain rfl := Option.some.inj h
      exact ⟨rfl, rfl, le_rfl, le_rfl, List.Subset.refl _, List.prefix_rfl, fun _ => .inl,
        (List.append_nil _).symm, fun _ _ h => h⟩

theorem Turning.keeps (h : r.Turning) (hkeeps : Keeps r.loop loop more) :
    Turning { r with loop := loop, unseen := unseen } := by
  refine ⟨h.inOrder.trans hkeeps.repeatedJobs, fun next hplace => ?_, fun turn hturn => ?_,
    fun job hjob => ?_⟩
  · rw [hkeeps.calling]
    exact h.upTo next (hkeeps.place.symm.trans hplace)
  · exact (h.skipped turn hturn).imp_right fun hlog => hkeeps.log hlog
  · rcases hkeeps.new job hjob with hold | hnew
    · exact (h.known job hold).trans_le hkeeps.nextJob
    · exact hnew

theorem Later.keeps (h : r.Later job) (hkeeps : Keeps r.loop loop more) :
    Later { r with loop := loop, unseen := unseen } job := by
  obtain ⟨fireTime, hfire, hlater⟩ := h
  exact ⟨fireTime, hkeeps.fireTime job fireTime hfire, hlater⟩

/-- A timeout that is added stands behind the iterator, or it is not seen. -/
theorem Passing.keeps (h : r.Passing) (hkeeps : Keeps r.loop loop more) :
    Passing { r with
      loop := loop
      unseen := if r.loop.place = .timeouts none then r.unseen ++ more else r.unseen } := by
  have hbefore : ∀ it, loop.place = .timeouts it → r.loop.place = .timeouts it :=
    fun it hplace => hkeeps.place.symm.trans hplace
  refine ⟨fun it hplace => ?_, fun next hplace => ?_, fun hplace => ?_⟩
  · exact (h.began it (hbefore it hplace)).trans hkeeps.clock
  · obtain ⟨hlt, hunseen, hlater⟩ := h.atJob next (hbefore _ hplace)
    have hhere : r.loop.place ≠ .timeouts none := by simp [hbefore _ hplace]
    refine ⟨?_, ?_, fun job hjob => ?_⟩
    · rw [hkeeps.timeoutJobs, List.length_append]
      exact Nat.lt_add_right _ hlt
    · exact (if_neg hhere).trans hunseen
    · rw [hkeeps.timeoutJobs, List.take_append_of_le_length hlt.le] at hjob
      exact (hlater job hjob).keeps hkeeps
  · obtain ⟨passed, hjobs, hlater⟩ := h.atEnd (hbefore _ hplace)
    refine ⟨passed, ?_, fun job hjob => (hlater job hjob).keeps hkeeps⟩
    rw [hkeeps.timeoutJobs, hjobs, if_pos (hbefore _ hplace), List.append_assoc]

/-! ### The steps of `start` -/

theorem prefix_concat_getElem? {xs : List Nat} {turns : List Nat} (h : turns <+: xs)
    (hget : xs[turns.length]? = some job) : turns ++ [job] <+: xs := by
  obtain ⟨rest, rfl⟩ := h
  rw [List.getElem?_append_right le_rfl, Nat.sub_self] at hget
  cases rest with
  | nil => cases hget
  | cons first rest =>
      obtain rfl := Option.some.inj hget
      exact ⟨rest, by simp⟩

/-- The next repeated job has its turn. -/
theorem Turning.turn {place : Place} {calling : Bool} (h : r.Turning) (hinv : r.loop.Inv)
    (hplace : r.loop.place = .repeated next) (hcalling : r.loop.calling = false)
    (hget : r.loop.repeatedJobs[next]? = some job)
    (hupTo : ∀ next', place = .repeated next' → next + 1 = next' + if calling then 1 else 0) :
    Turning ⟨{ r.loop with place := place, calling := calling },
      r.turns ++ [(job, r.loop.valid job)], began, unseen⟩ := by
  have hlength : r.turns.length = next := by
    rw [h.upTo next hplace, hcalling]
    rfl
  refine ⟨?_, fun next' hplace' => ?_, fun turn hturn => ?_, h.known⟩
  · rw [List.map_append]
    exact prefix_concat_getElem? h.inOrder (by rw [List.length_map, hlength]; exact hget)
  · rw [List.length_append, hlength]
    exact hupTo next' hplace'
  · rcases List.mem_append.mp hturn with hold | hnew
    · exact h.skipped turn hold
    · obtain rfl := List.mem_singleton.mp hnew
      have hvalid := hinv.valid job (h.known job (List.mem_of_getElem? hget))
      by_cases hran : r.loop.valid job = true
      · exact .inl hran
      · exact .inr (by_contra fun hlog => hran (hvalid.mpr hlog))

/-- `start` is not at the repeated jobs, or they begin again. -/
theorem Turning.move (h : r.Turning) (hjobs : loop.repeatedJobs = r.loop.repeatedJobs)
    (hnextJob : loop.nextJob = r.loop.nextJob) (hlog : r.loop.log ⊆ loop.log)
    (hplace : ∀ next, loop.place ≠ .repeated next) :
    Turning ⟨loop, r.turns, began, unseen⟩ := by
  refine ⟨hjobs ▸ h.inOrder, fun next hnext => absurd hnext (hplace next), fun turn hturn => ?_,
    fun job hjob => ?_⟩
  · exact (h.skipped turn hturn).imp_right fun hmem => hlog hmem
  · rw [hnextJob]
    exact h.known job (hjobs ▸ hjob)

/-- `start` is not at the timeouts. -/
theorem passing_elsewhere (hplace : ∀ it, r.loop.place ≠ .timeouts it) : r.Passing :=
  ⟨fun it h => absurd h (hplace it), fun next h => absurd h (hplace (some next)),
    fun h => absurd h (hplace none)⟩

/-- The iterator behind the first `next` timeouts, none of which was due. -/
theorem passing_iterator (next : Nat)
    (hplace : r.loop.place = .timeouts (iterator r.loop.timeoutJobs next))
    (hbegan : r.began ≤ r.loop.clock) (hunseen : r.unseen = [])
    (hlater : ∀ job ∈ r.loop.timeoutJobs.take next, r.Later job) : r.Passing := by
  refine ⟨fun _ _ => hbegan, fun next' hnext => ?_, fun hend => ?_⟩
  · have hit := Place.timeouts.inj (hplace.symm.trans hnext)
    unfold iterator at hit
    split at hit
    · next hlt =>
        obtain rfl := Option.some.inj hit
        exact ⟨hlt, hunseen, hlater⟩
    · cases hit
  · have hit := Place.timeouts.inj (hplace.symm.trans hend)
    unfold iterator at hit
    split at hit
    · cases hit
    · next hge =>
        rw [List.take_of_length_le (not_lt.mp hge)] at hlater
        exact ⟨r.loop.timeoutJobs, by rw [hunseen, List.append_nil], hlater⟩

/-- A timeout that is due is taken out of the list; the iterator is the one behind it. -/
theorem Passing.fire (h : r.Passing) (hplace : r.loop.place = .timeouts (some next))
    (hnow : r.loop.clock ≤ now) :
    Passing { r with loop :=
      { r.loop with place := .timeouts (some next), clock := now }.callTimeout next job } := by
  obtain ⟨-, hunseen, hlater⟩ := h.atJob next hplace
  refine passing_iterator next rfl ((h.began _ hplace).trans hnow) hunseen ?_
  intro other hother
  rw [callTimeout, List.take_eraseIdx_eq_take_of_le _ _ _ le_rfl] at hother
  exact hlater other hother

/-- A timeout that is not due is passed. -/
theorem Passing.pass (h : r.Passing) (hplace : r.loop.place = .timeouts (some next))
    (hget : r.loop.timeoutJobs[next]? = some job) (hnow : r.loop.clock ≤ now) {fireTime : Int}
    (hfire : r.loop.fireTime job = some fireTime) (hdue : now < fireTime) :
    Passing { r with loop := { r.loop with
      clock := now, place := .timeouts (iterator r.loop.timeoutJobs (next + 1)) } } := by
  obtain ⟨-, hunseen, hlater⟩ := h.atJob next hplace
  have hbegan := (h.began _ hplace).trans hnow
  refine passing_iterator (next + 1) rfl hbegan hunseen ?_
  intro other hother
  rw [List.take_add_one, hget] at hother
  rcases List.mem_append.mp hother with hold | hnew
  · exact hlater other hold
  · obtain rfl := List.mem_singleton.mp hnew
    exact ⟨fireTime, hfire, hbegan.trans_lt hdue⟩

/-- The invariant: the bookkeeping of the jobs, the turns of the repeated jobs, and the
timeouts that the iterator has passed. -/
structure InRound (r : Round) : Prop where
  inv : r.loop.Inv
  turning : r.Turning
  passing : r.Passing

/-- What a step of `start` makes of the round. -/
abbrev proceeded (r : Round) (now : Int) (loop : EventLoop) : Round :=
  ⟨loop, r.turnsAfter (.proceed now), r.beganAfter (.proceed now), r.unseenAfter (.proceed now)⟩

/-- The loop over the repeated jobs: the next one has its turn, valid or not, or they are
through and the loop over the timeouts begins with an iterator that has passed nothing. -/
theorem InRound.atRepeated (h : r.InRound) (hcalling : r.loop.calling = false)
    (hplace : r.loop.place = .repeated next) (hproceed : r.loop.proceed now = some loop) :
    (r.proceeded now loop).Turning ∧ (r.proceeded now loop).Passing := by
  simp only [EventLoop.proceed, hplace] at hproceed
  simp only [proceeded, turnsAfter, beganAfter, unseenAfter, hplace]
  cases hget : r.loop.repeatedJobs[next]? with
  | none =>
      simp only [hget, Option.some.injEq] at hproceed
      subst hproceed
      simp only [Option.toList_none, List.map_nil, List.append_nil, if_true]
      exact ⟨h.turning.move rfl rfl (List.Subset.refl _) (by simp),
        passing_iterator 0 rfl le_rfl rfl fun job hjob => by cases hjob⟩
  | some job =>
      simp only [hget] at hproceed
      simp only [Option.toList_some, List.map_cons, List.map_nil, reduceCtorEq, if_false]
      by_cases hvalid : r.loop.valid job = true
      · simp only [hvalid, if_true, Option.some.injEq] at hproceed
        subst hproceed
        refine ⟨h.turning.turn h.inv hplace hcalling hget fun next' hnext => ?_,
          passing_elsewhere (by simp)⟩
        obtain rfl := Place.repeated.inj hnext
        rfl
      · simp only [hvalid, Bool.false_eq_true, if_false, Option.some.injEq] at hproceed
        subst hproceed
        refine ⟨h.turning.turn h.inv hplace hcalling hget fun next' hnext => ?_,
          passing_elsewhere (by simp)⟩
        obtain rfl := Place.repeated.inj hnext
        simp [hcalling]

/-- The loop over the timeouts, with the iterator at a job: it is erased and called when it is
due, and passed otherwise. -/
theorem InRound.atTimeout (h : r.InRound) (hplace : r.loop.place = .timeouts (some next))
    (hproceed : r.loop.proceed now = some loop) :
    (r.proceeded now loop).Turning ∧ (r.proceeded now loop).Passing := by
  simp only [EventLoop.proceed, hplace] at hproceed
  simp only [proceeded, turnsAfter, beganAfter, unseenAfter, hplace]
  cases hget : r.loop.timeoutJobs[next]? with
  | none =>
      simp only [hget] at hproceed
      cases hproceed
  | some job =>
      simp only [hget] at hproceed
      split at hproceed
      · next hnow =>
          obtain rfl := Option.some.inj hproceed
          obtain ⟨fireTime, hfire, -⟩ := h.inv.fires job (List.mem_of_getElem? hget)
          have hfire' : ({ r.loop with place := .timeouts (some next), clock := now } :
            EventLoop).fireTime job = some fireTime := hfire
          simp only [checkTimeout, hfire']
          split
          · exact ⟨h.turning.move rfl rfl (List.subset_append_left _ _)
              (by simp [callTimeout]), h.passing.fire hplace hnow⟩
          · next hlater =>
              exact ⟨h.turning.move rfl rfl (List.Subset.refl _) (by simp),
                h.passing.pass hplace hget hnow hfire (not_le.mp hlater)⟩
      · cases hproceed

theorem InRound.proceed (h : r.InRound) (hcalling : r.loop.calling = false)
    (hinv : loop.Inv) (hproceed : r.loop.proceed now = some loop) :
    (r.proceeded now loop).InRound := by
  suffices hstate : (r.proceeded now loop).Turning ∧ (r.proceeded now loop).Passing from
    ⟨hinv, hstate.1, hstate.2⟩
  cases hplace : r.loop.place with
  | repeated next => exact h.atRepeated hcalling hplace hproceed
  | timeouts it =>
      cases it with
      | some next => exact h.atTimeout hplace hproceed
      | none =>
          simp only [EventLoop.proceed, hplace, Option.some.injEq] at hproceed
          subst hproceed
          simp only [proceeded, turnsAfter, beganAfter, unseenAfter, hplace]
          exact ⟨h.turning.move rfl rfl (List.Subset.refl _) (by simp),
            passing_elsewhere (by simp)⟩
  | outside =>
      simp only [EventLoop.proceed, hplace, Option.some.injEq] at hproceed
      subst hproceed
      simp only [proceeded, turnsAfter, beganAfter, unseenAfter, hplace]
      exact ⟨h.turning.move rfl rfl (List.Subset.refl _) (by simp), passing_elsewhere (by simp)⟩
  | onetime =>
      simp only [EventLoop.proceed, hplace] at hproceed
      simp only [proceeded, turnsAfter, beganAfter, unseenAfter, hplace]
      cases hjobs : r.loop.onetimeJobs with
      | nil =>
          simp only [hjobs, Option.some.injEq] at hproceed
          subst hproceed
          refine ⟨⟨by simp, fun next hnext => ?_, by simp, h.turning.known⟩,
            passing_elsewhere (by simp)⟩
          obtain rfl := Place.repeated.inj hnext
          simp [hcalling]
      | cons job jobs =>
          simp only [hjobs, Option.some.injEq] at hproceed
          subst hproceed
          simp only [reduceCtorEq, if_false]
          exact ⟨h.turning.move rfl rfl (List.subset_append_left _ _)
            (by simp [callOnetime, hplace]), passing_elsewhere (by simp [callOnetime, hplace])⟩
  | events left =>
      simp only [EventLoop.proceed, hplace] at hproceed
      simp only [proceeded, turnsAfter, beganAfter, unseenAfter, hplace]
      cases left with
      | zero =>
          obtain rfl := Option.some.inj hproceed
          exact ⟨h.turning.move rfl rfl (List.Subset.refl _) (by simp),
            passing_elsewhere (by simp)⟩
      | succ left =>
          obtain rfl := Option.some.inj hproceed
          exact ⟨h.turning.move rfl rfl (List.Subset.refl _) (by simp),
            passing_elsewhere (by simp)⟩

/-- A body ends. -/
theorem InRound.advance (h : r.InRound) (hcalling : r.loop.calling = true) :
    InRound { r with loop := r.loop.advance } := by
  have hinv : r.loop.advance.Inv := h.inv.of_core (core_advance r.loop)
  suffices hstate : Turning { r with loop := r.loop.advance } ∧
      Passing { r with loop := r.loop.advance } from ⟨hinv, hstate.1, hstate.2⟩
  unfold EventLoop.advance
  split
  · next next hplace =>
      refine ⟨⟨h.turning.inOrder, fun next' hnext => ?_, h.turning.skipped, h.turning.known⟩,
        passing_elsewhere (by simp)⟩
      obtain rfl := Place.repeated.inj hnext
      rw [h.turning.upTo next hplace, hcalling]
      rfl
  · next hplace =>
      exact ⟨⟨h.turning.inOrder, fun next hnext => absurd hnext (hplace next), h.turning.skipped,
        h.turning.known⟩, h.passing.began, h.passing.atJob, h.passing.atEnd⟩

/-- **One step** keeps the invariant: where the loop goes on, where a body asks for something,
and where it returns or throws. -/
theorem InRound.step (h : r.InRound) {a : Action} (hstep : r.step a = some r') : r'.InRound := by
  obtain ⟨loop, htaken, rfl⟩ := Option.map_eq_some_iff.mp hstep
  have hinv : loop.Inv := h.inv.step htaken
  cases a with
  | proceed now =>
      simp only [EventLoop.step] at htaken
      split at htaken
      · cases htaken
      · next hcalling => exact h.proceed (Bool.eq_false_iff.mpr hcalling) hinv htaken
  | request request =>
      simp only [EventLoop.step] at htaken
      split at htaken
      · have hkeeps := keeps_request htaken
        exact ⟨hinv, h.turning.keeps hkeeps, h.passing.keeps hkeeps⟩
      · cases htaken
  | returned =>
      simp only [EventLoop.step] at htaken
      split at htaken
      · next hcalling =>
          obtain rfl := Option.some.inj htaken
          exact h.advance hcalling
      · cases htaken
  | threw =>
      simp only [EventLoop.step] at htaken
      split at htaken
      · next hcalling =>
          obtain rfl := Option.some.inj htaken
          exact h.advance hcalling
      · cases htaken

/-- Between two bodies `start` goes on: it never comes upon an iterator that is not `end()` and
stands at no job. -/
theorem InRound.goesOn (h : r.InRound) (hnow : r.loop.clock ≤ now) :
    (r.loop.proceed now).isSome := by
  unfold EventLoop.proceed
  cases hplace : r.loop.place with
  | outside => rfl
  | onetime => cases r.loop.onetimeJobs <;> rfl
  | repeated next =>
      cases hget : r.loop.repeatedJobs[next]? with
      | none => simp only [hget, Option.isSome_some]
      | some job => cases hvalid : r.loop.valid job <;> simp [hget, hvalid]
  | timeouts it =>
      cases it with
      | none => rfl
      | some next =>
          obtain ⟨hlt, -⟩ := h.passing.atJob next hplace
          simp only [List.getElem?_eq_getElem hlt, hnow, if_true, Option.isSome_some]
  | events left => cases left <;> rfl

/-- **No job is left out of a round.**  Whatever the bodies do: when the loop over the repeated
jobs ends, every job that has been added by then has had one turn in this round, in the order
in which they were added, and its body was called unless the job had been invalidated.  When
the loop over the timeouts ends, all that are left lie behind the last reading of the clock
before it began, but for those which the body of the last timeout of the list has added.
Between two bodies the loop can always go on. -/
theorem noJobLeftOut {maxUnqueueEvents : Nat}
    (hr : (machine maxUnqueueEvents).Reachable Anything r) :
    (∀ next, r.loop.place = .repeated next → r.loop.calling = false →
      r.loop.repeatedJobs[next]? = none →
      r.turns.map Prod.fst = r.loop.repeatedJobs ∧
        ∀ turn ∈ r.turns, turn.2 = true ∨ .invalidated turn.1 ∈ r.loop.log) ∧
    (r.loop.place = .timeouts none → ∃ passed, r.loop.timeoutJobs = passed ++ r.unseen ∧
      ∀ job ∈ passed, ∃ fireTime, r.loop.fireTime job = some fireTime ∧ r.began < fireTime) ∧
    ∀ now, r.loop.clock ≤ now → (r.loop.proceed now).isSome := by
  have hinit : InRound { loop := .make maxUnqueueEvents } :=
    ⟨inv_make maxUnqueueEvents,
      ⟨List.nil_prefix, fun _ hplace => (nomatch hplace), by simp, by simp [make]⟩,
      passing_elsewhere (by simp [make])⟩
  have h : r.InRound := hr.invariant hinit fun _ _ _ _ h _ hstep => h.step hstep
  refine ⟨fun next hplace hcalling hend => ⟨?_, h.turning.skipped⟩, h.passing.atEnd,
    fun now hnow => h.goesOn hnow⟩
  refine h.turning.inOrder.eq_of_length_le ?_
  rw [List.length_map, h.turning.upTo next hplace, hcalling]
  exact List.getElem?_eq_none_iff.mp hend

/-- The first of two repeated jobs adds a third one and invalidates the second, and the third
schedules a timeout and throws.  Both timeouts are due on their turn, and the body of the
second one, for which the iterator is `end()`, schedules another that is due at once. -/
def changing : List Action :=
  [.request .repeat, .request .repeat, .request (.setTimeout 0 10 10000000), .proceed 0,
    .proceed 0, .proceed 0, .request .repeat, .request (.invalidate 1), .returned, .proceed 0,
    .proceed 0, .request (.setTimeout 10000000 1 11000000), .threw, .proceed 0,
    .proceed 11000000, .returned, .proceed 11000000,
    .request (.setTimeout 11000000 18446744073709551615 10000000), .returned]

theorem noJobLeftOut_changing :
    let run := (machine 0).run Anything (machine 0).init changing
    ∃ h : run.isSome,
      (∀ next, (run.get h).loop.place = .repeated next → (run.get h).loop.calling = false →
        (run.get h).loop.repeatedJobs[next]? = none →
        (run.get h).turns.map Prod.fst = (run.get h).loop.repeatedJobs ∧
          ∀ turn ∈ (run.get h).turns,
            turn.2 = true ∨ .invalidated turn.1 ∈ (run.get h).loop.log) ∧
      ((run.get h).loop.place = .timeouts none →
        ∃ passed, (run.get h).loop.timeoutJobs = passed ++ (run.get h).unseen ∧
          ∀ job ∈ passed, ∃ fireTime,
            (run.get h).loop.fireTime job = some fireTime ∧ (run.get h).began < fireTime) ∧
      ∀ now, (run.get h).loop.clock ≤ now → ((run.get h).loop.proceed now).isSome :=
  ⟨by decide +kernel, noJobLeftOut (Machine.reachable_of_run (by decide +kernel))⟩

-- the timeout 5 is due, and the round ends without its turn
example : ((machine 0).run Anything (machine 0).init (changing ++ [.proceed 11000000])).map
    (fun r => (r.turns, r.loop.timeoutJobs, r.unseen, r.began, r.loop.fireTime 5)) =
      some ([(0, true), (1, false), (3, true)], [5], [5], 10000000, some 10000000) := by
  decide +kernel

end Round

end BuildYourOwnRedis
