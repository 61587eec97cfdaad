/-
  Net/EventLoop.lean --- `events.h` and `events.cpp`: the jobs of the event loop.

  What the body of a job does is input: the machine takes the steps of `EventLoop::start`
  between two bodies, and, while a body runs, whatever the body asks for.  A body may post,
  schedule and invalidate at any point of its run and leave by an exception at any point, so
  a statement about every reachable state is one about all bodies.

  Jobs are numbered as they are made.  The log records what was asked for and each turn of a
  job: the call of `JobWrapper::call`, and whether it called the body.
-/
import BuildYourOwnRedis.Foundation.Transition

set_option autoImplicit false

namespace BuildYourOwnRedis

open Foundation

/-! ## The loop -/

/-- `EventLoop::JobWrapper` without its function.  What the bodies do is left to the requests
that they make. -/
structure JobWrapper where
  isValid : Bool
  fireTime : Option Int
  deriving DecidableEq, Repr

/-- Where `EventLoop::start` stands.  An iterator is the number of jobs before it: nothing
but `start` itself takes jobs out of a list.  The one over the repeated jobs stands at a job
while its body runs; the one over the timeouts has moved on by then and may be `end()`, where
it stays when the body adds a timeout. -/
inductive Place where
  /-- it has not been called -/
  | outside
  | onetime
  | repeated (next : Nat)
  /-- `it`, which is `end()` without a number -/
  | timeouts (it : Option Nat)
  /-- so many events are still to be taken in this round -/
  | events (left : Nat)
  deriving DecidableEq, Repr

/-- What is recorded, and about which job.  The record is read by no step; it says what has
happened, and in which order. -/
inductive LoopEntry where
  | posted (job : Nat)
  | scheduled (job : Nat) (fireTime : Int)
  | invalidated (job : Nat)
  /-- a one-time job was called, and its body too if it was valid -/
  | onetimeTurn (job : Nat) (ran : Bool)
  /-- the same of a timeout job, with the reading of the clock -/
  | timeoutTurn (job : Nat) (now : Int) (ran : Bool)
  deriving DecidableEq, Repr

namespace LoopEntry

/-- The job of an entry. -/
def job : LoopEntry → Nat
  | posted job => job
  | scheduled job _ => job
  | invalidated job => job
  | onetimeTurn job _ => job
  | timeoutTurn job _ _ => job

def postedJob : LoopEntry → Option Nat
  | posted job => some job
  | _ => none

def scheduledJob : LoopEntry → Option Nat
  | scheduled job _ => some job
  | _ => none

def onetimeJob : LoopEntry → Option Nat
  | onetimeTurn job _ => some job
  | _ => none

def timeoutJob : LoopEntry → Option Nat
  | timeoutTurn job _ _ => some job
  | _ => none

/-- The one-time job whose body was called. -/
def onetimeBody : LoopEntry → Option Nat
  | onetimeTurn job true => some job
  | _ => none

/-- The timeout job whose body was called. -/
def timeoutBody : LoopEntry → Option Nat
  | timeoutTurn job _ true => some job
  | _ => none

/-- A turn calls the body exactly if the job has not been invalidated before, and the turn
of a timeout job comes when its time has been reached. -/
def Right (before : List LoopEntry) : LoopEntry → Prop
  | onetimeTurn job ran => ran = true ↔ invalidated job ∉ before
  | timeoutTurn job now ran =>
      (ran = true ↔ invalidated job ∉ before) ∧ ∃ fireTime ≤ now, scheduled job fireTime ∈ before
  | _ => True

end LoopEntry

/-- `EventLoop`; of the queue of events only their number.  Jobs are told apart by their
numbers, and the three lists hold the numbers of the jobs that are in them. -/
structure EventLoop where
  maxUnqueueEvents : Nat
  jobs : List JobWrapper
  onetimeJobs : List Nat
  repeatedJobs : List Nat
  timeoutJobs : List Nat
  events : Nat
  place : Place
  /-- a body runs -/
  calling : Bool
  /-- the last reading of `Clock::now`, in nanoseconds -/
  clock : Int
  log : List LoopEntry
  deriving DecidableEq, Repr

namespace EventLoop

/-- `EventLoop::EventLoop`. -/
def make (maxUnqueueEvents : Nat) : EventLoop :=
  ⟨maxUnqueueEvents, [], [], [], [], 0, .outside, false, 0, []⟩

/-- The number of the next job that is made. -/
def nextJob (s : EventLoop) : Nat := s.jobs.length

/-- `is_valid` of a job. -/
def valid (job : Nat) (s : EventLoop) : Bool := s.jobs[job]?.any (·.isValid)

/-! ### What a body may do -/

/-- The requests of a body, or of the program before `start`.  A body makes any of them, any
number of times. -/
inductive Request where
  | post
  | repeat
  /-- the clock says `now`, and what is stored is `fireTime` -/
  | setTimeout (now : Int) (ms : UInt64) (fireTime : Int)
  | invalidate (job : Nat)
  /-- `SlotEventWrapper::call` -/
  | emplace
  deriving DecidableEq, Repr

/-- `EventLoop::post`: the job comes to the end of the queue, also while the queue is emptied,
and then has its turn in this round. -/
def post (s : EventLoop) : EventLoop :=
  { s with
    jobs := s.jobs ++ [⟨true, none⟩]
    onetimeJobs := s.onetimeJobs ++ [s.nextJob]
    log := s.log ++ [.posted s.nextJob] }

/-- `EventLoop::repeat`.  The job comes to the end of the list; nothing takes it out again
while the program runs. -/
def repeatJob (s : EventLoop) : EventLoop :=
  { s with
    jobs := s.jobs ++ [⟨true, none⟩]
    repeatedJobs := s.repeatedJobs ++ [s.nextJob] }

/-- A number that a signed 64-bit type holds.  Beyond it the arithmetic of the clock is
undefined. -/
def FitsInt64 (i : Int) : Prop := -2 ^ 63 ≤ i ∧ i < 2 ^ 63

instance (i : Int) : Decidable (FitsInt64 i) := inferInstanceAs (Decidable (_ ∧ _))

/-- `std::chrono::milliseconds{ms}` in nanoseconds: the count becomes a signed number. -/
def nanoseconds (ms : UInt64) : Int := ms.toInt64.toInt * 10 ^ 6

/-- `Clock::now() + std::chrono::milliseconds{ms}`.  A signed product or sum that does not
fit is undefined; what is stored then may be anything. -/
def MayFireAt (now : Int) (ms : UInt64) (fireTime : Int) : Prop :=
  FitsInt64 (nanoseconds ms) → FitsInt64 (now + nanoseconds ms) →
    fireTime = now + nanoseconds ms

instance (now : Int) (ms : UInt64) (fireTime : Int) : Decidable (MayFireAt now ms fireTime) :=
  inferInstanceAs (Decidable (_ → _))

/-- `EventLoop::set_timeout`, with the time point that was stored.  What that is for a timeout
is told by `MayFireAt`. -/
def setTimeout (now fireTime : Int) (s : EventLoop) : EventLoop :=
  { s with
    jobs := s.jobs ++ [⟨true, some fireTime⟩]
    timeoutJobs := s.timeoutJobs ++ [s.nextJob]
    clock := now
    log := s.log ++ [.scheduled s.nextJob fireTime] }

/-- `JobHandle::invalidate`, by a call or by the destructor of the handle.  The job stays in
its list, and its body is not called on its turn. -/
def invalidate (job : Nat) (s : EventLoop) : EventLoop :=
  { s with
    jobs := s.jobs.modify job fun wrapper => { wrapper with isValid := false }
    log := s.log ++ [.invalidated job] }

/-- A request; only jobs that were made have handles, and the clock does not go back. -/
def request (s : EventLoop) : Request → Option EventLoop
  | .post => some s.post
  | .repeat => some s.repeatJob
  | .setTimeout now ms fireTime =>
      if s.clock ≤ now ∧ MayFireAt now ms fireTime then some (s.setTimeout now fireTime) else none
  | .invalidate job => if job < s.nextJob then some (s.invalidate job) else none
  | .emplace => some { s with events := s.events + 1 }

/-! ### `EventLoop::start` -/

/-- A one-time job is taken from the queue and called. -/
def callOnetime (job : Nat) (jobs : List Nat) (s : EventLoop) : EventLoop :=
  { s with
    onetimeJobs := jobs
    calling := s.valid job
    log := s.log ++ [.onetimeTurn job (s.valid job)] }

/-- The iterator behind the first `n` jobs of a list. -/
def iterator (jobs : List Nat) (n : Nat) : Option Nat := if n < jobs.length then some n else none

/-- A timeout job is erased from its list and called.  `erase` returns the iterator behind
the job, which is `end()` if the job was the last one. -/
def callTimeout (next job : Nat) (s : EventLoop) : EventLoop :=
  { s with
    timeoutJobs := s.timeoutJobs.eraseIdx next
    place := .timeouts (iterator (s.timeoutJobs.eraseIdx next) next)
    calling := s.valid job
    log := s.log ++ [.timeoutTurn job s.clock (s.valid job)] }

/-- `fire_time` of a job. -/
def fireTime (job : Nat) (s : EventLoop) : Option Int := s.jobs[job]?.bind (·.fireTime)

/-- One turn of the loop over the timeout jobs, `now` being the reading of the clock. -/
def checkTimeout (next job : Nat) (s : EventLoop) : EventLoop :=
  match s.fireTime job with
  | none => s
  | some fireTime =>
      if fireTime ≤ s.clock then s.callTimeout next job
      else { s with place := .timeouts (iterator s.timeoutJobs (next + 1)) }

/-- `unqueue_size`. -/
def unqueueSize (s : EventLoop) : Nat :=
  if s.maxUnqueueEvents = 0 ∨ s.events < s.maxUnqueueEvents then s.events
  else s.maxUnqueueEvents

/-- The next thing that `start` does between two bodies.  Its loops over the jobs are left
where the queue is empty or the iterator is `end()`; how many events are called is settled
before the first of them. -/
def proceed (now : Int) (s : EventLoop) : Option EventLoop :=
  match s.place with
  | .outside => some { s with place := .onetime }
  | .onetime =>
      match s.onetimeJobs with
      | [] => some { s with place := .repeated 0 }
      | job :: jobs => some (s.callOnetime job jobs)
  | .repeated next =>
      match s.repeatedJobs[next]? with
      | none => some { s with place := .timeouts (iterator s.timeoutJobs 0) }
      | some job =>
          if s.valid job then some { s with calling := true }
          else some { s with place := .repeated (next + 1) }
  | .timeouts none => some { s with place := .events s.unqueueSize }
  | .timeouts (some next) =>
      match s.timeoutJobs[next]? with
      -- an iterator that is not `end()` stands at a job
      | none => none
      | some job =>
          if s.clock ≤ now then some ({ s with clock := now }.checkTimeout next job) else none
  | .events 0 => some { s with place := .onetime }
  | .events (left + 1) =>
      some { s with events := s.events - 1, place := .events left, calling := true }

/-- The `for` statement over the repeated jobs goes on behind the body; the other loops have
gone on before they called it. -/
def advance (s : EventLoop) : EventLoop :=
  match s.place with
  | .repeated next => { s with calling := false, place := .repeated (next + 1) }
  | _ => { s with calling := false }

/-- What can happen.  While a body runs it makes requests until it returns or throws; otherwise
the loop goes on. -/
inductive Action where
  /-- `start` goes on; where it reads the clock it reads this -/
  | proceed (now : Int)
  | request (r : Request)
  /-- the body returns -/
  | returned
  /-- the body throws a `std::exception`, which is caught around the call -/
  | threw
  deriving DecidableEq, Repr

/-- One step. -/
def step (s : EventLoop) : Action → Option EventLoop
  | .proceed now => if s.calling then none else s.proceed now
  | .request r => if s.calling ∨ s.place = .outside then s.request r else none
  | .returned => if s.calling then some s.advance else none
  | .threw => if s.calling then some s.advance else none

/-- An event loop without jobs. -/
def machine (maxUnqueueEvents : Nat) : Machine EventLoop Action where
  init := make maxUnqueueEvents
  step := step

/-! ## What a step can do to the jobs -/

/-- The jobs, their queues and the log. -/
def core (s : EventLoop) : List JobWrapper × List Nat × List Nat × List LoopEntry :=
  (s.jobs, s.onetimeJobs, s.timeoutJobs, s.log)

/-- All that a step can do to the one-time and the timeout jobs.  Every fact about their runs
is shown once for each of these changes. -/
inductive Change (s : EventLoop) : EventLoop → Prop where
  | quiet {s' : EventLoop} (h : s'.core = s.core) : Change s s'
  | post : Change s s.post
  | repeatJob : Change s s.repeatJob
  | setTimeout (now fireTime : Int) : Change s (s.setTimeout now fireTime)
  | invalidate {job : Nat} (h : job < s.nextJob) : Change s (s.invalidate job)
  | callOnetime {job : Nat} {jobs : List Nat} (h : s.onetimeJobs = job :: jobs) :
      Change s (s.callOnetime job jobs)
  | callTimeout {now fireTime : Int} {next job : Nat} (hget : s.timeoutJobs[next]? = some job)
      (hfire : s.fireTime job = some fireTime) (hdue : fireTime ≤ now) :
      Change s ({ s with clock := now }.callTimeout next job)

theorem core_advance (s : EventLoop) : s.advance.core = s.core := by
  unfold advance
  split <;> rfl

theorem change_proceed {s s' : EventLoop} {now : Int} (h : s.proceed now = some s') :
    Change s s' := by
  unfold proceed at h
  split at h
  · exact .quiet (by rw [← Option.some.inj h]; rfl)
  · split at h
    · exact .quiet (by rw [← Option.some.inj h]; rfl)
    · next hjobs =>
        rw [← Option.some.inj h]
        exact .callOnetime hjobs
  · split at h
    · exact .quiet (by rw [← Option.some.inj h]; rfl)
    · split at h
      · exact .quiet (by rw [← Option.some.inj h]; rfl)
      · exact .quiet (by rw [← Option.some.inj h]; rfl)
  · exact .quiet (by rw [← Option.some.inj h]; rfl)
  · split at h
    · cases h
    · next next job hget =>
        split at h
        · obtain rfl := Option.some.inj h
          unfold checkTimeout
          split
          · exact .quiet rfl
          · next fireTime hfire =>
              split
              · next hdue => exact .callTimeout hget hfire hdue
              · exact .quiet rfl
        · cases h
  · exact .quiet (by rw [← Option.some.inj h]; rfl)
  · exact .quiet (by rw [← Option.some.inj h]; rfl)

/-- Every step of the machine is one of these changes, whatever the place of the loop is. -/
theorem step_change {s s' : EventLoop} {a : Action} (h : s.step a = some s') :
    Change s s' := by
  cases a with
  | proceed now =>
      simp only [step] at h
      split at h
      · cases h
      · exact change_proceed h
  | request r =>
      simp only [step] at h
      split at h
      · cases r with
        | post => exact Option.some.inj h ▸ .post
        | «repeat» => exact Option.some.inj h ▸ .repeatJob
        | setTimeout now ms fireTime =>
            simp only [request] at h
            split at h
            · exact Option.some.inj h ▸ .setTimeout now fireTime
            · cases h
        | invalidate job =>
            simp only [request] at h
            split at h
            · next hjob => exact Option.some.inj h ▸ .invalidate hjob
            · cases h
        | emplace => exact .quiet (by rw [← Option.some.inj h]; rfl)
      · cases h
  | returned =>
      simp only [step] at h
      split at h
      · exact .quiet (by rw [← Option.some.inj h, core_advance])
      · cases h
  | threw =>
      simp only [step] at h
      split at h
      · exact .quiet (by rw [← Option.some.inj h, core_advance])
      · cases h

/-! ## What holds in every state -/

/-- The jobs posted, in this order. -/
def posted (s : EventLoop) : List Nat := s.log.filterMap LoopEntry.postedJob

/-- The jobs scheduled. -/
def scheduled (s : EventLoop) : List Nat := s.log.filterMap LoopEntry.scheduledJob

/-- The one-time jobs whose turn has come, in this order. -/
def onetimeTurns (s : EventLoop) : List Nat := s.log.filterMap LoopEntry.onetimeJob

/-- The timeout jobs whose turn has come. -/
def timeoutTurns (s : EventLoop) : List Nat := s.log.filterMap LoopEntry.timeoutJob

/-- The invariant of every run.  Nothing is in two places, no job is lost, and every turn was
right. -/
structure Inv (s : EventLoop) : Prop where
  known : ∀ entry ∈ s.log, entry.job < s.nextJob
  postedOnce : s.posted.Nodup
  scheduledOnce : s.scheduled.Nodup
  onetime : s.onetimeTurns ++ s.onetimeJobs = s.posted
  timeout : (s.timeoutTurns ++ s.timeoutJobs).Perm s.scheduled
  valid : ∀ job < s.nextJob, s.valid job = true ↔ .invalidated job ∉ s.log
  fires : ∀ job ∈ s.timeoutJobs, ∃ fireTime,
    s.fireTime job = some fireTime ∧ .scheduled job fireTime ∈ s.log
  turns : ∀ before entry after, s.log = before ++ entry :: after → entry.Right before

theorem inv_make (maxUnqueueEvents : Nat) : (make maxUnqueueEvents).Inv where
  known := by simp [make]
  postedOnce := by simp [make, posted]
  scheduledOnce := by simp [make, scheduled]
  onetime := rfl
  timeout := .refl _
  valid := by simp [make, nextJob]
  fires := by simp [make]
  turns := by simp [make]

/-! ### One more entry -/

/-- An entry of a longer log is the new one or stood there before. -/
theorem eq_append_cons_of_concat {log before after : List LoopEntry} {e entry : LoopEntry}
    (h : log ++ [e] = before ++ entry :: after) :
    (before = log ∧ entry = e) ∨ ∃ after', log = before ++ entry :: after' := by
  rcases List.eq_nil_or_concat after with rfl | ⟨after', last, rfl⟩
  · obtain ⟨rfl, hlast⟩ := List.append_inj' h rfl
    exact Or.inl ⟨rfl, (List.cons.inj hlast).1.symm⟩
  · refine Or.inr ⟨after', ?_⟩
    have hshape : log ++ [e] = before ++ entry :: after' ++ [last] := by
      rw [h]
      simp
    exact (List.append_inj' hshape rfl).1

theorem turns_concat {log : List LoopEntry} {e : LoopEntry}
    (h : ∀ before entry after, log = before ++ entry :: after → entry.Right before)
    (he : e.Right log) :
    ∀ before entry after, log ++ [e] = before ++ entry :: after → entry.Right before := by
  intro before entry after hsplit
  rcases eq_append_cons_of_concat hsplit with ⟨rfl, rfl⟩ | ⟨after', hlog⟩
  · exact he
  · exact h before entry after' hlog

variable {s s' : EventLoop}

/-- The number of a new job stands nowhere yet. -/
theorem Inv.not_mem_of_new (h : s.Inv) {f : LoopEntry → Option Nat}
    (hf : ∀ entry job, f entry = some job → entry.job = job) :
    s.nextJob ∉ s.log.filterMap f := by
  intro hmem
  obtain ⟨entry, hentry, hjob⟩ := List.mem_filterMap.mp hmem
  have hlt := h.known entry hentry
  rw [hf entry _ hjob] at hlt
  exact absurd hlt (Nat.lt_irrefl _)

theorem job_of_postedJob {entry : LoopEntry} {job : Nat} (h : entry.postedJob = some job) :
    entry.job = job := by
  cases entry <;> cases h
  rfl

theorem job_of_scheduledJob {entry : LoopEntry} {job : Nat}
    (h : entry.scheduledJob = some job) : entry.job = job := by
  cases entry <;> cases h
  rfl

/-! ### New jobs -/

/-- A new job changes nothing about those made before. -/
theorem getElem?_made {w : JobWrapper} (hjobs : s'.jobs = s.jobs ++ [w]) {job : Nat}
    (h : job < s.nextJob) : s'.jobs[job]? = s.jobs[job]? := by
  rw [hjobs, List.getElem?_append_left h]

/-- A new job is valid, and has not been invalidated. -/
theorem Inv.valid_made (h : s.Inv) {w : JobWrapper} (hw : w.isValid = true)
    (hjobs : s'.jobs = s.jobs ++ [w])
    (hlog : ∀ job, .invalidated job ∈ s'.log ↔ .invalidated job ∈ s.log) :
    ∀ job < s'.nextJob, s'.valid job = true ↔ .invalidated job ∉ s'.log := by
  intro job hjob
  rw [hlog]
  rcases Nat.lt_or_ge job s.nextJob with hold | hnew
  · rw [EventLoop.valid, getElem?_made hjobs hold]
    exact h.valid job hold
  · have hlen : s'.nextJob = s.nextJob + 1 := by simp [nextJob, hjobs]
    obtain rfl : job = s.nextJob := by omega
    have hget : s'.jobs[s.nextJob]? = some w := by
      rw [hjobs, nextJob, List.getElem?_concat_length]
    have hnot : LoopEntry.invalidated s.nextJob ∉ s.log := by
      intro hmem
      exact absurd (h.known _ hmem) (Nat.lt_irrefl _)
    simp [EventLoop.valid, hget, hw, hnot]

theorem fireTime_made {w : JobWrapper} (hjobs : s'.jobs = s.jobs ++ [w]) {job : Nat}
    {fireTime : Int} (h : s.fireTime job = some fireTime) :
    s'.fireTime job = some fireTime := by
  have hjob : job < s.nextJob := by
    by_contra hge
    have hnone : s.jobs[job]? = none := List.getElem?_eq_none (Nat.le_of_not_lt hge)
    simp [EventLoop.fireTime, hnone] at h
  rw [EventLoop.fireTime, getElem?_made hjobs hjob]
  exact h

/-- A step that adds one entry to the log. -/
theorem Inv.of_concat (h : s.Inv) {e : LoopEntry} (hlog : s'.log = s.log ++ [e])
    (hle : s.nextJob ≤ s'.nextJob) (hjob : e.job < s'.nextJob) (hright : e.Right s.log)
    (hposted : (s.posted ++ e.postedJob.toList).Nodup)
    (hscheduled : (s.scheduled ++ e.scheduledJob.toList).Nodup)
    (honetime : s.onetimeTurns ++ e.onetimeJob.toList ++ s'.onetimeJobs =
      s.posted ++ e.postedJob.toList)
    (htimeout : (s.timeoutTurns ++ e.timeoutJob.toList ++ s'.timeoutJobs).Perm
      (s.scheduled ++ e.scheduledJob.toList))
    (hvalid : ∀ job < s'.nextJob, s'.valid job = true ↔ .invalidated job ∉ s'.log)
    (hfires : ∀ job ∈ s'.timeoutJobs, ∃ fireTime, s'.fireTime job = some fireTime ∧
      .scheduled job fireTime ∈ s'.log) : s'.Inv := by
  have hsplit : ∀ f : LoopEntry → Option Nat,
      s'.log.filterMap f = s.log.filterMap f ++ (f e).toList := by
    intro f
    rw [hlog, List.filterMap_append]
    cases hf : f e <;> simp [hf]
  refine ⟨?_, ?_, ?_, ?_, ?_, hvalid, hfires, ?_⟩
  · intro entry hentry
    rw [hlog] at hentry
    rcases List.mem_append.mp hentry with hold | hnew
    · exact Nat.lt_of_lt_of_le (h.known entry hold) hle
    · obtain rfl := List.mem_singleton.mp hnew
      exact hjob
  · rw [EventLoop.posted, hsplit]
    exact hposted
  · rw [EventLoop.scheduled, hsplit]
    exact hscheduled
  · rw [EventLoop.onetimeTurns, EventLoop.posted, hsplit, hsplit]
    exact honetime
  · rw [EventLoop.timeoutTurns, EventLoop.scheduled, hsplit, hsplit]
    exact htimeout
  · rw [hlog]
    exact turns_concat h.turns hright

/-- A number that is new makes no list of numbers repeat itself. -/
theorem nodup_concat {numbers : List Nat} {n : Nat} (h : numbers.Nodup) (hn : n ∉ numbers) :
    (numbers ++ [n]).Nodup := by
  rw [← List.concat_eq_append]
  exact h.concat hn

/-! What an entry about other jobs leaves as it is. -/

theorem Inv.posted_nil (h : s.Inv) : (s.posted ++ []).Nodup := by
  rw [List.append_nil]
  exact h.postedOnce

theorem Inv.scheduled_nil (h : s.Inv) : (s.scheduled ++ []).Nodup := by
  rw [List.append_nil]
  exact h.scheduledOnce

theorem Inv.onetime_nil (h : s.Inv) :
    s.onetimeTurns ++ [] ++ s.onetimeJobs = s.posted ++ [] := by
  rw [List.append_nil, List.append_nil]
  exact h.onetime

theorem Inv.timeout_nil (h : s.Inv) :
    (s.timeoutTurns ++ [] ++ s.timeoutJobs).Perm (s.scheduled ++ []) := by
  rw [List.append_nil, List.append_nil]
  exact h.timeout

theorem Inv.post (h : s.Inv) : s.post.Inv := by
  have hjobs : s.post.jobs = s.jobs ++ [⟨true, none⟩] := rfl
  have hlen : s.post.nextJob = s.nextJob + 1 := by simp [nextJob, hjobs]
  refine h.of_concat (e := .posted s.nextJob) rfl (by omega) ?_ trivial ?_ h.scheduled_nil ?_
    h.timeout_nil ?_ ?_
  · rw [hlen]
    exact Nat.lt_succ_self _
  · exact nodup_concat h.postedOnce (h.not_mem_of_new fun _ _ => job_of_postedJob)
  · rw [← h.onetime]
    simp [LoopEntry.onetimeJob, LoopEntry.postedJob, EventLoop.post]
  · exact h.valid_made rfl hjobs fun job => by simp [EventLoop.post]
  · intro job hjob
    obtain ⟨fireTime, hfire, hmem⟩ := h.fires job hjob
    exact ⟨fireTime, fireTime_made hjobs hfire, List.mem_append_left _ hmem⟩

theorem Inv.repeatJob (h : s.Inv) : s.repeatJob.Inv := by
  have hjobs : s.repeatJob.jobs = s.jobs ++ [⟨true, none⟩] := rfl
  have hlen : s.repeatJob.nextJob = s.nextJob + 1 := by simp [nextJob, hjobs]
  refine ⟨?_, h.postedOnce, h.scheduledOnce, h.onetime, h.timeout, ?_, ?_, h.turns⟩
  · intro entry hentry
    have hlt := h.known entry hentry
    omega
  · exact h.valid_made rfl hjobs fun job => Iff.rfl
  · intro job hjob
    obtain ⟨fireTime, hfire, hmem⟩ := h.fires job hjob
    exact ⟨fireTime, fireTime_made hjobs hfire, hmem⟩

theorem Inv.setTimeout (h : s.Inv) (now fireTime : Int) :
    (s.setTimeout now fireTime).Inv := by
  have hjobs : (s.setTimeout now fireTime).jobs = s.jobs ++ [⟨true, some fireTime⟩] := rfl
  have hlen : (s.setTimeout now fireTime).nextJob = s.nextJob + 1 := by simp [nextJob, hjobs]
  refine h.of_concat (e := .scheduled s.nextJob fireTime) rfl (by omega) ?_ trivial
    h.posted_nil ?_ h.onetime_nil ?_ ?_ ?_
  · rw [hlen]
    exact Nat.lt_succ_self _
  · exact nodup_concat h.scheduledOnce (h.not_mem_of_new fun _ _ => job_of_scheduledJob)
  · have hperm := h.timeout.append_right [s.nextJob]
    simpa [LoopEntry.timeoutJob, LoopEntry.scheduledJob, EventLoop.setTimeout] using hperm
  · exact h.valid_made rfl hjobs fun job => by simp [EventLoop.setTimeout]
  · intro job hjob
    rcases List.mem_append.mp hjob with hold | hnew
    · obtain ⟨earlier, hfire, hmem⟩ := h.fires job hold
      exact ⟨earlier, fireTime_made hjobs hfire, List.mem_append_left _ hmem⟩
    · obtain rfl := List.mem_singleton.mp hnew
      refine ⟨fireTime, ?_, List.mem_append_right _ (List.mem_singleton.mpr rfl)⟩
      simp [EventLoop.fireTime, hjobs, nextJob]

/-! ### Invalidation -/

theorem valid_invalidate {job : Nat} (hjob : job < s.nextJob) (other : Nat) :
    (s.invalidate job).valid other = true ↔ s.valid other = true ∧ other ≠ job := by
  simp only [EventLoop.valid, EventLoop.invalidate, List.getElem?_modify]
  by_cases heq : job = other
  · subst heq
    have hget := List.getElem?_eq_getElem hjob
    simp [hget]
  · have hne : other ≠ job := fun h => heq h.symm
    simp [heq, hne]

theorem fireTime_invalidate (job other : Nat) :
    (s.invalidate job).fireTime other = s.fireTime other := by
  simp only [EventLoop.fireTime, EventLoop.invalidate, List.getElem?_modify]
  cases s.jobs[other]? with
  | none => rfl
  | some w =>
      by_cases heq : job = other <;> simp [heq]

theorem Inv.invalidate (h : s.Inv) {job : Nat} (hjob : job < s.nextJob) :
    (s.invalidate job).Inv := by
  have hlen : (s.invalidate job).nextJob = s.nextJob := by
    simp [nextJob, EventLoop.invalidate]
  refine h.of_concat (e := .invalidated job) rfl (Nat.le_of_eq hlen.symm) ?_ trivial
    h.posted_nil h.scheduled_nil h.onetime_nil h.timeout_nil ?_ ?_
  · rw [hlen]
    exact hjob
  · intro other hother
    rw [hlen] at hother
    rw [valid_invalidate hjob, h.valid other hother]
    simp [EventLoop.invalidate]
  · intro other hother
    obtain ⟨fireTime, hfire, hmem⟩ := h.fires other hother
    exact ⟨fireTime, (fireTime_invalidate job other).trans hfire, List.mem_append_left _ hmem⟩

/-! ### Turns -/

theorem Inv.callOnetime (h : s.Inv) {job : Nat} {jobs : List Nat}
    (hjobs : s.onetimeJobs = job :: jobs) : (s.callOnetime job jobs).Inv := by
  have hposted : job ∈ s.posted := by
    rw [← h.onetime, hjobs]
    simp
  obtain ⟨entry, hentry, hjob⟩ := List.mem_filterMap.mp hposted
  have hlt : job < s.nextJob := by
    rw [← job_of_postedJob hjob]
    exact h.known entry hentry
  refine h.of_concat (e := .onetimeTurn job (s.valid job)) rfl (Nat.le_refl _) hlt
    (h.valid job hlt) h.posted_nil h.scheduled_nil ?_ h.timeout_nil ?_ ?_
  · rw [← h.onetime, hjobs]
    simp [LoopEntry.onetimeJob, LoopEntry.postedJob, EventLoop.callOnetime]
  · intro other hother
    have hsame : LoopEntry.invalidated other ∈ (s.callOnetime job jobs).log ↔
        .invalidated other ∈ s.log := by simp [EventLoop.callOnetime]
    rw [hsame]
    exact h.valid other hother
  · intro other hother
    obtain ⟨fireTime, hfire, hmem⟩ := h.fires other hother
    exact ⟨fireTime, hfire, List.mem_append_left _ hmem⟩

theorem Inv.callTimeout (h : s.Inv) {now fireTime : Int} {next job : Nat}
    (hget : s.timeoutJobs[next]? = some job) (hfire : s.fireTime job = some fireTime)
    (hdue : fireTime ≤ now) : ({ s with clock := now }.callTimeout next job).Inv := by
  obtain ⟨hnext, hjob⟩ := List.getElem?_eq_some_iff.mp hget
  have hmem : job ∈ s.timeoutJobs := hjob ▸ List.getElem_mem hnext
  obtain ⟨fireTime', hfire', hscheduled⟩ := h.fires job hmem
  obtain rfl : fireTime' = fireTime := by
    rw [hfire] at hfire'
    exact (Option.some.inj hfire').symm
  have hlt : job < s.nextJob := h.known _ hscheduled
  refine h.of_concat (e := .timeoutTurn job now (s.valid job)) rfl (Nat.le_refl _) hlt
    ⟨h.valid job hlt, fireTime', hdue, hscheduled⟩ h.posted_nil h.scheduled_nil h.onetime_nil
    ?_ ?_ ?_
  · have herase := List.getElem_cons_eraseIdx_perm hnext
    rw [hjob] at herase
    have hperm := (herase.append_left s.timeoutTurns).trans h.timeout
    simpa [LoopEntry.timeoutJob, LoopEntry.scheduledJob, EventLoop.callTimeout] using hperm
  · intro other hother
    have hsame : LoopEntry.invalidated other ∈ ({ s with clock := now }.callTimeout next job).log ↔
        .invalidated other ∈ s.log := by simp [EventLoop.callTimeout]
    rw [hsame]
    exact h.valid other hother
  · intro other hother
    obtain ⟨fireTime, hfire, hmem⟩ := h.fires other (List.mem_of_mem_eraseIdx hother)
    exact ⟨fireTime, hfire, List.mem_append_left _ hmem⟩

/-! ### Every step -/

theorem Inv.of_core (h : s.Inv) (hcore : s'.core = s.core) : s'.Inv := by
  obtain ⟨hjobs, hrest⟩ := Prod.mk.inj hcore
  obtain ⟨honetime, hrest⟩ := Prod.mk.inj hrest
  obtain ⟨htimeouts, hlog⟩ := Prod.mk.inj hrest
  obtain ⟨max, jobs, onetimeJobs, repeatedJobs, timeoutJobs, events, place, calling, clock,
    log⟩ := s'
  simp only at hjobs honetime htimeouts hlog
  subst hjobs honetime htimeouts hlog
  exact ⟨h.known, h.postedOnce, h.scheduledOnce, h.onetime, h.timeout, h.valid, h.fires,
    h.turns⟩

theorem Inv.step {a : Action} (h : s.Inv) (htaken : s.step a = some s') : s'.Inv := by
  cases step_change htaken with
  | quiet hcore => exact h.of_core hcore
  | post => exact h.post
  | repeatJob => exact h.repeatJob
  | setTimeout now fireTime => exact h.setTimeout now fireTime
  | invalidate hjob => exact h.invalidate hjob
  | callOnetime hjobs => exact h.callOnetime hjobs
  | callTimeout hget hfire hdue => exact h.callTimeout hget hfire hdue

/-! ## What follows for the bodies -/

/-- The one-time jobs whose bodies were called, in this order. -/
def ranOnetime (s : EventLoop) : List Nat := s.log.filterMap LoopEntry.onetimeBody

/-- The timeout jobs whose bodies were called. -/
def ranTimeout (s : EventLoop) : List Nat := s.log.filterMap LoopEntry.timeoutBody

/-- What the loop owes to its jobs.  It is stated of the record and the queues, whatever the
bodies ask for and whenever they throw. -/
structure Orderly (s : EventLoop) : Prop where
  /-- no body of a one-time job is called twice -/
  onetimeOnce : s.ranOnetime.Nodup
  /-- they are called in the order in which the jobs were posted -/
  onetimeOrder : s.ranOnetime.Sublist s.posted
  /-- on its turn a one-time job has left the queue, and runs if it is valid then -/
  onetimeTurn : ∀ before job ran after, s.log = before ++ .onetimeTurn job ran :: after →
    job ∉ s.onetimeJobs ∧ (ran = true ↔ .invalidated job ∉ before)
  /-- with an empty queue every job posted has had its turn -/
  drained : s.onetimeJobs = [] → ∀ job ∈ s.posted, ∃ before ran after,
    s.log = before ++ .onetimeTurn job ran :: after
  /-- no body of a timeout job is called twice -/
  timeoutOnce : s.ranTimeout.Nodup
  /-- on its turn a timeout job is due and has left the list, and runs if it is valid then -/
  timeoutTurn : ∀ before job now ran after, s.log = before ++ .timeoutTurn job now ran :: after →
    job ∉ s.timeoutJobs ∧ (ran = true ↔ .invalidated job ∉ before) ∧
      ∃ fireTime ≤ now, .scheduled job fireTime ∈ before
  /-- a timeout job without a turn is in the list -/
  timeoutKept : ∀ job ∈ s.scheduled, job ∈ s.timeoutJobs ∨ ∃ before now ran after,
    s.log = before ++ .timeoutTurn job now ran :: after

/-- A function that gives less gives a part of the list. -/
theorem filterMap_sublist {f g : LoopEntry → Option Nat}
    (h : ∀ entry job, f entry = some job → g entry = some job) (log : List LoopEntry) :
    (log.filterMap f).Sublist (log.filterMap g) := by
  induction log with
  | nil => exact .slnil
  | cons entry log ih =>
      cases hf : f entry with
      | some job =>
          rw [List.filterMap_cons_some hf, List.filterMap_cons_some (h entry job hf)]
          exact ih.cons_cons job
      | none =>
          rw [List.filterMap_cons_none hf]
          cases hg : g entry with
          | some job =>
              rw [List.filterMap_cons_some hg]
              exact ih.cons job
          | none =>
              rw [List.filterMap_cons_none hg]
              exact ih

theorem ranOnetime_sublist (s : EventLoop) : s.ranOnetime.Sublist s.onetimeTurns := by
  apply filterMap_sublist
  intro entry job h
  cases entry with
  | onetimeTurn other ran =>
      cases ran with
      | false => cases h
      | true => exact h
  | posted | scheduled | invalidated | timeoutTurn => cases h

theorem ranTimeout_sublist (s : EventLoop) : s.ranTimeout.Sublist s.timeoutTurns := by
  apply filterMap_sublist
  intro entry job h
  cases entry with
  | timeoutTurn other now ran =>
      cases ran with
      | false => cases h
      | true => exact h
  | posted | scheduled | invalidated | onetimeTurn => cases h

theorem exists_onetimeTurn {job : Nat} (h : job ∈ s.onetimeTurns) :
    ∃ before ran after, s.log = before ++ .onetimeTurn job ran :: after := by
  obtain ⟨entry, hentry, hjob⟩ := List.mem_filterMap.mp h
  obtain ⟨before, after, hsplit⟩ := List.append_of_mem hentry
  cases entry <;> cases hjob
  exact ⟨before, _, after, hsplit⟩

theorem exists_timeoutTurn {job : Nat} (h : job ∈ s.timeoutTurns) :
    ∃ before now ran after, s.log = before ++ .timeoutTurn job now ran :: after := by
  obtain ⟨entry, hentry, hjob⟩ := List.mem_filterMap.mp h
  obtain ⟨before, after, hsplit⟩ := List.append_of_mem hentry
  cases entry <;> cases hjob
  exact ⟨before, _, _, after, hsplit⟩

theorem Inv.orderly (h : s.Inv) : s.Orderly := by
  have honetime : (s.onetimeTurns ++ s.onetimeJobs).Nodup := by
    rw [h.onetime]
    exact h.postedOnce
  have htimeout : (s.timeoutTurns ++ s.timeoutJobs).Nodup :=
    h.timeout.nodup_iff.mpr h.scheduledOnce
  refine ⟨?_, ?_, ?_, ?_, ?_, ?_, ?_⟩
  · exact s.ranOnetime_sublist.nodup (List.nodup_append.mp honetime).1
  · rw [← h.onetime]
    exact s.ranOnetime_sublist.trans (List.sublist_append_left _ _)
  · intro before job ran after hsplit
    refine ⟨fun hmem => ?_, h.turns before _ after hsplit⟩
    have hturn : job ∈ s.onetimeTurns := by
      rw [onetimeTurns, hsplit]
      simp [LoopEntry.onetimeJob]
    exact (List.nodup_append.mp honetime).2.2 job hturn job hmem rfl
  · intro hempty job hjob
    rw [← h.onetime, hempty, List.append_nil] at hjob
    exact exists_onetimeTurn hjob
  · exact s.ranTimeout_sublist.nodup (List.nodup_append.mp htimeout).1
  · intro before job now ran after hsplit
    refine ⟨fun hmem => ?_, h.turns before _ after hsplit⟩
    have hturn : job ∈ s.timeoutTurns := by
      rw [timeoutTurns, hsplit]
      simp [LoopEntry.timeoutJob]
    exact (List.nodup_append.mp htimeout).2.2 job hturn job hmem rfl
  · intro job hjob
    rcases List.mem_append.mp (h.timeout.mem_iff.mpr hjob) with hturn | hlist
    · exact Or.inr (exists_timeoutTurn hturn)
    · exact Or.inl hlist

/-- An exception leaves the jobs, their queues and the log as they are, and the loop goes on
as behind a body that returns. -/
theorem threw_spec (htaken : s.step .threw = some s') :
    s.step .returned = some s' ∧ s'.core = s.core ∧ s'.repeatedJobs = s.repeatedJobs ∧
      s'.events = s.events := by
  refine ⟨htaken, ?_⟩
  simp only [step] at htaken
  split at htaken
  · obtain rfl := Option.some.inj htaken
    refine ⟨core_advance s, ?_⟩
    unfold advance
    split <;> exact ⟨rfl, rfl⟩
  · cases htaken

theorem inv_of_reachable {maxUnqueueEvents : Nat}
    (h : (machine maxUnqueueEvents).Reachable Anything s) : s.Inv :=
  h.invariant (I := Inv) (inv_make maxUnqueueEvents) fun _ _ _ _ hs _ htaken => hs.step htaken

/-- **The event loop.**  Whatever the bodies do, the loop is orderly in every state, and an
exception of one body changes nothing for any job: the step in which a body throws is the one
in which it returns. -/
theorem orderly_of_reachable {maxUnqueueEvents : Nat}
    (h : (machine maxUnqueueEvents).Reachable Anything s) :
    s.Orderly ∧ ∀ s', s.step .threw = some s' → s.step .returned = some s' ∧
      s'.core = s.core ∧ s'.repeatedJobs = s.repeatedJobs ∧ s'.events = s.events :=
  ⟨(inv_of_reachable h).orderly, fun _ htaken => threw_spec htaken⟩

/-- A one-time job schedules a timeout, posts two jobs, invalidates the first of them and
throws; the loop goes on until the timeout has been called. -/
def busy : List Action :=
  [.request .post, .proceed 0, .proceed 0, .request (.setTimeout 5 10 10000005),
    .request .post, .request .post, .request (.invalidate 2), .threw, .proceed 0, .proceed 0,
    .returned, .proceed 0, .proceed 0, .proceed 10000005]

theorem orderly_of_reachable_busy :
    let run := (machine 0).run Anything (machine 0).init busy
    ∃ h : run.isSome, (run.get h).Orderly ∧ ∀ s', (run.get h).step .threw = some s' →
      (run.get h).step .returned = some s' ∧ s'.core = (run.get h).core ∧
        s'.repeatedJobs = (run.get h).repeatedJobs ∧ s'.events = (run.get h).events :=
  ⟨by decide +kernel, orderly_of_reachable (Machine.reachable_of_run (by decide +kernel))⟩

-- the jobs 0 and 3 run and 2 does not; the timeout 1 is called 10 ms behind 5
example : ((machine 0).run Anything (machine 0).init busy).map
    (fun s => (s.ranOnetime, s.ranTimeout, s.onetimeJobs, s.timeoutJobs)) =
      some ([0, 3], [1], [], []) := by decide +kernel

end EventLoop

end BuildYourOwnRedis
