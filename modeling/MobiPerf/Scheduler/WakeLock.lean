import MobiPerf.Lib.RefCount
import MobiPerf.Scheduler.Execution

/-!
# Scheduler.WakeLock — who keeps the phone awake

A check-in takes the wake lock on the main thread, before it starts its thread,
and gives it back at the end of that thread; a measurement's wrapper takes it and
gives it back on the executor's thread. Each of these is two operations: the
singleton is fetched (`PhoneUtils.getPhoneUtils`), then its lock is used. Between
them the service may shut down, which frees the lock and drops the singleton, so
that `getPhoneUtils` throws until an `OmniperfApp.onCreate`. The system calls that
once in a process, and kills one in which it threw; the runs here may also call it
again in the old process, with what is still under way there.

* `lockKept_runs`: the lock is held while a check-in or the body of a measurement is in
  progress, and is free when no check-in is and no wrapper is between its acquire and its
  release, in the runs where no shut-down comes between a wrapper's `getPhoneUtils` and
  the start of its body, where nothing that took the old lock outlives an `onCreate`, and
  where the last broadcast of a `UserMeasurementTask` does not throw while it has the lock.
* `not_lockExact_acquired`: a wrapper has the lock for longer than its body runs.
-/

namespace MobiPerf.Scheduler

open Lib

/-! ## PhoneUtils -/

/-- The static fields of `PhoneUtils`, and the field `wakeLock` of each of its
objects. An object is named by how many were made before it. -/
structure PhoneUtils where
  globalContext : Bool
  singletonPhoneUtils : Option ℕ
  made : ℕ
  wakeLock : ℕ → Option RefLock

namespace PhoneUtils

/-- `getPhoneUtils`: without a context the constructor throws. -/
def getPhoneUtils (p : PhoneUtils) : Option (ℕ × PhoneUtils) :=
  match p.singletonPhoneUtils with
  | some object => some (object, p)
  | none =>
    if p.globalContext then
      some (p.made, { p with singletonPhoneUtils := some p.made, made := p.made + 1 })
    else none

def setGlobalContext (p : PhoneUtils) : PhoneUtils :=
  { p with globalContext := true }

def acquireWakeLock (object : ℕ) (p : PhoneUtils) : PhoneUtils :=
  { p with
    wakeLock := Function.update p.wakeLock object
      (some ((p.wakeLock object).getD .new).acquire) }

/-- `releaseWakeLock`, which catches what an under-locked `release` throws. -/
def releaseWakeLock (object : ℕ) (p : PhoneUtils) : PhoneUtils :=
  { p with
    wakeLock := Function.update p.wakeLock object ((p.wakeLock object).map .release) }

def shutDown (object : ℕ) (p : PhoneUtils) : PhoneUtils :=
  { p with
    wakeLock := Function.update p.wakeLock object
      ((p.wakeLock object).map fun lock => (lock.setReferenceCounted false).release)
    -- `releaseGlobalContext`
    globalContext := false
    singletonPhoneUtils := none }

end PhoneUtils

/-! ## Check-ins and measurements -/

/-- What takes the wake lock. -/
inductive Work where
  | checkin
  | measurement (wrapper : Wrapper)
deriving DecidableEq, Repr

/-- `CheckinTask.run`, from its `try` on: whatever that does, the `finally` is next. -/
def CheckinTask.run (pc : CallPc) (io : CallIo) : Option CallPc :=
  match pc with
  | .body => io.goto .releaseWakeLock .releaseWakeLock
  | .releaseWakeLock => io.goto .ended .ended
  | _ => none

def Work.call : Work → CallPc → CallIo → Option CallPc
  | .checkin => CheckinTask.run
  | .measurement wrapper => wrapper.call

/-- From the acquire on, until the release. -/
def Work.inside (work : Work) (pc : CallPc) : Bool :=
  match work, pc with
  | .checkin, .body | .checkin, .releaseWakeLock => true
  | .checkin, _ => false
  | .measurement _, .announce | .measurement _, .acquireWakeLock => false
  | .measurement _, .announceDone | .measurement _, .persistState => false
  | .measurement _, .ended => false
  -- here a `PowerAwareTask` has given the lock back already
  | .measurement .powerAwareTask, .clearCurrentTask => false
  | .measurement _, _ => true

/-- A check-in or a wrapper's call under way: what `getPhoneUtils` has returned to
the operation it is at, and how many shut-downs there had been when it took the lock
and when its body started. -/
structure Job where
  work : Work
  pc : CallPc
  phoneUtils : Option ℕ
  locked : Option ℕ
  started : Option ℕ
deriving DecidableEq, Repr

namespace Job

/-- The wrapper's call, about to begin. -/
def begin (wrapper : Wrapper) : Job where
  work := .measurement wrapper
  pc := .announce
  phoneUtils := none
  locked := none
  started := none

/-- The thread of a check-in, for which `handleCheckin` has taken the lock. -/
def checkin (shutDowns : ℕ) : Job where
  work := .checkin
  pc := .body
  phoneUtils := none
  locked := some shutDowns
  started := some shutDowns

def inside (j : Job) : Bool := j.work.inside j.pc

/-- The job goes on at `pc`. -/
def goOn (shutDowns : ℕ) (pc : CallPc) (j : Job) : Job :=
  { j with
    pc
    phoneUtils := none
    started := if pc = .body then some shutDowns else j.started }

/-- A check-in, up to the end of its `finally`, or the body of a measurement, that was
started since the last shut-down. -/
def InProgress (shutDowns : ℕ) (j : Job) : Prop :=
  (j.pc = .body ∨ j.work = .checkin ∧ j.pc = .releaseWakeLock) ∧ j.started = some shutDowns

/-- It has taken the lock since the last shut-down, and has not come past its release. -/
def UnderWay (shutDowns : ℕ) (j : Job) : Prop :=
  j.inside = true ∧ j.locked = some shutDowns

end Job

/-! ## The phone -/

/-- `app` is the object that `OmniperfApp` keeps, on which the service shuts down. -/
structure Phone where
  utils : PhoneUtils
  app : ℕ
  shutDowns : ℕ
  jobs : List Job

inductive PhoneLabel where
  /-- `OmniperfApp.onCreate` -/
  | onCreate
  /-- the last part of `handleCheckin`, on the main thread -/
  | handleCheckin
  /-- the executor begins a wrapper's call -/
  | begin (wrapper : Wrapper)
  | getPhoneUtils (i : ℕ)
  | useWakeLock (i : ℕ)
  /-- any other operation -/
  | call (i : ℕ) (io : CallIo)
  /-- the service's `cleanUp`, on the main thread -/
  | shutDown
  /-- the process dies, and a new one comes up -/
  | process

namespace Phone

/-- A new process, after `OmniperfApp.onCreate`. -/
def created : Phone where
  utils := ⟨true, some 0, 1, fun _ => none⟩
  app := 0
  shutDowns := 0
  jobs := []

/-- Whether the job is at an operation on the wake lock. -/
def atWakeLock (j : Job) : Bool :=
  j.pc = .acquireWakeLock || j.pc = .releaseWakeLock

def step (label : PhoneLabel) (s : Phone) : Option Phone :=
  match label with
  | .onCreate =>
    if s.utils.singletonPhoneUtils = none then
      s.utils.setGlobalContext.getPhoneUtils.map fun (object, utils) =>
        { s with utils, app := object }
    else none
  | .handleCheckin =>
    s.utils.getPhoneUtils.map fun (object, utils) =>
      { s with
        utils := utils.acquireWakeLock object
        jobs := s.jobs ++ [.checkin s.shutDowns] }
  | .begin wrapper => some { s with jobs := s.jobs ++ [.begin wrapper] }
  | .getPhoneUtils i =>
    match s.jobs[i]? with
    | none => none
    | some j =>
      if atWakeLock j ∧ j.phoneUtils = none then
        match s.utils.getPhoneUtils with
        | some (object, utils) =>
          some { s with utils, jobs := s.jobs.set i { j with phoneUtils := some object } }
        | none =>
          (j.work.call j.pc .threw).map fun pc =>
            { s with jobs := s.jobs.set i (j.goOn s.shutDowns pc) }
      else none
  | .useWakeLock i =>
    match s.jobs[i]? with
    | none => none
    | some j =>
      match j.pc, j.phoneUtils with
      | .acquireWakeLock, some object =>
        (j.work.call j.pc .returned).map fun pc =>
          { s with
            utils := s.utils.acquireWakeLock object
            jobs := s.jobs.set i { j.goOn s.shutDowns pc with locked := some s.shutDowns } }
      | .releaseWakeLock, some object =>
        (j.work.call j.pc .returned).map fun pc =>
          { s with
            utils := s.utils.releaseWakeLock object
            jobs := s.jobs.set i (j.goOn s.shutDowns pc) }
      | _, _ => none
  | .call i io =>
    match s.jobs[i]? with
    | none => none
    | some j =>
      if atWakeLock j then none
      else
        (j.work.call j.pc io).map fun pc =>
          { s with jobs := s.jobs.set i (j.goOn s.shutDowns pc) }
  | .shutDown =>
    -- the service lives only after a `getPhoneUtils` in its `onCreate`
    if s.utils.globalContext then
      some { s with utils := s.utils.shutDown s.app, shutDowns := s.shutDowns + 1 }
    else none
  | .process => some created

end Phone

/-- The interleavings of check-ins, measurements, shut-downs and restarts. -/
def phones : System Phone PhoneLabel where
  Init s := s = Phone.created
  step := Phone.step

/-- The lock of the singleton is held. -/
def Phone.Held (s : Phone) : Prop :=
  ∃ object lock, s.utils.singletonPhoneUtils = some object ∧
    s.utils.wakeLock object = some lock ∧ lock.held = true

/-- No lock is held. -/
def Phone.Free (s : Phone) : Prop :=
  ∀ object lock, s.utils.wakeLock object = some lock → lock.held = false

/-- The lock is held exactly while a check-in or the body of a measurement is in progress. -/
structure Phone.LockExact (s : Phone) : Prop where
  held : (∃ j ∈ s.jobs, j.InProgress s.shutDowns) → s.Held
  free : (∀ j ∈ s.jobs, ¬ j.InProgress s.shutDowns) → s.Free

/-- The lock is held while a check-in or the body of a measurement is in progress, and
free when no check-in is and no wrapper is between its acquire and its release. -/
structure Phone.LockKept (s : Phone) : Prop where
  held : (∃ j ∈ s.jobs, j.InProgress s.shutDowns) → s.Held
  free : (∀ j ∈ s.jobs, ¬ j.UnderWay s.shutDowns) → s.Free

/-- No shut-down comes between the `getPhoneUtils` of a wrapper and the start of its
body, nothing inside outlives an `onCreate`, and the last broadcast of a
`UserMeasurementTask` returns if it has the lock. -/
def Phone.Orderly (label : PhoneLabel) (s : Phone) : Prop :=
  match label with
  | .onCreate => ∀ j ∈ s.jobs, j.inside = false
  | .useWakeLock i => ∀ j ∈ s.jobs[i]?,
    j.pc = .acquireWakeLock → j.phoneUtils = s.utils.singletonPhoneUtils
  | .call i io => ∀ j ∈ s.jobs[i]?,
    (j.pc = .callTask → io = .returned → j.locked = some s.shutDowns) ∧
    (j.work = .measurement .userMeasurementTask → j.pc = .broadcastMeasurementEnd →
      j.locked = some s.shutDowns → io = .returned)
  | _ => True

instance (label : PhoneLabel) (s : Phone) : Decidable (Phone.Orderly label s) :=
  match label with
  | .onCreate => inferInstanceAs (Decidable (∀ j ∈ s.jobs, j.inside = false))
  | .useWakeLock i => inferInstanceAs (Decidable (∀ j ∈ s.jobs[i]?,
      j.pc = .acquireWakeLock → j.phoneUtils = s.utils.singletonPhoneUtils))
  | .call i io => inferInstanceAs (Decidable (∀ j ∈ s.jobs[i]?,
      (j.pc = .callTask → io = .returned → j.locked = some s.shutDowns) ∧
      (j.work = .measurement .userMeasurementTask → j.pc = .broadcastMeasurementEnd →
        j.locked = some s.shutDowns → io = .returned)))
  | .handleCheckin | .begin _ | .getPhoneUtils _ | .shutDown | .process =>
    inferInstanceAs (Decidable True)

/-! ## The calls -/

section Calls

variable {work : Work} {pc pc' : CallPc} {io : CallIo}

/-- Between the two operations on the lock a call stays inside, but for the last
broadcast of a `UserMeasurementTask`. -/
theorem Work.call_inside (h : work.call pc io = some pc') (hacquire : pc ≠ .acquireWakeLock)
    (hrelease : pc ≠ .releaseWakeLock) :
    work.inside pc' = work.inside pc ∨
      (work = .measurement .userMeasurementTask ∧ pc = .broadcastMeasurementEnd ∧
        io ≠ .returned ∧ work.inside pc' = false) := by
  cases work with
  | checkin => cases pc <;> cases io <;> cases h <;> first | exact .inl rfl | contradiction
  | measurement wrapper =>
    cases wrapper <;> cases pc <;> cases io <;> cases h <;>
      first
      | contradiction
      | exact .inl rfl
      | exact .inr ⟨rfl, rfl, nofun, rfl⟩
      | (split <;> exact .inl rfl)

/-- The acquire leads inside, and not yet to the body. -/
theorem Work.call_acquire (h : work.call .acquireWakeLock io = some pc') :
    work.inside pc' = true ∧ pc' ≠ .body := by
  cases work with
  | checkin => cases h
  | measurement wrapper => cases wrapper <;> cases io <;> cases h <;> exact ⟨rfl, nofun⟩

/-- After its release a job is not inside any more, and does not begin again. -/
theorem Work.call_release (h : work.call .releaseWakeLock io = some pc') :
    work.inside pc' = false ∧ pc' ≠ .announce ∧ pc' ≠ .acquireWakeLock := by
  cases work with
  | checkin => cases io <;> cases h <;> exact ⟨rfl, nofun, nofun⟩
  | measurement wrapper =>
    cases wrapper <;> cases io <;> cases h <;> exact ⟨rfl, nofun, nofun⟩

/-- A body is started by `callTask` only, and only the announcement comes before the
acquire. -/
theorem Work.call_origin (h : work.call pc io = some pc') :
    (pc' = .body → pc = .callTask ∧ io = .returned) ∧
      (pc' = .announce ∨ pc' = .acquireWakeLock → pc = .announce) := by
  cases work with
  | checkin => cases pc <;> cases io <;> cases h <;> simp
  | measurement wrapper =>
    cases wrapper <;> cases pc <;> cases io <;> cases h <;>
      first
      | (split <;> simp)
      | simp

/-- The body is entered from `callTask` only. -/
theorem Work.call_body (h : work.call pc io = some .body) : pc = .callTask ∧ io = .returned :=
  (call_origin h).1 rfl

/-- The operations before the acquisition come first. -/
theorem Work.call_before (h : work.call pc io = some pc')
    (hpc' : pc' = .announce ∨ pc' = .acquireWakeLock) : pc = .announce :=
  (call_origin h).2 hpc'

/-- A check-in comes to its `finally` from its body. -/
theorem Work.call_finally (h : Work.checkin.call pc io = some .releaseWakeLock) : pc = .body := by
  cases pc <;> cases io <;> cases h <;> rfl

/-- A job that is about to acquire does not hold the lock. -/
theorem Work.inside_acquireWakeLock (work : Work) : work.inside .acquireWakeLock = false := by
  cases work <;> rfl

/-- A job that is about to release still holds it. -/
theorem Work.inside_releaseWakeLock (work : Work) : work.inside .releaseWakeLock = true := by
  rcases work with _ | _ | _ <;> rfl

end Calls

/-! ## One job -/

/-- What every orderly run keeps of a job: while there is a singleton, whatever is
inside has taken its lock, and what is about to release has fetched it. -/
structure Job.Sound (singleton : Option ℕ) (shutDowns : ℕ) (j : Job) : Prop where
  before : j.pc = .announce ∨ j.pc = .acquireWakeLock → j.locked = none
  inside : j.inside = true → singleton ≠ none → j.locked = some shutDowns
  there : j.UnderWay shutDowns → singleton ≠ none
  fetched : j.pc = .releaseWakeLock → ∀ object, j.phoneUtils = some object →
    singleton = none ∨ singleton = some object
  progress : j.InProgress shutDowns → j.locked = some shutDowns
  locked_le : ∀ n, j.locked = some n → n ≤ shutDowns
  started_le : ∀ n, j.started = some n → n ≤ shutDowns

namespace Job

variable {j : Job} {singleton : Option ℕ} {shutDowns object : ℕ} {pc : CallPc} {io : CallIo}

@[simp] theorem goOn_pc : (j.goOn shutDowns pc).pc = pc := rfl
@[simp] theorem goOn_work : (j.goOn shutDowns pc).work = j.work := rfl
@[simp] theorem goOn_locked : (j.goOn shutDowns pc).locked = j.locked := rfl
@[simp] theorem goOn_phoneUtils : (j.goOn shutDowns pc).phoneUtils = none := rfl
@[simp] theorem goOn_inside : (j.goOn shutDowns pc).inside = j.work.inside pc := rfl

/-- Only the body's start is recorded. -/
theorem goOn_started_of_ne (h : pc ≠ .body) : (j.goOn shutDowns pc).started = j.started :=
  if_neg h

/-- What is in progress after an operation was so before, or its body starts here. -/
theorem inProgress_goOn (hcall : j.work.call j.pc io = some pc)
    (h : (j.goOn shutDowns pc).InProgress shutDowns) :
    j.pc = .body ∧ j.InProgress shutDowns ∨ j.pc = .callTask ∧ io = .returned := by
  rcases h with ⟨hbody | ⟨hwork, hpc⟩, hstarted⟩
  · rw [goOn_pc] at hbody
    subst hbody
    exact .inr (Work.call_body hcall)
  · rw [goOn_work] at hwork
    rw [goOn_pc] at hpc
    subst hpc
    rw [goOn_started_of_ne (by decide)] at hstarted
    rw [hwork] at hcall
    have hbody := Work.call_finally hcall
    exact .inl ⟨hbody, .inl hbody, hstarted⟩

/-- A wrapper that begins holds nothing. -/
theorem begin_sound (wrapper : Wrapper) : (Job.begin wrapper).Sound singleton shutDowns where
  before _ := rfl
  inside h := by cases h
  there h := by cases h.1
  fetched h := by cases h
  progress h := by rcases h.1 with h | ⟨-, h⟩ <;> cases h
  locked_le n h := by cases h
  started_le n h := by cases h

/-- A check-in begins inside, with the lock that `handleCheckin` has acquired. -/
theorem checkin_sound (h : singleton ≠ none) : (checkin shutDowns).Sound singleton shutDowns where
  before h := by rcases h with h | h <;> cases h
  inside _ _ := rfl
  there _ := h
  fetched h := by cases h
  progress _ := rfl
  locked_le n h := by cases h; exact le_rfl
  started_le n h := by cases h; exact le_rfl

namespace Sound

/-- No body starts after more shut-downs than there were. -/
theorem started_le_goOn (h : j.Sound singleton shutDowns) :
    ∀ n, (j.goOn shutDowns pc).started = some n → n ≤ shutDowns := by
  intro n hn
  by_cases hpc : pc = .body
  · rw [show (j.goOn shutDowns pc).started = some shutDowns from if_pos hpc] at hn
    cases hn
    exact le_rfl
  · rw [goOn_started_of_ne hpc] at hn
    exact h.started_le n hn

/-- An operation that is not on the lock. -/
theorem goOn (h : j.Sound singleton shutDowns) (hcall : j.work.call j.pc io = some pc)
    (hacquire : j.pc ≠ .acquireWakeLock) (hrelease : j.pc ≠ .releaseWakeLock)
    (hbody : j.pc = .callTask → io = .returned → j.locked = some shutDowns) :
    (j.goOn shutDowns pc).Sound singleton shutDowns where
  before hpc := h.before (.inl (Work.call_before hcall hpc))
  inside hin hs := by
    rcases Work.call_inside hcall hacquire hrelease with heq | ⟨-, -, -, hout⟩
    · exact h.inside (heq.symm.trans hin) hs
    · exact absurd (hout ▸ hin) Bool.false_ne_true
  there hin := by
    rcases Work.call_inside hcall hacquire hrelease with heq | ⟨-, -, -, hout⟩
    · exact h.there ⟨heq.symm.trans hin.1, hin.2⟩
    · exact absurd (hout ▸ hin.1) Bool.false_ne_true
  fetched _ object hobject := by cases hobject
  progress hprogress := by
    rcases inProgress_goOn hcall hprogress with ⟨-, hbefore⟩ | ⟨hat, hio⟩
    · exact h.progress hbefore
    · exact hbody hat hio
  locked_le := h.locked_le
  started_le := h.started_le_goOn

/-- While there is a singleton, it neither takes the lock nor leaves it behind. -/
theorem goOn_inside (h : j.Sound singleton shutDowns) (hcall : j.work.call j.pc io = some pc)
    (hacquire : j.pc ≠ .acquireWakeLock) (hrelease : j.pc ≠ .releaseWakeLock)
    (hend : j.work = .measurement .userMeasurementTask → j.pc = .broadcastMeasurementEnd →
      j.locked = some shutDowns → io = .returned) (hs : singleton ≠ none) :
    (j.goOn shutDowns pc).inside = j.inside := by
  rcases Work.call_inside hcall hacquire hrelease with heq | ⟨hwork, hpc, hio, -⟩
  · exact heq
  · have hin : j.inside = true := by
      unfold Job.inside
      rw [hwork, hpc]
      rfl
    exact absurd (hend hwork hpc (h.inside hin hs)) hio

/-- A job that has fetched the singleton has the one there is. -/
theorem fetch (h : j.Sound (some object) shutDowns) :
    Job.Sound (some object) shutDowns { j with phoneUtils := some object } where
  before := h.before
  inside := h.inside
  there := h.there
  fetched _ _ hobject := .inr hobject
  progress := h.progress
  locked_le := h.locked_le
  started_le := h.started_le

/-- The singleton is gone when it is asked for. -/
theorem goOn_threw (h : j.Sound none shutDowns) (hat : Phone.atWakeLock j = true)
    (hcall : j.work.call j.pc .threw = some pc) :
    (j.goOn shutDowns pc).Sound none shutDowns := by
  have hpc : j.pc = .acquireWakeLock ∨ j.pc = .releaseWakeLock := by
    simpa [Phone.atWakeLock] using hat
  refine ⟨?_, fun _ hs => absurd rfl hs, ?_, fun _ _ hobject => (nomatch hobject), ?_,
    h.locked_le, h.started_le_goOn⟩
  · intro hbefore
    have hpc' := Work.call_before hcall hbefore
    rcases hpc with hpc | hpc <;> rw [hpc] at hpc' <;> cases hpc'
  · rintro ⟨hin, hlocked⟩
    rcases hpc with hpc | hpc
    · rw [goOn_locked, h.before (.inr hpc)] at hlocked
      cases hlocked
    · rw [hpc] at hcall
      rw [Job.goOn_inside, (Work.call_release hcall).1] at hin
      cases hin
  · intro hprogress
    rcases inProgress_goOn hcall hprogress with ⟨hbody, -⟩ | ⟨-, hio⟩
    · rcases hpc with hpc | hpc <;> rw [hpc] at hbody <;> cases hbody
    · cases hio

/-- A job that has acquired holds the lock of the singleton. -/
theorem acquire (h : j.Sound singleton shutDowns) (hpc : j.pc = .acquireWakeLock)
    (hcall : j.work.call j.pc io = some pc) (hs : singleton ≠ none) :
    Job.Sound singleton shutDowns { j.goOn shutDowns pc with locked := some shutDowns } where
  before hbefore := by
    have hpc' := Work.call_before hcall hbefore
    rw [hpc] at hpc'
    cases hpc'
  inside _ _ := rfl
  there _ := hs
  fetched _ object hobject := by cases hobject
  progress _ := rfl
  locked_le n hn := by
    cases hn
    exact le_rfl
  started_le := h.started_le_goOn

/-- A job that has released holds nothing. -/
theorem release (h : j.Sound singleton shutDowns) (hpc : j.pc = .releaseWakeLock)
    (hcall : j.work.call j.pc io = some pc) :
    (j.goOn shutDowns pc).Sound singleton shutDowns := by
  have hnot : ¬ (j.goOn shutDowns pc).InProgress shutDowns := by
    intro hprogress
    rcases inProgress_goOn hcall hprogress with ⟨hbody, -⟩ | ⟨hbody, -⟩
    · rw [hpc] at hbody
      cases hbody
    · rw [hpc] at hbody
      cases hbody
  rw [hpc] at hcall
  rcases Work.call_release hcall with ⟨hout, hannounce, hacquire⟩
  refine ⟨?_, ?_, ?_, fun _ _ hobject => (nomatch hobject), ?_, h.locked_le, h.started_le_goOn⟩
  · rintro (hpc' | hpc')
    · exact absurd hpc' hannounce
    · exact absurd hpc' hacquire
  · intro hin
    exact absurd (hout ▸ hin) Bool.false_ne_true
  · rintro ⟨hin, -⟩
    exact absurd (hout ▸ hin) Bool.false_ne_true
  · exact fun hprogress => absurd hprogress hnot

/-- After a shut-down, nothing has taken the lock since. -/
theorem shutDown (h : j.Sound singleton shutDowns) : j.Sound none (shutDowns + 1) where
  before := h.before
  inside _ hs := absurd rfl hs
  there hin := absurd (h.locked_le _ hin.2) (Nat.not_succ_le_self _)
  fetched _ _ _ := .inl rfl
  progress hprogress := absurd (h.started_le _ hprogress.2) (Nat.not_succ_le_self _)
  locked_le n hn := Nat.le_succ_of_le (h.locked_le n hn)
  started_le n hn := Nat.le_succ_of_le (h.started_le n hn)

/-- What is outside outlives a restart. -/
theorem onCreate (h : j.Sound none shutDowns) (hout : j.inside = false) :
    j.Sound (some object) shutDowns where
  before := h.before
  inside hin := absurd (hout ▸ hin) Bool.false_ne_true
  there _ := by simp
  fetched hpc := by
    have hin : j.inside = true := by
      unfold Job.inside
      rw [hpc]
      exact Work.inside_releaseWakeLock _
    exact absurd (hout ▸ hin) Bool.false_ne_true
  progress := h.progress
  locked_le := h.locked_le
  started_le := h.started_le

end Sound

end Job

/-! ## The phone's steps -/

namespace PhoneUtils

variable {p : PhoneUtils} {object other : ℕ}

/-- The lock of an object; a new one when it has not been used. -/
def lock (p : PhoneUtils) (object : ℕ) : RefLock := (p.wakeLock object).getD .new

/-- The singleton that is there is returned. -/
theorem getPhoneUtils_of_some (h : p.singletonPhoneUtils = some object) :
    p.getPhoneUtils = some (object, p) := by
  simp [getPhoneUtils, h]

/-- Without a context none is made. -/
theorem getPhoneUtils_of_none (h : p.singletonPhoneUtils = none) (hctx : p.globalContext = false) :
    p.getPhoneUtils = none := by
  simp [getPhoneUtils, h, hctx]

/-- The lock is acquired, or made first. -/
theorem acquireWakeLock_lock :
    (p.acquireWakeLock object).lock object = (p.lock object).acquire := by
  simp [acquireWakeLock, lock]

/-- The lock is released if there is one. -/
theorem releaseWakeLock_self :
    (p.releaseWakeLock object).wakeLock object = (p.wakeLock object).map .release :=
  Function.update_self _ _ _

theorem releaseWakeLock_lock :
    (p.releaseWakeLock object).lock object = (p.lock object).release := by
  unfold lock
  rw [releaseWakeLock_self]
  cases p.wakeLock object <;> rfl

/-- Other objects keep their locks. -/
theorem acquireWakeLock_of_ne (h : other ≠ object) :
    (p.acquireWakeLock object).wakeLock other = p.wakeLock other :=
  Function.update_of_ne h _ _

/-- A release is of one object's lock. -/
theorem releaseWakeLock_of_ne (h : other ≠ object) :
    (p.releaseWakeLock object).wakeLock other = p.wakeLock other :=
  Function.update_of_ne h _ _

/-- So is the release of `shutDown`. -/
theorem shutDown_of_ne (h : other ≠ object) :
    (p.shutDown object).wakeLock other = p.wakeLock other :=
  Function.update_of_ne h _ _

/-- A release of a lock that is free leaves it free. -/
theorem releaseWakeLock_freed (h : ∀ lock, p.wakeLock object = some lock → lock.Freed)
    {lock : RefLock} (hlock : (p.releaseWakeLock object).wakeLock object = some lock) :
    lock.Freed := by
  rw [releaseWakeLock_self] at hlock
  rcases Option.map_eq_some_iff.mp hlock with ⟨lock₀, hlock₀, rfl⟩
  exact (h lock₀ hlock₀).release

/-- A shut-down frees the lock. -/
theorem shutDown_freed {lock : RefLock}
    (hlock : (p.shutDown object).wakeLock object = some lock) : lock.Freed := by
  have hself : (p.shutDown object).wakeLock object
      = (p.wakeLock object).map fun lock => (lock.setReferenceCounted false).release :=
    Function.update_self _ _ _
  rw [hself] at hlock
  rcases Option.map_eq_some_iff.mp hlock with ⟨lock₀, -, rfl⟩
  exact lock₀.freed_release

end PhoneUtils

namespace Phone

variable {s s' : Phone} {i : ℕ} {io : CallIo}

/-- A job at its lock fetches the singleton, or stops when there is none. -/
theorem step_getPhoneUtils (h : s.step (.getPhoneUtils i) = some s') :
    ∃ j, s.jobs[i]? = some j ∧ atWakeLock j = true ∧
      ((∃ object utils, s.utils.getPhoneUtils = some (object, utils) ∧
          s' = { s with utils, jobs := s.jobs.set i { j with phoneUtils := some object } }) ∨
        (s.utils.getPhoneUtils = none ∧ ∃ pc, j.work.call j.pc .threw = some pc ∧
          s' = { s with jobs := s.jobs.set i (j.goOn s.shutDowns pc) })) := by
  simp only [step] at h
  split at h
  · cases h
  · rename_i j hj
    split at h
    · rename_i hat
      refine ⟨j, hj, hat.1, ?_⟩
      split at h
      · rename_i object utils hget
        cases h
        exact .inl ⟨object, utils, hget, rfl⟩
      · rename_i hget
        rcases Option.map_eq_some_iff.mp h with ⟨pc, hpc, rfl⟩
        exact .inr ⟨hget, pc, hpc, rfl⟩
    · cases h

/-- A job that has the singleton acquires or releases its lock. -/
theorem step_useWakeLock (h : s.step (.useWakeLock i) = some s') :
    ∃ j object pc, s.jobs[i]? = some j ∧ j.phoneUtils = some object ∧
      j.work.call j.pc .returned = some pc ∧
      ((j.pc = .acquireWakeLock ∧ s' = { s with
          utils := s.utils.acquireWakeLock object
          jobs := s.jobs.set i { j.goOn s.shutDowns pc with locked := some s.shutDowns } }) ∨
        (j.pc = .releaseWakeLock ∧ s' = { s with
          utils := s.utils.releaseWakeLock object
          jobs := s.jobs.set i (j.goOn s.shutDowns pc) })) := by
  simp only [step] at h
  split at h
  · cases h
  · rename_i j hj
    split at h
    · rename_i object hpc hobject
      rcases Option.map_eq_some_iff.mp h with ⟨pc, hcall, rfl⟩
      exact ⟨j, object, pc, hj, hobject, hcall, .inl ⟨hpc, rfl⟩⟩
    · rename_i object hpc hobject
      rcases Option.map_eq_some_iff.mp h with ⟨pc, hcall, rfl⟩
      exact ⟨j, object, pc, hj, hobject, hcall, .inr ⟨hpc, rfl⟩⟩
    · cases h

/-- Every other operation of a job leaves the locks alone. -/
theorem step_call (h : s.step (.call i io) = some s') :
    ∃ j pc, s.jobs[i]? = some j ∧ j.pc ≠ .acquireWakeLock ∧ j.pc ≠ .releaseWakeLock ∧
      j.work.call j.pc io = some pc ∧
      s' = { s with jobs := s.jobs.set i (j.goOn s.shutDowns pc) } := by
  simp only [step] at h
  split at h
  · cases h
  · rename_i j hj
    split at h
    · cases h
    · rename_i hat
      rcases Option.map_eq_some_iff.mp h with ⟨pc, hcall, rfl⟩
      simp only [atWakeLock, Bool.or_eq_true, decide_eq_true_eq, not_or] at hat
      exact ⟨j, pc, hj, hat.1, hat.2, hcall, rfl⟩

/-- The service is created when there is no singleton, and gives the context. -/
theorem step_onCreate (h : s.step .onCreate = some s') :
    s.utils.singletonPhoneUtils = none ∧ s' = { s with
      utils := { s.utils with
        globalContext := true
        singletonPhoneUtils := some s.utils.made
        made := s.utils.made + 1 }
      app := s.utils.made } := by
  simp only [step] at h
  split at h
  · rename_i hnone
    refine ⟨hnone, ?_⟩
    simp only [PhoneUtils.getPhoneUtils, PhoneUtils.setGlobalContext, hnone, if_true,
      Option.map_some, Option.some.injEq] at h
    exact h.symm
  · cases h

end Phone

/-! ## What every orderly run keeps -/

/-- While there is a singleton, its lock counts what is inside; all other locks are
free, and an object that is not made yet has none. -/
structure Phone.Sound (s : Phone) : Prop where
  jobs : ∀ j ∈ s.jobs, j.Sound s.utils.singletonPhoneUtils s.shutDowns
  context : s.utils.globalContext = true ↔ s.utils.singletonPhoneUtils ≠ none
  app : ∀ object, s.utils.singletonPhoneUtils = some object →
    s.app = object ∧ object < s.utils.made
  current : ∀ object, s.utils.singletonPhoneUtils = some object →
    Counts Job.inside s.jobs (s.utils.lock object)
  others : ∀ object lock, s.utils.wakeLock object = some lock →
    s.utils.singletonPhoneUtils ≠ some object → lock.Freed
  made : ∀ object, s.utils.made ≤ object → s.utils.wakeLock object = none

namespace Phone.Sound

variable {s s' : Phone} {i : ℕ} {io : CallIo}

/-- A phone that was switched on has no job and no lock. -/
theorem created : Phone.created.Sound where
  jobs j hj := nomatch hj
  context := by simp [Phone.created]
  app := by simp [Phone.created]
  current object _ := by
    refine Counts.new ?_
    intro j hj
    cases hj
  others object lock hlock := by simp [Phone.created] at hlock
  made object _ := rfl

/-- Putting a sound job in a job's place keeps all of them sound. -/
theorem jobs_set (h : s.Sound) {j' : Job}
    (hj' : j'.Sound s.utils.singletonPhoneUtils s.shutDowns) :
    ∀ j ∈ s.jobs.set i j', j.Sound s.utils.singletonPhoneUtils s.shutDowns := by
  intro j hj
  rcases List.mem_or_eq_of_mem_set hj with hj | rfl
  · exact h.jobs j hj
  · exact hj'

/-- A job goes on, and leaves the lock alone. -/
theorem set (h : s.Sound) {j j' : Job} (hj : s.jobs[i]? = some j)
    (hj' : j'.Sound s.utils.singletonPhoneUtils s.shutDowns)
    (hin : s.utils.singletonPhoneUtils ≠ none → j'.inside = j.inside) :
    Phone.Sound { s with jobs := s.jobs.set i j' } where
  jobs := h.jobs_set hj'
  context := h.context
  app := h.app
  current object hobject := by
    have hs : s.utils.singletonPhoneUtils ≠ none := Option.ne_none_iff_exists'.mpr ⟨_, hobject⟩
    exact (h.current object hobject).set hj (hin hs)
  others := h.others
  made := h.made

end Phone.Sound

namespace Phone.Sound

variable {s s' : Phone} {i : ℕ} {io : CallIo}

/-- In a sound state `getPhoneUtils` makes no new object. -/
theorem getPhoneUtils_eq (h : s.Sound) :
    (∃ object, s.utils.singletonPhoneUtils = some object ∧
      s.utils.getPhoneUtils = some (object, s.utils)) ∨
    (s.utils.singletonPhoneUtils = none ∧ s.utils.getPhoneUtils = none) := by
  cases hs : s.utils.singletonPhoneUtils with
  | some object => exact .inl ⟨object, rfl, PhoneUtils.getPhoneUtils_of_some hs⟩
  | none =>
    have hctx : s.utils.globalContext = false := by
      rw [← Bool.not_eq_true, h.context, hs]
      simp
    exact .inr ⟨rfl, PhoneUtils.getPhoneUtils_of_none hs hctx⟩

/-- The lock of the singleton is used, and counts the jobs as they are then. -/
theorem use (h : s.Sound) {utils : PhoneUtils} {jobs : List Job} {object : ℕ}
    (hobject : s.utils.singletonPhoneUtils = some object)
    (hsame : utils.singletonPhoneUtils = s.utils.singletonPhoneUtils ∧
      utils.globalContext = s.utils.globalContext ∧ utils.made = s.utils.made)
    (hne : ∀ other, other ≠ object → utils.wakeLock other = s.utils.wakeLock other)
    (hjobs : ∀ j ∈ jobs, j.Sound s.utils.singletonPhoneUtils s.shutDowns)
    (hcounts : Counts Job.inside jobs (utils.lock object)) :
    Phone.Sound { s with utils, jobs } := by
  rcases hsame with ⟨hsingleton, hctx, hmade⟩
  have hlt : object < s.utils.made := (h.app object hobject).2
  constructor
  · rw [show ({ s with utils, jobs } : Phone).utils = utils from rfl, hsingleton]
    exact hjobs
  · show utils.globalContext = true ↔ utils.singletonPhoneUtils ≠ none
    rw [hsingleton, hctx]
    exact h.context
  · show ∀ o, utils.singletonPhoneUtils = some o → s.app = o ∧ o < utils.made
    rw [hsingleton, hmade]
    exact h.app
  · -- the current object's lock is the one the jobs hold
    intro o ho
    have heq : some o = some object := ho.symm.trans (hsingleton.trans hobject)
    cases heq
    exact hcounts
  · -- the locks of objects before it are as they were
    intro o lock hlock ho
    have hother : o ≠ object := by
      rintro rfl
      exact ho (hsingleton.trans hobject)
    refine h.others o lock ((hne o hother).symm.trans hlock) ?_
    rw [hobject]
    exact fun heq => hother (Option.some.inj heq).symm
  · intro o ho
    have hle : s.utils.made ≤ o := hmade.symm.le.trans ho
    have hother : o ≠ object := Nat.ne_of_gt (lt_of_lt_of_le hlt hle)
    exact (hne o hother).trans (h.made o hle)

/-- The service is created while no job is inside. -/
theorem onCreate (h : s.Sound) (hok : ∀ j ∈ s.jobs, j.inside = false)
    (hstep : s.step .onCreate = some s') : s'.Sound := by
  rcases Phone.step_onCreate hstep with ⟨hnone, rfl⟩
  have hunused : s.utils.wakeLock s.utils.made = none := h.made _ le_rfl
  constructor
  · intro j hj
    have hsound : j.Sound none s.shutDowns := hnone ▸ h.jobs j hj
    exact hsound.onCreate (hok j hj)
  · simp
  · rintro object hobject
    cases hobject
    exact ⟨rfl, Nat.lt_succ_self _⟩
  · rintro object hobject
    cases hobject
    show Counts Job.inside s.jobs ((s.utils.wakeLock s.utils.made).getD .new)
    rw [hunused]
    exact Counts.new hok
  · intro object lock hlock _
    refine h.others object lock hlock ?_
    rw [hnone]
    nofun
  · intro object hobject
    exact h.made object (Nat.le_of_succ_le hobject)

/-- The check-in acquires the lock before its job begins. -/
theorem handleCheckin (h : s.Sound) (hstep : s.step .handleCheckin = some s') : s'.Sound := by
  rcases Option.map_eq_some_iff.mp hstep with ⟨⟨object, utils⟩, hget, rfl⟩
  rcases h.getPhoneUtils_eq with ⟨object', hobject, hget'⟩ | ⟨-, hget'⟩
  · rw [hget'] at hget
    cases hget
    refine h.use hobject ⟨rfl, rfl, rfl⟩ (fun _ => PhoneUtils.acquireWakeLock_of_ne) ?_ ?_
    · intro j hj
      rcases List.mem_append.mp hj with hj | hj
      · exact h.jobs j hj
      · rw [List.mem_singleton.mp hj]
        exact Job.checkin_sound (Option.ne_none_iff_exists'.mpr ⟨_, hobject⟩)
    · rw [PhoneUtils.acquireWakeLock_lock]
      exact (h.current object hobject).append_acquire rfl
  · rw [hget'] at hget
    cases hget

/-- A new wrapper holds nothing yet. -/
theorem begin (h : s.Sound) (wrapper : Wrapper) :
    Phone.Sound { s with jobs := s.jobs ++ [.begin wrapper] } where
  jobs := by
    intro j hj
    rcases List.mem_append.mp hj with hj | hj
    · exact h.jobs j hj
    · rw [List.mem_singleton.mp hj]
      exact Job.begin_sound wrapper
  context := h.context
  app := h.app
  current object hobject := (h.current object hobject).append rfl
  others := h.others
  made := h.made

/-- Fetching the singleton moves no lock. -/
theorem getPhoneUtils (h : s.Sound) (hstep : s.step (.getPhoneUtils i) = some s') : s'.Sound := by
  rcases Phone.step_getPhoneUtils hstep with ⟨j, hj, hat, hget⟩
  have hjob : j.Sound s.utils.singletonPhoneUtils s.shutDowns :=
    h.jobs j (List.mem_of_getElem? hj)
  rcases h.getPhoneUtils_eq with ⟨object', hobject, hget'⟩ | ⟨hnone, hget'⟩
  · rcases hget with ⟨object, utils, hget, rfl⟩ | ⟨hget, -⟩
    · rw [hget'] at hget
      cases hget
      refine h.set hj ?_ fun _ => rfl
      rw [hobject] at hjob ⊢
      exact hjob.fetch
    · rw [hget'] at hget
      cases hget
  · rcases hget with ⟨object, utils, hget, rfl⟩ | ⟨-, pc, hcall, rfl⟩
    · rw [hget'] at hget
      cases hget
    · refine h.set hj ?_ fun hs => absurd hnone hs
      rw [hnone] at hjob ⊢
      exact hjob.goOn_threw hat hcall

/-- An acquire on the singleton: `j` comes inside. -/
theorem acquire (h : s.Sound) {j : Job} {pc : CallPc} {object : ℕ} (hj : s.jobs[i]? = some j)
    (hobject : s.utils.singletonPhoneUtils = some object) (hpc : j.pc = .acquireWakeLock)
    (hcall : j.work.call j.pc .returned = some pc) :
    Phone.Sound { s with
      utils := s.utils.acquireWakeLock object
      jobs := s.jobs.set i { j.goOn s.shutDowns pc with locked := some s.shutDowns } } := by
  have hjob := h.jobs j (List.mem_of_getElem? hj)
  have hs : s.utils.singletonPhoneUtils ≠ none := Option.ne_none_iff_exists'.mpr ⟨_, hobject⟩
  refine h.use hobject ⟨rfl, rfl, rfl⟩ (fun _ => PhoneUtils.acquireWakeLock_of_ne)
    (h.jobs_set (hjob.acquire hpc hcall hs)) ?_
  have hout : j.inside = false := by
    unfold Job.inside
    rw [hpc]
    exact Work.inside_acquireWakeLock _
  rw [hpc] at hcall
  rw [PhoneUtils.acquireWakeLock_lock]
  exact (h.current object hobject).set_acquire hj hout (Work.call_acquire hcall).1

/-- A release on what was the singleton: `j` is outside then. -/
theorem release (h : s.Sound) {j : Job} {pc : CallPc} {object : ℕ} (hj : s.jobs[i]? = some j)
    (hobject : j.phoneUtils = some object) (hpc : j.pc = .releaseWakeLock)
    (hcall : j.work.call j.pc .returned = some pc) :
    Phone.Sound { s with
      utils := s.utils.releaseWakeLock object
      jobs := s.jobs.set i (j.goOn s.shutDowns pc) } := by
  have hjob := h.jobs j (List.mem_of_getElem? hj)
  have hin : j.inside = true := by
    unfold Job.inside
    rw [hpc]
    exact Work.inside_releaseWakeLock _
  have hjobs := h.jobs_set (hjob.release hpc hcall) (i := i)
  rcases hjob.fetched hpc object hobject with hnone | hcurrent
  · -- the object was shut down: its lock is free already
    have hother : s.utils.singletonPhoneUtils ≠ some object := by
      rw [hnone]
      nofun
    refine ⟨hjobs, h.context, h.app, ?_, ?_, ?_⟩
    · intro o ho
      exact absurd (hnone.symm.trans ho) nofun
    · intro o lock hlock _
      by_cases ho : o = object
      · subst ho
        exact PhoneUtils.releaseWakeLock_freed (fun lock hlock => h.others _ lock hlock hother)
          hlock
      · refine h.others o lock ((PhoneUtils.releaseWakeLock_of_ne ho).symm.trans hlock) ?_
        rw [hnone]
        nofun
    · intro o ho
      have hunused := h.made o ho
      by_cases heq : o = object
      · subst heq
        rw [PhoneUtils.releaseWakeLock_self, hunused]
        rfl
      · exact (PhoneUtils.releaseWakeLock_of_ne heq).trans hunused
  · refine h.use hcurrent ⟨rfl, rfl, rfl⟩ (fun _ => PhoneUtils.releaseWakeLock_of_ne) hjobs ?_
    rw [hpc] at hcall
    rw [PhoneUtils.releaseWakeLock_lock]
    exact (h.current object hcurrent).set_release hj hin (Work.call_release hcall).1

/-- What `shutDown` releases is the singleton's lock, and it clears the singleton. -/
theorem shutDown (h : s.Sound) (hstep : s.step .shutDown = some s') : s'.Sound := by
  simp only [Phone.step] at hstep
  split at hstep
  · rename_i hctx
    cases hstep
    rcases Option.ne_none_iff_exists'.mp (h.context.mp hctx) with ⟨object, hobject⟩
    have happ : s.app = object := (h.app object hobject).1
    have hlt : object < s.utils.made := (h.app object hobject).2
    subst happ
    refine ⟨fun j hj => (h.jobs j hj).shutDown, ?_, ?_, ?_, ?_, ?_⟩
    · simp [PhoneUtils.shutDown]
    · intro o ho
      cases ho
    · intro o ho
      cases ho
    · intro o lock hlock _
      by_cases heq : o = s.app
      · subst heq
        exact PhoneUtils.shutDown_freed hlock
      · refine h.others o lock ((PhoneUtils.shutDown_of_ne heq).symm.trans hlock) ?_
        rw [hobject]
        exact fun h' => heq (Option.some.inj h').symm
    · intro o ho
      have hne : o ≠ s.app := Nat.ne_of_gt (lt_of_lt_of_le hlt ho)
      exact (PhoneUtils.shutDown_of_ne hne).trans (h.made o ho)
  · cases hstep

/-- Every orderly step keeps it. -/
theorem step {label : PhoneLabel} (h : s.Sound) (hok : Phone.Orderly label s)
    (hstep : s.step label = some s') : s'.Sound := by
  cases label with
  | onCreate => exact h.onCreate hok hstep
  | handleCheckin => exact h.handleCheckin hstep
  | begin wrapper =>
    cases hstep
    exact h.begin wrapper
  | getPhoneUtils i => exact h.getPhoneUtils hstep
  | useWakeLock i =>
    rcases Phone.step_useWakeLock hstep with ⟨j, object, pc, hj, hobject, hcall, hcase⟩
    rcases hcase with ⟨hpc, rfl⟩ | ⟨hpc, rfl⟩
    · exact h.acquire hj ((hok j hj hpc).symm.trans hobject) hpc hcall
    · exact h.release hj hobject hpc hcall
  | call i io =>
    rcases Phone.step_call hstep with ⟨j, pc, hj, hacquire, hrelease, hcall, rfl⟩
    have hjob := h.jobs j (List.mem_of_getElem? hj)
    rcases hok j hj with ⟨hbody, hend⟩
    exact h.set hj (hjob.goOn hcall hacquire hrelease hbody)
      (hjob.goOn_inside hcall hacquire hrelease hend)
  | shutDown => exact h.shutDown hstep
  | process =>
    cases hstep
    exact Phone.Sound.created

/-- What is in progress is inside. -/
theorem lockKept (h : s.Sound) : s.LockKept where
  held := by
    rintro ⟨j, hj, hprogress⟩
    have hjob := h.jobs j hj
    -- a job in progress is inside the lock
    have hin : j.inside = true := by
      unfold Job.inside
      rcases hprogress.1 with hpc | ⟨hwork, hpc⟩
      · rw [hpc]
        rcases j.work with _ | _ | _ <;> rfl
      · rw [hwork, hpc]
        rfl
    -- so the object is there, and the job is one of those that hold its lock
    have hthere := hjob.there ⟨hin, hjob.progress hprogress⟩
    rcases Option.ne_none_iff_exists'.mp hthere with ⟨object, hobject⟩
    have hheld := (h.current object hobject).held_iff.mpr ⟨j, hj, hin⟩
    refine ⟨object, s.utils.lock object, hobject, ?_, hheld⟩
    unfold PhoneUtils.lock at hheld ⊢
    cases hlock : s.utils.wakeLock object with
    | some lock => rfl
    | none =>
      rw [hlock] at hheld
      cases hheld
  free := by
    intro hnone object lock hlock
    by_cases hobject : s.utils.singletonPhoneUtils = some object
    · -- a lock that is held is held for a job inside it, which is in progress
      by_contra hheld
      have hcounts := h.current object hobject
      unfold PhoneUtils.lock at hcounts
      rw [hlock] at hcounts
      rcases hcounts.held_iff.mp (Bool.not_eq_false _ ▸ hheld) with ⟨j, hj, hin⟩
      have hs : s.utils.singletonPhoneUtils ≠ none :=
        Option.ne_none_iff_exists'.mpr ⟨_, hobject⟩
      exact hnone j hj ⟨hin, (h.jobs j hj).inside hin hs⟩
    · exact (h.others object lock hlock hobject).held

end Phone.Sound

/-- The wake lock is held while it is needed, and only then, in every orderly run. -/
theorem lockKept_runs {s : Phone} (h : phones.ReachableBy Phone.Orderly s) : s.LockKept := by
  have hsound : s.Sound := by
    refine h.invariant (P := Phone.Sound) ?_ ?_
    · rintro s₀ rfl
      exact Phone.Sound.created
    · intro label s s' hs hok hstep
      exact hs.step hok hstep
  exact hsound.lockKept

/-! ## A check-in and a user's measurement -/

/-- A check-in is under way, and a user's measurement has come as far as its acquire. -/
def acquired : List PhoneLabel :=
  [.handleCheckin, .begin .userMeasurementTask, .call 1 .returned, .getPhoneUtils 1,
    .useWakeLock 1]

/-- The check-in ends while the body of the measurement runs; then that ends too. -/
def bothEnd : List PhoneLabel :=
  acquired ++ [.call 1 .returned, .call 1 .returned, .call 1 .returned, .call 0 .threw,
    .getPhoneUtils 0, .useWakeLock 0, .call 1 .threw, .call 1 .returned, .call 1 .returned,
    .getPhoneUtils 1, .useWakeLock 1]

theorem lockKept_runs_bothEnd :
    (∃ s, phones.runBy Phone.Orderly (bothEnd.take 11) Phone.created = some s ∧
      (∃ j ∈ s.jobs, j.InProgress s.shutDowns) ∧ s.Held) ∧
    ∃ s, phones.runBy Phone.Orderly bothEnd Phone.created = some s ∧
      (∀ j ∈ s.jobs, j.inside = false) ∧ s.Free := by
  constructor
  · refine ⟨_, rfl, ⟨_, List.mem_cons_of_mem _ (List.mem_singleton_self _), .inl rfl, rfl⟩, ?_⟩
    have hsteps : phones.Steps Phone.Orderly Phone.created _ :=
      System.steps_of_runBy (show phones.runBy Phone.Orderly (bothEnd.take 11) _ = some _ from rfl)
    exact (lockKept_runs ⟨Phone.created, rfl, hsteps⟩).held
      ⟨_, List.mem_cons_of_mem _ (List.mem_singleton_self _), .inl rfl, rfl⟩
  · refine ⟨_, rfl, by decide, ?_⟩
    have hsteps : phones.Steps Phone.Orderly Phone.created _ :=
      System.steps_of_runBy (show phones.runBy Phone.Orderly bothEnd _ = some _ from rfl)
    refine (lockKept_runs ⟨Phone.created, rfl, hsteps⟩).free fun j hj hunderway => ?_
    have hout : ∀ j ∈ ((phones.runBy Phone.Orderly bothEnd Phone.created).map Phone.jobs).getD [],
        j.inside = false := by decide
    exact absurd ((hout j hj).symm.trans hunderway.1) Bool.false_ne_true

/-- The wrapper has the lock, and its body has not started. -/
theorem not_lockExact_acquired : ¬ ∀ s, phones.Reachable s → s.LockExact := by
  intro hexact
  have hrun : ∃ s, phones.run (acquired ++ [.call 0 .returned, .getPhoneUtils 0, .useWakeLock 0])
      Phone.created = some s ∧ (∀ j ∈ s.jobs, j.pc ≠ .body ∧ j.pc ≠ .releaseWakeLock) ∧
      ∃ lock, s.utils.wakeLock 0 = some lock ∧ lock.held = true :=
    ⟨_, rfl, by decide, _, rfl, rfl⟩
  rcases hrun with ⟨s, hrun, hnone, lock, hlock, hheld⟩
  have hfree := (hexact s (System.reachable_of_run rfl hrun)).free
    (fun j hj hprogress => ?_) 0 lock hlock
  · rw [hheld] at hfree
    cases hfree
  · rcases hprogress.1 with hpc | ⟨-, hpc⟩
    · exact (hnone j hj).1 hpc
    · exact (hnone j hj).2 hpc

end MobiPerf.Scheduler
