import MobiPerf.Checkin.Cookie

/-!
# Checkin.Retry — how often a failed check-in is tried again

A check-in that fails arms an alarm for the next try and doubles the delay, until
more than `maxCheckinRetryCount` alarms have been armed; then, as after a success,
counter and delay start again and the next periodic check-in is waited for. The
test looks at the counter before it is incremented.

* `backsOff_runs`: between two resets at most `maxCheckinRetryCount + 1` alarms are
  armed, each with twice the delay of the one before up to the maximum.
* `catchException_retry`: the threads of `Checkin.Cookie` count in the same way.
-/

namespace MobiPerf.Checkin

open Lib

/-! ## The retries -/

def minCheckinIntervalSec : Int := 3600

/-- The fields a check-in decides on retries by, and the delays of the alarms
armed since the last reset, oldest first. -/
structure RetryState where
  checkinRetryCnt : ℕ
  checkinRetryIntervalSec : Int
  checkinIntervalSec : Int
  armed : List Int
deriving DecidableEq, Repr

/-- What `onCreate` leaves. -/
def RetryState.created : RetryState where
  checkinRetryCnt := 0
  checkinRetryIntervalSec := minCheckinRetryIntervalSec
  checkinIntervalSec := 0
  armed := []

namespace RetryState

/-- The counters as `onCreate` sets them. -/
def Initial (st : RetryState) : Prop :=
  st.checkinRetryCnt = 0 ∧ st.checkinRetryIntervalSec = minCheckinRetryIntervalSec ∧ st.armed = []

def setCheckinInterval (st : RetryState) (interval : Int) : RetryState :=
  { st with checkinIntervalSec := max minCheckinIntervalSec interval }

def resetCheckin (st : RetryState) : RetryState :=
  { st with
    checkinRetryCnt := 0
    checkinRetryIntervalSec := minCheckinRetryIntervalSec
    armed := [] }

/-- The `catch` clause of `CheckinTask.run`. -/
def catchException (st : RetryState) : RetryState :=
  if st.checkinRetryCnt > maxCheckinRetryCount then st.resetCheckin
  else if st.checkinRetryIntervalSec < st.checkinIntervalSec then
    { st with
      armed := st.armed ++ [st.checkinRetryIntervalSec]
      checkinRetryCnt := st.checkinRetryCnt + 1
      checkinRetryIntervalSec :=
        min maxCheckinRetryIntervalSec (st.checkinRetryIntervalSec * 2) }
  else st

end RetryState

/-- How the `try` of `CheckinTask.run` ends: it comes to its end, or an exception
leaves it before `resetCheckin` or after. -/
inductive CheckinEnd where
  | succeeded
  | threw
  | threwAfterReset
deriving DecidableEq, Repr

/-- `CheckinTask.run`. -/
def RetryState.checkinTask (st : RetryState) : CheckinEnd → RetryState
  | .succeeded => st.resetCheckin
  | .threw => st.catchException
  | .threwAfterReset => st.resetCheckin.catchException

inductive RetryLabel where
  | setCheckinInterval (interval : Int)
  | checkinTask (e : CheckinEnd)

/-- Check-ins one after the other, and changes of their interval. -/
def retries : System RetryState RetryLabel where
  Init st := st = RetryState.created
  step label st :=
    match label with
    | .setCheckinInterval interval => some (st.setCheckinInterval interval)
    | .checkinTask e => some (st.checkinTask e)

/-- The interval of the check-ins is longer than every delay of a retry. -/
def RetryState.LongInterval (st : RetryState) : Prop :=
  maxCheckinRetryIntervalSec < st.checkinIntervalSec

instance (st : RetryState) : Decidable st.LongInterval := inferInstanceAs (Decidable (_ < _))

/-- So it is when a check-in runs. -/
def LongIntervals (label : RetryLabel) (st : RetryState) : Prop :=
  match label with
  | .checkinTask _ => st.LongInterval
  | .setCheckinInterval _ => True

instance (label : RetryLabel) (st : RetryState) : Decidable (LongIntervals label st) := by
  unfold LongIntervals
  split <;> infer_instance

/-! ## The delays -/

/-- The delay of the `k`-th alarm after a reset. -/
def retryDelay (k : ℕ) : Int :=
  min maxCheckinRetryIntervalSec (minCheckinRetryIntervalSec * 2 ^ k)

theorem retryDelay_succ (k : ℕ) :
    retryDelay (k + 1) = min maxCheckinRetryIntervalSec (retryDelay k * 2) := by
  unfold retryDelay
  have hpow : (2 : Int) ^ (k + 1) = 2 ^ k * 2 := pow_succ 2 k
  have hmax : (0 : Int) ≤ maxCheckinRetryIntervalSec := by decide
  rw [hpow, ← mul_assoc]
  omega

theorem retryDelay_le (k : ℕ) : retryDelay k ≤ maxCheckinRetryIntervalSec := min_le_left _ _

/-- The counter says how many alarms were armed, and the delay is that of the
next one. -/
structure RetryState.Counted (st : RetryState) : Prop where
  armed : st.armed = (List.range st.checkinRetryCnt).map retryDelay
  interval : st.checkinRetryIntervalSec = retryDelay st.checkinRetryCnt
  cnt : st.checkinRetryCnt ≤ maxCheckinRetryCount + 1

namespace RetryState

variable {st : RetryState}

theorem resetCheckin_initial (st : RetryState) : st.resetCheckin.Initial := ⟨rfl, rfl, rfl⟩

theorem Initial.counted (h : st.Initial) : st.Counted := by
  rcases h with ⟨hcnt, hinterval, harmed⟩
  constructor
  · rw [harmed, hcnt]
    simp
  · rw [hinterval, hcnt]
    decide
  · rw [hcnt]
    exact Nat.zero_le _

/-- A check-in that fails before as many alarms as are allowed arms the next. -/
theorem catchException_of_le (h : st.Counted) (hlong : st.LongInterval)
    (hcnt : st.checkinRetryCnt ≤ maxCheckinRetryCount) :
    st.catchException = { st with
      armed := st.armed ++ [retryDelay st.checkinRetryCnt]
      checkinRetryCnt := st.checkinRetryCnt + 1
      checkinRetryIntervalSec := retryDelay (st.checkinRetryCnt + 1) } := by
  have hdelay : st.checkinRetryIntervalSec < st.checkinIntervalSec := by
    rw [h.interval]
    exact lt_of_le_of_lt (retryDelay_le _) hlong
  unfold catchException
  rw [if_neg (Nat.not_lt.mpr hcnt), if_pos hdelay, h.interval, retryDelay_succ]

theorem catchException_of_lt (hcnt : maxCheckinRetryCount < st.checkinRetryCnt) :
    st.catchException = st.resetCheckin := if_pos hcnt

theorem Counted.catchException (h : st.Counted) (hlong : st.LongInterval) :
    st.catchException.Counted := by
  rcases Nat.lt_or_ge maxCheckinRetryCount st.checkinRetryCnt with hmore | hless
  · rw [catchException_of_lt hmore]
    exact st.resetCheckin_initial.counted
  · rw [catchException_of_le h hlong hless]
    constructor
    · show st.armed ++ [retryDelay st.checkinRetryCnt] = _
      rw [h.armed, List.range_succ, List.map_append, List.map_singleton]
    · rfl
    · exact Nat.succ_le_succ hless

theorem Counted.checkinTask (h : st.Counted) (hlong : st.LongInterval) (e : CheckinEnd) :
    (st.checkinTask e).Counted := by
  cases e with
  | succeeded => exact st.resetCheckin_initial.counted
  | threw => exact h.catchException hlong
  | threwAfterReset => exact st.resetCheckin_initial.counted.catchException hlong

end RetryState

theorem reachable_counted {st : RetryState} (h : retries.ReachableBy LongIntervals st) :
    st.Counted := by
  refine h.invariant (P := RetryState.Counted) ?_ ?_
  · rintro st rfl
    exact RetryState.Initial.counted ⟨rfl, rfl, rfl⟩
  · intro label st st' hst hlong hstep
    cases label with
    | setCheckinInterval interval =>
        cases hstep
        exact ⟨hst.armed, hst.interval, hst.cnt⟩
    | checkinTask e =>
        cases hstep
        exact hst.checkinTask hlong e

/-! ## Bounded retries -/

/-- At most `bound` alarms since the last reset, the `k`-th with the `k`-th delay;
a success resets the counters, and so does a failure once `bound` alarms have
been armed, where a failure before arms the next. -/
structure RetryState.BacksOff (st : RetryState) (bound : ℕ) : Prop where
  bounded : st.armed.length ≤ bound
  delays : ∀ k delay, st.armed[k]? = some delay →
    delay = min maxCheckinRetryIntervalSec (minCheckinRetryIntervalSec * 2 ^ k)
  succeeds : (st.checkinTask .succeeded).Initial
  fails : st.LongInterval →
    if st.armed.length < bound then
      (st.checkinTask .threw).armed = st.armed ++ [retryDelay st.armed.length]
    else (st.checkinTask .threw).Initial

/-- With a check-in interval longer than every delay, in every state of every run. -/
theorem backsOff_runs {st : RetryState} (h : retries.ReachableBy LongIntervals st) :
    st.BacksOff (maxCheckinRetryCount + 1) := by
  have hcounted := reachable_counted h
  have hlength : st.armed.length = st.checkinRetryCnt := by
    rw [hcounted.armed, List.length_map, List.length_range]
  constructor
  · rw [hlength]
    exact hcounted.cnt
  · intro k delay hk
    rw [hcounted.armed, List.getElem?_map] at hk
    rcases Option.map_eq_some_iff.mp hk with ⟨j, hj, rfl⟩
    rcases List.getElem?_eq_some_iff.mp hj with ⟨hlt, hjk⟩
    rw [List.getElem_range] at hjk
    rw [← hjk]
    rfl
  · exact st.resetCheckin_initial
  · intro hlong
    rw [hlength]
    split
    · rename_i hless
      have harms := RetryState.catchException_of_le hcounted hlong (Nat.le_of_lt_succ hless)
      exact congrArg RetryState.armed harms
    · rename_i hmore
      have hresets : st.catchException = st.resetCheckin :=
        RetryState.catchException_of_lt (Nat.le_of_not_lt hmore)
      show st.catchException.Initial
      rw [hresets]
      exact st.resetCheckin_initial

/-- The interval is set, and `n` check-ins fail. -/
def failures (n : ℕ) : List RetryLabel :=
  .setCheckinInterval 3600 :: List.replicate n (.checkinTask .threw)

/-- Four failures arm four alarms, and the fifth gives up. -/
theorem backsOff_runs_failures :
    ∃ st, retries.runBy LongIntervals (failures 4) .created = some st ∧
      st.armed = [20, 40, 80, 160] ∧ st.BacksOff (maxCheckinRetryCount + 1) := by
  have hrun : (retries.runBy LongIntervals (failures 4) .created).any fun st =>
      st.armed = [20, 40, 80, 160] := by decide
  rcases (Option.any_eq_true _ _).mp hrun with ⟨st, hsteps, harmed⟩
  exact ⟨st, hsteps, of_decide_eq_true harmed,
    backsOff_runs ⟨.created, rfl, System.steps_of_runBy hsteps⟩⟩

/-- After four failures one alarm more has been armed than `maxCheckinRetryCount`. -/
theorem not_armed_le_maxCheckinRetryCount :
    ¬ ∀ st, retries.ReachableBy LongIntervals st → st.armed.length ≤ maxCheckinRetryCount := by
  intro hall
  have hrun : (retries.runBy LongIntervals (failures 4) .created).any fun st =>
      maxCheckinRetryCount < st.armed.length := by decide
  rcases (Option.any_eq_true _ _).mp hrun with ⟨st, hsteps, hmore⟩
  have hle := hall st ⟨.created, rfl, System.steps_of_runBy hsteps⟩
  exact absurd (of_decide_eq_true hmore) (Nat.not_lt.mpr hle)

/-! ## The threads of a check-in -/

/-- The retries of the service's state, with the alarms armed so far. -/
def State.retry {C : Type} (s : State C) (armed : List Int) : RetryState where
  checkinRetryCnt := s.checkinRetryCnt
  checkinRetryIntervalSec := s.checkinRetryIntervalSec
  checkinIntervalSec := s.checkinIntervalSec
  armed := armed

/-- A thread in its `catch` clause goes to `resetCheckin` when the retries are
used up, and otherwise leaves the counters as `catchException` does. -/
theorem catchException_retry {C : Type} {s s' : State C} {t : ℕ} {armed : List Int}
    (hpc : s.pc t = .catchException) (hstep : s.threadStep t .go = some s') :
    if s.checkinRetryCnt > maxCheckinRetryCount then
      s'.pc t = .resetCheckin ∧ s'.retry armed = s.retry armed
    else ∃ armed', (s.retry armed).catchException = s'.retry armed' := by
  simp only [State.threadStep, hpc] at hstep
  split
  · rename_i hmore
    rw [if_pos hmore] at hstep
    cases hstep
    exact ⟨Function.update_self .., rfl⟩
  · rename_i hless
    have hnot : ¬ (s.retry armed).checkinRetryCnt > maxCheckinRetryCount := hless
    rw [if_neg hless] at hstep
    unfold RetryState.catchException
    rw [if_neg hnot]
    by_cases hdelay : s.checkinRetryIntervalSec < s.checkinIntervalSec
    · have hsame : (s.retry armed).checkinRetryIntervalSec <
          (s.retry armed).checkinIntervalSec := hdelay
      rw [if_pos hdelay] at hstep
      rw [if_pos hsame]
      cases hstep
      exact ⟨_, rfl⟩
    · have hsame : ¬ (s.retry armed).checkinRetryIntervalSec <
          (s.retry armed).checkinIntervalSec := hdelay
      rw [if_neg hdelay] at hstep
      rw [if_neg hsame]
      cases hstep
      exact ⟨armed, rfl⟩

end MobiPerf.Checkin
