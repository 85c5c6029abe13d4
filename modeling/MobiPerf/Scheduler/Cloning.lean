import MobiPerf.Scheduler.Lineage

/-!
# Scheduler.Cloning — a run of a task and the clones of the task

A `MeasurementResult` keeps the description it is built for and sets the parameters
of that description to null, so that they are not part of the report. The
description is the task's own, and `clone` builds the next one from it.

* `clonesSame_iff`: a run leaves the clones of a task, and the successor that
  `handleMeasurement` queues, what they were exactly when no result was built for
  the task in it.
* `sameSuccessor_iff`: of the successor alone this holds of a task that does not
  recur, too.
-/

namespace MobiPerf.Scheduler

open Lib

/-! ## What a run leaves of the description -/

/-- The constructor of a result: the result, and the description it leaves. -/
def MeasurementResult.construct (type : TaskType) (timestamp : Int) (success : Bool)
    (measurementDesc : MeasurementDesc) : MeasurementResult × MeasurementDesc :=
  ({ taskKey := measurementDesc.key, type, timestamp, success, values := [] },
    { measurementDesc with parameters := none })

/-- How a run of a task ends: `call` returns the result it has built, or throws
before it has built one, or after (when a value cannot be added to it); or
`getFailureResult` builds the result. -/
inductive RunOutcome where
  | returned (timestamp : Int) (success : Bool)
  | threw
  | threwAfterResult (timestamp : Int) (success : Bool)
  | failureResult (timestamp : Int)
deriving DecidableEq, Repr

/-- A result was built for the task. -/
def RunOutcome.buildsResult : RunOutcome → Bool
  | .threw => false
  | .returned _ _ | .threwAfterResult _ _ | .failureResult _ => true

/-- The task's description after the run. -/
def RunOutcome.leaves (o : RunOutcome) (d : MeasurementDesc) : MeasurementDesc :=
  match o with
  | .threw => d
  | .returned timestamp success | .threwAfterResult timestamp success =>
    (MeasurementResult.construct d.type timestamp success d).2
  | .failureResult timestamp => (MeasurementResult.construct d.type timestamp false d).2

/-- It is the description that a clone made after the run copies. -/
theorem RunOutcome.leaves_eq (o : RunOutcome) (d : MeasurementDesc) :
    o.leaves d = d.atClone o.buildsResult := by
  cases o with
  | threw => rfl
  | returned timestamp success | threwAfterResult timestamp success => rfl
  | failureResult timestamp => rfl

/-! ## Clones before and after -/

/-- The end time is at most a day ahead, as the constructor leaves it, and not so
long ago that the difference wraps around. -/
def MeasurementDesc.InDay (d : MeasurementDesc) (now : Int) : Prop :=
  d.endTime ≤ now + taskExpirationMsec ∧ -2 ^ 63 ≤ d.endTime - now

/-- `clone` succeeds before the run and after it, with the same task at the same
clock readings, and with the same description at any. -/
structure ClonesSame (d : MeasurementDesc) (o : RunOutcome) : Prop where
  atSameTime : ∀ ref now₁ now₂, ∃ t, d.clone ref now₁ now₂ = .ok t ∧
    (o.leaves d).clone ref now₁ now₂ = .ok t
  later : ∀ ref ref' now₁ now₂ later₁ later₂, d.InDay now₁ → d.InDay now₂ → d.InDay later₁ →
    d.InDay later₂ → ∃ t t', d.clone ref now₁ now₂ = .ok t ∧
      (o.leaves d).clone ref' later₁ later₂ = .ok t' ∧ t'.desc = t.desc

/-- A call of `handleMeasurement` that dispatches the task comes to the same,
whether the executor has ended the run by the time of the clone or not. -/
def SameSuccessor (Q : Type) [PriorityQueue Q MeasurementTask MeasurementTask.Le]
    (task : MeasurementTask) (o : RunOutcome) : Prop :=
  ∀ (s : Service Q) (env : CallEnv) (sub : Submission), s.submission env = some sub →
    sub.task = task →
      s.handleMeasurement { env with parametersTaken := o.buildsResult } =
        s.handleMeasurement { env with parametersTaken := false }

/-- Within the day a clone has the very description it is made from. -/
theorem MeasurementDesc.clone_inDay {d : MeasurementDesc} (h : d.Accepted) (ref : ℕ)
    {now₁ now₂ : Int} (h₁ : d.InDay now₁) (h₂ : d.InDay now₂) :
    ∃ t, d.clone ref now₁ now₂ = .ok t ∧ t.desc = d := by
  obtain ⟨t, hclone, -, hdesc⟩ := d.clone_of_accepted h ref now₁ now₂
  refine ⟨t, hclone, ?_⟩
  rw [hdesc, cappedEndTime_eq h₁.1 h₁.2, cappedEndTime_eq h₂.1 h₂.2]

theorem clonesSame_of_not_built {d : MeasurementDesc} (h : d.Accepted) {o : RunOutcome}
    (hbuilt : o.buildsResult = false) : ClonesSame d o := by
  have hleaves : o.leaves d = d := by
    rw [o.leaves_eq, MeasurementDesc.atClone_of_not_taken hbuilt]
  constructor
  · intro ref now₁ now₂
    obtain ⟨t, hclone, -, -⟩ := d.clone_of_accepted h ref now₁ now₂
    rw [hleaves]
    exact ⟨t, hclone, hclone⟩
  · intro ref ref' now₁ now₂ later₁ later₂ hnow₁ hnow₂ hlater₁ hlater₂
    obtain ⟨t, hbefore, hdesc⟩ := MeasurementDesc.clone_inDay h ref hnow₁ hnow₂
    obtain ⟨t', hafter, hdesc'⟩ := MeasurementDesc.clone_inDay h ref' hlater₁ hlater₂
    rw [hleaves]
    exact ⟨t, t', hbefore, hafter, hdesc'.trans hdesc.symm⟩

/-- A result that was built leaves nothing to clone. -/
theorem not_clonesSame_of_built {d : MeasurementDesc} {o : RunOutcome}
    (hbuilt : o.buildsResult = true) : ¬ ClonesSame d o := by
  intro hsame
  have hnone : (o.leaves d).parameters = none := by
    rw [o.leaves_eq, hbuilt]
    rfl
  obtain ⟨e, herror⟩ := MeasurementDesc.clone_of_no_parameters hnone 0 0 0
  obtain ⟨t, -, hafter⟩ := hsame.atSameTime 0 0 0
  rw [herror] at hafter
  cases hafter

section Successor

variable {Q : Type} [PriorityQueue Q MeasurementTask MeasurementTask.Le]

/-- For every task, every parameters its description accepts and every outcome. -/
theorem clonesSame_iff (task : MeasurementTask) (o : RunOutcome) :
    (ClonesSame task.desc o ∧ SameSuccessor Q task o) ↔ o.buildsResult = false := by
  constructor
  · rintro ⟨hsame, -⟩
    rw [← Bool.not_eq_true]
    exact fun hbuilt => not_clonesSame_of_built hbuilt hsame
  · intro hbuilt
    refine ⟨clonesSame_of_not_built task.accepted hbuilt, ?_⟩
    intro s env sub _ _
    rw [hbuilt]

/-! ## The successor alone -/

/-- A service with one task in its queue. -/
def Service.only (task : MeasurementTask) : Service Q :=
  { (Service.onCreate : Service Q) with
    taskQueue := PriorityQueue.add (PriorityQueue.empty : Q) task
    nextRef := task.ref + 1 }

theorem Service.only_toList (task : MeasurementTask) :
    PriorityQueue.toList (Service.only task : Service Q).taskQueue = [task] := by
  have hperm := PriorityQueue.toList_add (PriorityQueue.empty : Q) task
  rw [PriorityQueue.toList_empty] at hperm
  exact List.perm_singleton.mp hperm

/-- At its start time the task is submitted. -/
theorem Service.only_submission (task : MeasurementTask) (parametersTaken : Bool) :
    (Service.only task : Service Q).submission (.atClock task.desc.startTime parametersTaken) =
      some ⟨task.wrapper, task, task.desc.startTime⟩ := by
  apply Service.submission_eq_some.mpr
  refine ⟨rfl, rfl, ?_, rfl⟩
  apply Service.due_eq_some.mpr
  constructor
  · unfold PriorityQueue.peek
    rw [Service.only_toList, List.head?_cons]
  · show toLong (task.desc.startTime - task.desc.startTime) ≤ 0
    rw [sub_self]
    decide

/-- Without the parameters a call makes no successor. -/
theorem Service.requeue_of_taken (s : Service Q) (task : MeasurementTask) {env : CallEnv}
    (htaken : env.parametersTaken = true) : (s.requeue task env).1 = s := by
  have hnone : (task.desc.atClone env.parametersTaken).parameters = none := by
    rw [htaken]
    rfl
  obtain ⟨e, herror⟩ := MeasurementDesc.clone_of_no_parameters hnone s.nextRef env.cloneNow₁
    env.cloneNow₂
  unfold requeue
  split
  · rw [herror]
  · rfl

/-- With them a call makes the successor of a task that recurs, a new object. -/
theorem Service.requeue_nextRef {s : Service Q} {task : MeasurementTask} {env : CallEnv}
    (htaken : env.parametersTaken = false) (hrecurs : task.Recurs) :
    (s.requeue task env).1.nextRef = s.nextRef + 1 := by
  obtain ⟨newTask, -, -, hrequeue⟩ := Service.requeue_of_recurs (s := s) htaken hrecurs
  rw [hrequeue]
  exact Service.submitTask_nextRef _ _

/-- The successor of a task is what it would be without the run exactly when the
task does not recur or no result was built for it. -/
theorem sameSuccessor_iff (task : MeasurementTask) (o : RunOutcome) :
    SameSuccessor Q task o ↔ ¬ task.Recurs ∨ o.buildsResult = false := by
  constructor
  · intro hsame
    by_contra hboth
    rw [not_or, not_not, Bool.not_eq_false] at hboth
    obtain ⟨hrecurs, hbuilt⟩ := hboth
    have heq := hsame (Service.only task) (.atClock task.desc.startTime false) _
      (Service.only_submission task false) rfl
    rw [hbuilt] at heq
    have hservice : ((Service.only task : Service Q).handleMeasurement
        (.atClock task.desc.startTime true)).service.nextRef =
          ((Service.only task : Service Q).handleMeasurement
            (.atClock task.desc.startTime false)).service.nextRef :=
      congrArg (fun outcome => outcome.service.nextRef) heq
    rw [Service.handleMeasurement_of_submission (Service.only_submission task true),
      Service.handleMeasurement_of_submission (Service.only_submission task false),
      Service.requeue_of_taken _ _ rfl, Service.requeue_nextRef rfl hrecurs] at hservice
    exact absurd hservice (Nat.succ_ne_self _).symm
  · rintro (hnot | hbuilt) s env sub hsub htask
    · -- nothing is cloned
      obtain ⟨hconsented, hrunning, hdue, -⟩ := Service.submission_eq_some.mp hsub
      rw [htask] at hdue
      have hkeeps (env' : CallEnv) (s' : Service Q) : s'.requeue task env' = (s', .ok ()) := by
        unfold Service.requeue
        rw [if_neg hnot]
      unfold Service.handleMeasurement
      dsimp only
      rw [if_pos hconsented, if_pos hconsented, hdue]
      dsimp only
      rw [Service.process_of_running hrunning, Service.process_of_running hrunning, hkeeps, hkeeps]
      rfl
    · rw [hbuilt]

end Successor

/-- A ping that was taken cannot be cloned any more. -/
theorem not_clonesSame_returned :
    ¬ ∀ (task : MeasurementTask) (o : RunOutcome), ClonesSame task.desc o := by
  intro hall
  exact not_clonesSame_of_built (o := .returned 0 true) rfl
    (hall (pingTaskOf 0 1 0 90000 2) (.returned 0 true))

end MobiPerf.Scheduler
