import MobiPerf.Scheduler.Run

/-!
# Scheduler.Deadline — submissions and end times

`endTime` is the latest time a measurement may be taken. It is looked at when a
successor is made and when results are uploaded; the dispatch of a task comes at
any time after either, and does not look at it.
-/

namespace MobiPerf.Scheduler

open Lib

variable {Q : Type} [PriorityQueue Q MeasurementTask MeasurementTask.Le]

/-- Every task was submitted before its end time. -/
def InTime (s : Service Q) : Prop :=
  ∀ sub ∈ s.measurementExecutor.submissions, sub.time < sub.task.desc.endTime

/-- A call that finds the head due, and an executor to run it, comes before the
head's end time. -/
def HeadInTime : Event → World Q → Prop
  | .handleMeasurement env, w =>
    env.userConsented = true → w.service.measurementExecutor.isShutdown = false →
      ∀ task ∈ w.service.due env.dueNow, task.isPassedDeadline env.submitNow = false
  | _, _ => True

instance (event : Event) (w : World Q) : Decidable (HeadInTime event w) :=
  match event with
  | .handleMeasurement _ => inferInstanceAs (Decidable (_ → _ → ∀ task ∈ _, _))
  | .wait _ => isTrue trivial
  | .submitTask _ => isTrue trivial
  | .getTasksFromServer _ => isTrue trivial
  | .removeTaskByKey _ => isTrue trivial
  | .uploadResults _ => isTrue trivial
  | .finish _ _ => isTrue trivial
  | .cleanUp => isTrue trivial

theorem MeasurementTask.isPassedDeadline_eq_false {t : MeasurementTask} {now : Int} :
    t.isPassedDeadline now = false ↔ now < t.desc.endTime := by
  simp [isPassedDeadline]

/-- What a call submits is in time exactly when the call meets the condition. -/
theorem headInTime_iff (w : World Q) (env : CallEnv) :
    HeadInTime (.handleMeasurement env) w ↔
      ∀ sub, w.service.submission env = some sub → sub.time < sub.task.desc.endTime := by
  unfold HeadInTime Service.submission
  constructor
  · intro h sub hsub
    split at hsub
    · rename_i hcond
      rcases Option.map_eq_some_iff.mp hsub with ⟨task, hdue, heq⟩
      have htask := h hcond.1 hcond.2 task hdue
      rw [MeasurementTask.isPassedDeadline_eq_false] at htask
      rw [← heq]
      exact htask
    · cases hsub
  · intro h hconsented hrunning task hdue
    rw [MeasurementTask.isPassedDeadline_eq_false]
    apply h ⟨task.wrapper, task, env.submitNow⟩
    rw [if_pos ⟨hconsented, hrunning⟩, hdue]
    rfl

theorem inTime_handleMeasurement {s : Service Q} (h : InTime s) (env : CallEnv) :
    InTime (s.handleMeasurement env).service ↔
      ∀ sub, s.submission env = some sub → sub.time < sub.task.desc.endTime := by
  unfold InTime
  rw [s.handleMeasurement_submissions]
  constructor
  · intro hall sub hsub
    apply hall
    rw [hsub]
    exact List.mem_append_right _ (List.mem_singleton.mpr rfl)
  · intro hnew sub hmem
    rcases List.mem_append.mp hmem with hold | hlast
    · exact h sub hold
    · exact hnew sub (Option.mem_toList.mp hlast)

/-- The other calls submit nothing. -/
theorem step_submissions {event : Event} {w w' : World Q} (hstep : World.step event w = some w')
    (hevent : ∀ env, event ≠ .handleMeasurement env) :
    w'.service.measurementExecutor.submissions = w.service.measurementExecutor.submissions := by
  cases event with
  | submitTask d =>
      cases hstep
      exact congrArg Executor.submissions (Service.submitTask_measurementExecutor _ _)
  | getTasksFromServer ds =>
      cases hstep
      exact congrArg Executor.submissions (w.service.getTasksFromServer_measurementExecutor ds)
  | handleMeasurement env => exact absurd rfl (hevent env)
  | wait _ | removeTaskByKey _ | uploadResults _ | finish _ _ | cleanUp =>
      exact (World.step_shrinks hstep trivial).submissions

theorem step_handleMeasurement {env : CallEnv} {w w' : World Q} :
    World.step (.handleMeasurement env) w = some w' ↔
      env.Forward w.now ∧ w' = ⟨(w.service.handleMeasurement env).service, env.armNow⟩ := by
  unfold World.step
  constructor
  · intro h
    dsimp only at h
    split at h
    · rename_i hforward
      cases h
      exact ⟨hforward, rfl⟩
    · cases h
  · rintro ⟨hforward, rfl⟩
    exact if_pos hforward

theorem step_inTime {event : Event} {w w' : World Q} (h : InTime w.service)
    (hguard : HeadInTime event w) (hstep : World.step event w = some w') : InTime w'.service := by
  by_cases hevent : ∃ env, event = .handleMeasurement env
  · rcases hevent with ⟨env, rfl⟩
    rcases step_handleMeasurement.mp hstep with ⟨_, rfl⟩
    exact (inTime_handleMeasurement h env).mpr ((headInTime_iff w env).mp hguard)
  · have hsame := step_submissions hstep fun env heq => hevent ⟨env, heq⟩
    intro sub hsub
    exact h sub (hsame ▸ hsub)

/-- In every run whose calls find the due head before its end time, every task
was submitted before its end time; the first call that finds it at or after its
end time submits it all the same. -/
theorem inTime_runs {w : World Q} (hw : (scheduler Q).ReachableBy HeadInTime w) :
    InTime w.service ∧ ∀ env w', ¬ HeadInTime (.handleMeasurement env) w →
      World.step (.handleMeasurement env) w = some w' → ¬ InTime w'.service := by
  have hinTime : InTime w.service := by
    apply hw.invariant
    · intro w₀ hinit sub hsub
      rw [show w₀.service = Service.onCreate from hinit] at hsub
      cases hsub
    · intro event w w' h hguard hstep
      exact step_inTime h hguard hstep
  constructor
  · exact hinTime
  · intro env w' hlate hstep hinTime'
    rcases step_handleMeasurement.mp hstep with ⟨_, rfl⟩
    exact hlate ((headInTime_iff w env).mpr ((inTime_handleMeasurement hinTime env).mp hinTime'))

/-! ## A ping that is dispatched in time, and one that is not -/

/-- A ping that may be taken between 0 and 1000, created at 0 and handled at
`now`. -/
def pingUntil1000 (now : ℕ) : List Event :=
  [.submitTask ⟨pingDescOf 1 0 1000 1, pingDescOf_accepted 1 0 1000 1⟩, .wait now,
    .handleMeasurement (.atClock now false)]

/-- Handled at 500, the ping is submitted in time. -/
theorem inTime_runs_at500 :
    ∃ w : World (SortedQueue MeasurementTask.Le),
      (scheduler _).runBy HeadInTime (pingUntil1000 500) (World.created 0) = some w ∧
        w.service.measurementExecutor.submissions.length = 1 ∧ InTime w.service := by
  have hrun : ((scheduler (SortedQueue MeasurementTask.Le)).runBy HeadInTime (pingUntil1000 500)
      (World.created 0)).any fun w => w.service.measurementExecutor.submissions.length = 1 := by
    decide +kernel
  rcases (Option.any_eq_true _ _).mp hrun with ⟨w, hsteps, hlength⟩
  have hreach : (scheduler _).ReachableBy HeadInTime w :=
    (System.ReachableBy.init (init_created 0)).steps (System.steps_of_runBy hsteps)
  exact ⟨w, hsteps, of_decide_eq_true hlength, (inTime_runs hreach).1⟩

/-- Handled at 2000, it is submitted as well. -/
theorem not_inTime_at2000 :
    ¬ ∀ w : World (SortedQueue MeasurementTask.Le), (scheduler _).Reachable w →
      InTime w.service := by
  intro hall
  have hrun : ((scheduler (SortedQueue MeasurementTask.Le)).run (pingUntil1000 2000)
      (World.created 0)).any fun w => w.service.measurementExecutor.submissions.any fun sub =>
        sub.time = 2000 ∧ sub.task.desc.endTime = 1000 := by
    decide +kernel
  rcases (Option.any_eq_true _ _).mp hrun with ⟨w, hsteps, hany⟩
  rcases List.any_eq_true.mp hany with ⟨sub, hsub, htimes⟩
  have hbefore := hall w (System.reachable_of_run (init_created 0) hsteps) sub hsub
  have hlate := of_decide_eq_true htimes
  omega

end MobiPerf.Scheduler
