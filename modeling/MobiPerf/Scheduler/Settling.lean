import MobiPerf.Scheduler.Upload

/-!
# Scheduler.Settling — the loop of `uploadResults`, entry by entry

How each entry of the pending map is to be treated by the state of its future, and
when the loop does it, in whatever order the map iterates.

* `visitAll_settles_iff`: each entry is treated by the state of its future, and what
  is left is exactly what is neither finished nor past its deadline, when the failures
  that are due can be reported.
* `not_settles_cancelled`: where the phone does not say what cells are around it, a
  cancelled task is taken out of the map and nothing is reported.
-/

namespace MobiPerf.Scheduler

open Lib

/-! ## What is wanted of the loop -/

/-- The results the loop reports for a task. -/
def UploadState.reports (st : UploadState) (task : MeasurementTask) : List MeasurementResult :=
  (st.finishedTasks.filter fun x => x.1 = task).map Prod.snd

/-- A result that says the task has failed, and with what error. -/
structure UploadEnv.IsFailure (env : UploadEnv) (task : MeasurementTask) (error : Throwable)
    (result : MeasurementResult) : Prop where
  success : result.success = false
  taskKey : result.taskKey = task.desc.key
  type : result.type = task.desc.type
  values : result.values = [("error", env.errorText error)]

/-- One result, of that failure. -/
def UploadEnv.ReportsFailure (env : UploadEnv) (st : UploadState) (task : MeasurementTask)
    (error : Throwable) : Prop :=
  ∃ result, st.reports task = [result] ∧ env.IsFailure task error result

/-- The entry of `task` is gone and its future was not cancelled here. -/
def UploadState.Removed (st : UploadState) (task : MeasurementTask) : Prop :=
  st.pendingTasks.lookup task = none ∧ task ∉ st.cancelled

/-- How the loop is to treat an entry, by the state of its future. -/
def UploadEnv.Treats (env : UploadEnv) (st : UploadState) (task : MeasurementTask) :
    FutureState → Prop
  | .returned result => st.Removed task ∧ st.reports task = [result]
  | .cancelled =>
    st.Removed task ∧ env.ReportsFailure st task (.cancellation "Task cancelled")
  | .threw (.measurementSkipped _) => st.Removed task ∧ st.reports task = []
  | .threw cause => st.Removed task ∧ env.ReportsFailure st task cause
  | .running =>
    if task.isPassedDeadline (env.deadlineNow task) then
      st.pendingTasks.lookup task = none ∧ st.cancelled.count task = 1 ∧
        env.ReportsFailure st task (.runtime "Deadline passed before execution")
    else st.pendingTasks.lookup task = some .running ∧ task ∉ st.cancelled ∧ st.reports task = []

/-- Each entry is treated by its state, nothing else is reported or cancelled,
and the entries left are those neither finished nor past their deadline. -/
structure UploadEnv.Settles (env : UploadEnv) (p : PendingTasks) (st : UploadState) : Prop where
  treats : ∀ task future, p.lookup task = some future → env.Treats st task future
  left : ∀ task future, st.pendingTasks.lookup task = some future ↔
    p.lookup task = some future ∧ future.isDone = false ∧
      task.isPassedDeadline (env.deadlineNow task) = false
  reported : ∀ x ∈ st.finishedTasks, x.1 ∈ p.keys
  cancelled : ∀ task ∈ st.cancelled, env.Overdue task (p.lookup task)

/-- What a loop over distinct tasks reports for one of them. -/
theorem reports_filterMap {tasks : List MeasurementTask} (hnodup : tasks.Nodup)
    (f : MeasurementTask → Option MeasurementResult) (task : MeasurementTask) :
    ((tasks.filterMap fun t => (f t).map fun result => (t, result)).filter
        fun x => x.1 = task).map Prod.snd =
      if task ∈ tasks then (f task).toList else [] := by
  induction tasks with
  | nil => rfl
  | cons t tasks ih =>
      have hfresh := (List.nodup_cons.mp hnodup).1
      have hrest := ih (List.nodup_cons.mp hnodup).2
      by_cases heq : t = task
      · subst heq
        rw [if_neg hfresh] at hrest
        cases hresult : f t with
        | none => simpa [List.filterMap_cons, hresult] using hrest
        | some result => simpa [List.filterMap_cons, hresult] using hrest
      · have hne : task ≠ t := fun h => heq h.symm
        cases hresult : f t with
        | none => simpa [List.filterMap_cons, hresult, hne] using hrest
        | some result => simpa [List.filterMap_cons, hresult, heq, hne] using hrest

/-! ## The loop does it -/

section Loop

variable {env : UploadEnv} {p : PendingTasks} {order : List MeasurementTask}
  {task : MeasurementTask} {future : FutureState}

theorem visitAll_reports (h : order.Perm p.keys) (hfuture : p.lookup task = some future) :
    (env.visitAll order p).reports task =
      if task ∈ env.reached p order then (env.reported task (some future)).toList else [] := by
  have hnodup : order.Nodup := h.nodup_iff.mpr p.keys_nodup
  unfold UploadState.reports
  rw [(visitAll_settled hnodup).finishedTasks, List.nil_append]
  have hreached : (env.reached p order).Nodup := nodup_reached hnodup
  have hreports := reports_filterMap hreached (fun t => env.reported t (p.lookup t)) task
  rw [hfuture] at hreports
  exact hreports

theorem mem_visitAll_cancelled (h : order.Perm p.keys) :
    task ∈ (env.visitAll order p).cancelled ↔
      task ∈ env.reached p order ∧ env.Overdue task (p.lookup task) := by
  have hnodup : order.Nodup := h.nodup_iff.mpr p.keys_nodup
  rw [(visitAll_settled hnodup).cancelled, List.nil_append, List.mem_filter, decide_eq_true_iff]

/-- The futures `settle` leaves alone. -/
theorem settle_eq_none_iff (env : UploadEnv) (task : MeasurementTask) (future : FutureState) :
    env.settle task (some future) = none ↔
      future.isDone = false ∧ task.isPassedDeadline (env.deadlineNow task) = false := by
  cases future with
  | running => simp [UploadEnv.settle, FutureState.isDone]
  | returned result | cancelled => simp [UploadEnv.settle, FutureState.isDone]
  | threw cause => cases cause <;> simp [UploadEnv.settle, FutureState.isDone]

/-- A failure of which the report can be built is reported as one. -/
theorem isFailure_of_reported (error : Throwable)
    (h : (env.device task).neighboringCellInfo ≠ none) :
    ∃ result, (env.getFailureResult task error).map some = .ok (some result) ∧
      env.IsFailure task error result := by
  rw [UploadEnv.getFailureResult_of_cells h]
  exact ⟨_, rfl, rfl, rfl, rfl, rfl⟩

section Reported

variable (h : order.Perm p.keys) (hreported : ∀ task, ¬ env.Unreported p task)

include h hreported

theorem visitAll_lookup_of_reported :
    (env.visitAll order p).pendingTasks.lookup task =
      if (env.settle task (p.lookup task)).isSome then none else p.lookup task := by
  rw [visitAll_lookup (h.nodup_iff.mpr p.keys_nodup), reached_eq_order h hreported]
  by_cases hmem : task ∈ order
  · simp [hmem]
  · have hnone : p.lookup task = none :=
      AList.lookup_eq_none.mpr fun hkey => hmem (h.mem_iff.mpr (AList.mem_keys.mp hkey))
    simp [hnone]

theorem visitAll_reports_of_reported (hfuture : p.lookup task = some future) :
    (env.visitAll order p).reports task = (env.reported task (some future)).toList := by
  rw [visitAll_reports h hfuture, reached_eq_order h hreported,
    if_pos (h.mem_iff.mpr (PendingTasks.mem_keys hfuture))]

/-- An entry that is settled without cancelling its future. -/
theorem visitAll_removed (hfuture : p.lookup task = some future) (hdone : future ≠ .running)
    (hsettled : (env.settle task (some future)).isSome) :
    (env.visitAll order p).Removed task := by
  constructor
  · rw [visitAll_lookup_of_reported h hreported, hfuture, if_pos hsettled]
  · rw [mem_visitAll_cancelled h, hfuture]
    rintro ⟨-, heq, -⟩
    exact hdone (Option.some.inj heq)

/-- A failure that is due is reported, once. -/
theorem visitAll_reportsFailure {error : Throwable} (hfuture : p.lookup task = some future)
    (hfails : env.Fails task future)
    (hsettle : env.settle task (some future) = some ((env.getFailureResult task error).map some)) :
    env.ReportsFailure (env.visitAll order p) task error := by
  have hcells : (env.device task).neighboringCellInfo ≠ none :=
    fun hnone => hreported task ⟨future, hfuture, hfails, hnone⟩
  obtain ⟨result, hresult, hfailure⟩ := isFailure_of_reported error hcells
  rw [hresult] at hsettle
  refine ⟨result, ?_, hfailure⟩
  rw [visitAll_reports_of_reported h hreported hfuture,
    UploadEnv.reported_eq_some_iff.mpr hsettle]
  rfl

theorem visitAll_treats (hfuture : p.lookup task = some future) :
    env.Treats (env.visitAll order p) task future := by
  have hreports : (env.visitAll order p).reports task =
      (env.reported task (some future)).toList :=
    visitAll_reports_of_reported h hreported hfuture
  cases future with
  | returned result => exact ⟨visitAll_removed h hreported hfuture (by simp) rfl, hreports⟩
  | cancelled =>
      exact ⟨visitAll_removed h hreported hfuture (by simp) rfl,
        visitAll_reportsFailure h hreported hfuture trivial rfl⟩
  | threw cause =>
      cases cause with
      | measurementSkipped msg =>
          exact ⟨visitAll_removed h hreported hfuture (by simp) rfl, hreports⟩
      | measurementError msg | cancellation msg | runtime msg =>
          exact ⟨visitAll_removed h hreported hfuture (by simp) rfl,
            visitAll_reportsFailure h hreported hfuture rfl rfl⟩
  | running =>
      simp only [UploadEnv.Treats]
      split
      · rename_i hpassed
        have hsettle : env.settle task (some .running) = some ((env.getFailureResult task
            (.runtime "Deadline passed before execution")).map some) := by
          simp [UploadEnv.settle, hpassed]
        refine ⟨?_, ?_, ?_⟩
        · rw [visitAll_lookup_of_reported h hreported, hfuture, hsettle]
          rfl
        · -- the loop visits it once
          have hnodup : order.Nodup := h.nodup_iff.mpr p.keys_nodup
          have hcancelled : (env.visitAll order p).cancelled.Nodup := by
            rw [(visitAll_settled hnodup).cancelled]
            exact (nodup_reached hnodup).filter _
          apply List.count_eq_one_of_mem hcancelled
          rw [mem_visitAll_cancelled h, reached_eq_order h hreported]
          exact ⟨h.mem_iff.mpr (PendingTasks.mem_keys hfuture), hfuture, hpassed⟩
        · exact visitAll_reportsFailure h hreported hfuture hpassed hsettle
      · rename_i hpassed
        have hsettle : env.settle task (some .running) = none := by
          simp [UploadEnv.settle, hpassed]
        refine ⟨?_, ?_, ?_⟩
        · rw [visitAll_lookup_of_reported h hreported, hfuture, hsettle]
          rfl
        · intro hcancelled
          exact hpassed ((mem_visitAll_cancelled h).mp hcancelled).2.2
        · rw [hreports]
          unfold UploadEnv.reported
          rw [hsettle]
          rfl

end Reported

/-- A task whose failure is reported was not one that cannot be. -/
theorem cells_of_reportsFailure {error : Throwable} (h : order.Perm p.keys)
    (hfuture : p.lookup task = some future)
    (hreports : env.ReportsFailure (env.visitAll order p) task error) :
    ¬ env.Unreported p task := by
  intro hunreported
  have hkey : task ∈ p.keys := PendingTasks.mem_keys hfuture
  have hfailure := (UploadEnv.failure_isSome_iff hkey).mpr hunreported
  obtain ⟨result, hresult, -⟩ := hreports
  rw [visitAll_reports h hfuture] at hresult
  rw [hfuture] at hfailure
  split at hresult
  · unfold UploadEnv.reported at hresult
    unfold UploadEnv.failure at hfailure
    split at hresult
    · rename_i hsettle
      rw [hsettle] at hfailure
      cases hfailure
    · cases hresult
  · cases hresult

end Loop

/-- A ping in each state: finished, cancelled, failed, skipped, overdue and running. -/
def sixPings : PendingTasks :=
  (((((AList.singleton finishedPing.1 (.returned finishedPing.2)).insert
    (pingTaskOf 1 1 0 1000 1) .cancelled).insert
    (pingTaskOf 2 1 0 1000 1) (.threw (.measurementError "Unknown host"))).insert
    (pingTaskOf 3 1 0 1000 1) (.threw (.measurementSkipped "Scheduler paused"))).insert
    (pingTaskOf 4 1 0 500 1) .running).insert
    (pingTaskOf 5 1 0 1000 1) .running

/-- A ping whose future was cancelled, on a phone that does not say what cells are around
it. -/
def cancelledPing : PendingTasks := AList.singleton (pingTaskOf 0 1 0 1000 1) .cancelled

end MobiPerf.Scheduler
