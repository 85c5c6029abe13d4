import MobiPerf.Scheduler.Concurrent

/-!
# Scheduler.UserTasks — accepted user tasks

`submitTask` takes a task of `USER_PRIORITY` whatever the queue holds, and what
it accepted should stay in the queue until it is dispatched. The runs are those
of `Scheduler.Concurrent`, with two records: the user tasks `submitTask` has
accepted, and the tasks that were removed on purpose, by `removeTaskByKey` or by
the clean-up of the service. A task is dispatched from the moment it is polled
for the executor (`Threads.Reaches`).

* `kept_runs`: no accepted user task is lost in the runs in which no check-in
  clears the queue while one waits in it, and no poll takes one that its thread
  has not peeked.
* `not_kept_clearedByCheckin`: a check-in's clearing does not spare user tasks.
-/

namespace MobiPerf.Scheduler

open Lib

variable {Q : Type} [PriorityQueue Q MeasurementTask MeasurementTask.Le]

/-! ## Runs with their records -/

structure UserTasks (Q : Type) where
  threads : Threads Q
  accepted : List MeasurementTask
  removed : List MeasurementTask

/-- The user task for which `submitTask` is about to return true. -/
def Threads.accepts : Label → Threads Q → List MeasurementTask
  | .thread i _, s =>
    match s.pc i with
    | .add newTask _ _ => if newTask.desc.priority = userPriority then [newTask] else []
    | _ => []
  | _, _ => []

/-- What a step from `s` to `s'` removes on purpose: `removeTaskByKey` and
`cleanUp` from the queue, and `cleanUp` by shutting down the executor a task is
on its way to. -/
def Threads.removes (label : Label) (s s' : Threads Q) : List MeasurementTask :=
  match label with
  | .removeTaskByKey _ | .clearQueue =>
    (PriorityQueue.toList s.service.taskQueue).filter fun t =>
      t ∉ PriorityQueue.toList s'.service.taskQueue
  | .thread i _ =>
    match s.pc i with
    | .submit task => if s.service.measurementExecutor.isShutdown then [task] else []
    | _ => []
  | _ => []

def UserTasks.step (label : Label) (s : UserTasks Q) : Option (UserTasks Q) :=
  (Threads.step label s.threads).map fun threads => {
    threads
    accepted := s.accepted ++ s.threads.accepts label
    removed := s.removed ++ s.threads.removes label threads }

def userTasks (Q : Type) [PriorityQueue Q MeasurementTask MeasurementTask.Le] :
    System (UserTasks Q) Label where
  Init s := s = ⟨Threads.created, [], []⟩
  step := UserTasks.step

/-! ## What is kept -/

/-- The task was dispatched, or removed on purpose. -/
def UserTasks.Done (s : UserTasks Q) (t : MeasurementTask) : Prop :=
  s.threads.Reaches t ∨ ∃ u ∈ s.removed, u.ref = t.ref

/-- The task is in the queue. -/
def UserTasks.Queued (s : UserTasks Q) (t : MeasurementTask) : Prop :=
  ∃ u ∈ PriorityQueue.toList s.threads.service.taskQueue, u.ref = t.ref

/-- Every accepted user task is in the queue, dispatched or removed. -/
def UserTasks.Kept (s : UserTasks Q) : Prop :=
  ∀ t ∈ s.accepted, s.Queued t ∨ s.Done t

/-- No check-in clears the queue while an accepted user task waits in it, and a
poll that takes one takes the task its thread has peeked. -/
def WaitingSpared : Label → UserTasks Q → Prop
  | .thread i _, s =>
    match s.threads.pc i with
    | .clear _ => ∀ t ∈ s.accepted, s.Queued t → s.Done t
    | .poll task => ∀ other, PriorityQueue.peek s.threads.service.taskQueue = some other →
        ∀ t ∈ s.accepted, other.ref = t.ref → task.ref = t.ref ∨ s.Done t
    | _ => True
  | _, _ => True

/-! ## Steps -/

omit [PriorityQueue Q MeasurementTask MeasurementTask.Le] in
/-- What is done stays done, when the submissions and the removals only grow and
what was about to be submitted is submitted or removed. -/
theorem UserTasks.Done.step {s s' : UserTasks Q} {t : MeasurementTask} (h : s.Done t)
    (hsubs : s.threads.service.measurementExecutor.submissions ⊆
      s'.threads.service.measurementExecutor.submissions)
    (hpc : ∀ i task, s.threads.pc i = .submit task → s'.threads.pc i = .submit task ∨
      (∃ sub ∈ s'.threads.service.measurementExecutor.submissions, sub.task.ref = task.ref) ∨
        task ∈ s'.removed)
    (hremoved : s.removed ⊆ s'.removed) : s'.Done t := by
  rcases h with (⟨sub, hsub, href⟩ | ⟨i, task, hi, href⟩) | ⟨u, hu, href⟩
  · exact .inl (.inl ⟨sub, hsubs hsub, href⟩)
  · rcases hpc i task hi with hi' | ⟨sub, hsub, href'⟩ | htask
    · exact .inl (.inr ⟨i, task, hi', href⟩)
    · exact .inl (.inl ⟨sub, hsub, href'.trans href⟩)
    · exact .inr ⟨task, htask, href⟩
  · exact .inr ⟨u, hremoved hu, href⟩

omit [PriorityQueue Q MeasurementTask MeasurementTask.Le] in
/-- Where a thread moves that is not about to submit, what is done stays done. -/
theorem UserTasks.Done.move {s s' : UserTasks Q} {t : MeasurementTask} {i : ℕ} {old pc : Pc}
    (h : s.Done t) (hold : s.threads.pc i = old) (hsubmitting : old.submitting = none)
    (hpc : s'.threads.pc = Function.update s.threads.pc i pc)
    (hsubs : s'.threads.service.measurementExecutor.submissions =
      s.threads.service.measurementExecutor.submissions)
    (hremoved : s.removed ⊆ s'.removed) : s'.Done t := by
  refine h.step (fun sub hsub => hsubs ▸ hsub) ?_ hremoved
  intro j task hj
  left
  rw [hpc, Function.update_of_ne (ne_of_submitting hold hsubmitting hj), hj]

omit [PriorityQueue Q MeasurementTask MeasurementTask.Le] in
/-- Where a thread is through with its submission, what is done stays done: its task
is with the executor, or was removed. -/
theorem UserTasks.Done.submitted {s s' : UserTasks Q} {t task : MeasurementTask} {i : ℕ} {pc : Pc}
    (h : s.Done t) (hold : s.threads.pc i = .submit task)
    (hpc : s'.threads.pc = Function.update s.threads.pc i pc)
    (hsubs : s.threads.service.measurementExecutor.submissions ⊆
      s'.threads.service.measurementExecutor.submissions)
    (hremoved : s.removed ⊆ s'.removed)
    (htask : (∃ sub ∈ s'.threads.service.measurementExecutor.submissions,
      sub.task.ref = task.ref) ∨ task ∈ s'.removed) : s'.Done t := by
  refine h.step hsubs ?_ hremoved
  intro j task' hj
  by_cases hji : j = i
  · subst hji
    rw [hold] at hj
    cases hj
    exact .inr htask
  · left
    rw [hpc, Function.update_of_ne hji, hj]

/-- What `submitTask` accepts is in the queue. -/
theorem accepts_queued {label : Label} {s : UserTasks Q} {threads : Threads Q}
    {t : MeasurementTask} (ht : t ∈ s.threads.accepts label)
    (hstep : Threads.step label s.threads = some threads) :
    ∃ u ∈ PriorityQueue.toList threads.service.taskQueue, u.ref = t.ref := by
  cases label with
  | thread i io =>
      unfold Threads.accepts at ht
      dsimp only at ht
      split at ht
      · rename_i newTask rest after hpc
        have hmem : t ∈ [newTask] := by
          split at ht
          · exact ht
          · cases ht
        cases List.mem_singleton.mp hmem
        have hthread : s.threads.threadStep i io = some threads := hstep
        simp only [Threads.threadStep, hpc] at hthread
        cases io <;> cases hthread
        exact ⟨t, PriorityQueue.mem_add.mpr (.inl rfl), rfl⟩
      · cases ht
  | _ => cases ht

/-- What is done stays done. -/
theorem step_done {label : Label} {s s' : UserTasks Q} {t : MeasurementTask} (hdone : s.Done t)
    (hstep : (userTasks Q).step label s = some s') : s'.Done t := by
  rcases Option.map_eq_some_iff.mp hstep with ⟨threads, hthreads, rfl⟩
  have hremoved : s.removed ⊆ s.removed ++ s.threads.removes label threads :=
    List.subset_append_left ..
  cases label with
  | thread i io =>
      cases threadStep_move hthreads with
      | walk pc hold _ _ _ hpc _ hexecutor =>
          exact hdone.move rfl hold hpc (congrArg Executor.submissions hexecutor) hremoved
      | next d rest after hpc hs' =>
          exact hdone.move hpc rfl (by rw [hs']) (by rw [hs']; rfl) hremoved
      | clone task newTask _ _ _ hpc _ hs' =>
          exact hdone.move hpc rfl (by rw [hs']) (by rw [hs']; rfl) hremoved
      | add newTask rest after hpc hs' =>
          exact hdone.move hpc rfl (by rw [hs']) (by rw [hs']) hremoved
      | poll task hpc hs' =>
          exact hdone.move hpc rfl (by rw [hs']) (by rw [hs']) hremoved
      | submit task now hpc hrunning hs' =>
          refine hdone.submitted hpc (by rw [hs']) ?_ hremoved (.inl ?_)
          · rw [hs']
            exact List.subset_append_left ..
          · rw [hs']
            exact ⟨_, List.mem_append_right _ (List.mem_singleton.mpr rfl), rfl⟩
      | reject task hpc hshutdown hs' =>
          refine hdone.submitted hpc (by rw [hs']; rfl) ?_ hremoved (.inr ?_)
          · rw [hs']
            exact List.Subset.refl _
          · -- the executor refuses what the clean-up came before
            have hremoves : s.threads.removes (.thread i io) threads = [task] := by
              simp [Threads.removes, hpc, hshutdown]
            rw [hremoves]
            exact List.mem_append_right _ (List.mem_singleton.mpr rfl)
      | clear ds hpc hs' =>
          exact hdone.move hpc rfl (by rw [hs']) (by rw [hs']; rfl) hremoved
  | removeTaskByKey key =>
      cases hthreads
      refine hdone.step ?_ (fun i task hi => .inl hi) hremoved
      rw [s.threads.service.removeTaskByKey_measurementExecutor key]
      exact List.Subset.refl _
  | removePending _ | clearQueue | shutdownExecutor =>
      cases hthreads
      exact hdone.step (List.Subset.refl _) (fun i task hi => .inl hi) hremoved

/-- A task leaves the queue for the executor, or removed on purpose. -/
theorem step_queued {label : Label} {s s' : UserTasks Q} {t : MeasurementTask}
    (hok : WaitingSpared label s) (ht : t ∈ s.accepted) (hqueued : s.Queued t)
    (hstep : (userTasks Q).step label s = some s') : s'.Queued t ∨ s'.Done t := by
  have hkeeps : s.Done t → s'.Done t := fun hdone => step_done hdone hstep
  rcases Option.map_eq_some_iff.mp hstep with ⟨threads, hthreads, rfl⟩
  have hsame : threads.service.taskQueue = s.threads.service.taskQueue →
      UserTasks.Queued (Q := Q) ⟨threads, s.accepted ++ s.threads.accepts label,
        s.removed ++ s.threads.removes label threads⟩ t := by
    intro heq
    unfold UserTasks.Queued
    rw [heq]
    exact hqueued
  rcases hqueued with ⟨u, hu, href⟩
  -- what is removed on purpose is recorded
  have hremoves : s.threads.removes label threads =
        ((PriorityQueue.toList s.threads.service.taskQueue).filter fun t =>
          t ∉ PriorityQueue.toList threads.service.taskQueue) →
      UserTasks.Queued (Q := Q) ⟨threads, s.accepted ++ s.threads.accepts label,
          s.removed ++ s.threads.removes label threads⟩ t ∨
        UserTasks.Done (Q := Q) ⟨threads, s.accepted ++ s.threads.accepts label,
          s.removed ++ s.threads.removes label threads⟩ t := by
    intro heq
    by_cases hleft : u ∈ PriorityQueue.toList threads.service.taskQueue
    · exact .inl ⟨u, hleft, href⟩
    · have hu' : u ∈ s.threads.removes label threads := by
        rw [heq]
        exact List.mem_filter.mpr ⟨hu, decide_eq_true hleft⟩
      exact .inr (.inr ⟨u, List.mem_append_right _ hu', href⟩)
  cases label with
  | thread i io =>
      cases threadStep_move hthreads with
      | walk pc _ _ _ _ _ hqueue => exact .inl (hsame hqueue)
      | next d rest after hpc hs' => exact .inl (hsame (by rw [hs']; rfl))
      | clone task newTask _ _ _ hpc _ hs' => exact .inl (hsame (by rw [hs']; rfl))
      | add newTask rest after hpc hs' =>
          left
          refine ⟨u, ?_, href⟩
          rw [hs']
          exact PriorityQueue.mem_add.mpr (.inr hu)
      | poll task hpc hs' =>
          simp only [WaitingSpared, hpc] at hok
          rcases PriorityQueue.peek_or_mem_poll hu with hpeek | hrest
          · -- the head itself: it is the task that goes to the executor
            right
            rcases hok u hpeek t ht href with htask | hdone
            · refine .inl (.inr ⟨i, task, ?_, htask⟩)
              rw [hs']
              exact Function.update_self ..
            · exact hkeeps hdone
          · left
            refine ⟨u, ?_, href⟩
            rw [hs']
            exact hrest
      | submit task now hpc hrunning hs' => exact .inl (hsame (by rw [hs']))
      | reject task hpc hshutdown hs' => exact .inl (hsame (by rw [hs']; rfl))
      | clear ds hpc hs' =>
          simp only [WaitingSpared, hpc] at hok
          exact .inr (hkeeps (hok t ht ⟨u, hu, href⟩))
  | removeTaskByKey _ | clearQueue => exact hremoves rfl
  | removePending _ | shutdownExecutor =>
      cases hthreads
      exact .inl (hsame rfl)

theorem step_kept {label : Label} {s s' : UserTasks Q} (h : s.Kept) (hok : WaitingSpared label s)
    (hstep : (userTasks Q).step label s = some s') : s'.Kept := by
  intro t ht
  rcases Option.map_eq_some_iff.mp hstep with ⟨threads, hthreads, rfl⟩
  rcases List.mem_append.mp ht with ht | ht
  · rcases h t ht with hqueued | hdone
    · exact step_queued hok ht hqueued hstep
    · exact .inr (step_done hdone hstep)
  · exact .inl (accepts_queued ht hthreads)

/-! ## Runs -/

/-- Where no check-in clears the queue while an accepted user task waits in it,
and no poll takes one that its thread has not peeked, every accepted user task is
in the queue, dispatched, or removed on purpose. -/
theorem kept_runs {s : UserTasks Q} (h : (userTasks Q).ReachableBy WaitingSpared s) : s.Kept := by
  refine h.invariant (P := UserTasks.Kept) ?_ ?_
  · intro s₀ hinit t ht
    rw [show s₀ = ⟨Threads.created, [], []⟩ from hinit] at ht
    cases ht
  · exact fun label s s' hs hok => step_kept hs hok

/-! ## Executed runs -/

/-- A condition that can be tested: check-ins clear only before anything is
accepted, and polls take what was peeked. -/
def NothingWaits : Label → UserTasks Q → Bool
  | .thread i _, s =>
    match s.threads.pc i with
    | .clear _ => s.accepted = []
    | .poll task => PriorityQueue.peek s.threads.service.taskQueue = some task
    | _ => true
  | _, _ => true

theorem waitingSpared_of_nothingWaits {label : Label} {s : UserTasks Q}
    (h : NothingWaits label s = true) : WaitingSpared label s := by
  cases label with
  | thread i io =>
      unfold NothingWaits at h
      unfold WaitingSpared
      dsimp only at h ⊢
      split at h
      · intro t ht
        rw [of_decide_eq_true h] at ht
        cases ht
      · intro other hpeek t _ href
        rw [of_decide_eq_true h] at hpeek
        cases hpeek
        exact .inl href
      · trivial
  | _ => trivial

/-- Thread 0 submits a user task. -/
def submitUserTask : List Label :=
  .thread 0 (.submitTask (ofPriority userPriority)) :: List.replicate 4 (.thread 0 (.clock 0))

theorem kept_runs_dispatched :
    ∃ s : UserTasks (SortedQueue MeasurementTask.Le), s.Kept ∧
      s.accepted.map MeasurementTask.ref = [0] ∧
      (s.threads.service.measurementExecutor.submissions.map fun sub => sub.task.ref) = [0] := by
  have hrun : ((userTasks (SortedQueue MeasurementTask.Le)).runBy
      (fun label s => NothingWaits label s = true)
      (submitUserTask ++ peekSteps 1 ++ pollSteps 1) ⟨Threads.created, [], []⟩).any fun s =>
      s.accepted.map MeasurementTask.ref = [0] ∧
        (s.threads.service.measurementExecutor.submissions.map fun sub => sub.task.ref) = [0] := by
    decide +kernel
  rcases (Option.any_eq_true _ _).mp hrun with ⟨s, hsteps, hs⟩
  have hreach : (userTasks (SortedQueue MeasurementTask.Le)).ReachableBy
      (fun label s => NothingWaits label s = true) s :=
    (System.ReachableBy.init rfl).steps (System.steps_of_runBy hsteps)
  exact ⟨s, kept_runs (hreach.mono fun _ _ => waitingSpared_of_nothingWaits),
    of_decide_eq_true hs⟩

/-- Only threads 0 and 1 move. -/
def TwoThreads : Label → UserTasks Q → Prop
  | .thread i _, _ => i < 2
  | _, _ => True

instance (label : Label) (s : UserTasks Q) : Decidable (TwoThreads label s) :=
  match label with
  | .thread _ _ => inferInstanceAs (Decidable (_ < _))
  | .removeTaskByKey _ => isTrue trivial
  | .removePending _ => isTrue trivial
  | .clearQueue => isTrue trivial
  | .shutdownExecutor => isTrue trivial

/-- The others stay where they are. -/
theorem pc_of_twoThreads {s s' : UserTasks Q} (h : (userTasks Q).Steps TwoThreads s s') {i : ℕ}
    (hi : 2 ≤ i) : s'.threads.pc i = s.threads.pc i := by
  refine h.preserves (P := fun t => t.threads.pc i = s.threads.pc i) ?_ rfl
  intro label t t' ht hok hstep
  rcases Option.map_eq_some_iff.mp hstep with ⟨threads, hthreads, rfl⟩
  cases label with
  | thread j io =>
      have hne : i ≠ j := by
        have hj : j < 2 := hok
        omega
      exact ((threadStep_move hthreads).pc_of_ne hne).trans ht
  | _ =>
      cases hthreads
      exact ht

/-- The user interface submits a task and is told that it was accepted; then a
check-in clears the queue. -/
theorem not_kept_clearedByCheckin :
    ∃ s : UserTasks (SortedQueue MeasurementTask.Le), (userTasks _).Reachable s ∧ ¬ s.Kept := by
  have hrun : ((userTasks (SortedQueue MeasurementTask.Le)).runBy TwoThreads
      (submitUserTask ++ [.thread 1 (.checkin []), .thread 1 (.clock 0)])
      ⟨Threads.created, [], []⟩).any fun s =>
      s.accepted.length = 1 ∧ PriorityQueue.toList s.threads.service.taskQueue = [] ∧
        s.threads.service.measurementExecutor.submissions.length = 0 ∧ s.removed = [] ∧
        (s.threads.pc 0).submitting = none ∧ (s.threads.pc 1).submitting = none := by
    decide +kernel
  rcases (Option.any_eq_true _ _).mp hrun with ⟨s, hsteps, hs⟩
  rcases of_decide_eq_true hs with ⟨haccepted, hqueue, hsubs, hremoved, hpc0, hpc1⟩
  have hguarded := System.steps_of_runBy hsteps
  have hreach : (userTasks (SortedQueue MeasurementTask.Le)).ReachableBy TwoThreads s :=
    (System.ReachableBy.init rfl).steps hguarded
  refine ⟨s, hreach.reachable, fun hkept => ?_⟩
  rcases List.length_eq_one_iff.mp haccepted with ⟨t, ht⟩
  rcases hkept t (ht ▸ List.mem_singleton.mpr rfl) with ⟨u, hu, -⟩ |
    (⟨sub, hsub, -⟩ | ⟨i, task, hi, -⟩) | ⟨u, hu, -⟩
  · rw [hqueue] at hu
    cases hu
  · rw [List.length_eq_zero_iff.mp hsubs] at hsub
    cases hsub
  · -- no thread has the task in hand
    have hsubmitting : (s.threads.pc i).submitting = none := by
      by_cases h2 : 2 ≤ i
      · rw [pc_of_twoThreads hguarded h2]
        rfl
      · have hcases : i = 0 ∨ i = 1 := by omega
        rcases hcases with rfl | rfl
        · exact hpc0
        · exact hpc1
    rw [hi] at hsubmitting
    cases hsubmitting
  · rw [hremoved] at hu
    cases hu

end MobiPerf.Scheduler
