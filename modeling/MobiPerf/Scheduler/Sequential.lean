import MobiPerf.Scheduler.Concurrent

/-!
# Scheduler.Sequential — a call that runs alone

The interleavings of `Scheduler.Concurrent` contain the calls of
`Scheduler.Service`: a thread whose steps no other step comes between leaves the
service as the method does that is one function there. Each part of
`handleMeasurement` is followed from the program counter where it begins.
-/

namespace MobiPerf.Scheduler

open Lib

variable {Q : Type} [PriorityQueue Q MeasurementTask MeasurementTask.Le]

attribute [local simp] Threads.threadStep

/-! ## Runs of one thread -/

/-- Thread `i`, running alone, can get to `pc` with the service as given. -/
def Threads.RunsTo (s : Threads Q) (i : ℕ) (service : Service Q) (pc : Pc) : Prop :=
  ∃ s', (dispatchers Q).Steps (fun _ _ => True) s s' ∧ s'.service = service ∧
    s'.pc = Function.update s.pc i pc

namespace Threads.RunsTo

variable {s : Threads Q} {i : ℕ} {service : Service Q} {pc : Pc}

theorem refl (hpc : s.pc i = pc) : s.RunsTo i s.service pc := by
  refine ⟨s, Relation.ReflTransGen.refl, rfl, ?_⟩
  rw [← hpc, Function.update_eq_self]

/-- One step, and then the rest. -/
theorem head {io : Io} {s₁ : Threads Q} {pc₁ : Pc} (hstep : s.threadStep i io = some s₁)
    (hpc₁ : s₁.pc = Function.update s.pc i pc₁) (hrest : s₁.RunsTo i service pc) :
    s.RunsTo i service pc := by
  rcases hrest with ⟨s', hsteps, hservice, hpc⟩
  refine ⟨s', Relation.ReflTransGen.head ⟨.thread i io, trivial, hstep⟩ hsteps, hservice, ?_⟩
  rw [hpc, hpc₁, Function.update_idem]

theorem trans {service' : Service Q} {pc' : Pc} (hfirst : s.RunsTo i service pc)
    (hrest : ∀ s₁ : Threads Q, s₁.service = service → s₁.pc i = pc → s₁.RunsTo i service' pc') :
    s.RunsTo i service' pc' := by
  rcases hfirst with ⟨s₁, hsteps, hservice, hpc⟩
  have hat : s₁.pc i = pc := by
    rw [hpc, Function.update_self]
  rcases hrest s₁ hservice hat with ⟨s', hsteps', hservice', hpc'⟩
  refine ⟨s', hsteps.trans hsteps', hservice', ?_⟩
  rw [hpc', hpc, Function.update_idem]

/-- One step that only moves the thread, and then the rest. -/
theorem goto (io : Io) (pc₁ : Pc) (hstep : s.threadStep i io = some (s.goto i pc₁))
    (hrest : (s.goto i pc₁).pc i = pc₁ → (s.goto i pc₁).RunsTo i service pc) :
    s.RunsTo i service pc :=
  head hstep rfl (hrest (Function.update_self ..))

/-! ## The parts of `handleMeasurement` -/

/-- The alarm for the next task. -/
theorem schedule (hpc : s.pc i = .peekNext) : s.RunsTo i s.service .idle := by
  cases hpeek : PriorityQueue.peek s.service.taskQueue with
  | none =>
      refine goto (.clock 0) .idle (by simp [hpc, hpeek]) ?_
      intro hidle
      exact refl hidle
  | some task =>
      refine goto (.clock 0) (.arm task) (by simp [hpc, hpeek]) ?_
      intro harm
      refine goto (.clock 0) .idle (by simp [harm]) ?_
      intro hidle
      exact refl hidle

/-- Nothing more to submit. -/
theorem submitted (hpc : s.pc i = .next [] .schedule) : s.RunsTo i s.service .peekNext := by
  refine goto (.clock 0) .peekNext (by simp [hpc, After.pc]) ?_
  intro hnext
  exact refl hnext

/-- `submitTask` of the successor. -/
theorem submitTask {newTask : MeasurementTask} (hpc : s.pc i = .size newTask [] .schedule) :
    s.RunsTo i (s.service.submitTask newTask).1 .peekNext := by
  have hadd : ∀ s₁ : Threads Q, s₁.pc i = .add newTask [] .schedule →
      s₁.RunsTo i { s₁.service with
        taskQueue := PriorityQueue.add s₁.service.taskQueue newTask } .peekNext := by
    intro s₁ hpc₁
    have hstep : s₁.threadStep i (.clock 0) = some { s₁ with
        service := { s₁.service with
          taskQueue := PriorityQueue.add s₁.service.taskQueue newTask }
        pc := Function.update s₁.pc i (.next [] .schedule) } := by
      simp [hpc₁]
    exact head hstep rfl (submitted (Function.update_self ..))
  unfold Service.submitTask
  split
  · -- a task of the user is added whatever the sizes are
    rename_i huser
    refine goto (.clock 0) (.add newTask [] .schedule)
      (by simp [hpc, huser]) ?_
    exact hadd (s.goto i (.add newTask [] .schedule))
  · -- the sizes are looked at one after the other
    rename_i huser
    by_cases hqueue : PriorityQueue.size s.service.taskQueue ≥ maxTaskQueueSize
    · rw [if_pos (Or.inl hqueue)]
      refine goto (.clock 0) (.next [] .schedule)
        (by simp [hpc, huser, hqueue]) ?_
      exact submitted
    · refine goto (.clock 0) (.pendingSize newTask [] .schedule)
        (by simp [hpc, huser, hqueue]) ?_
      intro hpending
      by_cases hfull : s.service.pendingTasks.size ≥ maxTaskQueueSize
      · rw [if_pos (Or.inr hfull)]
        have hfull₁ : (s.goto i (.pendingSize newTask [] .schedule)).service.pendingTasks.size ≥
            maxTaskQueueSize := hfull
        refine goto (.clock 0) (.next [] .schedule)
          (by simp [hpending, hfull₁]) ?_
        exact submitted
      · rw [if_neg (not_or.mpr ⟨hqueue, hfull⟩)]
        have hfull₁ : ¬ (s.goto i (.pendingSize newTask [] .schedule)).service.pendingTasks.size ≥
            maxTaskQueueSize := hfull
        refine goto (.clock 0) (.add newTask [] .schedule)
          (by simp [hpending, hfull₁]) ?_
        exact hadd _

/-- From the clone on: `requeue`, and the alarm where no exception ends the call. -/
theorem requeue {task : MeasurementTask} (hpc : s.pc i = .clone task) (env : CallEnv) :
    s.RunsTo i (s.service.requeue task env).1 .idle := by
  unfold Service.requeue
  by_cases hrecurs : task.Recurs
  · rw [if_pos hrecurs]
    cases hclone : (task.desc.atClone env.parametersTaken).clone s.service.nextRef env.cloneNow₁
        env.cloneNow₂ with
    | error e =>
        refine goto (.cloneClock env.cloneNow₁ env.cloneNow₂ env.parametersTaken)
          .idle (by simp [hpc, hrecurs, hclone]) ?_
        intro hidle
        exact refl hidle
    | ok newTask =>
        have hstep : s.threadStep i
            (.cloneClock env.cloneNow₁ env.cloneNow₂ env.parametersTaken) = some { s with
              service := s.service.newObject
              pc := Function.update s.pc i (.size (newTask.advance task) [] .schedule) } := by
          simp [hpc, hrecurs, hclone]
        refine head hstep rfl ?_
        refine trans (submitTask (Function.update_self ..)) ?_
        intro s₁ hservice hnext
        rw [← hservice]
        exact schedule hnext
  · rw [if_neg hrecurs]
    refine goto (.cloneClock env.cloneNow₁ env.cloneNow₂ env.parametersTaken)
      .peekNext (by simp [hpc, hrecurs]) ?_
    exact schedule

/-- `submit` and `put`, while the executor runs. -/
theorem execute {task : MeasurementTask} (hpc : s.pc i = .submit task)
    (hrunning : s.service.measurementExecutor.isShutdown = false) (submitNow : Int) :
    s.RunsTo i { s.service with
      measurementExecutor := { s.service.measurementExecutor with
        submissions := s.service.measurementExecutor.submissions ++
          [⟨task.wrapper, task, submitNow⟩] }
      pendingTasks := s.service.pendingTasks.insert task .running } (.clone task) := by
  have hsubmit : s.threadStep i (.clock submitNow) = some { s with
      service := { s.service with
        measurementExecutor := { s.service.measurementExecutor with
          submissions := s.service.measurementExecutor.submissions ++
            [⟨task.wrapper, task, submitNow⟩] } }
      pc := Function.update s.pc i (.put task) } := by
    simp [hpc, Executor.submit_of_running hrunning]
  refine head hsubmit rfl ?_
  have hput : ∀ s₁ : Threads Q, s₁.pc i = .put task →
      s₁.RunsTo i { s₁.service with
        pendingTasks := s₁.service.pendingTasks.insert task .running } (.clone task) := by
    intro s₁ hpc₁
    have hstep : s₁.threadStep i (.clock 0) = some { s₁ with
        service := { s₁.service with
          pendingTasks := s₁.service.pendingTasks.insert task .running }
        pc := Function.update s₁.pc i (.clone task) } := by
      simp [hpc₁]
    exact head hstep rfl (refl (Function.update_self ..))
  exact hput _ (Function.update_self ..)

/-- From the poll on: `process`, and the alarm where no exception ends the call. -/
theorem process {task : MeasurementTask} (hpc : s.pc i = .poll task) (env : CallEnv) :
    s.RunsTo i (s.service.process task env).1 .idle := by
  have hpoll : s.RunsTo i { s.service with
      taskQueue := PriorityQueue.poll s.service.taskQueue } (.submit task) := by
    have hstep : s.threadStep i (.clock 0) = some { s with
        service := { s.service with taskQueue := PriorityQueue.poll s.service.taskQueue }
        polled := s.polled ++ (PriorityQueue.peek s.service.taskQueue).toList
        pc := Function.update s.pc i (.submit task) } := by
      simp [hpc]
    exact head hstep rfl (refl (Function.update_self ..))
  refine trans hpoll ?_
  intro s₁ hservice hsubmit
  -- a shut-down executor refuses the task, which ends the pass
  cases hshutdown : s.service.measurementExecutor.isShutdown with
  | true =>
      rw [Service.process_of_shutdown hshutdown, ← hservice]
      have hshutdown₁ : s₁.service.measurementExecutor.isShutdown = true := by
        rw [hservice]
        exact hshutdown
      refine goto (.clock 0) .idle
        (by simp [hsubmit, Executor.submit, hshutdown₁]) ?_
      intro hidle
      exact refl hidle
  | false =>
      have hrunning₁ : s₁.service.measurementExecutor.isShutdown = false := by
        rw [hservice]
        exact hshutdown
      rw [Service.process_of_running hshutdown]
      refine trans (execute hsubmit hrunning₁ env.submitNow) ?_
      intro s₂ hservice₂ hclone
      have hdispatched : s₂.service = s.service.dispatched task env.submitNow := by
        rw [hservice₂, hservice]
        rfl
      rw [← hdispatched]
      exact requeue hclone env

/-- From the peek on. -/
theorem peeked (hpc : s.pc i = .peek) (env : CallEnv) :
    s.RunsTo i
      (match s.service.due env.dueNow with
      | none => s.service
      | some task => (s.service.process task env).1) .idle := by
  unfold Service.due
  cases hpeek : PriorityQueue.peek s.service.taskQueue with
  | none =>
      refine goto (.clock 0) (.test none) (by simp [hpc, hpeek]) ?_
      intro htest
      refine goto (.clock 0) .peekNext (by simp [htest]) ?_
      exact schedule
  | some task =>
      refine goto (.clock 0) (.test (some task))
        (by simp [hpc, hpeek]) ?_
      intro htest
      by_cases hdue : task.timeFromExecution env.dueNow ≤ 0
      · refine goto (.clock env.dueNow) (.poll task)
          (by simp [htest, hdue]) ?_
        intro hpoll
        simp only [Option.filter, hdue, decide_true, if_true]
        exact process hpoll env
      · refine goto (.clock env.dueNow) .peekNext
          (by simp [htest, hdue]) ?_
        intro hnext
        simp only [Option.filter, hdue, decide_false]
        exact schedule hnext

end Threads.RunsTo

/-- A thread that calls `handleMeasurement` and is not interrupted leaves the
service as the method does, and every other thread where it was. -/
theorem handleMeasurement_alone {s : Threads Q} {i : ℕ} (hidle : s.pc i = .idle)
    (env : CallEnv) :
    ∃ s', (dispatchers Q).Steps (fun _ _ => True) s s' ∧
      s'.service = (s.service.handleMeasurement env).service ∧ s'.pc = s.pc := by
  have hruns : s.RunsTo i (s.service.handleMeasurement env).service .idle := by
    refine Threads.RunsTo.goto .handleMeasurement .consent
      (by simp [hidle]) ?_
    intro hconsent
    rw [Service.handleMeasurement_process]
    cases hconsented : env.userConsented with
    | false =>
        refine Threads.RunsTo.goto (.consented false) .idle
          (by simp [hconsent]) ?_
        intro hdone
        exact Threads.RunsTo.refl hdone
    | true =>
        refine Threads.RunsTo.goto (.consented true) .peek
          (by simp [hconsent]) ?_
        intro hpeek
        exact Threads.RunsTo.peeked hpeek env
  rcases hruns with ⟨s', hsteps, hservice, hpc⟩
  refine ⟨s', hsteps, hservice, ?_⟩
  rw [hpc, ← hidle, Function.update_eq_self]

end MobiPerf.Scheduler
