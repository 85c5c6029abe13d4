import MobiPerf.Scheduler.Run

/-!
# Scheduler.Dispatch — which task runs, when the next call comes, what recurs

`handleMeasurement` looks at the head of the queue only. The head is first by
priority and then by start time among all queued tasks, so a task that is due
waits behind a more urgent one that is not, and the alarm is set for the head.

The successor of a dispatched task goes through `submitTask`, which refuses a
task of the system when the queue or the pending map is full.
-/

namespace MobiPerf.Scheduler

open Lib

variable {Q : Type} [PriorityQueue Q MeasurementTask MeasurementTask.Le]

/-! ## The head of the queue -/

/-- What is wanted of a scheduler that never idles: a due task is submitted
whenever there is one, the most urgent of them, and the alarm comes no later
than the earliest start. -/
def WorkConserving (s : Service Q) (now : Int) (parametersTaken : Bool) : Prop :=
  let after := s.handleMeasurement (.atClock now parametersTaken)
  ((∃ t ∈ PriorityQueue.toList s.taskQueue, t.desc.startTime ≤ now) →
    ∃ sub, after.service.measurementExecutor.submissions =
        s.measurementExecutor.submissions ++ [sub] ∧
      sub.task ∈ PriorityQueue.toList s.taskQueue ∧ sub.task.desc.startTime ≤ now ∧
      ∀ t ∈ PriorityQueue.toList s.taskQueue, t.desc.startTime ≤ now → sub.task.Le t) ∧
  (PriorityQueue.toList after.service.taskQueue ≠ [] →
    ∃ alarm, after.armed = some alarm ∧
      ∀ t ∈ PriorityQueue.toList after.service.taskQueue,
        alarm ≤ max (now + minTimeBetweenMeasurementAlarmMsec) t.desc.startTime)

/-- A call submits the head of the queue when its start time has come, and
nothing otherwise; the head is first among all queued tasks. -/
structure DispatchesHead (s : Service Q) (env : CallEnv) : Prop where
  submits : (s.handleMeasurement env).service.measurementExecutor.submissions =
    s.measurementExecutor.submissions ++
      (match PriorityQueue.peek s.taskQueue with
      | none => []
      | some head =>
        if head.timeFromExecution env.dueNow ≤ 0 ∧ s.measurementExecutor.isShutdown = false then
          [⟨head.wrapper, head, env.submitNow⟩]
        else [])
  first : ∀ head, PriorityQueue.peek s.taskQueue = some head →
    ∀ t ∈ PriorityQueue.toList s.taskQueue, head.desc.priority < t.desc.priority ∨
      (head.desc.priority = t.desc.priority ∧ head.desc.startTime ≤ t.desc.startTime)

/-- The sums and differences of the alarm for `task` stay within a `long`. -/
def MeasurementTask.InRange (task : MeasurementTask) (now : Int) : Prop :=
  -2 ^ 63 ≤ now ∧ now + minTimeBetweenMeasurementAlarmMsec < 2 ^ 63 ∧
    -2 ^ 63 ≤ task.desc.startTime - now ∧ task.desc.startTime - now < 2 ^ 63 ∧
    task.desc.startTime < 2 ^ 63

/-- When a call returns with a task in the queue, it has armed the alarm for the
start of the head, three seconds on at the earliest. -/
def ArmsForHead (s : Service Q) (now : Int) (parametersTaken : Bool) : Prop :=
  let after := s.handleMeasurement (.atClock now parametersTaken)
  ∀ head, PriorityQueue.peek after.service.taskQueue = some head →
    after.armed = some (alarmTime head now now) ∧
      (head.InRange now → alarmTime head now now =
        max (now + minTimeBetweenMeasurementAlarmMsec) head.desc.startTime)

/-- No exception ends the call: the executor takes the due head, and its
parameters are still there to be cloned. -/
def Service.Completes (s : Service Q) (env : CallEnv) : Prop :=
  ∀ task, s.due env.dueNow = some task →
    s.measurementExecutor.isShutdown = false ∧ env.parametersTaken = false

theorem alarmTime_eq {task : MeasurementTask} {now : Int} (h : task.InRange now) :
    alarmTime task now now =
      max (now + minTimeBetweenMeasurementAlarmMsec) task.desc.startTime := by
  rcases h with ⟨hnow, harm, hlo, hhi, hstart⟩
  unfold minTimeBetweenMeasurementAlarmMsec at *
  unfold alarmTime MeasurementTask.timeFromExecution minTimeBetweenMeasurementAlarmMsec
  rw [toLong_eq hlo hhi, toLong_eq] <;> omega

theorem dispatchesHead (s : Service Q) (env : CallEnv) (hconsented : env.userConsented = true) :
    DispatchesHead s env := by
  constructor
  · rw [s.handleMeasurement_submissions]
    unfold Service.submission Service.due
    cases PriorityQueue.peek s.taskQueue with
    | none => simp
    | some head =>
        by_cases hdue : head.timeFromExecution env.dueNow ≤ 0
        · cases hshutdown : s.measurementExecutor.isShutdown with
          | true => simp
          | false => simp [hconsented, hdue, Option.filter]
        · simp [hdue, Option.filter]
  · intro head hpeek t ht
    exact MeasurementTask.le_iff.mp (PriorityQueue.peek_le hpeek t ht)

theorem Service.requeue_ok {s : Service Q} {task : MeasurementTask} {env : CallEnv}
    (h : env.parametersTaken = false) : (s.requeue task env).2 = .ok () := by
  unfold requeue
  split
  · obtain ⟨newTask, hclone, _⟩ :=
      MeasurementDesc.clone_of_accepted task.accepted s.nextRef env.cloneNow₁ env.cloneNow₂
    rw [MeasurementDesc.atClone_of_not_taken h, hclone]
  · rfl

/-- A call that no exception ends arms the alarm for the head it leaves. -/
theorem Service.armed_of_completes {s : Service Q} {env : CallEnv}
    (hconsented : env.userConsented = true) (h : s.Completes env) :
    (s.handleMeasurement env).armed =
      (PriorityQueue.peek (s.handleMeasurement env).service.taskQueue).map fun task =>
        alarmTime task env.nextNow env.armNow := by
  unfold handleMeasurement
  rw [if_pos hconsented]
  cases hdue : s.due env.dueNow with
  | none => rfl
  | some task =>
      rcases h task hdue with ⟨hrunning, htaken⟩
      dsimp only
      rw [process_of_running hrunning]
      have hok : ((s.dispatched task env.submitNow).requeue task env).2 = .ok () :=
        requeue_ok htaken
      cases hrequeue : (s.dispatched task env.submitNow).requeue task env with
      | mk s' result =>
          rw [hrequeue] at hok
          cases result with
          | error e => cases hok
          | ok u => rfl

/-- For every queue and every clock value: the head is submitted exactly when it
is due, and the next alarm is that of the head. -/
theorem handleMeasurement_head (s : Service Q) (now : Int) (parametersTaken : Bool) :
    DispatchesHead s (.atClock now parametersTaken) ∧
      (s.Completes (.atClock now parametersTaken) → ArmsForHead s now parametersTaken) := by
  constructor
  · exact dispatchesHead s _ rfl
  · intro hcompletes head hpeek
    constructor
    · rw [Service.armed_of_completes rfl hcompletes, hpeek]
      rfl
    · exact alarmTime_eq

/-- A due task of priority 1 and a task of priority 0 that starts at 60000. -/
def blockedService : Service (SortedQueue MeasurementTask.Le) :=
  Service.getTasksFromServer Service.onCreate
    [⟨pingDescOf 1 0 90000 1, pingDescOf_accepted 1 0 90000 1⟩,
      ⟨pingDescOf 0 60000 90000 1, pingDescOf_accepted 0 60000 90000 1⟩]

/-- At 60000 the call submits the task of priority 0 and arms the alarm three
seconds later, for the other one. -/
theorem handleMeasurement_head_at60000 :
    DispatchesHead blockedService (.atClock 60000 false) ∧
      (blockedService.handleMeasurement (.atClock 60000 false)).armed = some 63000 ∧
      ArmsForHead blockedService 60000 false := by
  rcases handleMeasurement_head blockedService 60000 false with ⟨hdispatches, harms⟩
  have hrunning : blockedService.measurementExecutor.isShutdown = false := by decide +kernel
  refine ⟨hdispatches, by decide +kernel, harms ?_⟩
  intro task _
  exact ⟨hrunning, rfl⟩

/-- At 5000 the task of priority 1 is due, and nothing is submitted. -/
theorem not_workConserving_blocked : ¬ WorkConserving blockedService 5000 false := by
  rintro ⟨hdispatches, _⟩
  have hdue : ∃ t ∈ PriorityQueue.toList blockedService.taskQueue, t.desc.startTime ≤ 5000 := by
    decide +kernel
  rcases hdispatches hdue with ⟨sub, hsubmissions, _⟩
  have hnone : (blockedService.handleMeasurement
      (.atClock 5000 false)).service.measurementExecutor.submissions.length = 0 := by
    decide +kernel
  rw [hsubmissions, List.length_append, List.length_singleton] at hnone
  omega

/-! ## The successor of a dispatched task -/

/-- What the successor measures: the same, an interval later and, when the count
is finite, one time less. The two constructors may bring the end time forward. -/
def MeasurementTask.successorDesc (task : MeasurementTask) (env : CallEnv) : MeasurementDesc :=
  { task.desc with
    startTime := task.newStartTime
    count := if task.desc.count = infiniteCount then infiniteCount else task.desc.count - 1
    endTime := cappedEndTime (some (cappedEndTime (some task.desc.endTime) env.cloneNow₁))
      env.cloneNow₂ }

/-- The object made in the call is in the queue that the call leaves, as the
successor of `task`. -/
def SuccessorQueued (s : Service Q) (task : MeasurementTask) (env : CallEnv) : Prop :=
  ∃ t ∈ PriorityQueue.toList (s.handleMeasurement env).service.taskQueue,
    t.ref = s.nextRef ∧ t.desc = task.successorDesc env

/-- There is room for the successor of a dispatched task: it is the user's, or
what the poll leaves in the queue and what is pending with the dispatched task
are both fewer than `maxTaskQueueSize`. -/
def RoomForSuccessor (s : Service Q) (task : MeasurementTask) : Prop :=
  task.desc.priority = userPriority ∨
    (PriorityQueue.size s.taskQueue ≤ maxTaskQueueSize ∧
      s.pendingTasks.size + 1 < maxTaskQueueSize)

instance (s : Service Q) (task : MeasurementTask) : Decidable (RoomForSuccessor s task) :=
  inferInstanceAs (Decidable (_ ∨ _))

/-- When the parameters are there, a task that recurs has its successor
submitted. -/
theorem Service.requeue_of_recurs {s : Service Q} {task : MeasurementTask} {env : CallEnv}
    (htaken : env.parametersTaken = false) (hrecurs : task.Recurs) :
    ∃ newTask, newTask.ref = s.nextRef ∧ newTask.desc = task.successorDesc env ∧
      (s.requeue task env).1 = (s.newObject.submitTask newTask).1 := by
  obtain ⟨newTask, hclone, href, hdesc⟩ :=
    MeasurementDesc.clone_of_accepted task.accepted s.nextRef env.cloneNow₁ env.cloneNow₂
  refine ⟨newTask.advance task, ?_, ?_, ?_⟩
  · rw [newTask.advance_ref, href]
  · unfold MeasurementTask.advance MeasurementTask.successorDesc
    by_cases hcount : task.desc.count = infiniteCount
    · simp [hcount, MeasurementTask.withStartTime, hdesc]
    · simp [hcount, MeasurementTask.withStartTime, MeasurementTask.withCount, hdesc]
  · unfold requeue
    rw [if_pos hrecurs, MeasurementDesc.atClone_of_not_taken htaken, hclone]

theorem PendingTasks.size_insert {p : PendingTasks} {task : MeasurementTask} (h : task ∉ p.keys)
    (future : FutureState) : PendingTasks.size (p.insert task future) = p.size + 1 := by
  unfold PendingTasks.size
  rw [AList.keys_insert, List.erase_of_not_mem h, List.length_cons]

/-- Where tasks are distinct objects, `submitTask` has room for a successor after
the dispatch exactly when `RoomForSuccessor` holds before it. -/
theorem accepts_dispatched_iff {s : Service Q} (h : s.Distinct) {task newTask : MeasurementTask}
    (hpeek : PriorityQueue.peek s.taskQueue = some task) (submitNow : Int)
    (hpriority : newTask.desc.priority = task.desc.priority) :
    (s.dispatched task submitNow).newObject.Accepts newTask ↔
      RoomForSuccessor s task := by
  have hmem := PriorityQueue.peek_mem hpeek
  have hpos : 0 < PriorityQueue.size s.taskQueue := List.length_pos_of_mem hmem
  have hqueue := PriorityQueue.size_poll s.taskQueue
  have hnotPending : task ∉ s.pendingTasks.keys :=
    fun hpending => h.apart task hmem task hpending rfl
  have hpending := PendingTasks.size_insert hnotPending .running
  unfold Service.Accepts RoomForSuccessor Service.newObject Service.dispatched
  dsimp only
  rw [hpriority, hqueue, hpending]
  constructor
  · rintro (huser | ⟨hq, hp⟩)
    · exact Or.inl huser
    · exact Or.inr ⟨by omega, hp⟩
  · rintro (huser | ⟨hq, hp⟩)
    · exact Or.inl huser
    · exact Or.inr ⟨by omega, hp⟩

/-- In every state of every run: the successor of a dispatched task with runs
remaining is in the queue after the call exactly when there is room for it. -/
theorem successorQueued_iff {w : World Q} (hw : (scheduler Q).Reachable w) {env : CallEnv}
    (htaken : env.parametersTaken = false) {sub : Submission}
    (hsub : w.service.submission env = some sub) (hrecurs : sub.task.Recurs) :
    SuccessorQueued w.service sub.task env ↔ RoomForSuccessor w.service sub.task := by
  have hdistinct := reachable_distinct hw
  have hpeek := (Service.due_eq_some.mp (Service.submission_eq_some.mp hsub).2.2.1).1
  have hdispatched := hdistinct.dispatch hpeek env.submitNow
  obtain ⟨newTask, href, hdesc, hrequeue⟩ := Service.requeue_of_recurs
    (s := w.service.dispatched sub.task env.submitNow) htaken hrecurs
  have hpriority : newTask.desc.priority = sub.task.desc.priority := by
    rw [hdesc]
    rfl
  have hroom := accepts_dispatched_iff hdistinct hpeek env.submitNow hpriority
  unfold SuccessorQueued
  rw [Service.handleMeasurement_of_submission hsub, hrequeue]
  constructor
  · rintro ⟨t, ht, htref, _⟩
    by_contra hfull
    -- a refused successor leaves older objects only
    rw [Service.submitTask_of_not_accepts (mt hroom.mp hfull)] at ht
    have hlt : t.ref < w.service.nextRef := hdispatched.fresh t ht
    omega
  · intro hfree
    rw [Service.submitTask_of_accepts (hroom.mpr hfree)]
    exact ⟨newTask, PriorityQueue.mem_add.mpr (Or.inl rfl), href, hdesc⟩

/-! ## A ping that recurs, and one that is lost -/

/-- A ping of priority 1 that is to be taken twice, created and handled at 0. -/
def recurringPing : AcceptedDesc := ⟨pingDescOf 1 0 90000 2, pingDescOf_accepted 1 0 90000 2⟩

/-- A ping of priority 0 that is to be taken once. -/
def urgentPing : AcceptedDesc := ⟨pingDescOf 0 0 90000 1, pingDescOf_accepted 0 0 90000 1⟩

theorem successorQueued_iff_recurringPing :
    ∃ (w : World (SortedQueue MeasurementTask.Le)) (sub : Submission),
      (scheduler _).Reachable w ∧ w.service.submission (.atClock 0 false) = some sub ∧
        SuccessorQueued w.service sub.task (.atClock 0 false) := by
  have hrun : ((scheduler (SortedQueue MeasurementTask.Le)).run [.submitTask recurringPing]
      (World.created 0)).any fun w => (w.service.submission (.atClock 0 false)).any fun sub =>
        sub.task.Recurs ∧ RoomForSuccessor w.service sub.task := by
    decide +kernel
  rcases (Option.any_eq_true _ _).mp hrun with ⟨w, hsteps, hany⟩
  rcases (Option.any_eq_true _ _).mp hany with ⟨sub, hsub, hboth⟩
  rcases of_decide_eq_true hboth with ⟨hrecurs, hroom⟩
  have hreach := System.reachable_of_run (init_created 0) hsteps
  exact ⟨w, sub, hreach, hsub, (successorQueued_iff hreach rfl hsub hrecurs).mpr hroom⟩

/-- With 99 measurements pending, the one that recurs is dispatched and does not
come back. -/
theorem not_successorQueued_pendingFull :
    ¬ ∀ w : World (SortedQueue MeasurementTask.Le), (scheduler _).Reachable w →
      ∀ sub, w.service.submission (.atClock 0 false) = some sub → sub.task.Recurs →
        SuccessorQueued w.service sub.task (.atClock 0 false) := by
  intro hall
  have hrun : ((scheduler (SortedQueue MeasurementTask.Le)).run
      (.getTasksFromServer (List.replicate 99 urgentPing ++ [recurringPing]) ::
        List.replicate 99 (.handleMeasurement (.atClock 0 false)))
      (World.created 0)).any fun w => (w.service.submission (.atClock 0 false)).any fun sub =>
        sub.task.Recurs ∧ PriorityQueue.toList
          (w.service.handleMeasurement (.atClock 0 false)).service.taskQueue = [] := by
    decide +kernel
  rcases (Option.any_eq_true _ _).mp hrun with ⟨w, hsteps, hany⟩
  rcases (Option.any_eq_true _ _).mp hany with ⟨sub, hsub, hboth⟩
  rcases of_decide_eq_true hboth with ⟨hrecurs, hempty⟩
  obtain ⟨t, ht, _⟩ :=
    hall w (System.reachable_of_run (init_created 0) hsteps) sub hsub hrecurs
  rw [hempty] at ht
  cases ht

end MobiPerf.Scheduler
