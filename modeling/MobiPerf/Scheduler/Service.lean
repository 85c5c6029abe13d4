import Mathlib.Data.List.AList
import MobiPerf.Lib.PriorityQueue
import MobiPerf.Scheduler.Task

/-!
# Scheduler.Service — the task queue, the pending map and `handleMeasurement`

The state of `MeasurementSchedulerService` that decides which task runs when:
the queue, the map from dispatched tasks to their futures, and the executor.
A call of a method is a function of that state and of what the call reads from
outside (the preference, the clock), so nothing here runs beside it;
interleavings are the subject of `Scheduler.Concurrent`.

The queue is any `Lib.PriorityQueue`: how `PriorityBlockingQueue` breaks ties
is left open. The executor is the list of what was submitted to it.

Left out, as no test reads it: the consoles and counters `persistState` saves.
-/

namespace MobiPerf.Scheduler

open Lib

/-! ## Constants -/

def maxTaskQueueSize : ℕ := 100

def minTimeBetweenMeasurementAlarmMsec : Int := 3 * 1000

/-! ## Results and futures -/

structure MeasurementResult where
  taskKey : Option String
  type : TaskType
  timestamp : Int
  success : Bool
  values : List (String × String)
deriving DecidableEq, Repr

/-- What ends a task without a result. -/
inductive Throwable where
  | measurementSkipped (msg : String)
  | measurementError (msg : String)
  | cancellation (msg : String)
  | runtime (msg : String)
deriving DecidableEq, Repr

/-- `Future<MeasurementResult>`: `isDone` holds in all states but the first. -/
inductive FutureState where
  | running
  | returned (result : MeasurementResult)
  | threw (cause : Throwable)
  | cancelled
deriving DecidableEq, Repr

/-- `ConcurrentHashMap<MeasurementTask, Future<MeasurementResult>>`. -/
abbrev PendingTasks := AList fun _ : MeasurementTask => FutureState

def PendingTasks.size (p : PendingTasks) : ℕ := p.keys.length

/-- A task with a future is a key. -/
theorem PendingTasks.mem_keys {p : PendingTasks} {task : MeasurementTask} {future : FutureState}
    (h : p.lookup task = some future) : task ∈ p.keys := by
  have hsome : (p.lookup task).isSome := by rw [h]; rfl
  exact AList.mem_keys.mp (AList.lookup_isSome.mp hsome)

/-! ## The executor -/

/-- The `Callable` a task is submitted as. -/
inductive Wrapper where
  | userMeasurementTask
  | powerAwareTask
deriving DecidableEq, Repr

structure Submission where
  wrapper : Wrapper
  task : MeasurementTask
  time : Int

/-- `measurementExecutor`, with everything submitted to it, oldest first. -/
structure Executor where
  isShutdown : Bool
  submissions : List Submission

def Executor.submit (e : Executor) (sub : Submission) : Except JavaException Executor :=
  if e.isShutdown then .error .rejectedExecution
  else .ok { e with submissions := e.submissions ++ [sub] }

/-- A running executor takes the submission. -/
theorem Executor.submit_of_running {e : Executor} (h : e.isShutdown = false) (sub : Submission) :
    e.submit sub = .ok { e with submissions := e.submissions ++ [sub] } := by
  simp [submit, h]

/-- `shutdown` and `shutdownNow`. -/
def Executor.shutdown (e : Executor) : Executor := { e with isShutdown := true }

/-! ## The service -/

/-- `nextRef` is the identity of the next task object. -/
structure Service (Q : Type) where
  taskQueue : Q
  pendingTasks : PendingTasks
  measurementExecutor : Executor
  nextRef : ℕ

/-- What one call of `handleMeasurement` reads from outside: the preference and,
in the order of the code, the clock. `parametersTaken` says that a result built
since the submission has already nulled the parameters of the description. -/
structure CallEnv where
  userConsented : Bool
  dueNow : Int
  submitNow : Int
  cloneNow₁ : Int
  cloneNow₂ : Int
  nextNow : Int
  armNow : Int
  parametersTaken : Bool
deriving DecidableEq, Repr

/-- A call during which the clock stands at `now`. -/
def CallEnv.atClock (now : Int) (parametersTaken : Bool) : CallEnv where
  userConsented := true
  dueNow := now
  submitNow := now
  cloneNow₁ := now
  cloneNow₂ := now
  nextNow := now
  armNow := now
  parametersTaken := parametersTaken

/-- The state a call leaves and the time of the alarm it armed, if it did. -/
structure Outcome (Q : Type) where
  service : Service Q
  armed : Option Int

variable {Q : Type} [PriorityQueue Q MeasurementTask MeasurementTask.Le]

/-- The state `onCreate` leaves. -/
def Service.onCreate : Service Q where
  taskQueue := PriorityQueue.empty
  pendingTasks := ∅
  measurementExecutor := ⟨false, []⟩
  nextRef := 0

/-! ## `submitTask` and the other operations on the queue -/

/-- `submitTask`, whose catch clauses guard against a null task. -/
def Service.submitTask (s : Service Q) (task : MeasurementTask) : Service Q × Bool :=
  -- immediately handles measurements created by user
  if task.desc.priority = userPriority then
    ({ s with taskQueue := PriorityQueue.add s.taskQueue task }, true)
  else if PriorityQueue.size s.taskQueue ≥ maxTaskQueueSize ∨
      s.pendingTasks.size ≥ maxTaskQueueSize then
    (s, false)
  else ({ s with taskQueue := PriorityQueue.add s.taskQueue task }, true)

/-- A task object has been made. -/
def Service.newObject (s : Service Q) : Service Q := { s with nextRef := s.nextRef + 1 }

/-- `submitTask` of a new object with description `d`. -/
def Service.submitNew (s : Service Q) (d : AcceptedDesc) : Service Q × Bool :=
  s.newObject.submitTask ⟨s.nextRef, d.val, AcceptedDesc.accepted d⟩

def Service.removeAllUnscheduledTasks (s : Service Q) : Service Q :=
  { s with taskQueue := PriorityQueue.empty }

/-- `getTasksFromServer` once `checkin` has returned: the new schedule overrides
the old one. -/
def Service.getTasksFromServer (s : Service Q) (tasksFromServer : List AcceptedDesc) :
    Service Q :=
  tasksFromServer.foldl (fun s d => (s.submitNew d).1) s.removeAllUnscheduledTasks

/-- `removeTaskByKey`, which dereferences the keys on the way to the first match. -/
def Service.removeTaskByKey (s : Service Q) (taskKey : String) :
    Service Q × Except JavaException Bool :=
  match (PriorityQueue.toList s.taskQueue).find? fun t =>
      t.desc.key = none ∨ t.desc.key = some taskKey with
  | none => (s, .ok false)
  | some task =>
    if task.desc.key = none then (s, .error .nullPointer)
    else
      ({ s with
        taskQueue := PriorityQueue.removeFirst s.taskQueue fun t => t.desc.key = some taskKey },
        .ok true)

/-- `cleanUp`. -/
def Service.cleanUp (s : Service Q) : Service Q :=
  { s with
    taskQueue := PriorityQueue.empty
    measurementExecutor := s.measurementExecutor.shutdown }

/-! ## `handleMeasurement` -/

/-- The wrapper that suits the task: user tasks override the power policy. -/
def MeasurementTask.wrapper (task : MeasurementTask) : Wrapper :=
  if task.desc.priority = userPriority then .userMeasurementTask else .powerAwareTask

/-- The polled head goes to the executor and, with its future, into the pending
map. -/
def Service.execute (s : Service Q) (task : MeasurementTask) (submitNow : Int) :
    Service Q × Except JavaException Unit :=
  match s.measurementExecutor.submit ⟨task.wrapper, task, submitNow⟩ with
  | .error e => (s, .error e)
  | .ok executor =>
    ({ s with
      measurementExecutor := executor
      pendingTasks := s.pendingTasks.insert task .running }, .ok ())

/-- The description `clone` copies. -/
def MeasurementDesc.atClone (d : MeasurementDesc) (parametersTaken : Bool) : MeasurementDesc :=
  if parametersTaken then { d with parameters := none } else d

/-- Parameters that were not taken are there to be cloned. -/
theorem MeasurementDesc.atClone_of_not_taken {d : MeasurementDesc} {parametersTaken : Bool}
    (h : parametersTaken = false) : d.atClone parametersTaken = d := by
  simp [atClone, h]

/-- The clone has the same priority. -/
theorem MeasurementDesc.atClone_priority (d : MeasurementDesc) (parametersTaken : Bool) :
    (d.atClone parametersTaken).priority = d.priority := by
  unfold atClone
  split <;> rfl

/-- The test for a further run. -/
def MeasurementTask.Recurs (task : MeasurementTask) : Prop :=
  task.newStartTime < task.desc.endTime ∧
    (task.desc.count = infiniteCount ∨ task.desc.count > 1)

instance (task : MeasurementTask) : Decidable task.Recurs :=
  inferInstanceAs (Decidable (_ ∧ _))

/-- What the clone becomes before it is submitted. -/
def MeasurementTask.advance (newTask task : MeasurementTask) : MeasurementTask :=
  let newTask :=
    if task.desc.count = infiniteCount then newTask
    else newTask.withCount (newTask.desc.count - 1)
  newTask.withStartTime task.newStartTime

/-- The successor keeps its own reference. -/
theorem MeasurementTask.advance_ref (newTask task : MeasurementTask) :
    (newTask.advance task).ref = newTask.ref := by
  unfold advance
  dsimp only
  split <;> rfl

theorem MeasurementTask.advance_priority (newTask task : MeasurementTask) :
    (newTask.advance task).desc.priority = newTask.desc.priority := by
  unfold advance
  dsimp only
  split <;> rfl

/-- Add a clone of the task if it is still valid. -/
def Service.requeue (s : Service Q) (task : MeasurementTask) (env : CallEnv) :
    Service Q × Except JavaException Unit :=
  if task.Recurs then
    match (task.desc.atClone env.parametersTaken).clone s.nextRef env.cloneNow₁
        env.cloneNow₂ with
    | .error e => (s, .error e)
    | .ok newTask =>
      ((s.newObject.submitTask (newTask.advance task)).1, .ok ())
  else (s, .ok ())

/-- The due head is polled, executed and queued again. -/
def Service.process (s : Service Q) (task : MeasurementTask) (env : CallEnv) :
    Service Q × Except JavaException Unit :=
  match { s with taskQueue := PriorityQueue.poll s.taskQueue }.execute task env.submitNow with
  | (s, .error e) => (s, .error e)
  | (s, .ok ()) => s.requeue task env

/-- The time of the alarm for the task at the head. -/
def alarmTime (task : MeasurementTask) (nextNow armNow : Int) : Int :=
  toLong (armNow +
    max (task.timeFromExecution nextNow) minTimeBetweenMeasurementAlarmMsec)

/-- Schedule the next measurement in the queue. -/
def Service.schedule (s : Service Q) (env : CallEnv) : Outcome Q where
  service := s
  armed := (PriorityQueue.peek s.taskQueue).map fun task =>
    alarmTime task env.nextNow env.armNow

/-- The head of the queue, when its start time has come. -/
def Service.due (s : Service Q) (now : Int) : Option MeasurementTask :=
  (PriorityQueue.peek s.taskQueue).filter fun task => task.timeFromExecution now ≤ 0

/-- `handleMeasurement`: an exception ends the call before the alarm. -/
def Service.handleMeasurement (s : Service Q) (env : CallEnv) : Outcome Q :=
  if env.userConsented then
    match s.due env.dueNow with
    | none => s.schedule env
    | some task =>
      match s.process task env with
      | (s, .error _) => ⟨s, none⟩
      | (s, .ok ()) => s.schedule env
  else ⟨s, none⟩

/-! ## What each operation does -/

/-- `submitTask` takes a task: it is the user's, or there is room. -/
def Service.Accepts (s : Service Q) (task : MeasurementTask) : Prop :=
  task.desc.priority = userPriority ∨
    (PriorityQueue.size s.taskQueue < maxTaskQueueSize ∧ s.pendingTasks.size < maxTaskQueueSize)

/-- A task that is accepted is put into the queue. -/
theorem Service.submitTask_of_accepts {s : Service Q} {task : MeasurementTask}
    (h : s.Accepts task) :
    s.submitTask task = ({ s with taskQueue := PriorityQueue.add s.taskQueue task }, true) := by
  unfold submitTask
  split
  · rfl
  · rename_i hpriority
    rcases h with huser | ⟨hqueue, hpending⟩
    · exact absurd huser hpriority
    · rw [if_neg]
      omega

/-- Another one is refused, and nothing changes. -/
theorem Service.submitTask_of_not_accepts {s : Service Q} {task : MeasurementTask}
    (h : ¬ s.Accepts task) : s.submitTask task = (s, false) := by
  unfold Accepts at h
  unfold submitTask
  rw [if_neg (fun huser => h (Or.inl huser)), if_pos]
  omega

/-- A task is added or nothing happens. -/
theorem Service.submitTask_cases (s : Service Q) (task : MeasurementTask) :
    (s.submitTask task).1 = { s with taskQueue := PriorityQueue.add s.taskQueue task } ∨
      (s.submitTask task).1 = s := by
  by_cases h : s.Accepts task
  · left
    rw [submitTask_of_accepts h]
  · right
    rw [submitTask_of_not_accepts h]

@[simp] theorem Service.submitTask_measurementExecutor (s : Service Q) (task : MeasurementTask) :
    (s.submitTask task).1.measurementExecutor = s.measurementExecutor := by
  rcases s.submitTask_cases task with h | h <;> rw [h]

/-- The tasks of the server do not reach the executor. -/
theorem Service.getTasksFromServer_measurementExecutor (s : Service Q) (ds : List AcceptedDesc) :
    (s.getTasksFromServer ds).measurementExecutor = s.measurementExecutor := by
  have hloop : ∀ s : Service Q, (ds.foldl (fun s d => (s.submitNew d).1) s).measurementExecutor =
      s.measurementExecutor := by
    induction ds with
    | nil =>
        intro s
        rfl
    | cons d ds ih =>
        intro s
        rw [List.foldl_cons, ih]
        exact submitTask_measurementExecutor _ _
  exact hloop s.removeAllUnscheduledTasks

theorem Service.removeTaskByKey_measurementExecutor (s : Service Q) (key : String) :
    (s.removeTaskByKey key).1.measurementExecutor = s.measurementExecutor := by
  unfold removeTaskByKey
  split
  · rfl
  · split <;> rfl

/-- At most one task leaves the queue. -/
theorem Service.removeTaskByKey_frame (s : Service Q) (key : String) :
    (PriorityQueue.toList (s.removeTaskByKey key).1.taskQueue).Subperm
        (PriorityQueue.toList s.taskQueue) ∧
      (s.removeTaskByKey key).1.nextRef = s.nextRef := by
  unfold removeTaskByKey
  split
  · exact ⟨List.Subperm.refl _, rfl⟩
  · split
    · exact ⟨List.Subperm.refl _, rfl⟩
    · exact ⟨PriorityQueue.removeFirst_subperm _ _, rfl⟩

/-- The state once the head has been polled, submitted and put. -/
def Service.dispatched (s : Service Q) (task : MeasurementTask) (submitNow : Int) : Service Q where
  taskQueue := PriorityQueue.poll s.taskQueue
  pendingTasks := s.pendingTasks.insert task .running
  measurementExecutor :=
    { s.measurementExecutor with
      submissions := s.measurementExecutor.submissions ++ [⟨task.wrapper, task, submitNow⟩] }
  nextRef := s.nextRef

/-- An executor that was shut down rejects the task, which is out of the queue by
then. -/
theorem Service.process_of_shutdown {s : Service Q} (h : s.measurementExecutor.isShutdown = true)
    (task : MeasurementTask) (env : CallEnv) :
    s.process task env =
      ({ s with taskQueue := PriorityQueue.poll s.taskQueue }, .error .rejectedExecution) := by
  simp [process, execute, Executor.submit, h]

/-- Another one takes it, and then the successor is queued. -/
theorem Service.process_of_running {s : Service Q} (h : s.measurementExecutor.isShutdown = false)
    (task : MeasurementTask) (env : CallEnv) :
    s.process task env = (s.dispatched task env.submitNow).requeue task env := by
  simp [process, execute, Executor.submit_of_running h, dispatched]

/-- `requeue` leaves the state as it is or submits one new object. -/
theorem Service.requeue_cases (s : Service Q) (task : MeasurementTask) (env : CallEnv) :
    (s.requeue task env).1 = s ∨
      ∃ newTask, newTask.ref = s.nextRef ∧
        (s.requeue task env).1 = (s.newObject.submitTask newTask).1 := by
  unfold requeue
  split
  · cases hclone : (task.desc.atClone env.parametersTaken).clone s.nextRef env.cloneNow₁
        env.cloneNow₂ with
    | error e => exact Or.inl rfl
    | ok newTask =>
        right
        refine ⟨newTask.advance task, ?_, rfl⟩
        rw [newTask.advance_ref, MeasurementDesc.clone_ref hclone]
  · exact Or.inl rfl

@[simp] theorem Service.requeue_measurementExecutor (s : Service Q) (task : MeasurementTask)
    (env : CallEnv) : (s.requeue task env).1.measurementExecutor = s.measurementExecutor := by
  rcases s.requeue_cases task env with h | ⟨newTask, _, h⟩
  · rw [h]
  · rw [h]
    exact s.newObject.submitTask_measurementExecutor newTask

/-- The alarm changes nothing in the service. -/
theorem Service.handleMeasurement_process (s : Service Q) (env : CallEnv) :
    (s.handleMeasurement env).service =
      if env.userConsented then
        match s.due env.dueNow with
        | none => s
        | some task => (s.process task env).1
      else s := by
  unfold handleMeasurement
  split
  · cases s.due env.dueNow with
    | none => rfl
    | some task =>
        cases hprocess : s.process task env with
        | mk s' result => cases result <;> simp [schedule, hprocess]
  · rfl

/-- The state after a call is the state before it, or the due head has left the
queue: dropped by an executor that is shut down, or dispatched and then, if it
recurs, queued again. -/
theorem Service.handleMeasurement_service (s : Service Q) (env : CallEnv) :
    (s.handleMeasurement env).service =
      if env.userConsented then
        match s.due env.dueNow with
        | none => s
        | some task =>
          if s.measurementExecutor.isShutdown then
            { s with taskQueue := PriorityQueue.poll s.taskQueue }
          else ((s.dispatched task env.submitNow).requeue task env).1
      else s := by
  rw [handleMeasurement_process]
  cases hshutdown : s.measurementExecutor.isShutdown with
  | true => simp [process_of_shutdown hshutdown]
  | false => simp [process_of_running hshutdown]

/-- What a call submits: the due head, to an executor that takes it. -/
def Service.submission (s : Service Q) (env : CallEnv) : Option Submission :=
  if env.userConsented ∧ s.measurementExecutor.isShutdown = false then
    (s.due env.dueNow).map fun task => ⟨task.wrapper, task, env.submitNow⟩
  else none

/-- One call submits one task at most. -/
theorem Service.handleMeasurement_submissions (s : Service Q) (env : CallEnv) :
    (s.handleMeasurement env).service.measurementExecutor.submissions =
      s.measurementExecutor.submissions ++ (s.submission env).toList := by
  rw [handleMeasurement_service]
  unfold submission
  cases env.userConsented with
  | false => simp
  | true =>
      cases hdue : s.due env.dueNow with
      | none => simp
      | some task =>
          cases hshutdown : s.measurementExecutor.isShutdown with
          | true => simp
          | false => simp [dispatched]

/-- A task that is due is the head of the queue. -/
theorem Service.due_eq_some {s : Service Q} {now : Int} {task : MeasurementTask} :
    s.due now = some task ↔
      PriorityQueue.peek s.taskQueue = some task ∧ task.timeFromExecution now ≤ 0 := by
  unfold due
  rw [Option.filter_eq_some_iff]
  simp

/-- A call submits a task when the user has consented, the executor runs, and a task
is due. -/
theorem Service.submission_eq_some {s : Service Q} {env : CallEnv} {sub : Submission} :
    s.submission env = some sub ↔
      env.userConsented = true ∧ s.measurementExecutor.isShutdown = false ∧
        s.due env.dueNow = some sub.task ∧ sub = ⟨sub.task.wrapper, sub.task, env.submitNow⟩ := by
  unfold submission
  constructor
  · intro h
    split at h
    · rename_i hcond
      rcases Option.map_eq_some_iff.mp h with ⟨task, hdue, rfl⟩
      exact ⟨hcond.1, hcond.2, hdue, rfl⟩
    · cases h
  · rintro ⟨hconsented, hrunning, hdue, hsub⟩
    rw [if_pos ⟨hconsented, hrunning⟩, hdue, hsub]
    rfl

/-- The state after a call that submits a task. -/
theorem Service.handleMeasurement_of_submission {s : Service Q} {env : CallEnv} {sub : Submission}
    (h : s.submission env = some sub) :
    (s.handleMeasurement env).service =
      ((s.dispatched sub.task env.submitNow).requeue sub.task env).1 := by
  rcases submission_eq_some.mp h with ⟨hconsented, hrunning, hdue, _⟩
  rw [handleMeasurement_service, if_pos hconsented, hdue]
  simp [hrunning]

end MobiPerf.Scheduler
