import Mathlib.Logic.Function.Basic
import MobiPerf.Lib.Custody
import MobiPerf.Lib.Transition
import MobiPerf.Scheduler.Service

/-!
# Scheduler.Concurrent — calls that run beside each other

`handleMeasurement` runs on the thread of the broadcast receiver and at the end
of every check-in, each on a thread of its own; `submitTask` is called from the
user interface. Every operation on the queue, on the pending map and on the
executor is one step; between two steps of a call any other thread may move.

What other code does to the shared state at any time is a step of its own:
`removeTaskByKey`, the removals of `uploadResults` from the pending map, and the
two parts of `cleanUp`. A check-in starts here with the answer of the server.
-/

namespace MobiPerf.Scheduler

open Lib

/-! ## Program counters -/

/-- What a call goes on with when it has submitted its tasks to the queue. -/
inductive After where
  /-- `submitTask` called from the user interface -/
  | returns
  /-- a check-in: `handleMeasurement` -/
  | handle
  /-- `handleMeasurement`: the alarm for the next task -/
  | schedule

/-- Where a thread is, with the local variables that are still read. -/
inductive Pc where
  | idle
  /-- before the test of the user's consent -/
  | consent
  | peek
  /-- `task != null && task.timeFromExecution() <= 0` -/
  | test (task : Option MeasurementTask)
  | poll (task : MeasurementTask)
  | submit (task : MeasurementTask)
  | put (task : MeasurementTask)
  | clone (task : MeasurementTask)
  /-- `removeAllUnscheduledTasks` in a check-in -/
  | clear (tasksFromServer : List AcceptedDesc)
  /-- the next of the tasks a call has to submit -/
  | next (rest : List AcceptedDesc) (after : After)
  /-- the steps of `submitTask` -/
  | size (newTask : MeasurementTask) (rest : List AcceptedDesc) (after : After)
  | pendingSize (newTask : MeasurementTask) (rest : List AcceptedDesc) (after : After)
  | add (newTask : MeasurementTask) (rest : List AcceptedDesc) (after : After)
  | peekNext
  | arm (task : MeasurementTask)

def After.pc : After → Pc
  | .returns => .idle
  | .handle => .consent
  | .schedule => .peekNext

/-- What a step of a thread is told: the call it starts, the user's consent, or
the clock readings of the step (ignored where the code reads none). -/
inductive Io where
  | handleMeasurement
  | checkin (tasksFromServer : List AcceptedDesc)
  | submitTask (d : AcceptedDesc)
  | consented (userConsented : Bool)
  | clock (now : Int)
  | cloneClock (now₁ now₂ : Int) (parametersTaken : Bool)

/-- A step of thread `i`, or of code that is not modelled step by step. -/
inductive Label where
  | thread (i : ℕ) (io : Io)
  | removeTaskByKey (taskKey : String)
  | removePending (task : MeasurementTask)
  | clearQueue
  | shutdownExecutor

/-- The shared state and where each thread is; `polled` records what
`handleMeasurement` took out of the queue. -/
structure Threads (Q : Type) where
  service : Service Q
  pc : ℕ → Pc
  polled : List MeasurementTask

def Threads.goto {Q : Type} (s : Threads Q) (i : ℕ) (pc : Pc) : Threads Q :=
  { s with pc := Function.update s.pc i pc }

/-! ## Steps -/

variable {Q : Type} [PriorityQueue Q MeasurementTask MeasurementTask.Le]

def Threads.threadStep (i : ℕ) (io : Io) (s : Threads Q) : Option (Threads Q) :=
  match s.pc i, io with
  | .idle, .handleMeasurement => some (s.goto i .consent)
  | .idle, .checkin ds => some (s.goto i (.clear ds))
  | .idle, .submitTask d => some (s.goto i (.next [d] .returns))
  | .consent, .consented userConsented =>
    some (s.goto i (if userConsented then .peek else .idle))
  | .peek, .clock _ => some (s.goto i (.test (PriorityQueue.peek s.service.taskQueue)))
  | .test none, .clock _ => some (s.goto i .peekNext)
  | .test (some task), .clock now =>
    some (s.goto i (if task.timeFromExecution now ≤ 0 then .poll task else .peekNext))
  | .poll task, .clock _ =>
    -- what `poll` returns is not looked at
    some { s with
      service := { s.service with taskQueue := PriorityQueue.poll s.service.taskQueue }
      polled := s.polled ++ (PriorityQueue.peek s.service.taskQueue).toList
      pc := Function.update s.pc i (.submit task) }
  | .submit task, .clock now =>
    match s.service.measurementExecutor.submit ⟨task.wrapper, task, now⟩ with
    | .error _ => some (s.goto i .idle)
    | .ok executor =>
      some { s with
        service := { s.service with measurementExecutor := executor }
        pc := Function.update s.pc i (.put task) }
  | .put task, .clock _ =>
    some { s with
      service := { s.service with
        pendingTasks := s.service.pendingTasks.insert task .running }
      pc := Function.update s.pc i (.clone task) }
  | .clone task, .cloneClock now₁ now₂ parametersTaken =>
    if task.Recurs then
      match (task.desc.atClone parametersTaken).clone s.service.nextRef now₁ now₂ with
      | .error _ => some (s.goto i .idle)
      | .ok newTask =>
        some { s with
          service := s.service.newObject
          pc := Function.update s.pc i (.size (newTask.advance task) [] .schedule) }
    else some (s.goto i .peekNext)
  | .clear ds, .clock _ =>
    some { s with
      service := s.service.removeAllUnscheduledTasks
      pc := Function.update s.pc i (.next ds .handle) }
  | .next [] after, .clock _ => some (s.goto i after.pc)
  | .next (d :: rest) after, .clock _ =>
    some { s with
      service := s.service.newObject
      pc := Function.update s.pc i
        (.size ⟨s.service.nextRef, d.val, AcceptedDesc.accepted d⟩ rest after) }
  | .size newTask rest after, .clock _ =>
    if newTask.desc.priority = userPriority then some (s.goto i (.add newTask rest after))
    else if PriorityQueue.size s.service.taskQueue ≥ maxTaskQueueSize then
      some (s.goto i (.next rest after))
    else some (s.goto i (.pendingSize newTask rest after))
  | .pendingSize newTask rest after, .clock _ =>
    if s.service.pendingTasks.size ≥ maxTaskQueueSize then some (s.goto i (.next rest after))
    else some (s.goto i (.add newTask rest after))
  | .add newTask rest after, .clock _ =>
    some { s with
      service := { s.service with taskQueue := PriorityQueue.add s.service.taskQueue newTask }
      pc := Function.update s.pc i (.next rest after) }
  | .peekNext, .clock _ =>
    match PriorityQueue.peek s.service.taskQueue with
    | none => some (s.goto i .idle)
    | some task => some (s.goto i (.arm task))
  | .arm _, .clock _ => some (s.goto i .idle)
  | _, _ => none

def Threads.step (label : Label) (s : Threads Q) : Option (Threads Q) :=
  match label with
  | .thread i io => s.threadStep i io
  | .removeTaskByKey key => some { s with service := (s.service.removeTaskByKey key).1 }
  | .removePending task =>
    some { s with
      service := { s.service with pendingTasks := s.service.pendingTasks.erase task } }
  | .clearQueue => some { s with service := s.service.removeAllUnscheduledTasks }
  | .shutdownExecutor =>
    some { s with
      service := { s.service with
        measurementExecutor := s.service.measurementExecutor.shutdown } }

/-- The service right after `onCreate`, with no call under way. -/
def Threads.created : Threads Q where
  service := Service.onCreate
  pc _ := .idle
  polled := []

/-- The interleavings of any number of calls. -/
def dispatchers (Q : Type) [PriorityQueue Q MeasurementTask MeasurementTask.Le] :
    System (Threads Q) Label where
  Init s := s = Threads.created
  step := Threads.step

/-! ## Exactly once -/

/-- The task was submitted, or a thread is about to submit it. -/
def Threads.Reaches (s : Threads Q) (t : MeasurementTask) : Prop :=
  (∃ sub ∈ s.service.measurementExecutor.submissions, sub.task.ref = t.ref) ∨
    ∃ i task, s.pc i = .submit task ∧ task.ref = t.ref

/-- No task is submitted twice, and none is polled that does not reach the
executor. -/
structure ExactlyOnce (s : Threads Q) : Prop where
  once : (s.service.measurementExecutor.submissions.map fun sub => sub.task.ref).Nodup
  polled : ∀ t ∈ s.polled, s.Reaches t

/-- The task a thread polls for. -/
def Pc.polling : Pc → Option MeasurementTask
  | .poll task => some task
  | _ => none

/-- The task a thread is about to submit. -/
def Pc.submitting : Pc → Option MeasurementTask
  | .submit task => some task
  | _ => none

/-- A thread that polls finds the task it has peeked still at the head, and one
that submits finds the executor running. -/
def HeadKept : Label → Threads Q → Prop
  | .thread i _, s =>
    (∀ task ∈ (s.pc i).polling, PriorityQueue.peek s.service.taskQueue = some task) ∧
      ((s.pc i).submitting.isSome → s.service.measurementExecutor.isShutdown = false)
  | _, _ => True

instance (label : Label) (s : Threads Q) : Decidable (HeadKept label s) :=
  match label with
  | .thread _ _ => inferInstanceAs (Decidable (_ ∧ _))
  | .removeTaskByKey _ => isTrue trivial
  | .removePending _ => isTrue trivial
  | .clearQueue => isTrue trivial
  | .shutdownExecutor => isTrue trivial

/-! ## What one step of a thread can do -/

/-- The object a thread has in hand: a new one on its way into the queue, or one
on its way to the executor. -/
def Pc.object : Pc → Option MeasurementTask
  | .size newTask _ _ => some newTask
  | .pendingSize newTask _ _ => some newTask
  | .add newTask _ _ => some newTask
  | .submit task => some task
  | _ => none

/-- The tasks a thread looks at: its object, and what it has peeked or has
submitted. -/
def Pc.task : Pc → Option MeasurementTask
  | .test task => task
  | .poll task => some task
  | .submit task => some task
  | .put task => some task
  | .clone task => some task
  | .size newTask _ _ => some newTask
  | .pendingSize newTask _ _ => some newTask
  | .add newTask _ _ => some newTask
  | .arm task => some task
  | _ => none

/-- What a step of thread `i` does: most only move the thread on (`walk`), the
others make an object or hand one on. -/
inductive Threads.Move (i : ℕ) (s s' : Threads Q) : Prop where
  /-- The thread moves on with what it had in hand, or with the head it peeked. -/
  | walk (pc : Pc) (hold : (s.pc i).submitting = none) (hnew : pc.submitting = none)
      (hobject : pc.object = none ∨ pc.object = (s.pc i).object)
      (htask : ∀ t, pc.task = some t →
        (s.pc i).task = some t ∨ PriorityQueue.peek s.service.taskQueue = some t)
      (hpc : s'.pc = Function.update s.pc i pc)
      (hqueue : s'.service.taskQueue = s.service.taskQueue)
      (hexecutor : s'.service.measurementExecutor = s.service.measurementExecutor)
      (hnextRef : s'.service.nextRef = s.service.nextRef) (hpolled : s'.polled = s.polled)
  /-- It makes the object of the next description it has to submit. -/
  | next (d : AcceptedDesc) (rest : List AcceptedDesc) (after : After)
      (hpc : s.pc i = .next (d :: rest) after)
      (hs' : s' = { s with
        service := s.service.newObject
        pc := Function.update s.pc i
          (.size ⟨s.service.nextRef, d.val, AcceptedDesc.accepted d⟩ rest after) })
  /-- It makes the successor of the task it has submitted. -/
  | clone (task newTask : MeasurementTask) (parametersTaken : Bool) (now₁ now₂ : Int)
      (hpc : s.pc i = .clone task)
      (hclone : (task.desc.atClone parametersTaken).clone s.service.nextRef now₁ now₂ =
        .ok newTask)
      (hs' : s' = { s with
        service := s.service.newObject
        pc := Function.update s.pc i (.size (newTask.advance task) [] .schedule) })
  | add (newTask : MeasurementTask) (rest : List AcceptedDesc) (after : After)
      (hpc : s.pc i = .add newTask rest after)
      (hs' : s' = { s with
        service := { s.service with taskQueue := PriorityQueue.add s.service.taskQueue newTask }
        pc := Function.update s.pc i (.next rest after) })
  | poll (task : MeasurementTask) (hpc : s.pc i = .poll task)
      (hs' : s' = { s with
        service := { s.service with taskQueue := PriorityQueue.poll s.service.taskQueue }
        polled := s.polled ++ (PriorityQueue.peek s.service.taskQueue).toList
        pc := Function.update s.pc i (.submit task) })
  | submit (task : MeasurementTask) (now : Int) (hpc : s.pc i = .submit task)
      (hrunning : s.service.measurementExecutor.isShutdown = false)
      (hs' : s' = { s with
        service := { s.service with
          measurementExecutor := { s.service.measurementExecutor with
            submissions := s.service.measurementExecutor.submissions ++
              [⟨task.wrapper, task, now⟩] } }
        pc := Function.update s.pc i (.put task) })
  /-- The executor was shut down. -/
  | reject (task : MeasurementTask) (hpc : s.pc i = .submit task)
      (hshutdown : s.service.measurementExecutor.isShutdown = true)
      (hs' : s' = s.goto i .idle)
  | clear (tasksFromServer : List AcceptedDesc) (hpc : s.pc i = .clear tasksFromServer)
      (hs' : s' = { s with
        service := s.service.removeAllUnscheduledTasks
        pc := Function.update s.pc i (.next tasksFromServer .handle) })

/-- A thread that only moves on, from `old` to `pc`. -/
theorem Threads.Move.goto {s : Threads Q} {i : ℕ} {old pc : Pc} (hpc : s.pc i = old)
    (hold : old.submitting = none) (hnew : pc.submitting = none)
    (hobject : pc.object = none ∨ pc.object = old.object)
    (htask : pc.task = none ∨ pc.task = old.task) : Threads.Move i s (s.goto i pc) := by
  refine .walk pc (hpc ▸ hold) hnew (hpc ▸ hobject) ?_ rfl rfl rfl rfl rfl
  intro t ht
  rcases htask with hnone | hsame
  · rw [hnone] at ht
    cases ht
  · left
    rw [hpc, ← hsame]
    exact ht

theorem threadStep_move {i : ℕ} {io : Io} {s s' : Threads Q}
    (h : s.threadStep i io = some s') : Threads.Move i s s' := by
  unfold Threads.threadStep at h
  split at h
  case h_1 hpc =>
    -- `handleMeasurement` is called
    cases h
    exact .goto hpc rfl rfl (.inl rfl) (.inl rfl)
  case h_2 hpc =>
    -- a check-in has received its schedule
    cases h
    exact .goto hpc rfl rfl (.inl rfl) (.inl rfl)
  case h_3 hpc =>
    -- `submitTask` is called
    cases h
    exact .goto hpc rfl rfl (.inl rfl) (.inl rfl)
  case h_4 userConsented hpc =>
    -- the test of the consent
    cases h
    cases userConsented <;> exact .goto hpc rfl rfl (.inl rfl) (.inl rfl)
  case h_5 hpc =>
    -- `peek`
    cases h
    exact .walk (.test (PriorityQueue.peek s.service.taskQueue)) (by rw [hpc]; rfl) rfl (.inl rfl)
      (fun t ht => .inr ht) rfl rfl rfl rfl rfl
  case h_6 hpc =>
    -- the queue was empty
    cases h
    exact .goto hpc rfl rfl (.inl rfl) (.inl rfl)
  case h_7 task now hpc =>
    -- the test whether the head is due
    cases h
    split
    · exact .goto hpc rfl rfl (.inl rfl) (.inr rfl)
    · exact .goto hpc rfl rfl (.inl rfl) (.inl rfl)
  case h_8 task now hpc =>
    -- `poll`
    cases h
    exact .poll task hpc rfl
  case h_9 task now hpc =>
    -- `submit`, which throws after a shutdown
    split at h
    · rename_i e hsubmit
      cases h
      have hshutdown : s.service.measurementExecutor.isShutdown = true := by
        unfold Executor.submit at hsubmit
        split at hsubmit
        · assumption
        · cases hsubmit
      exact .reject task hpc hshutdown rfl
    · rename_i executor hsubmit
      cases h
      unfold Executor.submit at hsubmit
      split at hsubmit
      · cases hsubmit
      · rename_i hrunning
        cases hsubmit
        exact .submit task now hpc (by simpa using hrunning) rfl
  case h_10 task now hpc =>
    -- `put`
    cases h
    refine .walk (.clone task) (by rw [hpc]; rfl) rfl (.inl rfl) ?_ rfl rfl rfl rfl rfl
    intro t ht
    left
    rw [hpc]
    exact ht
  case h_11 task now₁ now₂ parametersTaken hpc =>
    -- `clone`, if the task recurs
    split at h
    · split at h
      · cases h
        exact .goto hpc rfl rfl (.inl rfl) (.inl rfl)
      · rename_i newTask hclone
        cases h
        exact .clone task newTask parametersTaken now₁ now₂ hpc hclone rfl
    · cases h
      exact .goto hpc rfl rfl (.inl rfl) (.inl rfl)
  case h_12 ds now hpc =>
    -- `removeAllUnscheduledTasks`
    cases h
    exact .clear ds hpc rfl
  case h_13 after now hpc =>
    -- all tasks are submitted
    cases h
    cases after <;> exact .goto hpc rfl rfl (.inl rfl) (.inl rfl)
  case h_14 d rest after now hpc =>
    -- the next task to submit
    cases h
    exact .next d rest after hpc rfl
  case h_15 hpc =>
    -- the first test of `submitTask`
    split at h
    · cases h
      exact .goto hpc rfl rfl (.inr rfl) (.inr rfl)
    · split at h
      · cases h
        exact .goto hpc rfl rfl (.inl rfl) (.inl rfl)
      · cases h
        exact .goto hpc rfl rfl (.inr rfl) (.inr rfl)
  case h_16 hpc =>
    -- its second test
    split at h
    · cases h
      exact .goto hpc rfl rfl (.inl rfl) (.inl rfl)
    · cases h
      exact .goto hpc rfl rfl (.inr rfl) (.inr rfl)
  case h_17 newTask rest after now hpc =>
    -- `add`
    cases h
    exact .add newTask rest after hpc rfl
  case h_18 hpc =>
    -- the head for which the alarm is armed
    split at h
    · cases h
      exact .goto hpc rfl rfl (.inl rfl) (.inl rfl)
    · rename_i task hpeek
      cases h
      refine .walk (.arm task) (by rw [hpc]; rfl) rfl (.inl rfl) ?_ rfl rfl rfl rfl rfl
      rintro t ⟨⟩
      exact .inr hpeek
  case h_19 hpc =>
    -- the alarm is set
    cases h
    exact .goto hpc rfl rfl (.inl rfl) (.inl rfl)
  case h_20 => cases h

/-- A step moves its own thread only. -/
theorem Threads.Move.pc_of_ne {i j : ℕ} {s s' : Threads Q} (h : Threads.Move i s s')
    (hj : j ≠ i) : s'.pc j = s.pc j := by
  cases h with
  | walk pc _ _ _ _ hpc =>
      rw [hpc]
      exact Function.update_of_ne hj ..
  | next _ _ _ _ hs' => rw [hs']; exact Function.update_of_ne hj ..
  | clone _ _ _ _ _ _ _ hs' => rw [hs']; exact Function.update_of_ne hj ..
  | add _ _ _ _ hs' => rw [hs']; exact Function.update_of_ne hj ..
  | poll _ _ hs' => rw [hs']; exact Function.update_of_ne hj ..
  | submit _ _ _ _ hs' => rw [hs']; exact Function.update_of_ne hj ..
  | reject _ _ _ hs' => rw [hs']; exact Function.update_of_ne hj ..
  | clear _ _ hs' => rw [hs']; exact Function.update_of_ne hj ..

/-! ## Every task object is in one place -/

inductive Place where
  | queue
  | thread (i : ℕ)
  | executor

def Threads.Holds (s : Threads Q) : Place → ℕ → Prop
  | .queue, ref => ∃ t ∈ PriorityQueue.toList s.service.taskQueue, t.ref = ref
  | .thread i, ref => ∃ t, (s.pc i).object = some t ∧ t.ref = ref
  | .executor, ref => ∃ sub ∈ s.service.measurementExecutor.submissions, sub.task.ref = ref

/-- The invariant: objects are in one place and once there, and what was polled
reaches the executor. -/
structure InOnePlace (s : Threads Q) : Prop where
  exclusive : Exclusive s.Holds
  fresh : ∀ p ref, s.Holds p ref → ref < s.service.nextRef
  queueNodup : ((PriorityQueue.toList s.service.taskQueue).map MeasurementTask.ref).Nodup
  once : (s.service.measurementExecutor.submissions.map fun sub => sub.task.ref).Nodup
  polled : ∀ t ∈ s.polled, s.Reaches t

theorem InOnePlace.exactlyOnce {s : Threads Q} (h : InOnePlace s) : ExactlyOnce s :=
  ⟨h.once, h.polled⟩

/-- A thread that is about to submit is not the one that moves. -/
theorem ne_of_submitting {pcs : ℕ → Pc} {i j : ℕ} {old : Pc} {task : MeasurementTask}
    (hpc : pcs i = old) (hold : old.submitting = none) (hj : pcs j = .submit task) : j ≠ i := by
  rintro rfl
  rw [← hpc, hj] at hold
  cases hold

/-- The objects in hand after thread `i` has moved to `pc`. -/
theorem object_update {pcs : ℕ → Pc} {i j : ℕ} {pc : Pc} {t : MeasurementTask}
    (h : (Function.update pcs i pc j).object = some t) :
    (j = i ∧ pc.object = some t) ∨ (j ≠ i ∧ (pcs j).object = some t) := by
  by_cases hji : j = i
  · subst hji
    rw [Function.update_self] at h
    exact Or.inl ⟨rfl, h⟩
  · rw [Function.update_of_ne hji] at h
    exact Or.inr ⟨hji, h⟩

omit [PriorityQueue Q MeasurementTask MeasurementTask.Le] in
/-- What reaches the executor still does after a step that keeps the submissions
and sees to every task a thread was about to submit. -/
theorem Threads.Reaches.step {s s' : Threads Q} {t : MeasurementTask} (h : s.Reaches t)
    (hsubs : s.service.measurementExecutor.submissions ⊆
      s'.service.measurementExecutor.submissions)
    (hpc : ∀ i task, s.pc i = .submit task → s'.pc i = .submit task ∨
      ∃ sub ∈ s'.service.measurementExecutor.submissions, sub.task.ref = task.ref) :
    s'.Reaches t := by
  rcases h with ⟨sub, hsub, href⟩ | ⟨i, task, hi, href⟩
  · exact Or.inl ⟨sub, hsubs hsub, href⟩
  · rcases hpc i task hi with hi' | ⟨sub, hsub, href'⟩
    · exact Or.inr ⟨i, task, hi', href⟩
    · exact Or.inl ⟨sub, hsub, href'.trans href⟩

omit [PriorityQueue Q MeasurementTask MeasurementTask.Le] in
/-- So it does when a thread moves on that was not about to submit. -/
theorem Threads.Reaches.update {s s' : Threads Q} {t : MeasurementTask} (h : s.Reaches t)
    {i : ℕ} {old pc : Pc} (hpc : s.pc i = old) (hold : old.submitting = none)
    (hpc' : s'.pc = Function.update s.pc i pc)
    (hsubs : s'.service.measurementExecutor.submissions =
      s.service.measurementExecutor.submissions) : s'.Reaches t := by
  refine h.step (fun sub hsub => hsubs ▸ hsub) ?_
  intro j task hj
  left
  rw [hpc', Function.update_of_ne (ne_of_submitting hpc hold hj), hj]

namespace InOnePlace

variable {s : Threads Q} {i : ℕ} {old pc : Pc}

theorem created : InOnePlace (Threads.created : Threads Q) := by
  have hqueue : PriorityQueue.toList (Threads.created : Threads Q).service.taskQueue = [] :=
    PriorityQueue.toList_empty
  have hnone : ∀ p ref, ¬ (Threads.created : Threads Q).Holds p ref := by
    intro p ref hholds
    cases p with
    | queue =>
        rcases hholds with ⟨t, ht, _⟩
        rw [hqueue] at ht
        cases ht
    | thread i =>
        rcases hholds with ⟨t, ht, _⟩
        cases ht
    | executor =>
        rcases hholds with ⟨sub, hsub, _⟩
        cases hsub
  constructor
  · intro p q ref hp
    exact absurd hp (hnone p ref)
  · intro p ref hp
    exact absurd hp (hnone p ref)
  · rw [hqueue]
    exact List.nodup_nil
  · exact List.nodup_nil
  · intro t ht
    cases ht

/-- The queue may lose tasks, and a thread the object it has in hand if it is not
about to submit it. -/
theorem shrink (h : InOnePlace s) {s' : Threads Q}
    (hobject : ∀ j, (s'.pc j).object = none ∨ (s'.pc j).object = (s.pc j).object)
    (hsubmitting : ∀ j task, s.pc j = .submit task → s'.pc j = .submit task)
    (hqueue : (PriorityQueue.toList s'.service.taskQueue).Subperm
      (PriorityQueue.toList s.service.taskQueue))
    (hsubs : s'.service.measurementExecutor.submissions =
      s.service.measurementExecutor.submissions)
    (href : s'.service.nextRef = s.service.nextRef) (hpolled : s'.polled = s.polled) :
    InOnePlace s' := by
  -- nothing is held that was not held before, so at most one place holds a task still
  have hholds : ∀ p ref, s'.Holds p ref → s.Holds p ref := by
    intro p ref hp
    cases p with
    | queue =>
        rcases hp with ⟨t, ht, href⟩
        exact ⟨t, hqueue.subset ht, href⟩
    | thread j =>
        rcases hp with ⟨t, ht, href⟩
        rcases hobject j with hnone | hsame
        · rw [hnone] at ht
          cases ht
        · exact ⟨t, hsame ▸ ht, href⟩
    | executor =>
        rcases hp with ⟨sub, hsub, href⟩
        exact ⟨sub, hsubs ▸ hsub, href⟩
  -- who held what only shrank, and so did the queue
  constructor
  · exact h.exclusive.mono hholds
  · intro p ref hp
    rw [href]
    exact h.fresh p ref (hholds p ref hp)
  · rcases hqueue with ⟨l, hperm, hsub⟩
    exact (hperm.map _).nodup_iff.mp (h.queueNodup.sublist (hsub.map _))
  · rw [hsubs]
    exact h.once
  · intro t ht
    exact (h.polled t (hpolled ▸ ht)).step (fun sub hsub => hsubs ▸ hsub)
      fun j task hj => Or.inl (hsubmitting j task hj)

/-- A thread that is not about to submit moves on, with the object it had in hand
or none, while the service changes in what the invariant does not speak of. -/
theorem move (h : InOnePlace s) (hpc : s.pc i = old) {service : Service Q}
    (hobject : pc.object = none ∨ pc.object = old.object) (hold : old.submitting = none)
    (hqueue : (PriorityQueue.toList service.taskQueue).Subperm
      (PriorityQueue.toList s.service.taskQueue))
    (hsubs : service.measurementExecutor = s.service.measurementExecutor)
    (href : service.nextRef = s.service.nextRef) :
    InOnePlace { s with service := service, pc := Function.update s.pc i pc } := by
  refine h.shrink ?_ ?_ hqueue (congrArg Executor.submissions hsubs) href rfl
  · intro j
    dsimp only
    by_cases hji : j = i
    · subst hji
      rw [Function.update_self, hpc]
      exact hobject
    · rw [Function.update_of_ne hji]
      exact Or.inr rfl
  · intro j task hj
    dsimp only
    rw [Function.update_of_ne (ne_of_submitting hpc hold hj), hj]

/-- A thread makes a new object. -/
theorem create (h : InOnePlace s) (hpc : s.pc i = old) (hold : old.submitting = none)
    {newTask : MeasurementTask} (hnew : pc.object = some newTask)
    (href : newTask.ref = s.service.nextRef) :
    InOnePlace { s with service := s.service.newObject, pc := Function.update s.pc i pc } := by
  have hstep : ∀ p ref, Threads.Holds
      { s with service := s.service.newObject, pc := Function.update s.pc i pc } p ref →
      s.Holds p ref ∨ (p = .thread i ∧ ref = s.service.nextRef) := by
    intro p ref hp
    -- the new object is in the hands of thread `i` only
    cases p with
    | queue => exact Or.inl hp
    | thread j =>
        rcases hp with ⟨t, ht, htref⟩
        rcases object_update ht with ⟨hji, hobject⟩ | ⟨_, hobject⟩
        · rw [hnew] at hobject
          cases hobject
          exact Or.inr ⟨congrArg Place.thread hji, htref.symm.trans href⟩
        · exact Or.inl ⟨t, hobject, htref⟩
    | executor => exact Or.inl hp
  constructor
  · refine h.exclusive.create ?_ hstep
    intro p hp
    exact Nat.lt_irrefl _ (h.fresh p _ hp)
  · intro p ref hp
    show ref < s.service.nextRef + 1
    rcases hstep p ref hp with hbefore | ⟨_, rfl⟩
    · exact Nat.lt_succ_of_lt (h.fresh p ref hbefore)
    · exact Nat.lt_succ_self _
  · exact h.queueNodup
  · exact h.once
  · intro t ht
    exact (h.polled t ht).update hpc hold rfl rfl

/-- A thread puts its new object into the queue. -/
theorem add (h : InOnePlace s) (hpc : s.pc i = old) (hold : old.submitting = none)
    {newTask : MeasurementTask} (hhas : old.object = some newTask) (hnone : pc.object = none) :
    InOnePlace { s with
      service := { s.service with taskQueue := PriorityQueue.add s.service.taskQueue newTask }
      pc := Function.update s.pc i pc } := by
  have hfrom : s.Holds (.thread i) newTask.ref := ⟨newTask, hpc ▸ hhas, rfl⟩
  have hstep : ∀ p ref, Threads.Holds { s with
      service := { s.service with taskQueue := PriorityQueue.add s.service.taskQueue newTask }
      pc := Function.update s.pc i pc } p ref →
      (s.Holds p ref ∧ (p = .thread i → ref ≠ newTask.ref)) ∨
        (p = .queue ∧ ref = newTask.ref) := by
    intro p ref hp
    cases p with
    | queue =>
        rcases hp with ⟨t, ht, rfl⟩
        rcases PriorityQueue.mem_add.mp ht with rfl | ht
        · exact Or.inr ⟨rfl, rfl⟩
        · exact Or.inl ⟨⟨t, ht, rfl⟩, by intro hplace; cases hplace⟩
    | thread j =>
        rcases hp with ⟨t, ht, rfl⟩
        rcases object_update ht with ⟨_, hobject⟩ | ⟨hji, hobject⟩
        · rw [hnone] at hobject
          cases hobject
        · refine Or.inl ⟨⟨t, hobject, rfl⟩, ?_⟩
          intro hplace
          exact absurd (Place.thread.inj hplace) hji
    | executor => exact Or.inl ⟨hp, by intro hplace; cases hplace⟩
  constructor
  · exact h.exclusive.move hfrom hstep
  · exact forall_of_move h.fresh hfrom hstep
  · -- the thread held the object, so the queue did not
    have hperm := (PriorityQueue.toList_add s.service.taskQueue newTask).map MeasurementTask.ref
    refine hperm.nodup_iff.mpr ?_
    rw [List.map_cons, List.nodup_cons]
    refine ⟨?_, h.queueNodup⟩
    intro hmem
    rcases List.mem_map.mp hmem with ⟨t, ht, href⟩
    have hplaces := h.exclusive .queue (.thread i) newTask.ref ⟨t, ht, href⟩ hfrom
    cases hplaces
  · exact h.once
  · intro t ht
    exact (h.polled t ht).update hpc hold rfl rfl

/-- A thread polls the task it has peeked. -/
theorem poll (h : InOnePlace s) {task : MeasurementTask} (hpc : s.pc i = .poll task)
    (hpeek : PriorityQueue.peek s.service.taskQueue = some task) :
    InOnePlace { s with
      service := { s.service with taskQueue := PriorityQueue.poll s.service.taskQueue }
      polled := s.polled ++ (PriorityQueue.peek s.service.taskQueue).toList
      pc := Function.update s.pc i (.submit task) } := by
  have hfrom : s.Holds .queue task.ref := ⟨task, PriorityQueue.peek_mem hpeek, rfl⟩
  have hnodup : ((task :: PriorityQueue.toList (PriorityQueue.poll s.service.taskQueue)).map
      MeasurementTask.ref).Nodup :=
    ((PriorityQueue.perm_of_peek hpeek).map _).nodup_iff.mp h.queueNodup
  rw [List.map_cons, List.nodup_cons] at hnodup
  have hstep : ∀ p ref, Threads.Holds { s with
      service := { s.service with taskQueue := PriorityQueue.poll s.service.taskQueue }
      polled := s.polled ++ (PriorityQueue.peek s.service.taskQueue).toList
      pc := Function.update s.pc i (.submit task) } p ref →
      (s.Holds p ref ∧ (p = .queue → ref ≠ task.ref)) ∨
        (p = .thread i ∧ ref = task.ref) := by
    intro p ref hp
    cases p with
    | queue =>
        -- no other task of the queue is the same object
        rcases hp with ⟨t, ht, rfl⟩
        have hmem := (PriorityQueue.poll_subperm s.service.taskQueue).subset ht
        refine Or.inl ⟨⟨t, hmem, rfl⟩, ?_⟩
        intro _ heq
        exact hnodup.1 (heq ▸ List.mem_map_of_mem ht)
    | thread j =>
        rcases hp with ⟨t, ht, rfl⟩
        rcases object_update ht with ⟨hji, hobject⟩ | ⟨_, hobject⟩
        · cases hobject
          exact Or.inr ⟨congrArg Place.thread hji, rfl⟩
        · exact Or.inl ⟨⟨t, hobject, rfl⟩, by intro hplace; cases hplace⟩
    | executor => exact Or.inl ⟨hp, by intro hplace; cases hplace⟩
  constructor
  · exact h.exclusive.move hfrom hstep
  · exact forall_of_move h.fresh hfrom hstep
  · exact hnodup.2
  · exact h.once
  · intro t ht
    dsimp only at ht
    rw [hpeek, Option.toList_some, List.mem_append, List.mem_singleton] at ht
    rcases ht with ht | rfl
    · exact (h.polled t ht).update hpc rfl rfl rfl
    · exact Or.inr ⟨i, t, Function.update_self .., rfl⟩

/-- A thread submits the task it has in hand. -/
theorem submit (h : InOnePlace s) {task : MeasurementTask} (hpc : s.pc i = .submit task)
    (sub : Submission) (hsub : sub.task = task) :
    InOnePlace { s with
      service := { s.service with
        measurementExecutor := { s.service.measurementExecutor with
          submissions := s.service.measurementExecutor.submissions ++ [sub] } }
      pc := Function.update s.pc i (.put task) } := by
  have hfrom : s.Holds (.thread i) task.ref := ⟨task, by rw [hpc]; rfl, rfl⟩
  have hstep : ∀ p ref, Threads.Holds { s with
      service := { s.service with
        measurementExecutor := { s.service.measurementExecutor with
          submissions := s.service.measurementExecutor.submissions ++ [sub] } }
      pc := Function.update s.pc i (.put task) } p ref →
      (s.Holds p ref ∧ (p = .thread i → ref ≠ task.ref)) ∨
        (p = .executor ∧ ref = task.ref) := by
    intro p ref hp
    cases p with
    | queue => exact Or.inl ⟨hp, by intro hplace; cases hplace⟩
    | thread j =>
        rcases hp with ⟨t, ht, rfl⟩
        rcases object_update ht with ⟨_, hobject⟩ | ⟨hji, hobject⟩
        · cases hobject
        · refine Or.inl ⟨⟨t, hobject, rfl⟩, ?_⟩
          intro hplace
          exact absurd (Place.thread.inj hplace) hji
    | executor =>
        rcases hp with ⟨sub', hmem, rfl⟩
        rcases List.mem_append.mp hmem with hmem | hlast
        · exact Or.inl ⟨⟨sub', hmem, rfl⟩, by intro hplace; cases hplace⟩
        · rw [List.mem_singleton.mp hlast, hsub]
          exact Or.inr ⟨rfl, rfl⟩
  constructor
  · exact h.exclusive.move hfrom hstep
  · exact forall_of_move h.fresh hfrom hstep
  · exact h.queueNodup
  · rw [List.map_append, List.map_singleton, List.nodup_append]
    refine ⟨h.once, List.nodup_singleton _, ?_⟩
    intro ref hmem ref' hlast heq
    rcases List.mem_map.mp hmem with ⟨sub', hsub', href⟩
    -- a task that a thread has in hand has not been submitted before
    have hplaces := h.exclusive .executor (.thread i) task.ref
      ⟨sub', hsub', by rw [href, heq, List.mem_singleton.mp hlast, hsub]⟩ hfrom
    cases hplaces
  · intro t ht
    refine (h.polled t ht).step (fun sub' hsub' => List.mem_append_left _ hsub') ?_
    intro j task' hj
    by_cases hji : j = i
    · subst hji
      rw [hpc] at hj
      cases hj
      right
      exact ⟨sub, List.mem_append_right _ (List.mem_singleton.mpr rfl), by rw [hsub]⟩
    · left
      dsimp only
      rw [Function.update_of_ne hji, hj]

end InOnePlace

/-- One step of a thread that meets the condition. -/
theorem threadStep_inOnePlace {i : ℕ} {io : Io} {s s' : Threads Q} (h : InOnePlace s)
    (hguard : HeadKept (.thread i io) s) (hstep : s.threadStep i io = some s') :
    InOnePlace s' := by
  cases threadStep_move hstep with
  | walk pc hold hnew hobject htask hpc hqueue hexecutor hnextRef hpolled =>
      refine h.shrink ?_ ?_ ?_ (congrArg Executor.submissions hexecutor) hnextRef hpolled
      · intro j
        rw [hpc]
        by_cases hji : j = i
        · subst hji
          rw [Function.update_self]
          exact hobject
        · rw [Function.update_of_ne hji]
          exact Or.inr rfl
      · intro j task hj
        rw [hpc, Function.update_of_ne (ne_of_submitting rfl hold hj), hj]
      · rw [hqueue]
  | next d rest after hpc hs' =>
      rw [hs']
      exact h.create hpc rfl rfl rfl
  | clone task newTask parametersTaken now₁ now₂ hpc hclone hs' =>
      rw [hs']
      refine h.create hpc rfl rfl ?_
      rw [newTask.advance_ref, MeasurementDesc.clone_ref hclone]
  | add newTask rest after hpc hs' =>
      rw [hs']
      exact h.add hpc rfl rfl rfl
  | poll task hpc hs' =>
      rw [hs']
      exact h.poll hpc (hguard.1 task (by rw [hpc]; rfl))
  | submit task now hpc hrunning hs' =>
      rw [hs']
      exact h.submit hpc ⟨task.wrapper, task, now⟩ rfl
  | reject task hpc hshutdown hs' =>
      -- the condition keeps the executor running
      have hrunning : s.service.measurementExecutor.isShutdown = false :=
        hguard.2 (by rw [hpc]; rfl)
      rw [hrunning] at hshutdown
      cases hshutdown
  | clear ds hpc hs' =>
      rw [hs']
      exact h.move hpc (Or.inl rfl) rfl (PriorityQueue.empty_subperm _) rfl rfl

theorem step_inOnePlace {label : Label} {s s' : Threads Q} (h : InOnePlace s)
    (hguard : HeadKept label s) (hstep : Threads.step label s = some s') : InOnePlace s' := by
  have hobject : ∀ j, (s.pc j).object = none ∨ (s.pc j).object = (s.pc j).object :=
    fun j => Or.inr rfl
  cases label with
  | thread i io => exact threadStep_inOnePlace h hguard hstep
  | removeTaskByKey key =>
      cases hstep
      have hframe := s.service.removeTaskByKey_frame key
      exact h.shrink hobject (fun j task hj => hj) hframe.1
        (congrArg Executor.submissions (s.service.removeTaskByKey_measurementExecutor key))
        hframe.2 rfl
  | removePending task =>
      cases hstep
      exact h.shrink hobject (fun j task hj => hj) (List.Subperm.refl _) rfl rfl rfl
  | clearQueue =>
      cases hstep
      exact h.shrink hobject (fun j task hj => hj) (PriorityQueue.empty_subperm _) rfl rfl rfl
  | shutdownExecutor =>
      cases hstep
      exact h.shrink hobject (fun j task hj => hj) (List.Subperm.refl _) rfl rfl rfl

/-- In every interleaving in which every poll finds the task the thread has
peeked still at the head and no submission comes after the executor is shut
down, what is polled reaches the executor exactly once; a poll that finds
another task at the head loses that task. -/
theorem exactlyOnce_runs {s : Threads Q} (hs : (dispatchers Q).ReachableBy HeadKept s) :
    ExactlyOnce s ∧ ∀ i now task other s', s.pc i = .poll task →
      PriorityQueue.peek s.service.taskQueue = some other → other.ref ≠ task.ref →
        Threads.step (.thread i (.clock now)) s = some s' → ¬ ExactlyOnce s' := by
  have hplace : InOnePlace s := by
    apply hs.invariant
    · intro s₀ hinit
      -- nothing is held at the start
      rw [show s₀ = Threads.created from hinit]
      exact InOnePlace.created
    · intro label s s' h hguard hstep
      exact step_inOnePlace h hguard hstep
  constructor
  · exact hplace.exactlyOnce
  · intro i now task other s' hpc hpeek hne hstep hexactly
    -- the other task is polled from the queue, where it was the head
    have hqueue : s.Holds .queue other.ref := ⟨other, PriorityQueue.peek_mem hpeek, rfl⟩
    have hstep' : s.threadStep i (.clock now) = some s' := hstep
    simp only [Threads.threadStep, hpc, hpeek] at hstep'
    cases hstep'
    have hmem : other ∈ s.polled ++ (some other).toList :=
      List.mem_append_right _ (List.mem_singleton.mpr rfl)
    -- polled, it would have to be with the executor or a thread, and it is in the queue
    rcases hexactly.polled other hmem with ⟨sub, hsub, href⟩ | ⟨j, task', hj, href⟩
    · have hplaces := hplace.exclusive .queue .executor other.ref hqueue ⟨sub, hsub, href⟩
      cases hplaces
    · have hsubmit : Function.update s.pc i (.submit task) j = .submit task' := hj
      have hobject : (Function.update s.pc i (.submit task) j).object = some task' := by
        rw [hsubmit]
        rfl
      -- this thread submits the task it peeked, not the one it polled
      rcases object_update hobject with ⟨_, hsame⟩ | ⟨_, hother⟩
      · cases hsame
        exact hne href.symm
      · have hplaces := hplace.exclusive .queue (.thread j) other.ref hqueue
          ⟨task', hother, href⟩
        cases hplaces

/-! ## Two calls, one after the other and side by side -/

def ofPriority (priority : Int) : AcceptedDesc :=
  ⟨pingDescOf priority 0 1000 1, pingDescOf_accepted priority 0 1000 1⟩

/-- Thread `i` submits a task to the queue. -/
def submitSteps (i : ℕ) (d : AcceptedDesc) : List Label :=
  .thread i (.submitTask d) :: List.replicate 5 (.thread i (.clock 0))

/-- Thread `i` calls `handleMeasurement` and gets as far as the poll. -/
def peekSteps (i : ℕ) : List Label :=
  [.thread i .handleMeasurement, .thread i (.consented true), .thread i (.clock 0),
    .thread i (.clock 0)]

/-- It polls and submits. -/
def pollSteps (i : ℕ) : List Label :=
  List.replicate 2 (.thread i (.clock 0))

/-- One after the other, the two calls submit the two tasks. -/
theorem exactlyOnce_runs_twoCalls :
    ∃ s : Threads (SortedQueue MeasurementTask.Le), ExactlyOnce s ∧
      s.polled.map MeasurementTask.ref = [0, 1] ∧
      (s.service.measurementExecutor.submissions.map fun sub => sub.task.ref) = [0, 1] := by
  have hrun : ((dispatchers (SortedQueue MeasurementTask.Le)).runBy HeadKept
      (submitSteps 0 (ofPriority 1) ++ submitSteps 0 (ofPriority 2) ++ peekSteps 1 ++ pollSteps 1 ++
        peekSteps 2 ++ pollSteps 2) Threads.created).any fun s =>
      s.polled.map MeasurementTask.ref = [0, 1] ∧
        (s.service.measurementExecutor.submissions.map fun sub => sub.task.ref) = [0, 1] := by
    decide +kernel
  rcases (Option.any_eq_true _ _).mp hrun with ⟨s, hsteps, hs⟩
  have hreach : (dispatchers _).ReachableBy HeadKept s :=
    (System.ReachableBy.init rfl).steps (System.steps_of_runBy hsteps)
  exact ⟨s, (exactlyOnce_runs hreach).1, of_decide_eq_true hs⟩

/-- Side by side, both have peeked the first task when the first of them polls:
the first task is submitted twice and the second one not at all. -/
theorem not_exactlyOnce_sideBySide :
    ¬ ∀ s : Threads (SortedQueue MeasurementTask.Le), (dispatchers _).Reachable s →
      ExactlyOnce s := by
  intro hall
  have hrun : ((dispatchers (SortedQueue MeasurementTask.Le)).run
      (submitSteps 0 (ofPriority 1) ++ submitSteps 0 (ofPriority 2) ++ peekSteps 1 ++ peekSteps 2 ++
        pollSteps 1 ++ pollSteps 2) Threads.created).any fun s =>
      (s.service.measurementExecutor.submissions.map fun sub => sub.task.ref) = [0, 0] := by
    decide +kernel
  rcases (Option.any_eq_true _ _).mp hrun with ⟨s, hsteps, hs⟩
  have hreach : (dispatchers _).Reachable s := System.reachable_of_run rfl hsteps
  have honce := (hall s hreach).once
  rw [of_decide_eq_true hs] at honce
  exact absurd honce (by decide)

end MobiPerf.Scheduler
