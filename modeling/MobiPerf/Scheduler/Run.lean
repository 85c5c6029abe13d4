import MobiPerf.Lib.Transition
import MobiPerf.Scheduler.Upload

/-!
# Scheduler.Run — runs of the service under a clock that moves forward

The calls that change the scheduler's state, one after the other, from the
state `onCreate` leaves; between them the clock moves on and measurements end.
Nothing is assumed of when a call comes or how long it takes. In every state of
a run the tasks in the queue and in the pending map are different objects, and
objects of their own.
-/

namespace MobiPerf.Scheduler

open Lib

/-! ## Events -/

structure World (Q : Type) where
  service : Service Q
  now : Int

inductive Event where
  | wait (msec : ℕ)
  /-- a task created in the user interface -/
  | submitTask (d : AcceptedDesc)
  | getTasksFromServer (tasksFromServer : List AcceptedDesc)
  | removeTaskByKey (taskKey : String)
  | uploadResults (env : UploadEnv)
  /-- the executor ends a measurement -/
  | finish (task : MeasurementTask) (future : FutureState)
  | handleMeasurement (env : CallEnv)
  | cleanUp

/-- The clock does not go back: not from `now` to the call, not within it. -/
def CallEnv.Forward (env : CallEnv) (now : Int) : Prop :=
  now ≤ env.dueNow ∧ env.dueNow ≤ env.submitNow ∧ env.submitNow ≤ env.cloneNow₁ ∧
    env.cloneNow₁ ≤ env.cloneNow₂ ∧ env.cloneNow₂ ≤ env.nextNow ∧ env.nextNow ≤ env.armNow

instance (env : CallEnv) (now : Int) : Decidable (env.Forward now) :=
  inferInstanceAs (Decidable (_ ∧ _))

variable {Q : Type} [PriorityQueue Q MeasurementTask MeasurementTask.Le]

def World.step (event : Event) (w : World Q) : Option (World Q) :=
  match event with
  | .wait msec => some { w with now := w.now + msec }
  | .submitTask d => some { w with service := (w.service.submitNew d).1 }
  | .getTasksFromServer ds => some { w with service := w.service.getTasksFromServer ds }
  | .removeTaskByKey key => some { w with service := (w.service.removeTaskByKey key).1 }
  | .uploadResults env => some { w with service := (w.service.uploadResults env).service }
  | .finish task future =>
    if w.service.pendingTasks.lookup task = some .running then
      some { w with
        service := { w.service with
          pendingTasks := w.service.pendingTasks.replace task future } }
    else none
  | .handleMeasurement env =>
    if env.Forward w.now then
      some ⟨(w.service.handleMeasurement env).service, env.armNow⟩
    else none
  | .cleanUp => some { w with service := w.service.cleanUp }

/-- An event that neither makes a task nor dispatches one. -/
def Event.Quiet : Event → Prop
  | .submitTask _ | .getTasksFromServer _ | .handleMeasurement _ => False
  | .wait _ | .removeTaskByKey _ | .uploadResults _ | .finish _ _ | .cleanUp => True

/-- Tasks only leave the queue, nothing is submitted, and no object is made. -/
structure World.Shrinks (w w' : World Q) : Prop where
  queue : (PriorityQueue.toList w'.service.taskQueue).Subperm
    (PriorityQueue.toList w.service.taskQueue)
  submissions : w'.service.measurementExecutor.submissions =
    w.service.measurementExecutor.submissions
  nextRef : w'.service.nextRef = w.service.nextRef
  now : w.now ≤ w'.now

theorem World.step_shrinks {event : Event} {w w' : World Q}
    (hstep : World.step event w = some w') (hquiet : event.Quiet) : w.Shrinks w' := by
  cases event with
  | wait msec =>
      cases hstep
      refine ⟨List.Subperm.refl _, rfl, rfl, ?_⟩
      show w.now ≤ w.now + msec
      omega
  | removeTaskByKey key =>
      cases hstep
      obtain ⟨hqueue, href⟩ := w.service.removeTaskByKey_frame key
      exact ⟨hqueue, congrArg Executor.submissions
        (w.service.removeTaskByKey_measurementExecutor key), href, le_refl _⟩
  | uploadResults env =>
      cases hstep
      obtain ⟨hqueue, href, hexecutor⟩ := uploadResults_frame w.service env
      exact ⟨hqueue ▸ List.Subperm.refl _, congrArg Executor.submissions hexecutor, href,
        le_refl _⟩
  | finish task future =>
      unfold World.step at hstep
      dsimp only at hstep
      split at hstep
      · cases hstep
        exact ⟨List.Subperm.refl _, rfl, rfl, le_refl _⟩
      · cases hstep
  | cleanUp =>
      cases hstep
      exact ⟨PriorityQueue.empty_subperm _, rfl, rfl, le_refl _⟩
  | submitTask _ | getTasksFromServer _ | handleMeasurement _ => cases hquiet

/-- The runs of one service object. -/
def scheduler (Q : Type) [PriorityQueue Q MeasurementTask MeasurementTask.Le] :
    System (World Q) Event where
  Init w := w.service = Service.onCreate
  step := World.step

/-- The service right after `onCreate`. -/
def World.created (now : Int) : World Q := ⟨Service.onCreate, now⟩

theorem init_created (now : Int) : (scheduler Q).Init (World.created now) := rfl

/-! ## Task objects -/

/-- No object is in the queue twice, none is in the queue and pending, and none
is yet to be made. -/
structure Service.Distinct (s : Service Q) : Prop where
  fresh : ∀ t ∈ PriorityQueue.toList s.taskQueue, t.ref < s.nextRef
  pendingFresh : ∀ t ∈ s.pendingTasks.keys, t.ref < s.nextRef
  nodup : ((PriorityQueue.toList s.taskQueue).map MeasurementTask.ref).Nodup
  apart : ∀ t ∈ PriorityQueue.toList s.taskQueue, ∀ u ∈ s.pendingTasks.keys, t.ref ≠ u.ref

namespace Service.Distinct

theorem onCreate : (Service.onCreate : Service Q).Distinct := by
  have hqueue : PriorityQueue.toList (Service.onCreate : Service Q).taskQueue = [] :=
    PriorityQueue.toList_empty
  constructor
  · rw [hqueue]
    intro t ht
    cases ht
  · intro t ht
    cases ht
  · rw [hqueue]
    exact List.nodup_nil
  · rw [hqueue]
    intro t ht
    cases ht

/-- Taking tasks out keeps it. -/
theorem shrink {s s' : Service Q} (h : s.Distinct)
    (hqueue : (PriorityQueue.toList s'.taskQueue).Subperm (PriorityQueue.toList s.taskQueue))
    (hpending : s'.pendingTasks.keys ⊆ s.pendingTasks.keys) (href : s'.nextRef = s.nextRef) :
    s'.Distinct where
  fresh := by
    intro t ht
    rw [href]
    exact h.fresh t (hqueue.subset ht)
  pendingFresh := by
    intro t ht
    rw [href]
    exact h.pendingFresh t (hpending ht)
  nodup := by
    rcases hqueue with ⟨l, hperm, hsub⟩
    exact (hperm.map _).nodup_iff.mp (h.nodup.sublist (hsub.map _))
  apart := fun t ht u hu => h.apart t (hqueue.subset ht) u (hpending hu)

/-- So does submitting a new object. -/
theorem submit {s : Service Q} (h : s.Distinct) {task : MeasurementTask}
    (href : task.ref = s.nextRef) :
    (s.newObject.submitTask task).1.Distinct := by
  have hlater : s.newObject.Distinct :=
    { h with
      fresh := fun t ht => Nat.lt_succ_of_lt (h.fresh t ht)
      pendingFresh := fun t ht => Nat.lt_succ_of_lt (h.pendingFresh t ht) }
  -- the task is queued, or the queue is full
  rcases s.newObject.submitTask_cases task with heq | heq
  · rw [heq]
    constructor
    · intro t ht
      rcases PriorityQueue.mem_add.mp ht with rfl | ht
      · show t.ref < s.nextRef + 1
        omega
      · exact hlater.fresh t ht
    · exact hlater.pendingFresh
    · have hperm := (PriorityQueue.toList_add s.taskQueue task).map MeasurementTask.ref
      refine hperm.nodup_iff.mpr ?_
      rw [List.map_cons, List.nodup_cons]
      -- its reference is new, so no task in the queue has it
      refine ⟨?_, h.nodup⟩
      intro hmem
      rcases List.mem_map.mp hmem with ⟨t, ht, heqRef⟩
      have hlt := h.fresh t ht
      omega
    · intro t ht u hu
      rcases PriorityQueue.mem_add.mp ht with rfl | ht
      · have hlt := h.pendingFresh u hu
        omega
      · exact h.apart t ht u hu
  · rw [heq]
    exact hlater

theorem dispatch {s : Service Q} (h : s.Distinct) {task : MeasurementTask}
    (hpeek : PriorityQueue.peek s.taskQueue = some task) (submitNow : Int) :
    (s.dispatched task submitNow).Distinct := by
  have hmem := PriorityQueue.peek_mem hpeek
  have hsub := PriorityQueue.poll_subperm s.taskQueue
  have hpolled : { s with taskQueue := PriorityQueue.poll s.taskQueue }.Distinct :=
    h.shrink hsub (List.Subset.refl _) rfl
  -- the head is the only element with its identity
  have hnodup : ((task :: PriorityQueue.toList (PriorityQueue.poll s.taskQueue)).map
      MeasurementTask.ref).Nodup :=
    ((PriorityQueue.perm_of_peek hpeek).map _).nodup_iff.mp h.nodup
  have hhead : ∀ t ∈ PriorityQueue.toList (PriorityQueue.poll s.taskQueue),
      t.ref ≠ task.ref := by
    intro t ht heq
    rw [List.map_cons, List.nodup_cons] at hnodup
    exact hnodup.1 (heq ▸ List.mem_map_of_mem ht)
  constructor
  · exact hpolled.fresh
  · intro t ht
    rcases (AList.mem_insert _).mp (AList.mem_keys.mpr ht) with rfl | ht
    · exact h.fresh t hmem
    · exact h.pendingFresh t (AList.mem_keys.mp ht)
  · exact hpolled.nodup
  · intro t ht u hu
    rcases (AList.mem_insert _).mp (AList.mem_keys.mpr hu) with rfl | hu
    · exact hhead t ht
    · exact hpolled.apart t ht u (AList.mem_keys.mp hu)

theorem handleMeasurement {s : Service Q} (h : s.Distinct) (env : CallEnv) :
    (s.handleMeasurement env).service.Distinct := by
  rw [s.handleMeasurement_service]
  split
  · split
    · exact h
    · rename_i task hdue
      have hpeek := (due_eq_some.mp hdue).1
      split
      · exact h.shrink (PriorityQueue.poll_subperm _) (List.Subset.refl _) rfl
      · have hdispatched := h.dispatch hpeek env.submitNow
        rcases (s.dispatched task env.submitNow).requeue_cases task env with
          heq | ⟨newTask, href, heq⟩
        · rw [heq]
          exact hdispatched
        · rw [heq]
          exact hdispatched.submit href
  · exact h

theorem getTasksFromServer {s : Service Q} (h : s.Distinct) (ds : List AcceptedDesc) :
    (s.getTasksFromServer ds).Distinct := by
  have hloop : ∀ s : Service Q, s.Distinct →
      (ds.foldl (fun s d => (s.submitNew d).1) s).Distinct := by
    induction ds with
    | nil =>
        intro s hs
        exact hs
    | cons d ds ih =>
        intro s hs
        exact ih _ (hs.submit rfl)
  exact hloop _ (h.shrink (PriorityQueue.empty_subperm _) (List.Subset.refl _) rfl)

theorem removeTaskByKey {s : Service Q} (h : s.Distinct) (key : String) :
    (s.removeTaskByKey key).1.Distinct := by
  unfold Service.removeTaskByKey
  split
  · exact h
  · split
    · exact h
    · exact h.shrink (PriorityQueue.removeFirst_subperm _ _) (List.Subset.refl _) rfl

theorem uploadResults {s : Service Q} (h : s.Distinct) (env : UploadEnv) :
    (s.uploadResults env).service.Distinct := by
  have hframe := uploadResults_frame s env
  refine h.shrink ?_ ?_ hframe.2.1
  · exact hframe.1 ▸ List.Subperm.refl _
  · intro t ht
    have hsome := AList.lookup_isSome.mpr (AList.mem_keys.mpr ht)
    rcases Option.isSome_iff_exists.mp hsome with ⟨future, hfuture⟩
    exact PendingTasks.mem_keys (lookup_of_lookup_uploadResults hfuture)

end Service.Distinct

theorem step_distinct {event : Event} {w w' : World Q} (h : w.service.Distinct)
    (hstep : World.step event w = some w') : w'.service.Distinct := by
  cases event with
  | wait msec =>
      cases hstep
      exact h
  | submitTask d =>
      cases hstep
      exact h.submit rfl
  | getTasksFromServer ds =>
      cases hstep
      exact h.getTasksFromServer ds
  | removeTaskByKey key =>
      cases hstep
      exact h.removeTaskByKey key
  | uploadResults env =>
      cases hstep
      exact h.uploadResults env
  | finish task future =>
      unfold World.step at hstep
      dsimp only at hstep
      split at hstep
      · cases hstep
        -- an answer changes what a pending task's future is, not which tasks are pending
        refine h.shrink (List.Subperm.refl _) ?_ rfl
        intro t ht
        have hkeys := AList.keys_replace task future w.service.pendingTasks
        exact hkeys ▸ ht
      · cases hstep
  | handleMeasurement env =>
      unfold World.step at hstep
      dsimp only at hstep
      split at hstep
      · cases hstep
        exact h.handleMeasurement env
      · cases hstep
  | cleanUp =>
      cases hstep
      exact h.shrink (PriorityQueue.empty_subperm _) (List.Subset.refl _) rfl

/-- In every state of every run the tasks are distinct objects. -/
theorem reachable_distinct {w : World Q} (h : (scheduler Q).Reachable w) : w.service.Distinct := by
  apply h.invariant
  · intro w hinit
    rw [show w.service = Service.onCreate from hinit]
    exact Service.Distinct.onCreate
  · intro event w w' hw hstep
    exact step_distinct hw hstep

end MobiPerf.Scheduler
