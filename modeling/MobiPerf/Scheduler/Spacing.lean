import MobiPerf.Scheduler.Lineage

/-!
# Scheduler.Spacing — the time between a dispatch and the next

`intervalSec` is to be the least time between two measurements of a description.
The successor of a task starts the whole seconds of the interval after the start
time of the task, whenever the task was dispatched: what a late dispatch has lost
is missing from the time to the next one, and so is a fraction of a second.

Beside the service stands the submission at which each successor was made; no code
reads it.

* `spaced_runs`: dispatches are an interval apart in the runs in which no successor
  starts earlier than an interval after the dispatch it is made at; in all runs two
  of them are exactly when the second is late enough to make up for the first.
* `onTime_iff`: a dispatch leaves nothing to make up for exactly when it comes at
  the start time and the interval is whole seconds.
-/

namespace MobiPerf.Scheduler

open Lib

variable {Q : Type} [PriorityQueue Q MeasurementTask MeasurementTask.Le]

/-! ## Successors and the dispatches they are made at -/

/-- The submission at which each object was made as a successor, by identity. -/
abbrev Parents := ℕ → Option Submission

/-- The objects made in a step from `s` to `s'` are successors when a call of
`handleMeasurement` makes them. -/
def Parents.after (parents : Parents) (event : Event) (s s' : Service Q) : Parents :=
  match event with
  | .handleMeasurement env => fun ref =>
    if s.nextRef ≤ ref ∧ ref < s'.nextRef then s.submission env else parents ref
  | _ => parents

/-- A step that makes no object makes no successor. -/
theorem Parents.after_of_nextRef_eq (parents : Parents) (event : Event) {s s' : Service Q}
    (h : s'.nextRef = s.nextRef) : parents.after event s s' = parents := by
  funext ref
  unfold Parents.after
  split
  · rw [h, if_neg (by omega)]
  · rfl

/-- The runs of the service with the parents beside it. -/
def spacings (Q : Type) [PriorityQueue Q MeasurementTask MeasurementTask.Le] :
    System (World Q × Parents) Event where
  Init s := (scheduler Q).Init s.1 ∧ s.2 = fun _ => none
  step event s := (World.step event s.1).map fun w =>
    (w, s.2.after event s.1.service w.service)

/-- Every run of the service is one with parents. -/
theorem spacings_of_reachable {w : World Q} (h : (scheduler Q).Reachable w) :
    ∃ parents, (spacings Q).Reachable (w, parents) := by
  refine h.invariant (P := fun w => ∃ parents, (spacings Q).Reachable (w, parents)) ?_ ?_
  · intro w hinit
    exact ⟨fun _ => none, System.ReachableBy.init ⟨hinit, rfl⟩⟩
  · rintro event w w' ⟨parents, hw⟩ hstep
    have hnext : (spacings Q).step event (w, parents) =
        some (w', parents.after event w.service w'.service) := by
      show (World.step event w).map _ = _
      rw [show World.step event w = some w' from hstep]
      rfl
    exact ⟨_, System.ReachableBy.tail hw trivial hnext⟩

/-! ## The property -/

/-- An interval of the first lies between the two dispatches. -/
def Submission.SpacedTo (a b : Submission) : Prop :=
  (a.time : ℚ) + a.task.desc.intervalSec * 1000 ≤ b.time

instance (a b : Submission) : Decidable (a.SpacedTo b) := inferInstanceAs (Decidable (_ ≤ _))

/-- An interval lies between the dispatch of a task and that of its successor. -/
def Spaced (s : World Q × Parents) : Prop :=
  ∀ b ∈ s.1.service.measurementExecutor.submissions, ∀ a, s.2 b.task.ref = some a → a.SpacedTo b

/-- How long after the successor's start time the interval that began with this
dispatch is over. -/
def Submission.deficit (a : Submission) : ℚ :=
  a.time + a.task.desc.intervalSec * 1000 - a.task.newStartTime

/-- How long after the start time a task was dispatched. -/
def Submission.delay (b : Submission) : ℚ := b.time - b.task.desc.startTime

/-! ## The runs in question -/

/-- What is submitted was built before. -/
def SubmitsBuilt : Event → World Q × Parents → Prop
  | .submitTask d, s => d.1.Built s.1.now
  | .getTasksFromServer ds, s => ∀ d ∈ ds, d.1.Built s.1.now
  | _, _ => True

/-- A dispatch of a task that recurs is not later than an interval before the start
time of its successor. -/
def OnTime : Event → World Q × Parents → Prop
  | .handleMeasurement env, s =>
    ∀ sub ∈ s.1.service.submission env, sub.task.Recurs → sub.deficit ≤ 0
  | _, _ => True

/-- Where the start time of the successor does not wrap around, a due task leaves
no deficit when it is dispatched at its start time and its interval is whole
seconds, and only then. -/
theorem onTime_iff {a : Submission} (hlow : -2 ^ 63 ≤ a.task.desc.startTime)
    (hfit : a.task.desc.startTime + ⌊a.task.desc.intervalSec⌋ * 1000 < 2 ^ 63)
    (hdue : a.task.desc.startTime ≤ a.time) :
    a.deficit ≤ 0 ↔
      a.time = a.task.desc.startTime ∧
        (⌊a.task.desc.intervalSec⌋ : ℚ) = a.task.desc.intervalSec := by
  have hfloor : (⌊a.task.desc.intervalSec⌋ : ℚ) ≤ a.task.desc.intervalSec := Int.floor_le _
  have hstart : (a.task.desc.startTime : ℚ) ≤ a.time := Int.cast_le.mpr hdue
  unfold Submission.deficit
  rw [a.task.newStartTime_eq hlow hfit]
  push_cast
  constructor
  · intro hle
    have htime : (a.time : ℚ) = a.task.desc.startTime := by linarith
    exact ⟨Int.cast_injective htime, by linarith⟩
  · rintro ⟨htime, hwhole⟩
    rw [htime, hwhole]
    linarith

/-! ## The invariant -/

/-- A successor starts where its predecessor says; what is dispatched was due. -/
structure Linked (s : Service Q) (now : Int) (parents : Parents) : Prop where
  fresh : ∀ t, s.Knows t → t.ref < s.nextRef
  unborn : ∀ ref, s.nextRef ≤ ref → parents ref = none
  start : ∀ t, s.Knows t → ∀ a, parents t.ref = some a →
    t.desc.startTime = a.task.newStartTime
  startable : ∀ t ∈ PriorityQueue.toList s.taskQueue, 0 ≤ now ∧
    (t.desc.startTime < 2 ^ 63 ∨ t.desc.startTime ≤ now)
  due : ∀ sub ∈ s.measurementExecutor.submissions, sub.task.desc.startTime ≤ sub.time

/-- The clock test of a task that can be reached by the clock. -/
theorem startTime_le_of_due {t : MeasurementTask} {now : Int} (hnow : 0 ≤ now)
    (hstart : t.desc.startTime < 2 ^ 63 ∨ t.desc.startTime ≤ now)
    (hdue : t.timeFromExecution now ≤ 0) : t.desc.startTime ≤ now := by
  by_contra hlater
  have hlong := hstart.resolve_right hlater
  unfold MeasurementTask.timeFromExecution at hdue
  rw [toLong_eq (by omega) (by omega)] at hdue
  omega

/-- The start time of a successor is a `long`. -/
theorem MeasurementTask.newStartTime_lt (task : MeasurementTask) : task.newStartTime < 2 ^ 63 := by
  unfold newStartTime toLong
  have hlt := Int.bmod_lt (x := task.desc.startTime +
    Int.bmod (castLong task.desc.intervalSec * 1000) (2 ^ 64)) (m := 2 ^ 64) (by decide)
  omega

/-- A description that was built comes with a clock and a start time in range. -/
theorem MeasurementDesc.Built.startable {d : MeasurementDesc} {now : Int} (h : d.Built now) :
    0 ≤ now ∧ (d.startTime < 2 ^ 63 ∨ d.startTime ≤ now) := by
  obtain ⟨startTime, endTime, intervalSec, startNow, builtNow, hd, hstartNow, hbuilt, hnow,
    hstart, -⟩ := h
  unfold construct at hd
  obtain ⟨_, _, hd⟩ := Lib.except_bind_eq_ok.mp hd
  have hd := Except.ok.inj hd
  refine ⟨by omega, ?_⟩
  rw [← hd]
  show startTime.getD startNow < 2 ^ 63 ∨ startTime.getD startNow ≤ now
  cases startTime with
  | none =>
      right
      show startNow ≤ now
      omega
  | some t => exact .inl (hstart t rfl).2

namespace Linked

variable {s : Service Q} {now : Int} {parents : Parents}

theorem onCreate (now : Int) : Linked (Service.onCreate : Service Q) now fun _ => none := by
  have hqueue : PriorityQueue.toList (Service.onCreate : Service Q).taskQueue = [] :=
    PriorityQueue.toList_empty
  refine ⟨?_, fun _ _ => rfl, ?_, ?_, ?_⟩
  · intro t ht
    exact absurd ht (Service.not_knows_onCreate t)
  · intro t _ a ha
    cases ha
  · intro t ht
    rw [hqueue] at ht
    cases ht
  · intro sub hsub
    cases hsub

/-- Taking tasks out keeps it, and so does time. -/
theorem shrink (h : Linked s now parents) {s' : Service Q} {now' : Int}
    (hqueue : (PriorityQueue.toList s'.taskQueue).Subperm (PriorityQueue.toList s.taskQueue))
    (hsubs : s'.measurementExecutor.submissions = s.measurementExecutor.submissions)
    (href : s'.nextRef = s.nextRef) (hnow : now ≤ now') : Linked s' now' parents := by
  have hknows {t : MeasurementTask} (ht : s'.Knows t) : s.Knows t := ht.of_subperm hqueue hsubs
  refine ⟨?_, ?_, ?_, ?_, ?_⟩
  · intro t ht
    rw [href]
    exact h.fresh t (hknows ht)
  · intro ref hle
    rw [href] at hle
    exact h.unborn ref hle
  · intro t ht
    exact h.start t (hknows ht)
  · intro t ht
    obtain ⟨hpos, hstart⟩ := h.startable t (hqueue.subset ht)
    exact ⟨by omega, hstart.imp_right fun hle => by omega⟩
  · intro sub hsub
    rw [hsubs] at hsub
    exact h.due sub hsub

/-- A new object is submitted: a task of its own, or the successor of the task of
`a`. -/
theorem birth (h : Linked s now parents) {task : MeasurementTask} (parent : Option Submission)
    (href : task.ref = s.nextRef) (hnow : 0 ≤ now)
    (hstart : task.desc.startTime < 2 ^ 63 ∨ task.desc.startTime ≤ now)
    (hparent : ∀ a, parent = some a → task.desc.startTime = a.task.newStartTime) :
    Linked (s.newObject.submitTask task).1 now (Function.update parents s.nextRef parent) := by
  -- the queue with the task in it; a full queue leaves it out, so there is less to show
  have hadded : Linked { s.newObject with taskQueue := PriorityQueue.add s.taskQueue task } now
      (Function.update parents s.nextRef parent) := by
    refine ⟨?_, ?_, ?_, ?_, h.due⟩
    · intro t ht
      show t.ref < s.nextRef + 1
      rcases Service.Knows.of_add ht with rfl | ht
      · omega
      · exact Nat.lt_succ_of_lt (h.fresh t ht)
    · intro ref hle
      change s.nextRef + 1 ≤ ref at hle
      rw [Function.update_of_ne (by omega)]
      exact h.unborn ref (by omega)
    · intro t ht a ha
      rcases Service.Knows.of_add ht with rfl | ht
      · rw [href, Function.update_self] at ha
        exact hparent a ha
      · rw [Function.update_of_ne (Nat.ne_of_lt (h.fresh t ht))] at ha
        exact h.start t ht a ha
    · intro t ht
      rcases PriorityQueue.mem_add.mp ht with rfl | ht
      · exact ⟨hnow, hstart⟩
      · exact h.startable t ht
  exact hadded.shrink (s.newObject.submitTask_subperm task)
    (congrArg Executor.submissions (s.newObject.submitTask_measurementExecutor task))
    (s.newObject.submitTask_nextRef task) (le_refl _)

/-- The dispatch of the head, which is due, keeps it. -/
theorem dispatch (h : Linked s now parents) {task : MeasurementTask} {dueNow submitNow : Int}
    (hnow : now ≤ dueNow) (hsubmit : dueNow ≤ submitNow) (hdue : s.due dueNow = some task) :
    Linked (s.dispatched task submitNow) now parents := by
  obtain ⟨hpeek, hreached⟩ := Service.due_eq_some.mp hdue
  have hmem := PriorityQueue.peek_mem hpeek
  have hsub := PriorityQueue.poll_subperm s.taskQueue
  have hknows {t : MeasurementTask} (ht : (s.dispatched task submitNow).Knows t) : s.Knows t :=
    ht.of_dispatched hpeek
  refine ⟨fun t ht => h.fresh t (hknows ht), h.unborn, fun t ht => h.start t (hknows ht),
    fun t ht => h.startable t (hsub.subset ht), ?_⟩
  intro sub hsubs
  rcases List.mem_append.mp hsubs with hsubs | hsubs
  · exact h.due sub hsubs
  · obtain ⟨hpos, hstart⟩ := h.startable task hmem
    have hle := startTime_le_of_due (by omega) (hstart.imp_right fun hle => by omega) hreached
    rw [List.mem_singleton.mp hsubs]
    show task.desc.startTime ≤ submitNow
    omega

theorem handleMeasurement (h : Linked s now parents) {env : CallEnv}
    (hforward : env.Forward now) :
    Linked (s.handleMeasurement env).service env.armNow
      (parents.after (.handleMeasurement env) s (s.handleMeasurement env).service) := by
  obtain ⟨hdueNow, hsubmitNow, _, _, _, _⟩ := hforward
  cases hsub : s.submission env with
  | none =>
      obtain ⟨hqueue, hsubs, href⟩ := Service.handleMeasurement_of_no_submission hsub
      rw [parents.after_of_nextRef_eq _ href]
      exact h.shrink hqueue hsubs href (by omega)
  | some sub =>
      have hdue := (Service.submission_eq_some.mp hsub).2.2.1
      have hdispatched := h.dispatch hdueNow hsubmitNow hdue
      have hmem := PriorityQueue.peek_mem (Service.due_eq_some.mp hdue).1
      rw [Service.handleMeasurement_of_submission hsub]
      rcases (s.dispatched sub.task env.submitNow).requeue_successor sub.task env with
        hnone | ⟨_, newTask, href, hdesc, hrequeue⟩
      · -- the last of its lineage
        have href : (s.dispatched sub.task env.submitNow).nextRef = s.nextRef := rfl
        rw [hnone, parents.after_of_nextRef_eq _ href]
        exact hdispatched.shrink (List.Subperm.refl _) rfl rfl (by omega)
      · -- the successor is the only new object
        have hnextRef : ((s.dispatched sub.task env.submitNow).newObject.submitTask
            newTask).1.nextRef = s.nextRef + 1 := Service.submitTask_nextRef _ _
        have hstart : newTask.desc.startTime = sub.task.newStartTime := by
          rw [hdesc]
          rfl
        have hborn := hdispatched.birth (some sub) href (h.startable sub.task hmem).1
          (.inl (hstart ▸ sub.task.newStartTime_lt)) (by rintro a ⟨⟩; exact hstart)
        have hupdate : parents.after (.handleMeasurement env) s
            ((s.dispatched sub.task env.submitNow).newObject.submitTask newTask).1 =
              Function.update parents s.nextRef (some sub) := by
          funext ref
          unfold Parents.after
          dsimp only
          rw [hnextRef]
          by_cases heq : ref = s.nextRef
          · rw [heq, Function.update_self, if_pos (by omega), hsub]
          · rw [Function.update_of_ne heq, if_neg (by omega)]
        rw [hrequeue, hupdate]
        exact hborn.shrink (List.Subperm.refl _) rfl rfl (by omega)

/-- A built description is submitted. -/
theorem submitNew (h : Linked s now parents) {d : AcceptedDesc} (hbuilt : d.1.Built now) :
    Linked (s.submitNew d).1 now parents := by
  have hsame : Function.update parents s.nextRef none = parents := by
    rw [← h.unborn s.nextRef (le_refl _)]
    exact Function.update_eq_self _ _
  have hborn : Linked (s.newObject.submitTask ⟨s.nextRef, d.val, AcceptedDesc.accepted d⟩).1 now
      (Function.update parents s.nextRef none) := by
    obtain ⟨hpos, hstart⟩ := hbuilt.startable
    exact h.birth none rfl hpos hstart (by rintro a ⟨⟩)
  rw [hsame] at hborn
  exact hborn

/-- So are the descriptions of a schedule. -/
theorem submitAll (h : Linked s now parents) {ds : List AcceptedDesc}
    (hbuilt : ∀ d ∈ ds, d.1.Built now) :
    Linked (ds.foldl (fun s d => (s.submitNew d).1) s) now parents := by
  induction ds generalizing s with
  | nil => exact h
  | cons d ds ih =>
      simp only [List.forall_mem_cons] at hbuilt
      rw [List.foldl_cons]
      exact ih (h.submitNew hbuilt.1) hbuilt.2

end Linked

/-- The step lemma. -/
theorem step_linked {event : Event} {s s' : World Q × Parents}
    (h : Linked s.1.service s.1.now s.2) (hbuilt : SubmitsBuilt event s)
    (hstep : (spacings Q).step event s = some s') : Linked s'.1.service s'.1.now s'.2 := by
  obtain ⟨w, parents⟩ := s
  obtain ⟨w', hworld, rfl⟩ := Option.map_eq_some_iff.mp hstep
  dsimp only at h ⊢
  cases event with
  | submitTask d =>
      cases hworld
      exact h.submitNew hbuilt
  | getTasksFromServer ds =>
      -- the queue is cleared, then the tasks of the server are submitted
      cases hworld
      have hcleared : Linked w.service.removeAllUnscheduledTasks w.now parents :=
        h.shrink (PriorityQueue.empty_subperm _) rfl rfl (le_refl _)
      exact hcleared.submitAll hbuilt
  | handleMeasurement env =>
      obtain ⟨hforward, rfl⟩ := step_handleMeasurement.mp hworld
      exact h.handleMeasurement hforward
  | wait _ | removeTaskByKey _ | uploadResults _ | finish _ _ | cleanUp =>
      have hshrinks := World.step_shrinks hworld trivial
      exact h.shrink hshrinks.queue hshrinks.submissions hshrinks.nextRef hshrinks.now

theorem reachable_linked {s : World Q × Parents} (h : (spacings Q).ReachableBy SubmitsBuilt s) :
    Linked s.1.service s.1.now s.2 := by
  refine h.invariant (P := fun s => Linked s.1.service s.1.now s.2) ?_ ?_
  · rintro ⟨w, parents⟩ ⟨hinit, hparents⟩
    change w.service = Service.onCreate at hinit
    change parents = _ at hparents
    rw [hinit, hparents]
    exact Linked.onCreate w.now
  · intro event s s' hs hbuilt hstep
    exact step_linked hs hbuilt hstep

/-! ## Dispatches on time -/

/-- A call makes a successor only of a task that recurs. -/
theorem Service.handleMeasurement_recurs {s : Service Q} {env : CallEnv} {sub : Submission}
    (hsub : s.submission env = some sub)
    (hborn : s.nextRef < (s.handleMeasurement env).service.nextRef) : sub.task.Recurs := by
  rw [handleMeasurement_of_submission hsub] at hborn
  rcases (s.dispatched sub.task env.submitNow).requeue_successor sub.task env with
    hnone | ⟨hrecurs, -⟩
  · rw [hnone] at hborn
    exact absurd hborn (Nat.lt_irrefl _)
  · exact hrecurs

/-- Where every dispatch of a task that recurs is on time, none that made a
successor has left a deficit. -/
theorem reachable_onTime {s : World Q × Parents}
    (h : (spacings Q).ReachableBy (fun event s => SubmitsBuilt event s ∧ OnTime event s) s) :
    ∀ ref a, s.2 ref = some a → a.deficit ≤ 0 := by
  refine h.invariant (P := fun s => ∀ ref a, s.2 ref = some a → a.deficit ≤ 0) ?_ ?_
  · rintro ⟨w, parents⟩ ⟨-, hparents⟩ ref a ha
    change parents = _ at hparents
    rw [hparents] at ha
    cases ha
  · rintro event ⟨w, parents⟩ s' hs ⟨-, honTime⟩ hstep ref a ha
    obtain ⟨w', hworld, rfl⟩ := Option.map_eq_some_iff.mp hstep
    cases event with
    | handleMeasurement env =>
        obtain ⟨-, rfl⟩ := step_handleMeasurement.mp hworld
        simp only [Parents.after] at ha
        split at ha
        · rename_i hborn
          exact honTime a ha (Service.handleMeasurement_recurs ha (by omega))
        · exact hs ref a ha
    | _ => exact hs ref a ha

/-- A successor is dispatched an interval later exactly when it is late by what the
dispatch of its predecessor lacks. -/
theorem spacedTo_iff {a b : Submission} (h : b.task.desc.startTime = a.task.newStartTime) :
    a.SpacedTo b ↔ a.deficit ≤ b.delay := by
  unfold Submission.SpacedTo Submission.deficit Submission.delay
  rw [h]
  constructor
  · intro hle
    linarith
  · intro hle
    linarith

/-- In every run in which dispatches of recurring tasks leave no deficit they are
spaced; and in every run a task and its successor are exactly when the delay of
the successor is at least the deficit. -/
theorem spaced_runs :
    (∀ s : World Q × Parents,
      (spacings Q).ReachableBy (fun event s => SubmitsBuilt event s ∧ OnTime event s) s →
        Spaced s) ∧
    ∀ s : World Q × Parents, (spacings Q).ReachableBy SubmitsBuilt s →
      ∀ b ∈ s.1.service.measurementExecutor.submissions, ∀ a, s.2 b.task.ref = some a →
        (a.SpacedTo b ↔ a.deficit ≤ b.delay) := by
  have hstart : ∀ s : World Q × Parents, (spacings Q).ReachableBy SubmitsBuilt s →
      ∀ b ∈ s.1.service.measurementExecutor.submissions, ∀ a, s.2 b.task.ref = some a →
        b.task.desc.startTime = a.task.newStartTime := by
    intro s hs b hb a ha
    exact (reachable_linked hs).start b.task (Or.inr ⟨b, hb, rfl⟩) a ha
  constructor
  · intro s hs b hb a ha
    have hbuilt : (spacings Q).ReachableBy SubmitsBuilt s := hs.mono fun _ _ hboth => hboth.1
    rw [spacedTo_iff (hstart s hbuilt b hb a ha)]
    have hdeficit := reachable_onTime hs _ a ha
    have hdue := (reachable_linked hbuilt).due b hb
    have hdelay : 0 ≤ b.delay := sub_nonneg.mpr (Int.cast_le.mpr hdue)
    exact le_trans hdeficit hdelay
  · intro s hs b hb a ha
    exact spacedTo_iff (hstart s hs b hb a ha)

/-! ## A ping every minute -/

/-- A task is submitted at 0 and handled at two times, where each step meets a
condition. -/
theorem reachable_handledTwice
    {ok : Event → World (SortedQueue MeasurementTask.Le) × Parents → Prop} {d : AcceptedDesc}
    {first second : Int} {s₁ s₂ s₃ : World (SortedQueue MeasurementTask.Le) × Parents}
    (hstep₁ : (spacings _).step (.submitTask d) (World.created 0, fun _ => none) = some s₁)
    (hok₁ : ok (.submitTask d) (World.created 0, fun _ => none))
    (hstep₂ : (spacings _).step (.handleMeasurement (.atClock first false)) s₁ = some s₂)
    (hok₂ : ok (.handleMeasurement (.atClock first false)) s₁)
    (hstep₃ : (spacings _).step (.handleMeasurement (.atClock second false)) s₂ = some s₃)
    (hok₃ : ok (.handleMeasurement (.atClock second false)) s₂) :
    (spacings (SortedQueue MeasurementTask.Le)).ReachableBy ok s₃ := by
  have hinit : (spacings (SortedQueue MeasurementTask.Le)).Init (World.created 0, fun _ => none) :=
    ⟨init_created 0, rfl⟩
  exact (((System.ReachableBy.init hinit).tail hok₁ hstep₁).tail hok₂ hstep₂).tail hok₃ hstep₃

/-- Dispatched at its start time and a minute later. -/
theorem spaced_runs_minutePing :
    ∃ s : World (SortedQueue MeasurementTask.Le) × Parents,
      s.1.service.measurementExecutor.submissions.length = 2 ∧ Spaced s := by
  have hrun : ((spacings (SortedQueue MeasurementTask.Le)).step (.submitTask minutePing)
      (World.created 0, fun _ => none)).any fun s₁ =>
        ((spacings _).step (.handleMeasurement (.atClock 0 false)) s₁).any fun s₂ =>
          ((spacings _).step (.handleMeasurement (.atClock 60000 false)) s₂).any fun s₃ =>
            (∀ sub ∈ s₁.1.service.submission (.atClock 0 false),
              sub.task.Recurs → sub.deficit ≤ 0) ∧
            (∀ sub ∈ s₂.1.service.submission (.atClock 60000 false),
              sub.task.Recurs → sub.deficit ≤ 0) ∧
            s₃.1.service.measurementExecutor.submissions.length = 2 := by
    decide +kernel
  obtain ⟨s₁, hstep₁, hrun⟩ := (Option.any_eq_true _ _).mp hrun
  obtain ⟨s₂, hstep₂, hrun⟩ := (Option.any_eq_true _ _).mp hrun
  obtain ⟨s₃, hstep₃, hrun⟩ := (Option.any_eq_true _ _).mp hrun
  obtain ⟨hontime₁, hontime₂, htwo⟩ := of_decide_eq_true hrun
  have hbuilt : minutePing.1.Built 0 := repeatedPing_built (by norm_num)
  refine ⟨s₃, htwo, spaced_runs.1 s₃ ?_⟩
  exact reachable_handledTwice hstep₁ ⟨hbuilt, trivial⟩ hstep₂ ⟨trivial, hontime₁⟩ hstep₃
    ⟨trivial, hontime₂⟩

/-- The first alarm comes 50 seconds late, and the second, for the next start time,
ten seconds later. -/
theorem not_spaced_lateAlarm :
    ¬ ∀ s : World (SortedQueue MeasurementTask.Le) × Parents,
      (spacings _).ReachableBy SubmitsBuilt s → Spaced s := by
  intro hall
  have hrun : ((spacings (SortedQueue MeasurementTask.Le)).step (.submitTask minutePing)
      (World.created 0, fun _ => none)).any fun s₁ =>
        ((spacings _).step (.handleMeasurement (.atClock 50000 false)) s₁).any fun s₂ =>
          ((spacings _).step (.handleMeasurement (.atClock 60000 false)) s₂).any fun s₃ =>
            ∃ b ∈ s₃.1.service.measurementExecutor.submissions,
              (s₃.2 b.task.ref).any fun a => ¬ a.SpacedTo b := by
    decide +kernel
  obtain ⟨s₁, hstep₁, hrun⟩ := (Option.any_eq_true _ _).mp hrun
  obtain ⟨s₂, hstep₂, hrun⟩ := (Option.any_eq_true _ _).mp hrun
  obtain ⟨s₃, hstep₃, hrun⟩ := (Option.any_eq_true _ _).mp hrun
  obtain ⟨b, hb, hrun⟩ := of_decide_eq_true hrun
  obtain ⟨a, ha, hrun⟩ := (Option.any_eq_true _ _).mp hrun
  have hbuilt : minutePing.1.Built 0 := repeatedPing_built (by norm_num)
  have hspaced := hall s₃ (reachable_handledTwice hstep₁ hbuilt hstep₂ trivial hstep₃ trivial)
  exact of_decide_eq_true hrun (hspaced b hb a ha)

end MobiPerf.Scheduler
