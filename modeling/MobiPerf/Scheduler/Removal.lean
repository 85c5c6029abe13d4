import MobiPerf.Scheduler.Run

/-!
# Scheduler.Removal — `removeTaskByKey` and tasks without a key

The tasks a server schedules have keys; those the user interface creates have
none. `removeTaskByKey` walks the queue in its iteration order and asks the key
of each task whether it is the one wanted, so a task without a key ends the walk
with an exception unless a match comes before it.

* `removesByKey_iff`: the call removes one task with the key, or finds that there
  is none, exactly when every task on the way to the first match has a key.
-/

namespace MobiPerf.Scheduler

open Lib

variable {Q : Type} [PriorityQueue Q MeasurementTask MeasurementTask.Le]

/-- What is wanted of a removal: one task with the key leaves the queue and the
answer is true, or there is none, nothing changes and the answer is false. -/
def RemovesByKey (s : Service Q) (taskKey : String) : Prop :=
  if ∃ t ∈ PriorityQueue.toList s.taskQueue, t.desc.key = some taskKey then
    ∃ t taskQueue, t.desc.key = some taskKey ∧
      (PriorityQueue.toList s.taskQueue).Perm (t :: PriorityQueue.toList taskQueue) ∧
      s.removeTaskByKey taskKey = ({ s with taskQueue }, .ok true)
  else s.removeTaskByKey taskKey = (s, .ok false)

/-- Every task on the way to the first one with `taskKey`, or to the end of the
queue, has a key. -/
def KeyedBefore (s : Service Q) (taskKey : String) : Prop :=
  ∀ t ∈ (PriorityQueue.toList s.taskQueue).takeWhile (fun t => t.desc.key ≠ some taskKey),
    t.desc.key ≠ none

instance (s : Service Q) (taskKey : String) : Decidable (KeyedBefore s taskKey) :=
  inferInstanceAs (Decidable (∀ t ∈ _, _))

/-! ## The walk -/

/-- Where the walk stops at a task with a key, or nowhere, no task without one
came before. -/
theorem keyed_takeWhile_iff (tasks : List MeasurementTask) (taskKey : String) :
    (∀ t ∈ tasks.takeWhile (fun t => t.desc.key ≠ some taskKey), t.desc.key ≠ none) ↔
      ∀ t, tasks.find? (fun t => t.desc.key = none ∨ t.desc.key = some taskKey) = some t →
        t.desc.key ≠ none := by
  induction tasks with
  | nil => simp
  | cons task tasks ih =>
      rw [List.takeWhile_cons, List.find?_cons]
      by_cases hkey : task.desc.key = some taskKey
      · simp [hkey]
      · by_cases hnone : task.desc.key = none
        · simp [hnone]
        · simpa [hkey, hnone] using ih

/-- The task at which such a walk stops is the first with the key. -/
theorem find_of_keyed {tasks : List MeasurementTask} {taskKey : String} {t : MeasurementTask}
    (h : tasks.find? (fun t => t.desc.key = none ∨ t.desc.key = some taskKey) = some t)
    (hkeyed : t.desc.key ≠ none) : t.desc.key = some taskKey ∧ t ∈ tasks := by
  have hfound := List.find?_some h
  refine ⟨?_, List.mem_of_find?_eq_some h⟩
  exact (of_decide_eq_true hfound).resolve_left hkeyed

/-- Taking out the first task that passes a test takes out one that does. -/
theorem removeFirst_perm {q : Q} {p : MeasurementTask → Bool} {u : MeasurementTask}
    (hu : u ∈ PriorityQueue.toList q) (hp : p u) :
    ∃ t, p t ∧
      (PriorityQueue.toList q).Perm
        (t :: PriorityQueue.toList (PriorityQueue.removeFirst q p)) := by
  obtain ⟨t, before, after, -, ht, hq, herase⟩ := List.exists_of_eraseP hu hp
  have hrest := PriorityQueue.toList_removeFirst q p
  rw [herase] at hrest
  refine ⟨t, ht, ?_⟩
  calc PriorityQueue.toList q
      _ = before ++ t :: after := hq
      List.Perm _ (t :: (before ++ after)) := List.perm_middle
      List.Perm _ _ := hrest.symm.cons t

/-! ## The call -/

theorem removesByKey_of_keyed {s : Service Q} {taskKey : String} (h : KeyedBefore s taskKey) :
    RemovesByKey s taskKey := by
  have hstop := (keyed_takeWhile_iff _ taskKey).mp h
  unfold RemovesByKey Service.removeTaskByKey
  split
  · rename_i hsome
    rcases hsome with ⟨u, hu, hkey⟩
    obtain ⟨t, ht, hperm⟩ := removeFirst_perm
      (p := fun t => decide (t.desc.key = some taskKey)) hu (decide_eq_true hkey)
    cases hfind : (PriorityQueue.toList s.taskQueue).find?
        (fun t => t.desc.key = none ∨ t.desc.key = some taskKey) with
    | none =>
        -- the walk does not pass a task with the key
        have hpass := List.find?_eq_none.mp hfind u hu
        simp [hkey] at hpass
    | some v =>
        have hv := hstop v hfind
        refine ⟨t, _, of_decide_eq_true ht, hperm, ?_⟩
        simp [hv]
  · rename_i hnone
    cases hfind : (PriorityQueue.toList s.taskQueue).find?
        (fun t => t.desc.key = none ∨ t.desc.key = some taskKey) with
    | none => rfl
    | some v =>
        have hv := find_of_keyed hfind (hstop v hfind)
        exact absurd ⟨v, hv.2, hv.1⟩ hnone

theorem not_removesByKey_of_throws {s : Service Q} {taskKey : String}
    (hthrows : (s.removeTaskByKey taskKey).2 = .error .nullPointer) : ¬ RemovesByKey s taskKey := by
  intro hremoves
  unfold RemovesByKey at hremoves
  split at hremoves
  · rcases hremoves with ⟨_, _, -, -, heq⟩
    rw [heq] at hthrows
    cases hthrows
  · rw [hremoves] at hthrows
    cases hthrows

/-- A removal does what is wanted exactly when no task without a key comes
before the first one with the key. -/
theorem removesByKey_iff (s : Service Q) (taskKey : String) :
    RemovesByKey s taskKey ↔ KeyedBefore s taskKey := by
  refine ⟨?_, removesByKey_of_keyed⟩
  intro hremoves
  apply (keyed_takeWhile_iff _ taskKey).mpr
  intro v hfind hnone
  -- the call ends in the exception
  have hthrows : (s.removeTaskByKey taskKey).2 = .error .nullPointer := by
    unfold Service.removeTaskByKey
    rw [hfind]
    simp [hnone]
  exact not_removesByKey_of_throws hthrows hremoves

/-- A ping of the user interface, which gives it no key. -/
def keylessPing : AcceptedDesc :=
  ⟨{ pingDescOf userPriority 0 90000 1 with key := none },
    pingDescOf_accepted userPriority 0 90000 1⟩

/-- With a user's ping at the head, the server's task behind it is not removed. -/
theorem not_removesByKey_keylessHead :
    ¬ ∀ w : World (SortedQueue MeasurementTask.Le), (scheduler _).Reachable w →
      ∀ taskKey, RemovesByKey w.service taskKey := by
  intro hall
  have hrun : ((scheduler (SortedQueue MeasurementTask.Le)).run
      [.getTasksFromServer [⟨pingDescOf 1 0 90000 1, pingDescOf_accepted 1 0 90000 1⟩],
        .submitTask keylessPing] (World.created 0)).any fun w =>
        (w.service.removeTaskByKey "ping").2 = .error .nullPointer := by
    decide +kernel
  rcases (Option.any_eq_true _ _).mp hrun with ⟨w, hsteps, hany⟩
  have hthrows := of_decide_eq_true hany
  have hremoves := hall w (System.reachable_of_run (init_created 0) hsteps) "ping"
  exact not_removesByKey_of_throws hthrows hremoves

end MobiPerf.Scheduler
