import Mathlib.Algebra.BigOperators.Fin
import MobiPerf.Lib.Refill
import MobiPerf.Scheduler.Concurrent

/-!
# Scheduler.Checkins — two check-ins side by side

`handleCheckin` starts each `CheckinTask` on a thread of its own, and nothing
keeps two of them apart. Each clears the queue and submits the tasks it received
one by one; every operation on the queue is a step, as in `Scheduler.Concurrent`,
and no task is dispatched in between. Which of the two made a task is recorded
with it.

What the two do to the queue is what two writers of `Lib.Refill` do to their
bag: the check-ins are simulated by the writers, whose items are the received
schedules.

* `serial_runs`: the queue ends up with one of the two schedules exactly in the
  runs in which no check-in clears it while the other still has tasks to submit.
-/

namespace MobiPerf.Scheduler

open Lib

variable {Q : Type} [PriorityQueue Q MeasurementTask MeasurementTask.Le]

/-! ## The two check-ins -/

/-- The threads, and by which of the check-ins a task object was made. -/
structure Checkins (Q : Type) where
  threads : Threads Q
  origin : ℕ → Option (Fin 2)

/-- A step of one of the check-ins, which are on threads 0 and 1, or the removal of
a finished task from the pending map. -/
inductive CheckinsLabel where
  | run (i : Fin 2) (io : Io)
  | removePending (task : MeasurementTask)

/-- The schedule a check-in has received and not begun to submit. -/
def Pc.received : Pc → Option (List AcceptedDesc)
  | .clear ds => some ds
  | _ => none

/-- The description the next step makes an object of. -/
def Pc.making : Pc → Option AcceptedDesc
  | .next (d :: _) _ => some d
  | _ => none

/-- The record of the object a step makes. -/
def Checkins.originAfter (s : Checkins Q) (i : Fin 2) : ℕ → Option (Fin 2) :=
  if (s.threads.pc i).making.isSome then
    Function.update s.origin s.threads.service.nextRef (some i)
  else s.origin

/-- The step of a check-in that is under way; a poll would dispatch. -/
def Checkins.runStep (i : Fin 2) (io : Io) (s : Checkins Q) : Option (Checkins Q) :=
  match s.threads.pc i, io with
  | .poll _, _ => none
  | _, .clock _ | _, .consented _ =>
    (s.threads.threadStep i io).map fun threads => ⟨threads, s.originAfter i⟩
  | _, _ => none

def Checkins.step : CheckinsLabel → Checkins Q → Option (Checkins Q)
  | .run i io, s => s.runStep i io
  | .removePending task, s =>
    (Threads.step (.removePending task) s.threads).map fun threads => ⟨threads, s.origin⟩

/-- Two check-ins that have received `schedule 0` and `schedule 1`, with anything
in the queue and fewer than the bound in the pending map. -/
def concurrentCheckins (Q : Type) [PriorityQueue Q MeasurementTask MeasurementTask.Le]
    (schedule : Fin 2 → List AcceptedDesc) : System (Checkins Q) CheckinsLabel where
  Init s := (∀ i : Fin 2, s.threads.pc i = .clear (schedule i)) ∧
    s.threads.service.pendingTasks.size < maxTaskQueueSize
  step := Checkins.step

/-- The tasks of a received schedule, as those check-in `i` made. -/
def tagged (i : Fin 2) (ds : List AcceptedDesc) : List (Option (Fin 2) × MeasurementDesc) :=
  ds.map fun d => (some i, d.1)

/-- What is in the queue, with its origin. -/
def Checkins.contents (s : Checkins Q) : Multiset (Option (Fin 2) × MeasurementDesc) :=
  ((PriorityQueue.toList s.threads.service.taskQueue).map fun t => (s.origin t.ref, t.desc) :
    List _)

/-- Both check-ins are over. -/
def Checkins.Finished (s : Checkins Q) : Prop := ∀ i : Fin 2, s.threads.pc i = .idle

/-- The queue holds the schedule of exactly one check-in, and nothing else. -/
def Checkins.Serial (schedule : Fin 2 → List AcceptedDesc) (s : Checkins Q) : Prop :=
  ∃! i, s.contents = tagged i (schedule i)

/-- The thread has cleared the queue and has tasks left to submit. -/
def Pc.Submitting : Pc → Prop
  | .next rest _ => rest ≠ []
  | .size _ _ _ | .pendingSize _ _ _ | .add _ _ _ => True
  | _ => False

/-- A check-in clears the queue only when the other one has no tasks left to
submit, or has not cleared it yet. -/
def ClearsApart : CheckinsLabel → Checkins Q → Prop
  | .run i _, s =>
    (s.threads.pc i).received.isSome → ∀ j : Fin 2, j ≠ i → ¬ (s.threads.pc j).Submitting
  | .removePending _, _ => True

/-! ## The check-ins as writers -/

/-- How far check-in `i` is, as a writer. -/
def Pc.phase (i : Fin 2) : Pc → Phase (Option (Fin 2) × MeasurementDesc)
  | .clear ds => .waiting (tagged i ds)
  | .next rest _ => .filling (tagged i rest)
  | .size t rest _ | .pendingSize t rest _ | .add t rest _ =>
    .filling ((some i, t.desc) :: tagged i rest)
  | _ => .filling []

/-- The thread has polled a task. -/
def Pc.Dispatching : Pc → Prop
  | .submit _ | .put _ | .clone _ => True
  | _ => False

/-- The check-ins `s` are simulated by the writers `r`: the bag is the contents of
the queue once one of them has cleared it. -/
structure Simulated (s : Checkins Q) (r : Refill (Fin 2) (Option (Fin 2) × MeasurementDesc)) :
    Prop where
  phase : ∀ i : Fin 2, r.phase i = (s.threads.pc i).phase i
  calm : ∀ i : Fin 2, ¬ (s.threads.pc i).Dispatching
  object : ∀ (i : Fin 2) t, (s.threads.pc i).object = some t →
    s.origin t.ref = some i ∧ t.ref < s.threads.service.nextRef
  contents : (∀ i : Fin 2, (s.threads.pc i).received.isSome) ∨
    r.shared = s.contents ∧
      ∀ t ∈ PriorityQueue.toList s.threads.service.taskQueue, t.ref < s.threads.service.nextRef
  pending : s.threads.service.pendingTasks.size < maxTaskQueueSize

/-- A check-in that has received its tasks is about to clear the queue. -/
theorem Pc.eq_clear {pc : Pc} {ds : List AcceptedDesc} (h : pc.received = some ds) :
    pc = .clear ds := by
  cases pc with
  | clear ds' =>
      cases h
      rfl
  | _ => cases h

/-- It is busy while it submits. -/
theorem busy_phase_iff (i : Fin 2) (pc : Pc) : (pc.phase i).Busy ↔ pc.Submitting := by
  cases pc with
  | next rest after =>
      simp only [Pc.phase, Phase.Busy, Pc.Submitting, tagged, ne_eq, List.map_eq_nil_iff]
  | _ => simp [Pc.phase, Phase.Busy, Pc.Submitting]

/-- The other check-in stays where it is. -/
theorem pc_update_fin {pcs : ℕ → Pc} {i j : Fin 2} {pc : Pc} (hj : j ≠ i) :
    Function.update pcs i pc j = pcs j :=
  Function.update_of_ne (fun h => hj (Fin.ext h)) ..

namespace Simulated

variable {s : Checkins Q} {r : Refill (Fin 2) (Option (Fin 2) × MeasurementDesc)} {i : Fin 2}
  {old pc : Pc}

/-- Once a check-in is past its clearing, the bag is what is in the queue. -/
theorem shared_eq (h : Simulated s r) (hpc : s.threads.pc i = old) (hold : old.received = none) :
    r.shared = s.contents ∧
      ∀ t ∈ PriorityQueue.toList s.threads.service.taskQueue,
        t.ref < s.threads.service.nextRef := by
  rcases h.contents with hclear | hshared
  · have hreceived := hclear i
    rw [hpc, hold] at hreceived
    cases hreceived
  · exact hshared

/-- A check-in moves to `pc`, and its writer with it. -/
theorem update {threads : Threads Q} {origin : ℕ → Option (Fin 2)}
    {r' : Refill (Fin 2) (Option (Fin 2) × MeasurementDesc)} (h : Simulated s r)
    (hpc : threads.pc = Function.update s.threads.pc i pc)
    (hphase : r'.phase = Function.update r.phase i (pc.phase i)) (hcalm : ¬ pc.Dispatching)
    (hobject : ∀ t, pc.object = some t →
      origin t.ref = some i ∧ t.ref < threads.service.nextRef)
    (horigin : ∀ ref, ref < s.threads.service.nextRef → origin ref = s.origin ref)
    (hnextRef : s.threads.service.nextRef ≤ threads.service.nextRef)
    (hpending : threads.service.pendingTasks = s.threads.service.pendingTasks)
    (hcontents : r'.shared = Checkins.contents ⟨threads, origin⟩ ∧
      ∀ t ∈ PriorityQueue.toList threads.service.taskQueue, t.ref < threads.service.nextRef) :
    Simulated ⟨threads, origin⟩ r' := by
  refine ⟨?_, ?_, ?_, .inr hcontents, by rw [hpending]; exact h.pending⟩
  · intro j
    dsimp only
    rw [hpc, hphase]
    -- only thread `i` moves, so another one's phase, calm and object are as before
    by_cases hj : j = i
    · subst hj
      rw [Function.update_self, Function.update_self]
    · rw [pc_update_fin hj, Function.update_of_ne hj]
      exact h.phase j
  · intro j
    dsimp only
    rw [hpc]
    by_cases hj : j = i
    · subst hj
      rw [Function.update_self]
      exact hcalm
    · rw [pc_update_fin hj]
      exact h.calm j
  · intro j t ht
    dsimp only at ht ⊢
    rw [hpc] at ht
    by_cases hj : j = i
    · subst hj
      rw [Function.update_self] at ht
      exact hobject t ht
    · -- an object made before is still of the thread that made it
      rw [pc_update_fin hj] at ht
      rcases h.object j t ht with ⟨hmade, href⟩
      exact ⟨(horigin t.ref href).trans hmade, Nat.lt_of_lt_of_le href hnextRef⟩

/-- A check-in moves on, and has as much left to submit. -/
theorem goto (h : Simulated s r) (hpc : s.threads.pc i = old) (hold : old.received = none)
    (hphase : pc.phase i = old.phase i) (hcalm : ¬ pc.Dispatching)
    (hobject : pc.object = none ∨ pc.object = old.object) :
    Simulated ⟨s.threads.goto i pc, s.origin⟩ r := by
  refine h.update rfl ?_ hcalm ?_ (fun _ _ => rfl) (Nat.le_refl _) rfl (h.shared_eq hpc hold)
  · rw [hphase, ← hpc, ← h.phase i, Function.update_eq_self]
  · intro t ht
    rcases hobject with hnone | hsame
    · rw [hnone] at ht
      cases ht
    · exact h.object i t (by rw [hpc, ← hsame, ht])

/-- It makes the object of its next task. -/
theorem next (h : Simulated s r) {d : AcceptedDesc} {rest : List AcceptedDesc} {after : After}
    (hpc : s.threads.pc i = .next (d :: rest) after) :
    Simulated ⟨{ s.threads with
      service := s.threads.service.newObject
      pc := Function.update s.threads.pc i
        (.size ⟨s.threads.service.nextRef, d.val, AcceptedDesc.accepted d⟩ rest after) },
      Function.update s.origin s.threads.service.nextRef (some i)⟩ r := by
  rcases h.shared_eq hpc rfl with ⟨hshared, hrefs⟩
  have horigin : ∀ ref, ref < s.threads.service.nextRef →
      Function.update s.origin s.threads.service.nextRef (some i) ref = s.origin ref :=
    fun ref href => Function.update_of_ne (Nat.ne_of_lt href) ..
  refine h.update rfl ?_ (fun h => h) ?_ horigin (Nat.le_succ _) rfl ⟨?_, ?_⟩
  · have hphase :
        (Pc.size ⟨s.threads.service.nextRef, d.val, AcceptedDesc.accepted d⟩ rest after).phase i =
        r.phase i := by
      rw [h.phase i, hpc]
      rfl
    rw [hphase, Function.update_eq_self]
  · rintro t ⟨⟩
    exact ⟨Function.update_self .., Nat.lt_succ_self _⟩
  · -- the new object is not in the queue, so the origins there are as before
    rw [hshared]
    unfold Checkins.contents
    refine congrArg _ (List.map_congr_left fun t ht => ?_)
    dsimp only
    rw [horigin t.ref (hrefs t ht)]
  · exact fun t ht => Nat.lt_succ_of_lt (hrefs t ht)

/-- The thread clears the queue. -/
theorem clear (h : Simulated s r) (ds : List AcceptedDesc) :
    Simulated ⟨{ s.threads with
      service := s.threads.service.removeAllUnscheduledTasks
      pc := Function.update s.threads.pc i (.next ds .handle) }, s.origin⟩
      ⟨0, Function.update r.phase i (.filling (tagged i ds))⟩ := by
  have hempty : PriorityQueue.toList (PriorityQueue.empty : Q) = [] := PriorityQueue.toList_empty
  refine h.update rfl rfl (fun h => h) ?_ (fun _ _ => rfl) (Nat.le_refl _) rfl ⟨?_, ?_⟩
  · intro t ht
    cases ht
  · unfold Checkins.contents Service.removeAllUnscheduledTasks
    dsimp only
    rw [hempty]
    rfl
  · intro t ht
    unfold Service.removeAllUnscheduledTasks at ht
    dsimp only at ht
    rw [hempty] at ht
    cases ht

/-- The thread adds the task it has in hand. -/
theorem add (h : Simulated s r) {newTask : MeasurementTask} {rest : List AcceptedDesc}
    {after : After} (hpc : s.threads.pc i = .add newTask rest after) :
    Simulated ⟨{ s.threads with
      service := { s.threads.service with
        taskQueue := PriorityQueue.add s.threads.service.taskQueue newTask }
      pc := Function.update s.threads.pc i (.next rest after) }, s.origin⟩
      ⟨(some i, newTask.desc) ::ₘ r.shared,
        Function.update r.phase i (.filling (tagged i rest))⟩ := by
  rcases h.shared_eq hpc rfl with ⟨hshared, hrefs⟩
  rcases h.object i newTask (by rw [hpc]; rfl) with ⟨hmade, href⟩
  refine h.update rfl rfl (fun h => h) ?_ (fun _ _ => rfl) (Nat.le_refl _) rfl ⟨?_, ?_⟩
  · intro t ht
    cases ht
  · have hperm := (PriorityQueue.toList_add s.threads.service.taskQueue newTask).map
      fun t => (s.origin t.ref, t.desc)
    rw [hshared]
    unfold Checkins.contents
    dsimp only
    rw [Multiset.coe_eq_coe.mpr hperm, List.map_cons, hmade]
    rfl
  · intro t ht
    rcases PriorityQueue.mem_add.mp ht with rfl | ht
    · exact href
    · exact hrefs t ht

/-- While a check-in has tasks left to submit, there is room for them. -/
theorem room (h : Simulated s r) {schedule : Fin 2 → List AcceptedDesc}
    (hreach : (Refill.refill fun i => tagged i (schedule i)).Reachable r)
    (hlength : ∀ i, (schedule i).length ≤ maxTaskQueueSize / 2) (hpc : s.threads.pc i = old)
    (hbusy : old.Submitting) :
    PriorityQueue.size s.threads.service.taskQueue < maxTaskQueueSize := by
  have hphase : r.phase i = old.phase i := hpc ▸ h.phase i
  have hleft : (r.phase i).Busy := hphase ▸ (busy_phase_iff i old).mpr hbusy
  have hold : old.received = none := by
    cases old with
    | clear ds => exact absurd hbusy (fun h => h)
    | _ => rfl
  -- what both check-ins still have to submit, with what is queued, is at most the queue's size
  rcases Refill.card_le hreach with hwaiting | hle
  · rw [hwaiting i] at hleft
    exact absurd hleft (fun h => h)
  · have hpos : 1 ≤ (r.phase i).left.length := by
      cases hcase : r.phase i with
      | waiting items =>
          rw [hcase] at hleft
          exact absurd hleft (fun h => h)
      | filling left =>
          rw [hcase] at hleft
          exact List.length_pos_iff.mpr hleft
    -- this thread has one more to submit, so the queue is not full
    have hone : (r.phase i).left.length ≤ ∑ k, (r.phase k).left.length :=
      Finset.single_le_sum (f := fun k => (r.phase k).left.length) (fun _ _ => Nat.zero_le _)
        (Finset.mem_univ i)
    have hcard : r.shared.card = PriorityQueue.size s.threads.service.taskQueue := by
      rw [(h.shared_eq hpc hold).1]
      simp [Checkins.contents, PriorityQueue.size]
    rw [Fin.sum_univ_two (fun i => (tagged i (schedule i)).length)] at hle
    have h0 := hlength 0
    have h1 := hlength 1
    simp only [tagged, List.length_map, maxTaskQueueSize] at hle h0 h1 ⊢
    omega

end Simulated

/-! ## Each step is a step of a writer, or none -/

/-- What the writers do when the check-ins take a step. -/
inductive Matches (schedule : Fin 2 → List AcceptedDesc) (label : CheckinsLabel) (s s' : Checkins Q)
    (r : Refill (Fin 2) (Option (Fin 2) × MeasurementDesc)) : Prop where
  | stutter (h : Simulated s' r)
  | clear (i : Fin 2) (io : Io) (ds : List AcceptedDesc)
      (r' : Refill (Fin 2) (Option (Fin 2) × MeasurementDesc)) (hlabel : label = .run i io)
      (hpc : s.threads.pc i = .clear ds)
      (hstep : (Refill.refill fun i => tagged i (schedule i)).step (.clear i) r = some r')
      (h : Simulated s' r')
  | add (i : Fin 2) (r' : Refill (Fin 2) (Option (Fin 2) × MeasurementDesc))
      (hstep : (Refill.refill fun i => tagged i (schedule i)).step (.add i) r = some r')
      (h : Simulated s' r')

/-- A step of a check-in is one of its thread, which starts no call and polls
nothing. -/
theorem runStep_eq_some {s s' : Checkins Q} {i : Fin 2} {io : Io}
    (h : s.runStep i io = some s') :
    (∀ task, s.threads.pc i ≠ .poll task) ∧
      ((∃ now, io = .clock now) ∨ ∃ userConsented, io = .consented userConsented) ∧
      ∃ threads, s.threads.threadStep i io = some threads ∧ s' = ⟨threads, s.originAfter i⟩ := by
  unfold Checkins.runStep at h
  split at h
  · cases h
  · rename_i now hpoll
    rcases Option.map_eq_some_iff.mp h with ⟨threads, hthreads, rfl⟩
    exact ⟨hpoll, .inl ⟨now, rfl⟩, threads, hthreads, rfl⟩
  · rename_i userConsented hpoll
    rcases Option.map_eq_some_iff.mp h with ⟨threads, hthreads, rfl⟩
    exact ⟨hpoll, .inr ⟨userConsented, rfl⟩, threads, hthreads, rfl⟩
  · cases h

omit [PriorityQueue Q MeasurementTask MeasurementTask.Le] in
/-- A step that makes no object records none. -/
theorem originAfter_of_not_making {s : Checkins Q} {i : Fin 2} {old : Pc}
    (hpc : s.threads.pc i = old) (h : old.making = none) : s.originAfter i = s.origin := by
  simp [Checkins.originAfter, hpc, h]

/-- A check-in that clears the queue does what its writer does. -/
theorem Simulated.runStep_clear {s s' : Checkins Q} {i : Fin 2} {io : Io}
    {r : Refill (Fin 2) (Option (Fin 2) × MeasurementDesc)} (h : Simulated s r)
    (schedule : Fin 2 → List AcceptedDesc) {ds : List AcceptedDesc}
    (hpc : s.threads.pc i = .clear ds) (hstep : s.runStep i io = some s') :
    ∃ r', (Refill.refill fun i => tagged i (schedule i)).step (.clear i) r = some r' ∧
      Simulated s' r' := by
  rcases runStep_eq_some hstep with ⟨-, hio, threads, hthreads, rfl⟩
  have hphase : r.phase i = .waiting (tagged i ds) := by
    rw [h.phase i, hpc]
    rfl
  refine ⟨⟨0, Function.update r.phase i (.filling (tagged i ds))⟩, ?_, ?_⟩
  · simp [Refill.refill, Refill.step, hphase]
  · rw [originAfter_of_not_making hpc rfl]
    simp only [Threads.threadStep, hpc] at hthreads
    rcases hio with ⟨now, rfl⟩ | ⟨userConsented, rfl⟩
    · cases hthreads
      exact h.clear ds
    · cases hthreads

/-- A step of a check-in is a step of its writer, or none. -/
theorem runStep_matches {schedule : Fin 2 → List AcceptedDesc} {s s' : Checkins Q} {i : Fin 2}
    {io : Io} {r : Refill (Fin 2) (Option (Fin 2) × MeasurementDesc)} (h : Simulated s r)
    (hreach : (Refill.refill fun i => tagged i (schedule i)).Reachable r)
    (hlength : ∀ i, (schedule i).length ≤ maxTaskQueueSize / 2)
    (hstep : s.runStep i io = some s') : Matches schedule (.run i io) s s' r := by
  rcases runStep_eq_some hstep with ⟨hpoll, hio, threads, hthreads, rfl⟩
  have hcalm := h.calm i
  -- a walk of the thread, with nothing made and nothing less to submit
  have hwalk : ∀ {old pc : Pc}, s.threads.pc i = old → old.received = none →
      old.making = none → pc.phase i = old.phase i → ¬ pc.Dispatching →
      (pc.object = none ∨ pc.object = old.object) →
      Matches schedule (.run i io) s ⟨s.threads.goto i pc, s.originAfter i⟩ r := by
    intro old pc hpc hreceived hmaking hphase hcalm' hobject
    rw [originAfter_of_not_making hpc hmaking]
    exact .stutter (h.goto hpc hreceived hphase hcalm' hobject)
  unfold Threads.threadStep at hthreads
  split at hthreads
  case h_1 =>
    -- `handleMeasurement` is called
    rcases hio with ⟨_, hio⟩ | ⟨_, hio⟩ <;> cases hio
  case h_2 =>
    -- a check-in has received its schedule
    rcases hio with ⟨_, hio⟩ | ⟨_, hio⟩ <;> cases hio
  case h_3 =>
    -- `submitTask` is called
    rcases hio with ⟨_, hio⟩ | ⟨_, hio⟩ <;> cases hio
  case h_4 userConsented hpc =>
    -- the test of the consent
    cases hthreads
    cases userConsented <;> exact hwalk hpc rfl rfl rfl (fun h => h) (.inl rfl)
  case h_5 hpc =>
    -- `peek`
    cases hthreads
    exact hwalk hpc rfl rfl rfl (fun h => h) (.inl rfl)
  case h_6 hpc =>
    -- the queue was empty
    cases hthreads
    exact hwalk hpc rfl rfl rfl (fun h => h) (.inl rfl)
  case h_7 task now hpc =>
    -- the test whether the head is due
    cases hthreads
    refine hwalk hpc rfl rfl ?_ ?_ (.inl ?_)
    · split <;> rfl
    · split <;> exact fun h => h
    · split <;> rfl
  case h_8 task now hpc =>
    -- `poll`
    exact absurd hpc (hpoll task)
  case h_9 hpc =>
    -- `submit`, which throws after a shutdown
    rw [hpc] at hcalm
    exact absurd trivial hcalm
  case h_10 hpc =>
    -- `put` into the pending map
    rw [hpc] at hcalm
    exact absurd trivial hcalm
  case h_11 hpc =>
    -- `clone`, if the task recurs
    rw [hpc] at hcalm
    exact absurd trivial hcalm
  case h_12 ds now hpc =>
    -- `removeAllUnscheduledTasks`
    rcases h.runStep_clear schedule hpc hstep with ⟨r', hclear, h'⟩
    exact .clear i _ ds r' rfl hpc hclear h'
  case h_13 after now hpc =>
    -- all tasks are submitted
    cases hthreads
    cases after <;> exact hwalk hpc rfl rfl rfl (fun h => h) (.inl rfl)
  case h_14 d rest after now hpc =>
    -- the next task to submit
    cases hthreads
    have horigin : s.originAfter i =
        Function.update s.origin s.threads.service.nextRef (some i) := by
      simp [Checkins.originAfter, hpc, Pc.making]
    rw [horigin]
    exact .stutter (h.next hpc)
  case h_15 newTask rest after now hpc =>
    -- the first test of `submitTask`
    have hroom := h.room hreach hlength hpc trivial
    split at hthreads
    · cases hthreads
      exact hwalk hpc rfl rfl rfl (fun h => h) (.inr rfl)
    · rw [if_neg (Nat.not_le_of_lt hroom)] at hthreads
      cases hthreads
      exact hwalk hpc rfl rfl rfl (fun h => h) (.inr rfl)
  case h_16 newTask rest after now hpc =>
    -- its second test
    rw [if_neg (Nat.not_le_of_lt h.pending)] at hthreads
    cases hthreads
    exact hwalk hpc rfl rfl rfl (fun h => h) (.inr rfl)
  case h_17 newTask rest after now hpc =>
    -- `add`
    cases hthreads
    rw [originAfter_of_not_making hpc rfl]
    have hphase : r.phase i = .filling ((some i, newTask.desc) :: tagged i rest) := by
      rw [h.phase i, hpc]
      rfl
    refine .add i _ ?_ (h.add hpc)
    simp [Refill.refill, Refill.step, hphase]
  case h_18 hpc =>
    -- the head for the alarm
    split at hthreads <;> cases hthreads <;>
      exact hwalk hpc rfl rfl rfl (fun h => h) (.inl rfl)
  case h_19 hpc =>
    -- the alarm is set
    cases hthreads
    exact hwalk hpc rfl rfl rfl (fun h => h) (.inl rfl)
  case h_20 => cases hthreads

theorem step_matches {schedule : Fin 2 → List AcceptedDesc} {label : CheckinsLabel}
    {s s' : Checkins Q} {r : Refill (Fin 2) (Option (Fin 2) × MeasurementDesc)}
    (h : Simulated s r) (hreach : (Refill.refill fun i => tagged i (schedule i)).Reachable r)
    (hlength : ∀ i, (schedule i).length ≤ maxTaskQueueSize / 2)
    (hstep : (concurrentCheckins Q schedule).step label s = some s') :
    Matches schedule label s s' r := by
  cases label with
  | run i io => exact runStep_matches h hreach hlength hstep
  | removePending task =>
      cases hstep
      refine .stutter ⟨h.phase, h.calm, h.object, h.contents, ?_⟩
      have hpending := h.pending
      unfold PendingTasks.size at hpending ⊢
      dsimp only
      rw [AList.keys_erase]
      exact Nat.lt_of_le_of_lt (List.length_erase_le ..) hpending

/-- Where the check-ins clear apart, so do the writers. -/
theorem Matches.apart {schedule : Fin 2 → List AcceptedDesc} {label : CheckinsLabel}
    {s s' : Checkins Q} {r : Refill (Fin 2) (Option (Fin 2) × MeasurementDesc)}
    (h : Matches schedule label s s' r) (hs : Simulated s r) (hok : ClearsApart label s) :
    ∃ r', (Refill.refill fun i => tagged i (schedule i)).Steps Refill.ClearsApart r r' ∧
      Simulated s' r' := by
  cases h with
  | stutter h => exact ⟨r, Relation.ReflTransGen.refl, h⟩
  | clear i io ds r' hlabel hpc hstep h =>
      refine ⟨r', System.Steps.single (.clear i) ?_ hstep, h⟩
      intro j hj hbusy
      subst hlabel
      have hreceived : (s.threads.pc i).received.isSome := by
        rw [hpc]
        rfl
      rw [hs.phase j] at hbusy
      exact hok hreceived j hj ((busy_phase_iff j _).mp hbusy)
  | add i r' hstep h => exact ⟨r', System.Steps.single (.add i) trivial hstep, h⟩

/-- A step is matched by at most one. -/
theorem Matches.steps {schedule : Fin 2 → List AcceptedDesc} {label : CheckinsLabel}
    {s s' : Checkins Q} {r : Refill (Fin 2) (Option (Fin 2) × MeasurementDesc)}
    (h : Matches schedule label s s' r) :
    ∃ r', (Refill.refill fun i => tagged i (schedule i)).Steps (fun _ _ => True) r r' ∧
      Simulated s' r' := by
  cases h with
  | stutter h => exact ⟨r, Relation.ReflTransGen.refl, h⟩
  | clear i io ds r' hlabel hpc hstep h =>
      exact ⟨r', System.Steps.single (.clear i) trivial hstep, h⟩
  | add i r' hstep h => exact ⟨r', System.Steps.single (.add i) trivial hstep, h⟩

/-- At the start neither has written. -/
theorem init_simulated {schedule : Fin 2 → List AcceptedDesc} {s : Checkins Q}
    (h : (concurrentCheckins Q schedule).Init s) :
    ∃ r, (Refill.refill fun i => tagged i (schedule i)).Init r ∧ Simulated s r := by
  refine ⟨⟨0, fun i => .waiting (tagged i (schedule i))⟩, fun _ => rfl, ?_, ?_, ?_, .inl ?_, h.2⟩
  · intro i
    rw [h.1 i]
    rfl
  · intro i
    rw [h.1 i]
    exact fun h => h
  · intro i t ht
    rw [h.1 i] at ht
    cases ht
  · intro i
    rw [h.1 i]
    rfl

/-! ## Runs -/

/-- A task of a received schedule is one of the check-in that received it. -/
theorem origin_of_mem_tagged {i : Fin 2} {ds : List AcceptedDesc}
    {x : Option (Fin 2) × MeasurementDesc} (h : x ∈ tagged i ds) : x.1 = some i := by
  rcases List.mem_map.mp h with ⟨d, -, rfl⟩
  rfl

/-- When both check-ins are done so are the writers, with the queue's contents. -/
theorem Simulated.finished {s : Checkins Q}
    {r : Refill (Fin 2) (Option (Fin 2) × MeasurementDesc)} (h : Simulated s r)
    (hfinished : s.Finished) : r.Finished ∧ r.shared = s.contents := by
  constructor
  · intro i
    rw [h.phase i, hfinished i]
    rfl
  · exact (h.shared_eq (hfinished 0) rfl).1

omit [PriorityQueue Q MeasurementTask MeasurementTask.Le] in
/-- A schedule that is not empty has a task, which tells it from the other. -/
theorem exists_mem_tagged {schedule : Fin 2 → List AcceptedDesc} {i : Fin 2}
    (h : 1 ≤ (schedule i).length) : ∃ x, x ∈ tagged i (schedule i) := by
  rcases List.exists_mem_of_length_pos h with ⟨d, hd⟩
  exact ⟨(some i, d.1), List.mem_map.mpr ⟨d, hd, rfl⟩⟩

/-- A queue with the tasks of one check-in is serial. -/
theorem serial_of_contents {schedule : Fin 2 → List AcceptedDesc} {s : Checkins Q} {i : Fin 2}
    (hlength : 1 ≤ (schedule i).length) (h : s.contents = tagged i (schedule i)) :
    s.Serial schedule := by
  refine ⟨i, h, ?_⟩
  intro j hj
  rcases exists_mem_tagged hlength with ⟨x, hx⟩
  have hmem : x ∈ s.contents := h ▸ hx
  rw [hj] at hmem
  have hxj := origin_of_mem_tagged hmem
  exact Option.some.inj (hxj.symm.trans (origin_of_mem_tagged hx))

/-- One with tasks of both is not. -/
theorem not_serial_of_mixed {schedule : Fin 2 → List AcceptedDesc} {s : Checkins Q} {i j : Fin 2}
    (hij : j ≠ i) (h : ∀ k, ∃ x ∈ s.contents, x ∈ tagged k (schedule k)) :
    ¬ s.Serial schedule := by
  rintro ⟨k, hk, -⟩
  rcases h i with ⟨x, hx, hxi⟩
  rcases h j with ⟨y, hy, hyj⟩
  rw [hk] at hx hy
  have hki := (origin_of_mem_tagged hxi).symm.trans (origin_of_mem_tagged hx)
  have hkj := (origin_of_mem_tagged hyj).symm.trans (origin_of_mem_tagged hy)
  exact hij (Option.some.inj (hkj.trans hki.symm))

/-- A check-in that clears the queue while the other is submitting leaves the
tasks of both in it. -/
theorem mixed_of_not_apart {schedule : Fin 2 → List AcceptedDesc} {i j : Fin 2} {io : Io}
    {ds : List AcceptedDesc} {s₁ s₂ s₃ : Checkins Q}
    (hlength : ∀ i, 1 ≤ (schedule i).length ∧ (schedule i).length ≤ maxTaskQueueSize / 2)
    (hreach : (concurrentCheckins Q schedule).Reachable s₁) (hpc : s₁.threads.pc i = .clear ds)
    (hj : j ≠ i) (hsubmitting : (s₁.threads.pc j).Submitting) (hstep : s₁.runStep i io = some s₂)
    (hsteps : (concurrentCheckins Q schedule).Steps (fun _ _ => True) s₂ s₃)
    (hfinished : s₃.Finished) : ∀ k, ∃ x ∈ s₃.contents, x ∈ tagged k (schedule k) := by
  have hsimulate : ∀ label (s s' : Checkins Q)
      (r : Refill (Fin 2) (Option (Fin 2) × MeasurementDesc)),
      (Refill.refill fun i => tagged i (schedule i)).Reachable r → Simulated s r → True →
        (concurrentCheckins Q schedule).step label s = some s' →
          ∃ r', (Refill.refill fun i => tagged i (schedule i)).Steps (fun _ _ => True) r r' ∧
            Simulated s' r' :=
    fun label s s' r hr hs _ hstep =>
      (step_matches hs hr (fun i => (hlength i).2) hstep).steps
  -- the writers up to the clearing, at it, and from there to the end
  rcases hreach.simulated (fun _ => init_simulated) hsimulate with ⟨r₁, hr₁, hs₁⟩
  rcases hs₁.runStep_clear schedule hpc hstep with ⟨r₂, hclear, hs₂⟩
  have hr₂ := hr₁.tail trivial hclear
  rcases hsteps.simulated hsimulate hr₂ hs₂ with ⟨r₃, hr₃, hs₃⟩
  rcases hs₃.finished hfinished with ⟨hend, hcontents⟩
  have honly : ∀ k : Fin 2, k = i ∨ k = j := by
    intro k
    omega
  have hbusy : (r₁.phase j).Busy := by
    rw [hs₁.phase j]
    exact (busy_phase_iff j _).mpr hsubmitting
  have hitems : tagged i (schedule i) ≠ [] := by
    intro hnil
    have hpos := (hlength i).1
    rw [List.map_eq_nil_iff.mp hnil] at hpos
    cases hpos
  rw [← hcontents]
  exact Refill.shared_mixed honly hr₁ hbusy hitems hclear hr₃ hend

/-- Two check-ins that received from one task to half a queue each leave the tasks
of exactly one of them in the queue, if neither clears it while the other still
has tasks to submit; and if one does, they never do. -/
theorem serial_runs (schedule : Fin 2 → List AcceptedDesc)
    (hlength : ∀ i, 1 ≤ (schedule i).length ∧ (schedule i).length ≤ maxTaskQueueSize / 2) :
    (∀ s : Checkins Q, (concurrentCheckins Q schedule).ReachableBy ClearsApart s → s.Finished →
      s.Serial schedule) ∧
    ∀ label (s₁ s₂ s₃ : Checkins Q), (concurrentCheckins Q schedule).Reachable s₁ →
      ¬ ClearsApart label s₁ → (concurrentCheckins Q schedule).step label s₁ = some s₂ →
        (concurrentCheckins Q schedule).Steps (fun _ _ => True) s₂ s₃ → s₃.Finished →
          ¬ s₃.Serial schedule := by
  constructor
  · intro s hreach hfinished
    have hsimulated := hreach.simulated (N := Refill.refill fun i => tagged i (schedule i))
      (R := Simulated) (fun _ => init_simulated) fun label s s' r hr hs hok hstep =>
        (step_matches hs hr.reachable (fun i => (hlength i).2) hstep).apart hs hok
    rcases hsimulated with ⟨r, hr, hs⟩
    rcases hs.finished hfinished with ⟨hend, hcontents⟩
    rcases Refill.shared_eq_items hr hend with ⟨i, hi⟩
    exact serial_of_contents (hlength i).1 (hcontents.symm.trans hi)
  · intro label s₁ s₂ s₃ hreach hapart hstep hsteps hfinished
    cases label with
    | removePending task => exact absurd trivial hapart
    | run i io =>
        simp only [ClearsApart, Classical.not_imp, not_forall, not_not] at hapart
        rcases hapart with ⟨hreceived, j, hj, hsubmitting⟩
        rcases Option.isSome_iff_exists.mp hreceived with ⟨ds, hds⟩
        have hpc := Pc.eq_clear hds
        exact not_serial_of_mixed hj
          (mixed_of_not_apart hlength hreach hpc hj hsubmitting hstep hsteps hfinished)

/-! ## Executed runs -/

instance : (pc : Pc) → Decidable pc.Submitting
  | .next rest _ => decidable_of_iff (rest.isEmpty = false) (by simp [Pc.Submitting])
  | .size _ _ _ | .pendingSize _ _ _ | .add _ _ _ => isTrue trivial
  | .idle | .consent | .peek | .test _ | .poll _ | .submit _ | .put _ | .clone _ | .clear _
  | .peekNext | .arm _ => isFalse fun h => h

instance (label : CheckinsLabel) (s : Checkins Q) : Decidable (ClearsApart label s) :=
  match label with
  | .run _ _ => inferInstanceAs (Decidable (_ → _))
  | .removePending _ => isTrue trivial

/-- The thread has no call under way. -/
def Pc.isIdle : Pc → Bool
  | .idle => true
  | _ => false

/-- A check-in that is idle is at its start. -/
theorem Pc.eq_idle {pc : Pc} (h : pc.isIdle = true) : pc = .idle := by
  cases pc with
  | idle => rfl
  | _ => cases h

/-- Each check-in has received one task that is not due yet. -/
def laterPings (i : Fin 2) : List AcceptedDesc :=
  [⟨pingDescOf i 1000 2000 1, pingDescOf_accepted i 1000 2000 1⟩]

def Checkins.received : Checkins (SortedQueue MeasurementTask.Le) where
  threads := { Threads.created with
    pc := fun i => if i = 0 then .clear (laterPings 0) else .clear (laterPings 1) }
  origin _ := none

/-- The run begins with both answers of the server. -/
theorem Checkins.received_init :
    (concurrentCheckins (SortedQueue MeasurementTask.Le) laterPings).Init Checkins.received := by
  exact ⟨Fin.forall_fin_two.mpr ⟨rfl, rfl⟩, by decide⟩

/-- From the clearing of the queue to the task in it. -/
def fillSteps (i : Fin 2) : List CheckinsLabel :=
  List.replicate 5 (.run i (.clock 0))

/-- What a check-in does when it has submitted its task: the call of
`handleMeasurement`, which finds nothing due and sets the alarm. -/
def handleSteps (i : Fin 2) : List CheckinsLabel :=
  [.run i (.clock 0), .run i (.consented true)] ++ List.replicate 4 (.run i (.clock 0))

theorem serial_runs_oneAfterTheOther :
    ∃ s : Checkins (SortedQueue MeasurementTask.Le),
      (concurrentCheckins _ laterPings).ReachableBy ClearsApart s ∧ s.Finished ∧
        s.Serial laterPings := by
  have hrun : ((concurrentCheckins (SortedQueue MeasurementTask.Le) laterPings).runBy ClearsApart
      (fillSteps 0 ++ handleSteps 0 ++ fillSteps 1 ++ handleSteps 1) Checkins.received).any
      fun s => (s.threads.pc 0).isIdle = true ∧ (s.threads.pc 1).isIdle = true := by
    decide +kernel
  rcases (Option.any_eq_true _ _).mp hrun with ⟨s, hsteps, hs⟩
  rcases of_decide_eq_true hs with ⟨h0, h1⟩
  have hreach : (concurrentCheckins _ laterPings).ReachableBy ClearsApart s :=
    (System.ReachableBy.init Checkins.received_init).steps (System.steps_of_runBy hsteps)
  have hfinished : s.Finished := Fin.forall_fin_two.mpr ⟨Pc.eq_idle h0, Pc.eq_idle h1⟩
  exact ⟨s, hreach, hfinished, (serial_runs laterPings (by decide)).1 s hreach hfinished⟩

/-- Both clear the queue before the first of them submits its task: the queue
ends up with the tasks of both. -/
theorem not_serial_bothClearFirst :
    ∃ s : Checkins (SortedQueue MeasurementTask.Le),
      (concurrentCheckins _ laterPings).Reachable s ∧ s.Finished ∧ ¬ s.Serial laterPings := by
  have hrun : ((concurrentCheckins (SortedQueue MeasurementTask.Le) laterPings).run
      ((fillSteps 0).take 1 ++ (fillSteps 1).take 1 ++ (fillSteps 0).drop 1 ++
        (fillSteps 1).drop 1 ++ handleSteps 0 ++ handleSteps 1) Checkins.received).any
      fun s => (s.threads.pc 0).isIdle = true ∧ (s.threads.pc 1).isIdle = true ∧
        (PriorityQueue.toList s.threads.service.taskQueue).length = 2 := by
    decide +kernel
  rcases (Option.any_eq_true _ _).mp hrun with ⟨s, hsteps, hs⟩
  rcases of_decide_eq_true hs with ⟨h0, h1, htwo⟩
  have hfinished : s.Finished := Fin.forall_fin_two.mpr ⟨Pc.eq_idle h0, Pc.eq_idle h1⟩
  refine ⟨s, System.reachable_of_run Checkins.received_init hsteps, hfinished, ?_⟩
  rintro ⟨i, hi, -⟩
  -- each schedule has one task
  have hcard := congrArg Multiset.card hi
  simp [Checkins.contents, htwo, tagged, laterPings] at hcard

end MobiPerf.Scheduler
