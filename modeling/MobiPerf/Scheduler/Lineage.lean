import Mathlib.Tactic.Ring
import MobiPerf.Lib.Fallible
import MobiPerf.Scheduler.Deadline
import MobiPerf.Scheduler.Dispatch

/-!
# Scheduler.Lineage — a submitted task and its successors

Beside the service stands where each task object comes from: the task that was
submitted, how many successors lie between, and the description of its
predecessor. No code reads it.

`Lineage` is what holds of a task and its successors: together they are
dispatched no more often than the count says, the k-th starts k intervals after
the first and before its end time, and everything else is inherited. What a
lineage may still cost is bounded by one quantity, the dispatches so far and the
counts of what is queued, and no step adds to it (`Traced`).

The start time of a successor is a sum of `long`s. Where it wraps around, the
successor starts before its predecessor; runs in which no such sum wraps have
the property (`lineage_of_reachable`), others need not
(`not_lineage_longInterval`).
-/

namespace MobiPerf.Scheduler

open Lib

/-! ## Origins -/

/-- Where a task object comes from: the identity and the description of the task
that was submitted, the number of successors from there to this one, and the
description of the predecessor. -/
structure Origin where
  root : ℕ
  desc : MeasurementDesc
  generation : ℕ
  predecessor : Option MeasurementDesc
deriving DecidableEq

/-- A task that is submitted is its own root. -/
def Origin.submitted (ref : ℕ) (d : MeasurementDesc) : Origin := ⟨ref, d, 0, none⟩

/-- The successor of a task with this origin. -/
def Origin.next (o : Origin) (predecessor : MeasurementDesc) : Origin :=
  ⟨o.root, o.desc, o.generation + 1, some predecessor⟩

/-- The origins of the objects made so far, by identity. -/
abbrev Origins := ℕ → Option Origin

/-- The origin of the object `ref` that a step makes. -/
def born {Q : Type} [PriorityQueue Q MeasurementTask MeasurementTask.Le] (event : Event)
    (s : Service Q) (origins : Origins) (ref : ℕ) : Option Origin :=
  match event with
  | .submitTask d => some (.submitted ref d.1)
  | .getTasksFromServer ds => ds[ref - s.nextRef]?.map fun d => .submitted ref d.1
  | .handleMeasurement env =>
    (s.submission env).bind fun sub => (origins sub.task.ref).map (·.next sub.task.desc)
  | _ => none

/-- The origins after the objects from `first` to before `last` have been made. -/
def Origins.extend (origins : Origins) (first last : ℕ) (new : ℕ → Option Origin) : Origins :=
  fun ref => if first ≤ ref ∧ ref < last then new ref else origins ref

variable {Q : Type} [PriorityQueue Q MeasurementTask MeasurementTask.Le]

/-- The runs of the service with the origins beside it. -/
def lineages (Q : Type) [PriorityQueue Q MeasurementTask MeasurementTask.Le] :
    System (World Q × Origins) Event where
  Init s := (scheduler Q).Init s.1 ∧ s.2 = fun _ => none
  step event s := (World.step event s.1).map fun w =>
    (w, s.2.extend s.1.service.nextRef w.service.nextRef (born event s.1.service s.2))

/-- Every run of the service is one with origins. -/
theorem lineages_of_reachable {w : World Q} (h : (scheduler Q).Reachable w) :
    ∃ origins, (lineages Q).Reachable (w, origins) := by
  refine h.invariant (P := fun w => ∃ origins, (lineages Q).Reachable (w, origins)) ?_ ?_
  · intro w hinit
    exact ⟨fun _ => none, System.ReachableBy.init ⟨hinit, rfl⟩⟩
  · rintro event w w' ⟨origins, hw⟩ hstep
    have hnext : (lineages Q).step event (w, origins) = some (w',
        origins.extend w.service.nextRef w'.service.nextRef (born event w.service origins)) := by
      show (World.step event w).map _ = _
      rw [show World.step event w = some w' from hstep]
      rfl
    exact ⟨_, System.ReachableBy.tail hw trivial hnext⟩

/-! ## The property -/

/-- What a task has from the one that was submitted: all but its count and its
times. It starts `generation` intervals later; a successor starts before its end
time, which is no later than its predecessor's. -/
structure Descends (d : MeasurementDesc) (o : Origin) : Prop where
  key : d.key = o.desc.key
  type : d.type = o.desc.type
  priority : d.priority = o.desc.priority
  intervalSec : d.intervalSec = o.desc.intervalSec
  parameters : d.parameters = o.desc.parameters
  startTime : d.startTime = o.desc.startTime + o.generation * (⌊o.desc.intervalSec⌋ * 1000)
  successor : 0 < o.generation → ∃ p, o.predecessor = some p ∧
    d.startTime < d.endTime ∧ d.endTime ≤ p.endTime

/-- The task is queued or was dispatched. -/
def Service.Knows (s : Service Q) (task : MeasurementTask) : Prop :=
  task ∈ PriorityQueue.toList s.taskQueue ∨
    ∃ sub ∈ s.measurementExecutor.submissions, sub.task = task

/-- The origin has this root. -/
def ofRoot (origins : Origins) (root ref : ℕ) : Bool := (origins ref).any (·.root = root)

/-- How often the task `root` and its successors were dispatched. -/
def dispatches (origins : Origins) (root : ℕ) (subs : List Submission) : ℕ :=
  subs.countP fun sub => ofRoot origins root sub.task.ref

/-- The lineage bound: each task comes from a submitted one and is what it makes
it, and a submitted task with a finite count is dispatched, together with its
successors, no more often than that. -/
structure Lineage (s : World Q × Origins) : Prop where
  descends : ∀ t, s.1.service.Knows t → ∃ o, s.2 t.ref = some o ∧
    s.2 o.root = some (.submitted o.root o.desc) ∧ Descends t.desc o
  atMost : ∀ root d, s.2 root = some (.submitted root d) → 1 ≤ d.count →
    dispatches s.2 root s.1.service.measurementExecutor.submissions ≤ d.count

/-! ## The runs in question -/

/-- A `long`. -/
def IsLong (x : Int) : Prop := -2 ^ 63 ≤ x ∧ x < 2 ^ 63

/-- The description was made by its constructor before `now`, at clock readings
(milliseconds since 1970) and from dates. -/
def MeasurementDesc.Built (d : MeasurementDesc) (now : Int) : Prop :=
  ∃ startTime endTime intervalSec startNow builtNow,
    construct d.type d.key startTime endTime intervalSec d.count d.priority d.parameters startNow
      builtNow = .ok d ∧
    0 ≤ startNow ∧ startNow ≤ builtNow ∧ builtNow ≤ now ∧
    (∀ t, startTime = some t → IsLong t) ∧ ∀ t, endTime = some t → IsLong t

/-- What is submitted was built before. -/
def BuiltBefore : Event → World Q × Origins → Prop
  | .submitTask d, s => d.1.Built s.1.now
  | .getTasksFromServer ds, s => ∀ d ∈ ds, d.1.Built s.1.now
  | _, _ => True

/-- No sum or difference of times wraps around when the successor is made. -/
structure MeasurementTask.TimesFit (task : MeasurementTask) (env : CallEnv) : Prop where
  start : task.desc.startTime + ⌊task.desc.intervalSec⌋ * 1000 < 2 ^ 63
  end₁ : -2 ^ 63 ≤ task.desc.endTime - env.cloneNow₁
  end₂ : -2 ^ 63 ≤ task.desc.endTime - env.cloneNow₂

instance (task : MeasurementTask) (env : CallEnv) : Decidable (task.TimesFit env) :=
  decidable_of_iff
    (task.desc.startTime + ⌊task.desc.intervalSec⌋ * 1000 < 2 ^ 63 ∧
      -2 ^ 63 ≤ task.desc.endTime - env.cloneNow₁ ∧ -2 ^ 63 ≤ task.desc.endTime - env.cloneNow₂)
    ⟨fun h => ⟨h.1, h.2.1, h.2.2⟩, fun h => ⟨h.start, h.end₁, h.end₂⟩⟩

/-- The successor a call makes, if it makes one, is made without wrapping. -/
def NoWrap : Event → World Q × Origins → Prop
  | .handleMeasurement env, s =>
    ∀ sub ∈ s.1.service.submission env, sub.task.Recurs → sub.task.TimesFit env
  | _, _ => True

/-! ## Times -/

/-- No end time is more than a day away. -/
theorem cappedEndTime_le {endTime : Option Int} {now : Int} (hnow : 0 ≤ now)
    (hend : ∀ t, endTime = some t → IsLong t) :
    cappedEndTime endTime now ≤ now + taskExpirationMsec := by
  have hcap : toLong (now + taskExpirationMsec) ≤ now + taskExpirationMsec := by
    unfold toLong taskExpirationMsec
    rw [Int.bmod_def]
    split <;> omega
  unfold cappedEndTime
  split
  · exact hcap
  · rename_i t
    have ht := hend t rfl
    unfold IsLong at ht
    split
    · exact hcap
    · rename_i hkeep
      by_cases hlow : -2 ^ 63 ≤ t - now
      · rw [toLong_eq hlow (by omega)] at hkeep
        omega
      · unfold taskExpirationMsec
        omega

/-- The end time of a clone is the one it is made from, no later than a day
after the call. -/
theorem cappedEndTime_eq {t now : Int} (hday : t ≤ now + taskExpirationMsec)
    (hlow : -2 ^ 63 ≤ t - now) : cappedEndTime (some t) now = t := by
  unfold taskExpirationMsec at hday
  unfold cappedEndTime
  dsimp only
  rw [toLong_eq hlow (by omega), if_neg]
  unfold taskExpirationMsec
  omega

/-- Nor is that of a description that was built. -/
theorem MeasurementDesc.Built.times {d : MeasurementDesc} {now : Int} (h : d.Built now) :
    d.endTime ≤ now + taskExpirationMsec ∧ -2 ^ 63 ≤ d.startTime := by
  obtain ⟨startTime, endTime, intervalSec, startNow, builtNow, hd, hstartNow, hbuilt, hnow,
    hstart, hend⟩ := h
  unfold construct at hd
  obtain ⟨_, _, hd⟩ := Lib.except_bind_eq_ok.mp hd
  have hd := Except.ok.inj hd
  constructor
  · have hcap := cappedEndTime_le (by omega : 0 ≤ builtNow) hend
    rw [← hd]
    exact le_trans hcap (by omega)
  · rw [← hd]
    show -2 ^ 63 ≤ startTime.getD startNow
    cases startTime with
    | none => exact le_trans (by decide) hstartNow
    | some t => exact (hstart t rfl).1

/-- Without wrapping, a successor starts the whole seconds of the interval
later. -/
theorem MeasurementTask.newStartTime_eq {task : MeasurementTask}
    (hlow : -2 ^ 63 ≤ task.desc.startTime)
    (hfit : task.desc.startTime + ⌊task.desc.intervalSec⌋ * 1000 < 2 ^ 63) :
    task.newStartTime = task.desc.startTime + ⌊task.desc.intervalSec⌋ * 1000 := by
  have hpos : 0 ≤ task.desc.intervalSec := le_of_lt task.accepted.1
  have hfloor : 0 ≤ ⌊task.desc.intervalSec⌋ := Int.floor_nonneg.mpr hpos
  have hcast : castLong task.desc.intervalSec = ⌊task.desc.intervalSec⌋ := by
    unfold castLong
    dsimp only
    rw [if_pos hpos]
    omega
  unfold newStartTime
  rw [hcast]
  unfold toLong
  rw [Int.add_bmod_bmod]
  exact toLong_eq (by omega) hfit

/-- A successor whose times fit has the next start and no later end. -/
theorem MeasurementTask.successorDesc_times {task : MeasurementTask} {env : CallEnv} {now : Int}
    (hforward : env.Forward now) (hlow : -2 ^ 63 ≤ task.desc.startTime)
    (hday : task.desc.endTime ≤ now + taskExpirationMsec) (hfit : task.TimesFit env) :
    (task.successorDesc env).startTime =
        task.desc.startTime + ⌊task.desc.intervalSec⌋ * 1000 ∧
      (task.successorDesc env).endTime = task.desc.endTime := by
  constructor
  · exact task.newStartTime_eq hlow hfit.start
  · obtain ⟨hdue, hsubmit, hclone, hclone', _⟩ := hforward
    have h₁ : cappedEndTime (some task.desc.endTime) env.cloneNow₁ = task.desc.endTime :=
      cappedEndTime_eq (by omega) hfit.end₁
    have h₂ : cappedEndTime (some task.desc.endTime) env.cloneNow₂ = task.desc.endTime :=
      cappedEndTime_eq (by omega) hfit.end₂
    show cappedEndTime (some (cappedEndTime (some task.desc.endTime) env.cloneNow₁))
      env.cloneNow₂ = task.desc.endTime
    rw [h₁, h₂]

/-- With a finite count, a successor has one run less and one at least. -/
theorem MeasurementTask.successorDesc_count {task : MeasurementTask} (env : CallEnv)
    (hrecurs : task.Recurs) (hpos : 1 ≤ task.desc.count) :
    1 ≤ (task.successorDesc env).count ∧
      (task.successorDesc env).count = task.desc.count - 1 := by
  have hfinite : task.desc.count ≠ infiniteCount := by
    unfold infiniteCount
    omega
  have hsucc : (task.successorDesc env).count = task.desc.count - 1 := if_neg hfinite
  have hmore := hrecurs.2.resolve_left hfinite
  omega

/-- What a successor inherits. -/
theorem Descends.next {task : MeasurementTask} {o : Origin} {env : CallEnv} {now : Int}
    (h : Descends task.desc o) (hforward : env.Forward now)
    (hlow : -2 ^ 63 ≤ task.desc.startTime)
    (hday : task.desc.endTime ≤ now + taskExpirationMsec) (hrecurs : task.Recurs)
    (hfit : task.TimesFit env) : Descends (task.successorDesc env) (o.next task.desc) := by
  obtain ⟨hstart, hend⟩ := MeasurementTask.successorDesc_times hforward hlow hday hfit
  refine ⟨h.key, h.type, h.priority, h.intervalSec, h.parameters, ?_, fun _ => ?_⟩
  · show _ = o.desc.startTime + ((o.generation + 1 : ℕ) : Int) * (⌊o.desc.intervalSec⌋ * 1000)
    rw [hstart, h.startTime, h.intervalSec]
    push_cast
    ring
  · refine ⟨task.desc, rfl, ?_, ?_⟩
    · rw [hend]
      exact hrecurs.1
    · exact le_of_eq hend

namespace Service

variable {s s' : Service Q} {t task : MeasurementTask}

/-- A service that was created knows no task. -/
theorem not_knows_onCreate (t : MeasurementTask) : ¬ (onCreate : Service Q).Knows t := by
  have hqueue : PriorityQueue.toList (onCreate : Service Q).taskQueue = [] :=
    PriorityQueue.toList_empty
  rintro (ht | ⟨sub, hsub, _⟩)
  · rw [hqueue] at ht
    cases ht
  · cases hsub

/-- Nothing is known behind fewer tasks that was not known before. -/
theorem Knows.of_subperm
    (hqueue : (PriorityQueue.toList s'.taskQueue).Subperm (PriorityQueue.toList s.taskQueue))
    (hsubs : s'.measurementExecutor.submissions = s.measurementExecutor.submissions)
    (ht : s'.Knows t) : s.Knows t := by
  rcases ht with ht | ht
  · exact Or.inl (hqueue.subset ht)
  · rw [hsubs] at ht
    exact Or.inr ht

/-- Behind a new object the one that was added is known as well. -/
theorem Knows.of_add
    (ht : Knows { s.newObject with taskQueue := PriorityQueue.add s.taskQueue task } t) :
    t = task ∨ s.Knows t := by
  rcases ht with ht | ht
  · rcases PriorityQueue.mem_add.mp ht with ht | ht
    · exact Or.inl ht
    · exact Or.inr (Or.inl ht)
  · exact Or.inr (Or.inr ht)

/-- A dispatch makes no task known. -/
theorem Knows.of_dispatched {submitNow : Int} (hpeek : PriorityQueue.peek s.taskQueue = some task)
    (ht : (s.dispatched task submitNow).Knows t) : s.Knows t := by
  rcases ht with ht | ⟨sub, hsubs, rfl⟩
  · exact Or.inl ((PriorityQueue.poll_subperm s.taskQueue).subset ht)
  · rcases List.mem_append.mp hsubs with hsubs | hsubs
    · exact Or.inr ⟨sub, hsubs, rfl⟩
    · rw [List.mem_singleton.mp hsubs]
      exact Or.inl (PriorityQueue.peek_mem hpeek)

/-- Submitting a task makes no new one. -/
theorem submitTask_nextRef (s : Service Q) (task : MeasurementTask) :
    (s.submitTask task).1.nextRef = s.nextRef := by
  rcases s.submitTask_cases task with h | h <;> rw [h]

/-- A refused task is left out again. -/
theorem submitTask_subperm (s : Service Q) (task : MeasurementTask) :
    (PriorityQueue.toList (s.submitTask task).1.taskQueue).Subperm
      (PriorityQueue.toList (PriorityQueue.add s.taskQueue task)) := by
  rcases s.submitTask_cases task with heq | heq
  · rw [heq]
  · rw [heq]
    have hperm := PriorityQueue.toList_add s.taskQueue task
    exact (List.sublist_cons_self _ _).subperm.trans hperm.symm.subperm

end Service

/-! ## The invariant -/

/-- What a queued task adds to the dispatches its lineage may still come to. -/
def owed (origins : Origins) (root : ℕ) (task : MeasurementTask) : Int :=
  if ofRoot origins root task.ref then task.desc.count else 0

/-- The dispatches of a lineage and what it may still come to. -/
def spent (s : Service Q) (origins : Origins) (root : ℕ) : Int :=
  dispatches origins root s.measurementExecutor.submissions +
    PriorityQueue.total (owed origins root) s.taskQueue

/-- The invariant behind `Lineage`. -/
structure Traced (s : Service Q) (now : Int) (origins : Origins) : Prop where
  fresh : ∀ t, s.Knows t → t.ref < s.nextRef
  unborn : ∀ ref, s.nextRef ≤ ref → origins ref = none
  rooted : ∀ ref o, origins ref = some o → origins o.root = some (.submitted o.root o.desc)
  descends : ∀ t, s.Knows t → ∃ o, origins t.ref = some o ∧ Descends t.desc o
  inDay : ∀ t ∈ PriorityQueue.toList s.taskQueue, t.desc.endTime ≤ now + taskExpirationMsec
  start : ∀ t ∈ PriorityQueue.toList s.taskQueue, -2 ^ 63 ≤ t.desc.startTime
  count : ∀ t ∈ PriorityQueue.toList s.taskQueue, ∀ o, origins t.ref = some o →
    1 ≤ o.desc.count → 1 ≤ t.desc.count
  spent_le : ∀ root d, origins root = some (.submitted root d) → 1 ≤ d.count →
    spent s origins root ≤ d.count

/-- A task is of a root when its origin names it. -/
theorem ofRoot_iff {origins : Origins} {root ref : ℕ} :
    ofRoot origins root ref = true ↔ ∃ o, origins ref = some o ∧ o.root = root := by
  unfold ofRoot
  rw [Option.any_eq_true]
  simp

namespace Traced

variable {s : Service Q} {now : Int} {origins : Origins}

/-- At the start there are no tasks to trace. -/
theorem onCreate (now : Int) : Traced (Service.onCreate : Service Q) now fun _ => none := by
  have hqueue : PriorityQueue.toList (Service.onCreate : Service Q).taskQueue = [] :=
    PriorityQueue.toList_empty
  refine ⟨?_, fun _ _ => rfl, ?_, ?_, ?_, ?_, ?_, ?_⟩
  · intro t ht
    exact absurd ht (Service.not_knows_onCreate t)
  · intro ref o ho
    cases ho
  · intro t ht
    exact absurd ht (Service.not_knows_onCreate t)
  · intro t ht
    rw [hqueue] at ht
    cases ht
  · intro t ht
    rw [hqueue] at ht
    cases ht
  · intro t ht
    rw [hqueue] at ht
    cases ht
  · intro root d hd
    cases hd

/-- In a lineage with a finite count every queued task may be dispatched. -/
theorem owed_nonneg (h : Traced s now origins) {root : ℕ} {d : MeasurementDesc}
    (hd : origins root = some (.submitted root d)) (hcount : 1 ≤ d.count) :
    ∀ t ∈ PriorityQueue.toList s.taskQueue, 0 ≤ owed origins root t := by
  intro t ht
  unfold owed
  split
  · rename_i hroot
    obtain ⟨o, ho, rfl⟩ := ofRoot_iff.mp hroot
    have hroot := h.rooted t.ref o ho
    rw [hd] at hroot
    have hdesc : d = o.desc := congrArg Origin.desc (Option.some.inj hroot)
    have hpos := h.count t ht o ho (hdesc ▸ hcount)
    omega
  · exact le_refl _

/-- Taking tasks out keeps it, and so does time. -/
theorem shrink (h : Traced s now origins) {s' : Service Q} {now' : Int}
    (hqueue : (PriorityQueue.toList s'.taskQueue).Subperm (PriorityQueue.toList s.taskQueue))
    (hsubs : s'.measurementExecutor.submissions = s.measurementExecutor.submissions)
    (href : s'.nextRef = s.nextRef) (hnow : now ≤ now') : Traced s' now' origins := by
  have hknows {t : MeasurementTask} (ht : s'.Knows t) : s.Knows t := ht.of_subperm hqueue hsubs
  refine ⟨?_, ?_, h.rooted, ?_, ?_, ?_, ?_, ?_⟩
  · intro t ht
    rw [href]
    exact h.fresh t (hknows ht)
  · intro ref hle
    rw [href] at hle
    exact h.unborn ref hle
  · intro t ht
    exact h.descends t (hknows ht)
  · intro t ht
    have hday := h.inDay t (hqueue.subset ht)
    omega
  · intro t ht
    exact h.start t (hqueue.subset ht)
  · intro t ht
    exact h.count t (hqueue.subset ht)
  · intro root d hd hcount
    have hle := PriorityQueue.total_le_of_subperm hqueue (h.owed_nonneg hd hcount)
    have hspent := h.spent_le root d hd hcount
    unfold spent at hspent ⊢
    rw [hsubs]
    omega

/-- A new object is no origin's and no known task's identity yet. -/
theorem ofRoot_update (h : Traced s now origins) (o : Origin) (root : ℕ) {t : MeasurementTask}
    (ht : s.Knows t) :
    ofRoot (Function.update origins s.nextRef (some o)) root t.ref = ofRoot origins root t.ref := by
  have hne : t.ref ≠ s.nextRef := Nat.ne_of_lt (h.fresh t ht)
  unfold ofRoot
  rw [Function.update_of_ne hne]

/-- A new origin spends nothing. -/
theorem spent_update (h : Traced s now origins) (o : Origin) (root : ℕ) :
    spent s (Function.update origins s.nextRef (some o)) root = spent s origins root := by
  unfold spent dispatches
  congr 1
  · congr 1
    apply List.countP_congr
    intro sub hsub
    rw [h.ofRoot_update o root (Or.inr ⟨sub, hsub, rfl⟩)]
  · apply PriorityQueue.total_congr
    intro t ht
    unfold owed
    rw [h.ofRoot_update o root (Or.inl ht)]

/-- No known task has a root that is yet to be made. -/
theorem spent_unborn (h : Traced s now origins) : spent s origins s.nextRef = 0 := by
  have hno {t : MeasurementTask} (ht : s.Knows t) : ofRoot origins s.nextRef t.ref = false := by
    rw [Bool.eq_false_iff]
    intro hroot
    obtain ⟨o, ho, hroot⟩ := ofRoot_iff.mp hroot
    have hborn := h.rooted t.ref o ho
    rw [hroot, h.unborn _ (le_refl _)] at hborn
    cases hborn
  have hdispatches : dispatches origins s.nextRef s.measurementExecutor.submissions = 0 := by
    unfold dispatches
    rw [List.countP_eq_zero]
    intro sub hsub
    rw [hno (Or.inr ⟨sub, hsub, rfl⟩)]
    decide
  have htotal : PriorityQueue.total (owed origins s.nextRef) s.taskQueue = 0 := by
    have hzero : PriorityQueue.total (owed origins s.nextRef) s.taskQueue =
        PriorityQueue.total (fun _ => 0) s.taskQueue := by
      apply PriorityQueue.total_congr
      intro t ht
      unfold owed
      rw [hno (Or.inl ht)]
      rfl
    rw [hzero, PriorityQueue.total]
    simp
  unfold spent
  rw [hdispatches, htotal]
  rfl

/-- An object with an origin is older than the next one. -/
theorem ne_nextRef (h : Traced s now origins) {ref : ℕ} {o : Origin} (ho : origins ref = some o) :
    ref ≠ s.nextRef := by
  rintro rfl
  rw [h.unborn _ (le_refl _)] at ho
  cases ho

/-- A new task adds its count to what its own lineage may come to, and nothing to
another. -/
theorem spent_added (h : Traced s now origins) {task : MeasurementTask} {o : Origin}
    (href : task.ref = s.nextRef) (root : ℕ) :
    spent { s.newObject with taskQueue := PriorityQueue.add s.taskQueue task }
        (Function.update origins s.nextRef (some o)) root =
      spent s origins root + if o.root = root then task.desc.count else 0 := by
  have hself : Function.update origins s.nextRef (some o) task.ref = some o := by
    rw [href]
    exact Function.update_self _ _ _
  have howed : owed (Function.update origins s.nextRef (some o)) root task =
      if o.root = root then task.desc.count else 0 := by
    unfold owed ofRoot
    rw [hself]
    simp
  have hspent := h.spent_update o root
  unfold spent at hspent ⊢
  show (dispatches _ root s.measurementExecutor.submissions : Int) + _ = _
  rw [PriorityQueue.total_add, howed]
  omega

/-- The lineage of a new task keeps to its count: a task of its own starts one, and
a successor takes what is left of an old one. -/
theorem spent_birth_le (h : Traced s now origins) {task : MeasurementTask} {o : Origin}
    (href : task.ref = s.nextRef)
    (hroot : o = .submitted s.nextRef task.desc ∨
      (origins o.root = some (.submitted o.root o.desc) ∧
        (1 ≤ o.desc.count → spent s origins o.root + task.desc.count ≤ o.desc.count)))
    {root : ℕ} {d : MeasurementDesc}
    (hd : Function.update origins s.nextRef (some o) root = some (.submitted root d))
    (hpos : 1 ≤ d.count) :
    spent { s.newObject with taskQueue := PriorityQueue.add s.taskQueue task }
      (Function.update origins s.nextRef (some o)) root ≤ d.count := by
  have hself : Function.update origins s.nextRef (some o) s.nextRef = some o :=
    Function.update_self _ _ _
  rw [h.spent_added href]
  by_cases hmine : o.root = root
  · rw [if_pos hmine]
    rcases hroot with hnew | ⟨hold, hleft⟩
    · -- nothing was spent of a lineage that starts
      have hzero := h.spent_unborn
      rw [hnew] at hmine
      change s.nextRef = root at hmine
      subst hmine
      rw [hself, hnew] at hd
      have hdesc : task.desc = d := congrArg Origin.desc (Option.some.inj hd)
      rw [hzero, hdesc]
      omega
    · subst hmine
      rw [Function.update_of_ne (h.ne_nextRef hold), hold] at hd
      have hdesc : o.desc = d := congrArg Origin.desc (Option.some.inj hd)
      rw [← hdesc]
      exact hleft (hdesc ▸ hpos)
  · have hne : root ≠ s.nextRef := by
      rintro rfl
      rw [hself] at hd
      exact hmine (congrArg Origin.root (Option.some.inj hd))
    rw [Function.update_of_ne hne] at hd
    rw [if_neg hmine, add_zero]
    exact h.spent_le root d hd hpos

/-- A new object is submitted: a task of its own, or the successor of one whose
lineage has its count left. -/
theorem birth (h : Traced s now origins) {task : MeasurementTask} {o : Origin}
    (href : task.ref = s.nextRef) (hdescends : Descends task.desc o)
    (hday : task.desc.endTime ≤ now + taskExpirationMsec) (hstart : -2 ^ 63 ≤ task.desc.startTime)
    (hcount : 1 ≤ o.desc.count → 1 ≤ task.desc.count)
    (hroot : o = .submitted s.nextRef task.desc ∨
      (origins o.root = some (.submitted o.root o.desc) ∧
        (1 ≤ o.desc.count → spent s origins o.root + task.desc.count ≤ o.desc.count))) :
    Traced (s.newObject.submitTask task).1 now
      (Function.update origins s.nextRef (some o)) := by
  have hkeep {ref : ℕ} (hne : ref ≠ s.nextRef) :
      Function.update origins s.nextRef (some o) ref = origins ref := Function.update_of_ne hne _ _
  have hself : Function.update origins s.nextRef (some o) s.nextRef = some o :=
    Function.update_self _ _ _
  -- a task that is known is the new one, or was known before
  have hadded : Traced { s.newObject with taskQueue := PriorityQueue.add s.taskQueue task } now
      (Function.update origins s.nextRef (some o)) := by
    refine ⟨?_, ?_, ?_, ?_, ?_, ?_, ?_, fun root d hd hpos => h.spent_birth_le href hroot hd hpos⟩
    · intro t ht
      show t.ref < s.nextRef + 1
      rcases Service.Knows.of_add ht with rfl | ht
      · omega
      · exact Nat.lt_succ_of_lt (h.fresh t ht)
    · intro ref hle
      change s.nextRef + 1 ≤ ref at hle
      rw [hkeep (by omega)]
      exact h.unborn ref (by omega)
    · intro ref o' ho'
      by_cases hne : ref = s.nextRef
      · subst hne
        rw [hself] at ho'
        cases ho'
        rcases hroot with hroot | ⟨hroot, _⟩
        · subst hroot
          exact hself
        · rw [hkeep (h.ne_nextRef hroot)]
          exact hroot
      · rw [hkeep hne] at ho'
        have hroot' := h.rooted ref o' ho'
        rw [hkeep (h.ne_nextRef hroot')]
        exact hroot'
    · intro t ht
      rcases Service.Knows.of_add ht with rfl | ht
      · rw [href]
        exact ⟨o, hself, hdescends⟩
      · rw [hkeep (Nat.ne_of_lt (h.fresh t ht))]
        exact h.descends t ht
    · intro t ht
      rcases PriorityQueue.mem_add.mp ht with rfl | ht
      · exact hday
      · exact h.inDay t ht
    · intro t ht
      rcases PriorityQueue.mem_add.mp ht with rfl | ht
      · exact hstart
      · exact h.start t ht
    · intro t ht o' ho'
      rcases PriorityQueue.mem_add.mp ht with rfl | ht
      · rw [href, hself] at ho'
        cases ho'
        exact hcount
      · rw [hkeep (Nat.ne_of_lt (h.fresh t (Or.inl ht)))] at ho'
        exact h.count t ht o' ho'
  -- the queue may refuse the task
  exact hadded.shrink (s.newObject.submitTask_subperm task)
    (congrArg Executor.submissions (s.newObject.submitTask_measurementExecutor task))
    (s.newObject.submitTask_nextRef task) (le_refl _)

/-- Dispatching the head moves one of what its lineage may come to into the
dispatches. -/
theorem spent_dispatched {task : MeasurementTask} {o : Origin}
    (hpeek : PriorityQueue.peek s.taskQueue = some task) (ho : origins task.ref = some o)
    (submitNow : Int) (root : ℕ) :
    spent (s.dispatched task submitNow) origins root +
        (if o.root = root then task.desc.count - 1 else 0) = spent s origins root := by
  have hcount : ofRoot origins root task.ref = decide (o.root = root) := by
    unfold ofRoot
    rw [ho]
    rfl
  have hqueue := PriorityQueue.total_of_peek (f := owed origins root) hpeek
  unfold spent dispatches
  show ((List.countP _ (s.measurementExecutor.submissions ++ [_]) : ℕ) : Int) +
    PriorityQueue.total _ (PriorityQueue.poll s.taskQueue) + _ = _
  rw [hqueue, List.countP_append, List.countP_singleton]
  unfold owed
  dsimp only
  by_cases hroot : o.root = root
  · rw [hcount, decide_eq_true hroot]
    simp only [hroot, if_true]
    push_cast
    ring
  · rw [hcount, decide_eq_false hroot]
    simp only [hroot, if_false, Bool.false_eq_true]
    push_cast
    ring

/-- The dispatch of the head keeps it. -/
theorem dispatch (h : Traced s now origins) {task : MeasurementTask}
    (hpeek : PriorityQueue.peek s.taskQueue = some task) (submitNow : Int) :
    Traced (s.dispatched task submitNow) now origins := by
  have hmem := PriorityQueue.peek_mem hpeek
  have hsub := PriorityQueue.poll_subperm s.taskQueue
  have hknows {t : MeasurementTask} (ht : (s.dispatched task submitNow).Knows t) : s.Knows t :=
    ht.of_dispatched hpeek
  refine ⟨fun t ht => h.fresh t (hknows ht), h.unborn, h.rooted,
    fun t ht => h.descends t (hknows ht), fun t ht => h.inDay t (hsub.subset ht),
    fun t ht => h.start t (hsub.subset ht), fun t ht => h.count t (hsub.subset ht), ?_⟩
  intro root d hd hpos
  obtain ⟨o, ho, _⟩ := h.descends task (Or.inl hmem)
  have hspent := spent_dispatched hpeek ho submitNow root
  have hle := h.spent_le root d hd hpos
  split at hspent
  · rename_i hroot
    subst hroot
    have hrooted := h.rooted _ o ho
    rw [hd] at hrooted
    have hdesc : d = o.desc := congrArg Origin.desc (Option.some.inj hrooted)
    have hcount := h.count task hmem o ho (hdesc ▸ hpos)
    omega
  · omega

end Traced

/-- A call either makes no object after the dispatch or submits the successor of
a task that recurs. -/
theorem Service.requeue_successor (s : Service Q) (task : MeasurementTask) (env : CallEnv) :
    (s.requeue task env).1 = s ∨
      (task.Recurs ∧ ∃ newTask, newTask.ref = s.nextRef ∧ newTask.desc = task.successorDesc env ∧
        (s.requeue task env).1 = (s.newObject.submitTask newTask).1) := by
  by_cases hrecurs : task.Recurs
  · cases htaken : env.parametersTaken with
    | false => exact Or.inr ⟨hrecurs, s.requeue_of_recurs htaken hrecurs⟩
    | true =>
        left
        have hnone : (task.desc.atClone true).parameters = none := rfl
        obtain ⟨e, hclone⟩ := MeasurementDesc.clone_of_no_parameters hnone s.nextRef
          env.cloneNow₁ env.cloneNow₂
        unfold requeue
        rw [if_pos hrecurs, htaken, hclone]
  · left
    unfold requeue
    rw [if_neg hrecurs]

/-! ## Steps -/

/-- Without a new task the origins stay. -/
theorem Origins.extend_self (origins : Origins) (n : ℕ) (new : ℕ → Option Origin) :
    origins.extend n n new = origins := by
  funext ref
  unfold extend
  rw [if_neg]
  omega

/-- A new task gets its origin. -/
theorem Origins.extend_succ (origins : Origins) (n : ℕ) (new : ℕ → Option Origin) :
    origins.extend n (n + 1) new = Function.update origins n (new n) := by
  funext ref
  unfold extend
  by_cases hn : ref = n
  · subst hn
    rw [Function.update_self, if_pos]
    omega
  · rw [Function.update_of_ne hn, if_neg]
    omega

/-- A call that submits nothing at most takes the head out. -/
theorem Service.handleMeasurement_of_no_submission {s : Service Q} {env : CallEnv}
    (h : s.submission env = none) :
    (PriorityQueue.toList (s.handleMeasurement env).service.taskQueue).Subperm
        (PriorityQueue.toList s.taskQueue) ∧
      (s.handleMeasurement env).service.measurementExecutor.submissions =
        s.measurementExecutor.submissions ∧
      (s.handleMeasurement env).service.nextRef = s.nextRef := by
  have hsubs : (s.handleMeasurement env).service.measurementExecutor.submissions =
      s.measurementExecutor.submissions := by
    rw [s.handleMeasurement_submissions, h]
    exact List.append_nil _
  rw [s.handleMeasurement_service] at hsubs ⊢
  unfold submission at h
  cases hconsented : env.userConsented with
  | false => exact ⟨List.Subperm.refl _, rfl, rfl⟩
  | true =>
      cases hdue : s.due env.dueNow with
      | none => exact ⟨List.Subperm.refl _, rfl, rfl⟩
      | some task =>
          cases hshutdown : s.measurementExecutor.isShutdown with
          | true => exact ⟨PriorityQueue.poll_subperm _, rfl, rfl⟩
          | false => simp [hconsented, hdue, hshutdown] at h

namespace Traced

variable {s : Service Q} {now : Int} {origins : Origins}

/-- A call keeps it, when the successor it makes is made without wrapping. -/
theorem handleMeasurement (h : Traced s now origins) {env : CallEnv} (hforward : env.Forward now)
    (hfit : ∀ sub, s.submission env = some sub → sub.task.Recurs → sub.task.TimesFit env) :
    Traced (s.handleMeasurement env).service env.armNow
      (origins.extend s.nextRef (s.handleMeasurement env).service.nextRef
        (born (.handleMeasurement env) s origins)) := by
  have hnow : now ≤ env.armNow := by
    obtain ⟨_, _, _, _, _, _⟩ := hforward
    omega
  cases hsub : s.submission env with
  -- nothing is due: neither the queue nor the reference moves
  | none =>
      obtain ⟨hqueue, hsubs, href⟩ := Service.handleMeasurement_of_no_submission hsub
      rw [href, Origins.extend_self]
      exact h.shrink hqueue hsubs href hnow
  | some sub =>
      have hpeek := (Service.due_eq_some.mp (Service.submission_eq_some.mp hsub).2.2.1).1
      have hmem := PriorityQueue.peek_mem hpeek
      have hdispatched := h.dispatch hpeek env.submitNow
      rw [Service.handleMeasurement_of_submission hsub]
      rcases (s.dispatched sub.task env.submitNow).requeue_successor sub.task env with
        hnone | ⟨hrecurs, newTask, href, hdesc, hrequeue⟩
      · -- the task does not recur, and leaves the queue
        rw [hnone, show (s.dispatched sub.task env.submitNow).nextRef = s.nextRef from rfl,
          Origins.extend_self]
        exact hdispatched.shrink (List.Subperm.refl _) rfl rfl hnow
      · -- the successor is a descendant of what the task descends from, one step further
        obtain ⟨o, ho, hdescends⟩ := h.descends sub.task (Or.inl hmem)
        have htimes := hfit sub hsub hrecurs
        have hlow := h.start sub.task hmem
        have hday := h.inDay sub.task hmem
        obtain ⟨hstart, hend⟩ := MeasurementTask.successorDesc_times hforward hlow hday htimes
        have hfloor : 0 ≤ ⌊sub.task.desc.intervalSec⌋ :=
          Int.floor_nonneg.mpr (le_of_lt sub.task.accepted.1)
        have hborn : born (.handleMeasurement env) s origins s.nextRef =
            some (o.next sub.task.desc) := by
          unfold born
          dsimp only
          rw [hsub, Option.bind_some, ho]
          rfl
        have hnextRef : ((s.dispatched sub.task env.submitNow).newObject.submitTask
            newTask).1.nextRef = s.nextRef + 1 := Service.submitTask_nextRef _ _
        have hcount (hpos : 1 ≤ o.desc.count) :=
          MeasurementTask.successorDesc_count env hrecurs (h.count sub.task hmem o ho hpos)
        rw [hrequeue, hnextRef, Origins.extend_succ, hborn]
        refine Traced.shrink ?_ (List.Subperm.refl _) rfl rfl hnow
        refine hdispatched.birth href ?_ ?_ ?_ ?_ (Or.inr ⟨h.rooted _ o ho, ?_⟩)
        · rw [hdesc]
          exact hdescends.next hforward hlow hday hrecurs htimes
        · rw [hdesc, hend]
          exact hday
        · rw [hdesc, hstart]
          omega
        · -- a lineage with a count has one less to spend, and one more spent
          intro hpos
          rw [hdesc]
          exact (hcount hpos).1
        · intro hpos
          have hspent := spent_dispatched hpeek ho env.submitNow o.root
          have hle := h.spent_le _ _ (h.rooted _ o ho) hpos
          rw [if_pos rfl] at hspent
          rw [hdesc, (hcount hpos).2]
          show spent _ origins o.root + _ ≤ o.desc.count
          omega

/-- A built description is submitted. -/
theorem submitNew (h : Traced s now origins) {d : AcceptedDesc} (hbuilt : d.1.Built now) :
    Traced (s.submitNew d).1 now
      (Function.update origins s.nextRef (some (.submitted s.nextRef d.1))) := by
  obtain ⟨hday, hstart⟩ := hbuilt.times
  have hdescends : Descends d.1 (.submitted s.nextRef d.1) := by
    refine ⟨rfl, rfl, rfl, rfl, rfl, ?_, fun hpos => absurd hpos (Nat.lt_irrefl 0)⟩
    simp [Origin.submitted]
  show Traced (s.newObject.submitTask ⟨s.nextRef, d.val, AcceptedDesc.accepted d⟩).1 now _
  exact h.birth rfl hdescends hday hstart id (Or.inl rfl)

/-- So are the descriptions of a schedule, one after the other. -/
theorem submitAll (h : Traced s now origins) {ds : List AcceptedDesc}
    (hbuilt : ∀ d ∈ ds, d.1.Built now) :
    (ds.foldl (fun s d => (s.submitNew d).1) s).nextRef = s.nextRef + ds.length ∧
      Traced (ds.foldl (fun s d => (s.submitNew d).1) s) now
        (origins.extend s.nextRef (s.nextRef + ds.length) fun ref =>
          ds[ref - s.nextRef]?.map fun d => .submitted ref d.1) := by
  induction ds generalizing s origins with
  | nil =>
      refine ⟨rfl, ?_⟩
      rw [List.length_nil, Nat.add_zero, Origins.extend_self]
      exact h
  -- `ih` is about the state and the origins after the first submission
  | cons d ds ih =>
      simp only [List.forall_mem_cons] at hbuilt
      have href : (s.submitNew d).1.nextRef = s.nextRef + 1 := Service.submitTask_nextRef _ _
      obtain ⟨hnext, hrest⟩ := ih (h.submitNew hbuilt.1) hbuilt.2
      rw [href] at hnext hrest
      refine ⟨?_, ?_⟩
      · rw [List.foldl_cons, hnext, List.length_cons]
        omega
      · rw [List.foldl_cons]
        convert hrest using 1
        funext ref
        unfold Origins.extend
        dsimp only
        rw [List.length_cons]
        -- the first task took the reference `s.nextRef`; the rest took those above it
        rcases Nat.lt_trichotomy ref s.nextRef with hlt | heq | hgt
        · rw [if_neg (by omega), if_neg (by omega), Function.update_of_ne (Nat.ne_of_lt hlt)]
        · subst heq
          rw [if_pos (by omega), if_neg (by omega), Function.update_self, Nat.sub_self]
          rfl
        · have hsub : ref - s.nextRef = ref - (s.nextRef + 1) + 1 := by omega
          rw [hsub, List.getElem?_cons_succ]
          by_cases hin : ref < s.nextRef + (ds.length + 1)
          · rw [if_pos (by omega), if_pos (by omega)]
          · rw [if_neg (by omega), if_neg (by omega), Function.update_of_ne (by omega)]

end Traced

/-- The step lemma. -/
theorem step_traced {event : Event} {s s' : World Q × Origins}
    (h : Traced s.1.service s.1.now s.2) (hbuilt : BuiltBefore event s) (hfit : NoWrap event s)
    (hstep : (lineages Q).step event s = some s') : Traced s'.1.service s'.1.now s'.2 := by
  obtain ⟨w, origins⟩ := s
  obtain ⟨w', hworld, rfl⟩ := Option.map_eq_some_iff.mp hstep
  dsimp only at h ⊢
  cases event with
  | submitTask d =>
      cases hworld
      have href : (w.service.submitNew d).1.nextRef = w.service.nextRef + 1 :=
        Service.submitTask_nextRef _ _
      rw [href, Origins.extend_succ]
      exact h.submitNew hbuilt
  | getTasksFromServer ds =>
      -- the queue is cleared, then the tasks of the server are submitted
      cases hworld
      have hcleared : Traced w.service.removeAllUnscheduledTasks w.now origins :=
        h.shrink (PriorityQueue.empty_subperm _) rfl rfl (le_refl _)
      obtain ⟨href, hall⟩ := hcleared.submitAll hbuilt
      change (w.service.getTasksFromServer ds).nextRef = w.service.nextRef + ds.length at href
      rw [href]
      exact hall
  | handleMeasurement env =>
      obtain ⟨hforward, rfl⟩ := step_handleMeasurement.mp hworld
      exact h.handleMeasurement hforward hfit
  | wait _ | removeTaskByKey _ | uploadResults _ | finish _ _ | cleanUp =>
      have hshrinks := World.step_shrinks hworld trivial
      rw [hshrinks.nextRef, Origins.extend_self]
      exact h.shrink hshrinks.queue hshrinks.submissions hshrinks.nextRef hshrinks.now

/-- The invariant gives the bound: what is queued only adds to the dispatches. -/
theorem Traced.lineage {s : World Q × Origins} (h : Traced s.1.service s.1.now s.2) :
    Lineage s := by
  constructor
  · intro t ht
    obtain ⟨o, ho, hdescends⟩ := h.descends t ht
    exact ⟨o, ho, h.rooted t.ref o ho, hdescends⟩
  · intro root d hd hpos
    have hspent := h.spent_le root d hd hpos
    have hnonneg := PriorityQueue.total_le_of_subperm (PriorityQueue.empty_subperm _)
      (h.owed_nonneg hd hpos)
    rw [PriorityQueue.total_empty] at hnonneg
    unfold spent at hspent
    omega

/-- The lineage bound holds in every state of every run in which descriptions are
built before they are submitted and no successor's times wrap around. -/
theorem lineage_of_reachable {s : World Q × Origins}
    (h : (lineages Q).ReachableBy (fun event s => BuiltBefore event s ∧ NoWrap event s) s) :
    Lineage s := by
  have htraced : Traced s.1.service s.1.now s.2 := by
    refine h.invariant (P := fun s => Traced s.1.service s.1.now s.2) ?_ ?_
    · rintro ⟨w, origins⟩ ⟨hinit, horigins⟩
      change w.service = Service.onCreate at hinit
      change origins = _ at horigins
      rw [hinit, horigins]
      exact Traced.onCreate w.now
    · intro event s s' hs hok hstep
      exact step_traced hs hok.1 hok.2 hstep
  exact htraced.lineage

/-! ## A ping that is taken twice, and one with a long interval -/

/-- A ping of count 2 with the given interval, which may be taken until 90000. -/
def repeatedPing (intervalSec : ℚ) : MeasurementDesc :=
  { pingDescOf 1 0 90000 2 with intervalSec := intervalSec }

/-- The ping is what the constructor makes of its parameters. -/
theorem repeatedPing_construct {intervalSec : ℚ} (h : 0 < intervalSec) :
    MeasurementDesc.construct .ping (some "ping") (some 0) (some 90000) intervalSec 2 1
      (some [("target", "localhost")]) 0 0 = .ok (repeatedPing intervalSec) := by
  unfold MeasurementDesc.construct
  rw [show TaskType.checkParams .ping (some [("target", "localhost")]) = .ok () from rfl,
    if_neg (not_le_of_gt h)]
  rfl

theorem repeatedPing_accepted {intervalSec : ℚ} (h : 0 < intervalSec) :
    (repeatedPing intervalSec).Accepted :=
  MeasurementDesc.construct_accepted (repeatedPing_construct h)

theorem repeatedPing_built {intervalSec : ℚ} (h : 0 < intervalSec) :
    (repeatedPing intervalSec).Built 0 := by
  refine ⟨some 0, some 90000, intervalSec, 0, 0, repeatedPing_construct h, le_refl _, le_refl _,
    le_refl _, ?_, ?_⟩
  · rintro t ⟨⟩
    constructor <;> decide
  · rintro t ⟨⟩
    constructor <;> decide

/-- Every minute, and every 10^16 seconds. -/
def minutePing : AcceptedDesc := ⟨repeatedPing 60, repeatedPing_accepted (by norm_num)⟩

def longPing : AcceptedDesc := ⟨repeatedPing (10 ^ 16), repeatedPing_accepted (by norm_num)⟩

/-- A task is submitted and handled at 0, where both steps meet a condition. -/
theorem reachable_handledAtZero
    {ok : Event → World (SortedQueue MeasurementTask.Le) × Origins → Prop} {d : AcceptedDesc}
    {s₁ s₂ : World (SortedQueue MeasurementTask.Le) × Origins}
    (hstep₁ : (lineages _).step (.submitTask d) (World.created 0, fun _ => none) = some s₁)
    (hok₁ : ok (.submitTask d) (World.created 0, fun _ => none))
    (hstep₂ : (lineages _).step (.handleMeasurement (.atClock 0 false)) s₁ = some s₂)
    (hok₂ : ok (.handleMeasurement (.atClock 0 false)) s₁) :
    (lineages (SortedQueue MeasurementTask.Le)).ReachableBy ok s₂ := by
  have hinit : (lineages (SortedQueue MeasurementTask.Le)).Init (World.created 0, fun _ => none) :=
    ⟨init_created 0, rfl⟩
  exact ((System.ReachableBy.init hinit).tail hok₁ hstep₁).tail hok₂ hstep₂

theorem lineage_of_reachable_ping :
    ∃ s : World (SortedQueue MeasurementTask.Le) × Origins,
      s.1.service.measurementExecutor.submissions.length = 1 ∧
        (PriorityQueue.toList s.1.service.taskQueue).length = 1 ∧ Lineage s := by
  have hrun : ((lineages (SortedQueue MeasurementTask.Le)).step (.submitTask minutePing)
      (World.created 0, fun _ => none)).any fun s₁ =>
        ((lineages _).step (.handleMeasurement (.atClock 0 false)) s₁).any fun s₂ =>
          (∀ sub ∈ s₁.1.service.submission (.atClock 0 false),
            sub.task.Recurs → sub.task.TimesFit (.atClock 0 false)) ∧
          s₂.1.service.measurementExecutor.submissions.length = 1 ∧
            (PriorityQueue.toList s₂.1.service.taskQueue).length = 1 := by
    decide +kernel
  obtain ⟨s₁, hstep₁, hrun⟩ := (Option.any_eq_true _ _).mp hrun
  obtain ⟨s₂, hstep₂, hrun⟩ := (Option.any_eq_true _ _).mp hrun
  obtain ⟨hfit, hsubs, hqueue⟩ := of_decide_eq_true hrun
  have hbuilt : minutePing.1.Built 0 := repeatedPing_built (by norm_num)
  refine ⟨s₂, hsubs, hqueue, lineage_of_reachable ?_⟩
  exact reachable_handledAtZero hstep₁ ⟨hbuilt, trivial⟩ hstep₂ ⟨trivial, hfit⟩

/-- With an interval of 10^16 seconds the successor's start time wraps around
into the past. -/
theorem not_lineage_longInterval :
    ¬∀ s : World (SortedQueue MeasurementTask.Le) × Origins,
      (lineages _).ReachableBy BuiltBefore s → Lineage s := by
  intro hall
  have hrun : ((lineages (SortedQueue MeasurementTask.Le)).step (.submitTask longPing)
      (World.created 0, fun _ => none)).any fun s₁ =>
        ((lineages _).step (.handleMeasurement (.atClock 0 false)) s₁).any fun s₂ =>
          (PriorityQueue.toList s₂.1.service.taskQueue).any fun t => t.desc.startTime < 0 ∧
            (s₂.2 t.ref).any fun o => 0 ≤ o.desc.startTime ∧ 0 ≤ ⌊o.desc.intervalSec⌋ := by
    decide +kernel
  obtain ⟨s₁, hstep₁, hrun⟩ := (Option.any_eq_true _ _).mp hrun
  obtain ⟨s₂, hstep₂, hrun⟩ := (Option.any_eq_true _ _).mp hrun
  obtain ⟨t, ht, hrun⟩ := List.any_eq_true.mp hrun
  obtain ⟨hneg, horigin⟩ := of_decide_eq_true hrun
  have hbuilt : longPing.1.Built 0 := repeatedPing_built (by norm_num)
  have hlineage := hall s₂ (reachable_handledAtZero hstep₁ hbuilt hstep₂ trivial)
  obtain ⟨o, ho, _, hdescends⟩ := hlineage.descends t (Or.inl ht)
  rw [ho] at horigin
  obtain ⟨hstart, hfloor⟩ := of_decide_eq_true horigin
  have hlater : (0 : Int) ≤ o.generation * (⌊o.desc.intervalSec⌋ * 1000) :=
    mul_nonneg (Int.natCast_nonneg _) (by omega)
  rw [hdescends.startTime] at hneg
  omega

end MobiPerf.Scheduler
