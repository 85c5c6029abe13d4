import MobiPerf.Scheduler.Execution

/-!
# Scheduler.CurrentTask — what `getCurrentTask` of the running service returns

The user interface asks the running service for the task that is being measured,
and `cleanUp` stops that one. Both wrappers set and clear a field `currentTask`;
a `UserMeasurementTask` does so in the running service, some operations before its
real task starts and one after it ends, and a `PowerAwareTask` in the service
object it has made for itself.

* `registerExact_iff`: at every moment of every run, the register is exact unless
  a `PowerAwareTask` is in its real task, or a `UserMeasurementTask` is between
  setting the register and clearing it but not in its real task.
-/

namespace MobiPerf.Scheduler

open Lib

variable {Q : Type} [PriorityQueue Q MeasurementTask MeasurementTask.Le]

/-! ## The register -/

/-- `getCurrentTask` of the running service. -/
def Execution.getCurrentTask (s : Execution Q) : Option MeasurementTask :=
  s.currentTask .running

/-- The real task a call is in. -/
def Call.measuring (c : Call) : Option MeasurementTask :=
  if c.pc = .body then some c.sub.task else none

/-- `getCurrentTask` returns the task whose measurement body is running, and null
when none is. -/
def Execution.RegisterExact (s : Execution Q) : Prop :=
  s.getCurrentTask = s.call.bind Call.measuring

/-- The call is not in the real task of a `PowerAwareTask`, nor at one of the
operations of a `UserMeasurementTask` before and after its real task at which the
register is set. -/
def Call.OnTime (c : Call) : Prop :=
  match c.sub.wrapper with
  | .powerAwareTask => c.pc ≠ .body
  | .userMeasurementTask =>
    c.pc ≠ .broadcastMeasurementStart ∧ c.pc ≠ .callTask ∧
      (c.pc = .clearCurrentTask → c.acquired = false)

/-! ## What each call leaves in it -/

/-- What the register of the running service holds during a call. -/
def Call.shown (c : Call) : Option MeasurementTask :=
  match c.sub.wrapper, c.pc with
  | .userMeasurementTask, .broadcastMeasurementStart
  | .userMeasurementTask, .callTask
  | .userMeasurementTask, .body => some c.sub.task
  | .userMeasurementTask, .clearCurrentTask => if c.acquired then some c.sub.task else none
  | _, _ => none

/-- A `UserMeasurementTask` that goes past `acquireWakeLock` has acquired it. -/
def Call.Acquires (c : Call) : Prop :=
  match c.pc with
  | .announce | .acquireWakeLock => c.acquired = false
  | .setCurrentTask | .broadcastMeasurementStart | .callTask | .body => c.acquired = true
  | _ => True

theorem Call.Acquires.after {c : Call} {io : CallIo} {pc : CallPc} (h : c.Acquires)
    (hcall : UserMeasurementTask.call c.pc io = some pc) : (c.after io pc).Acquires := by
  unfold UserMeasurementTask.call at hcall
  unfold Call.Acquires at h
  unfold Call.Acquires Call.after
  cases hpc : c.pc with
  | announce =>
      rw [hpc] at hcall h
      cases io <;> cases hcall <;> first | exact h | trivial
  | acquireWakeLock =>
      rw [hpc] at hcall
      cases io <;> cases hcall <;> first | rfl | trivial
  | setCurrentTask | broadcastMeasurementStart | callTask =>
      rw [hpc] at hcall h
      cases io <;> cases hcall <;> first | exact h | trivial
  | _ =>
      rw [hpc] at hcall
      cases io <;> cases hcall <;> trivial

theorem reachable_acquires {s : Execution Q} (h : (executions Q).Reachable s) {c : Call}
    (hc : s.call = some c) (huser : c.sub.wrapper = .userMeasurementTask) : c.Acquires := by
  refine reachable_call (P := fun c => c.sub.wrapper = .userMeasurementTask → c.Acquires)
    (fun _ _ _ => rfl) ?_ h c hc huser
  intro c io pc hacquires hcall huser
  rw [Call.after_sub] at huser
  rw [huser] at hcall
  exact (hacquires huser).after hcall

/-- A `PowerAwareTask` does not touch the register of the running service. -/
theorem Call.register_of_powerAware {c : Call} (h : c.sub.wrapper = .powerAwareTask)
    (currentTask : ServiceObject → Option MeasurementTask) :
    c.register currentTask .running = currentTask .running := by
  have hown : ServiceObject.running ≠ c.scheduler := by
    unfold Call.scheduler
    rw [h]
    exact nofun
  unfold Call.register
  cases c.pc with
  | setCurrentTask | clearCurrentTask => exact Function.update_of_ne hown ..
  | _ => rfl

/-- One operation of a wrapper. -/
theorem Call.register_shown {c : Call} {io : CallIo} {pc : CallPc}
    {currentTask : ServiceObject → Option MeasurementTask} (h : currentTask .running = c.shown)
    (hacquires : c.sub.wrapper = .userMeasurementTask → c.Acquires)
    (hcall : c.sub.wrapper.call c.pc io = some pc) :
    c.register currentTask .running = if pc = .ended then none else (c.after io pc).shown := by
  cases hwrapper : c.sub.wrapper with
  | powerAwareTask =>
      have hnone : ∀ c : Call, c.sub.wrapper = .powerAwareTask → c.shown = none := by
        intro c hc
        unfold Call.shown
        rw [hc]
      rw [c.register_of_powerAware hwrapper, h, hnone c hwrapper,
        hnone (c.after io pc) (by rw [Call.after_sub, hwrapper])]
      split <;> rfl
  | userMeasurementTask =>
      have hrunning : c.scheduler = .running := by
        unfold Call.scheduler
        rw [hwrapper]
      have hacquired := hacquires hwrapper
      rw [hwrapper] at hcall
      unfold Call.Acquires at hacquired
      unfold Call.shown at h ⊢
      rw [Call.after_sub, hwrapper, Call.after_pc]
      rw [hwrapper] at h
      simp only [Wrapper.call, UserMeasurementTask.call] at hcall
      unfold Call.register Call.after
      cases hpc : c.pc with
      | announce =>
          rw [hpc] at hcall h
          cases io <;> cases hcall <;> exact h
      | acquireWakeLock =>
          -- when it throws, the `finally` finds a register that was never set
          rw [hpc] at hcall h hacquired
          cases io <;> cases hcall <;> simp [h, hacquired]
      | setCurrentTask =>
          rw [hpc] at hcall
          rw [hrunning]
          cases io <;> cases hcall
          exact Function.update_self ..
      | broadcastMeasurementStart | body =>
          -- however they end, the register stays set up to the `finally`
          rw [hpc] at hcall h hacquired
          cases io <;> cases hcall <;> simp [h, hacquired]
      | callTask =>
          rw [hpc] at hcall h
          cases io <;> cases hcall
          exact h
      | clearCurrentTask =>
          rw [hpc] at hcall
          rw [hrunning]
          cases io <;> cases hcall
          exact Function.update_self ..
      | _ =>
          rw [hpc] at hcall h
          cases io <;> cases hcall <;> exact h

/-! ## Runs -/

/-- The register of the running service holds what the call under way shows. -/
theorem reachable_shown {s : Execution Q} (h : (executions Q).Reachable s) :
    s.getCurrentTask = s.call.bind Call.shown := by
  refine h.invariant_of (P := fun s => s.getCurrentTask = s.call.bind Call.shown) ?_ ?_
  · intro s₀ hinit
    rw [show s₀ = Execution.created from hinit]
    rfl
  · intro label s s' hreach hs _ hstep
    cases label with
    | threads label =>
        rcases Option.map_eq_some_iff.mp hstep with ⟨threads, -, rfl⟩
        exact hs
    | take =>
        rcases Execution.step_take hstep with ⟨sub, -, hnone, rfl⟩
        -- a call that begins shows nothing yet
        have hshown : (Call.begin s.taken sub).shown = none := by
          unfold Call.shown Call.begin
          cases sub.wrapper <;> rfl
        rw [hnone] at hs
        exact hs.trans hshown.symm
    | drop =>
        rcases Execution.step_drop hstep with rfl
        exact hs
    | call io =>
        rcases Execution.step_call hstep with ⟨c, pc, hcall, hpc, rfl⟩
        rw [hcall] at hs
        -- one operation of the call under way
        refine (Call.register_shown hs (reachable_acquires hreach hcall) hpc).trans ?_
        dsimp only
        split <;> rfl

theorem Call.shown_eq_measuring_iff (c : Call) : c.shown = c.measuring ↔ c.OnTime := by
  unfold Call.shown Call.measuring Call.OnTime
  cases c.sub.wrapper with
  | powerAwareTask => by_cases hbody : c.pc = .body <;> simp [hbody]
  | userMeasurementTask => cases c.pc <;> simp

/-- At every moment of every run: the register of the running service is exact if
and only if the executor is not at one of the operations at which a wrapper leaves
it behind. -/
theorem registerExact_iff {s : Execution Q} (h : (executions Q).Reachable s) :
    s.RegisterExact ↔ ∀ c, s.call = some c → c.OnTime := by
  unfold Execution.RegisterExact
  rw [reachable_shown h]
  cases hcall : s.call with
  | none =>
      constructor
      · intro _ c hc
        cases hc
      · intro _
        rfl
  | some c =>
      constructor
      · rintro hexact c' ⟨⟩
        exact c.shown_eq_measuring_iff.mp hexact
      · intro htime
        exact c.shown_eq_measuring_iff.mpr (htime c rfl)

/-! ## Executed runs -/

/-- A `UserMeasurementTask` in its real task. -/
theorem registerExact_iff_userBody :
    ∃ s : Execution (SortedQueue MeasurementTask.Le), s.RegisterExact ∧
      s.getCurrentTask.map MeasurementTask.ref = some 0 := by
  have hrun : ((executions (SortedQueue MeasurementTask.Le)).run
      (userTaskSteps ++ List.replicate 3 (.call .returned)) Execution.created).any fun s =>
      (s.call.any fun c => c.sub.wrapper = .userMeasurementTask ∧ c.pc = .body) ∧
        s.getCurrentTask.map MeasurementTask.ref = some 0 := by
    decide +kernel
  rcases (Option.any_eq_true _ _).mp hrun with ⟨s, hsteps, hs⟩
  rcases of_decide_eq_true hs with ⟨hbody, htask⟩
  have hreach : (executions _).Reachable s := System.reachable_of_run rfl hsteps
  refine ⟨s, (registerExact_iff hreach).mpr ?_, htask⟩
  intro c hc
  rw [hc] at hbody
  rcases of_decide_eq_true hbody with ⟨huser, hpc⟩
  unfold Call.OnTime
  rw [huser, hpc]
  exact ⟨nofun, nofun, nofun⟩

/-- While a `PowerAwareTask` is in its real task, the running service knows of no
current task; and a `UserMeasurementTask` has announced its task before it runs. -/
theorem not_registerExact_powerAware :
    (∃ s : Execution (SortedQueue MeasurementTask.Le), (executions _).Reachable s ∧
      s.getCurrentTask.isNone ∧ ¬ s.RegisterExact) ∧
    ∃ s : Execution (SortedQueue MeasurementTask.Le), (executions _).Reachable s ∧
      s.getCurrentTask.isSome ∧ ¬ s.RegisterExact := by
  have hpower : ((executions (SortedQueue MeasurementTask.Le)).run
      (dispatchSteps (ofPriority 1) 3 ++ [.take, .call .returned, .call .returned,
        .call (.read false), .call (.read true)] ++ List.replicate 3 (.call .returned))
      Execution.created).any fun s =>
      s.getCurrentTask.isNone ∧ (s.call.bind Call.measuring).isSome := by
    decide +kernel
  have huser : ((executions (SortedQueue MeasurementTask.Le)).run
      (userTaskSteps ++ [.call .returned]) Execution.created).any fun s =>
      s.getCurrentTask.isSome ∧ (s.call.bind Call.measuring).isNone := by
    decide +kernel
  constructor
  · rcases (Option.any_eq_true _ _).mp hpower with ⟨s, hsteps, hs⟩
    rcases of_decide_eq_true hs with ⟨hnone, hbody⟩
    refine ⟨s, System.reachable_of_run rfl hsteps, hnone, ?_⟩
    intro hexact
    rw [hexact] at hnone
    rw [Option.isNone_iff_eq_none.mp hnone] at hbody
    cases hbody
  · rcases (Option.any_eq_true _ _).mp huser with ⟨s, hsteps, hs⟩
    rcases of_decide_eq_true hs with ⟨htask, hnone⟩
    refine ⟨s, System.reachable_of_run rfl hsteps, htask, ?_⟩
    intro hexact
    rw [hexact, Option.isNone_iff_eq_none.mp hnone] at htask
    cases htask

end MobiPerf.Scheduler
