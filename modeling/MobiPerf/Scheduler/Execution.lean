import MobiPerf.Scheduler.Concurrent

/-!
# Scheduler.Execution — the executor's thread and the two wrappers

`measurementExecutor` has one thread. It takes the submissions in their order and
runs the `call` of each one's wrapper to its end, while the threads of
`Scheduler.Concurrent` go on. A `UserMeasurementTask` is an inner class of the
running service; a `PowerAwareTask` reads the pause preference and the battery
first, and talks to a `MeasurementSchedulerService` it has made for itself.

Every operation of a wrapper is one step (the real task's `call` is two, its start
and its end), and any that calls other code may throw. A submission that is
cancelled before it is taken, or dropped by `shutdownNow`, is passed over (`drop`);
when that happens is left open.

* `reachable_call`: what each operation of the two wrappers keeps holds of every
  call.
* `reachable_mediated`: a real task is started by a `UserMeasurementTask`, or after
  its wrapper has read that no pause is requested and that there is power.
-/

namespace MobiPerf.Scheduler

open Lib

/-! ## The wrappers -/

/-- Where the `call` of a wrapper is. -/
inductive CallPc where
  /-- `sendStringMsg`, before the `try` -/
  | announce
  | acquireWakeLock
  /-- the test of the pause preference -/
  | readPaused
  | canScheduleExperiment
  /-- `setCurrentTask(realTask)` -/
  | setCurrentTask
  | broadcastMeasurementStart
  /-- before `realTask.call()` -/
  | callTask
  /-- in `realTask.call()` -/
  | body
  /-- `setCurrentTask(null)` -/
  | clearCurrentTask
  | broadcastMeasurementEnd
  /-- `broadcastMeasurementEnd` in a `catch` -/
  | broadcastError
  | releaseWakeLock
  /-- the last `sendStringMsg` -/
  | announceDone
  | persistState
  | ended
deriving DecidableEq, Repr

/-- What an operation of a wrapper does: it returns, it returns what it has read,
it throws an `Exception`, or an `Error`, which the wrappers do not catch. -/
inductive CallIo where
  | returned
  | read (value : Bool)
  | threw
  | threwError
deriving DecidableEq, Repr

/-- An operation after which the call goes on at `next`, or at `failed` when it
throws. -/
def CallIo.goto (io : CallIo) (next failed : CallPc) : Option CallPc :=
  match io with
  | .returned => some next
  | .threw | .threwError => some failed
  | .read _ => none

/-- An assignment, which does not throw. -/
def CallIo.assign (io : CallIo) (next : CallPc) : Option CallPc :=
  match io with
  | .returned => some next
  | _ => none

/-- An operation in the inner `try` of a `PowerAwareTask`, whose `catch` broadcasts
the error; an `Error` passes it by. -/
def CallIo.gotoOrCatch (io : CallIo) (next : CallPc) : Option CallPc :=
  match io with
  | .returned => some next
  | .threw => some .broadcastError
  | .threwError => some .releaseWakeLock
  | .read _ => none

/-- A test, after which the call goes on at `passed` or at `failed`. -/
def CallIo.test (io : CallIo) (wanted : Bool) (passed failed : CallPc) : Option CallPc :=
  match io with
  | .read value => some (if value = wanted then passed else failed)
  | .threw | .threwError => some failed
  | .returned => none

/-- `UserMeasurementTask.call`. -/
def UserMeasurementTask.call (pc : CallPc) (io : CallIo) : Option CallPc :=
  match pc with
  | .announce => io.goto .acquireWakeLock .ended
  | .acquireWakeLock => io.goto .setCurrentTask .clearCurrentTask
  | .setCurrentTask => io.assign .broadcastMeasurementStart
  | .broadcastMeasurementStart => io.goto .callTask .clearCurrentTask
  | .callTask => io.assign .body
  | .body => io.goto .clearCurrentTask .clearCurrentTask
  -- the `finally`
  | .clearCurrentTask => io.assign .broadcastMeasurementEnd
  | .broadcastMeasurementEnd => io.goto .releaseWakeLock .ended
  | .releaseWakeLock => io.goto .announceDone .ended
  | .announceDone => io.goto .persistState .ended
  | .persistState => io.goto .ended .ended
  | _ => none

/-- `PowerAwareTask.call`. -/
def PowerAwareTask.call (pc : CallPc) (io : CallIo) : Option CallPc :=
  match pc with
  | .announce => io.goto .acquireWakeLock .ended
  | .acquireWakeLock => io.goto .readPaused .releaseWakeLock
  | .readPaused => io.test false .canScheduleExperiment .releaseWakeLock
  | .canScheduleExperiment => io.test true .setCurrentTask .releaseWakeLock
  | .setCurrentTask => io.assign .broadcastMeasurementStart
  | .broadcastMeasurementStart => io.goto .callTask .releaseWakeLock
  -- the inner `try`, in which a log line comes before the call
  | .callTask => io.gotoOrCatch .body
  | .body => io.gotoOrCatch .broadcastMeasurementEnd
  | .broadcastMeasurementEnd => io.gotoOrCatch .releaseWakeLock
  | .broadcastError => io.goto .releaseWakeLock .releaseWakeLock
  -- the `finally`
  | .releaseWakeLock => io.goto .clearCurrentTask .ended
  | .clearCurrentTask => io.assign .announceDone
  | .announceDone => io.goto .ended .ended
  | _ => none

def Wrapper.call : Wrapper → CallPc → CallIo → Option CallPc
  | .userMeasurementTask => UserMeasurementTask.call
  | .powerAwareTask => PowerAwareTask.call

/-! ## One call -/

/-- The running service, or the object that the `PowerAwareTask` of the
submission at `index` has made (`new MeasurementSchedulerService()`). -/
inductive ServiceObject where
  | running
  | own (index : ℕ)
deriving DecidableEq, Repr

/-- A wrapper's call under way: whether its `acquireWakeLock` has returned, and
what it has read so far. -/
structure Call where
  index : ℕ
  sub : Submission
  pc : CallPc
  acquired : Bool
  pauseRequested : Option Bool
  canSchedule : Option Bool

/-- The call of the submission at `index`, about to begin. -/
def Call.begin (index : ℕ) (sub : Submission) : Call where
  index := index
  sub := sub
  pc := .announce
  acquired := false
  pauseRequested := none
  canSchedule := none

/-- The service object on which the wrapper sets the current task. -/
def Call.scheduler (c : Call) : ServiceObject :=
  match c.sub.wrapper with
  | .userMeasurementTask => .running
  | .powerAwareTask => .own c.index

/-- The call after an operation, at `pc`. -/
def Call.after (c : Call) (io : CallIo) (pc : CallPc) : Call :=
  match c.pc, io with
  | .acquireWakeLock, .returned => { c with pc, acquired := true }
  | .readPaused, .read value => { c with pc, pauseRequested := some value }
  | .canScheduleExperiment, .read value => { c with pc, canSchedule := some value }
  | _, _ => { c with pc }

/-- The fields `currentTask` after the next operation. -/
def Call.register (c : Call) (currentTask : ServiceObject → Option MeasurementTask) :
    ServiceObject → Option MeasurementTask :=
  match c.pc with
  | .setCurrentTask => Function.update currentTask c.scheduler (some c.sub.task)
  | .clearCurrentTask => Function.update currentTask c.scheduler none
  | _ => currentTask

/-- A real task whose `call` was started, and what its wrapper had read by then. -/
structure Started where
  task : MeasurementTask
  pauseRequested : Option Bool
  canSchedule : Option Bool
deriving DecidableEq

/-- What the next operation adds to the record of the started tasks. -/
def Call.starts (c : Call) (io : CallIo) : List Started :=
  match c.pc, io with
  | .callTask, .returned => [⟨c.sub.task, c.pauseRequested, c.canSchedule⟩]
  | _, _ => []

/-! ## The executor's thread -/

/-- The threads of the service and the thread of the executor: how many
submissions it has taken, the call it runs, the field `currentTask` of every
service object, and a record of the real tasks it has started. -/
structure Execution (Q : Type) where
  threads : Threads Q
  taken : ℕ
  call : Option Call
  currentTask : ServiceObject → Option MeasurementTask
  started : List Started

inductive ExecutionLabel where
  | threads (label : Label)
  | take
  | drop
  | call (io : CallIo)

variable {Q : Type} [PriorityQueue Q MeasurementTask MeasurementTask.Le]

def Execution.step (label : ExecutionLabel) (s : Execution Q) : Option (Execution Q) :=
  match label with
  | .threads label => (Threads.step label s.threads).map fun threads => { s with threads }
  | .take =>
    match s.call, s.threads.service.measurementExecutor.submissions[s.taken]? with
    | none, some sub => some { s with taken := s.taken + 1, call := some (.begin s.taken sub) }
    | _, _ => none
  | .drop =>
    match s.threads.service.measurementExecutor.submissions[s.taken]? with
    | some _ => some { s with taken := s.taken + 1 }
    | none => none
  | .call io =>
    match s.call with
    | none => none
    | some c =>
      (c.sub.wrapper.call c.pc io).map fun pc => { s with
        call := if pc = .ended then none else some (c.after io pc)
        currentTask := c.register s.currentTask
        started := s.started ++ c.starts io }

/-- The service right after `onCreate`; its executor has nothing to run. -/
def Execution.created : Execution Q where
  threads := Threads.created
  taken := 0
  call := none
  currentTask _ := none
  started := []

/-- The interleavings of the service's threads with the executor's. -/
def executions (Q : Type) [PriorityQueue Q MeasurementTask MeasurementTask.Le] :
    System (Execution Q) ExecutionLabel where
  Init s := s = Execution.created
  step := Execution.step

/-! ## What a call keeps -/

section Calls

variable {s s' : Execution Q}

theorem Execution.step_call {io : CallIo} (h : s.step (.call io) = some s') :
    ∃ c pc, s.call = some c ∧ c.sub.wrapper.call c.pc io = some pc ∧ s' = { s with
      call := if pc = .ended then none else some (c.after io pc)
      currentTask := c.register s.currentTask
      started := s.started ++ c.starts io } := by
  simp only [Execution.step] at h
  split at h
  · cases h
  · rename_i c hcall
    rcases Option.map_eq_some_iff.mp h with ⟨pc, hpc, rfl⟩
    exact ⟨c, pc, hcall, hpc, rfl⟩

theorem Execution.step_take (h : s.step .take = some s') :
    ∃ sub ∈ s.threads.service.measurementExecutor.submissions, s.call = none ∧
      s' = { s with taken := s.taken + 1, call := some (.begin s.taken sub) } := by
  simp only [Execution.step] at h
  split at h
  · rename_i sub hcall hsub
    cases h
    exact ⟨sub, List.mem_of_getElem? hsub, hcall, rfl⟩
  · cases h

theorem Execution.step_drop (h : s.step .drop = some s') :
    s' = { s with taken := s.taken + 1 } := by
  simp only [Execution.step] at h
  split at h
  · cases h
    rfl
  · cases h

/-- What holds of a call when it begins, and what each operation of the two
wrappers keeps, holds of every call. -/
theorem reachable_call {P : Call → Prop} (hbegin : ∀ index sub, P (.begin index sub))
    (hop : ∀ c io pc, P c → c.sub.wrapper.call c.pc io = some pc → P (c.after io pc))
    (h : (executions Q).Reachable s) : ∀ c, s.call = some c → P c := by
  refine h.invariant (P := fun s => ∀ c, s.call = some c → P c) ?_ ?_
  · intro s₀ hinit c hc
    rw [show s₀ = Execution.created from hinit] at hc
    cases hc
  · intro label s s' hs hstep c hc
    cases label with
    | threads label =>
        rcases Option.map_eq_some_iff.mp hstep with ⟨threads, -, rfl⟩
        exact hs c hc
    | take =>
        rcases Execution.step_take hstep with ⟨sub, -, -, rfl⟩
        cases hc
        exact hbegin s.taken sub
    | drop =>
        rcases Execution.step_drop hstep with rfl
        exact hs c hc
    | call io =>
        rcases Execution.step_call hstep with ⟨c₀, pc, hcall, hpc, rfl⟩
        dsimp only at hc
        split at hc
        · cases hc
        · cases hc
          exact hop c₀ io pc (hs c₀ hcall) hpc

/-- What the wrapper of a `PowerAwareTask` has read, from the first test on until
it calls its real task. -/
def Call.Tested (c : Call) : Prop :=
  match c.pc with
  | .canScheduleExperiment => c.pauseRequested = some false
  | .setCurrentTask | .broadcastMeasurementStart | .callTask =>
    c.pauseRequested = some false ∧ c.canSchedule = some true
  | _ => True

@[simp] theorem Call.after_pc (c : Call) (io : CallIo) (pc : CallPc) : (c.after io pc).pc = pc := by
  unfold Call.after
  split <;> rfl

@[simp] theorem Call.after_sub (c : Call) (io : CallIo) (pc : CallPc) :
    (c.after io pc).sub = c.sub := by
  unfold Call.after
  split <;> rfl

theorem Call.Tested.after {c : Call} {io : CallIo} {pc : CallPc} (h : c.Tested)
    (hcall : PowerAwareTask.call c.pc io = some pc) : (c.after io pc).Tested := by
  unfold PowerAwareTask.call at hcall
  unfold Call.Tested at h
  unfold Call.Tested Call.after
  cases hpc : c.pc with
  | readPaused =>
      -- only the answer that no pause is requested leads to the second test
      rw [hpc] at hcall
      cases io with
      | read value => cases value <;> cases hcall <;> trivial
      | returned => cases hcall
      | threw | threwError => cases hcall; trivial
  | canScheduleExperiment =>
      -- what the first test has read is kept
      rw [hpc] at hcall h
      cases io with
      | read value =>
          cases value with
          | false => cases hcall; trivial
          | true => cases hcall; exact ⟨h, rfl⟩
      | returned => cases hcall
      | threw | threwError => cases hcall; trivial
  | setCurrentTask =>
      rw [hpc] at hcall h
      cases io with
      | returned => cases hcall; exact h
      | _ => cases hcall
  | broadcastMeasurementStart =>
      rw [hpc] at hcall h
      cases io <;> cases hcall <;> first | exact h | trivial
  | _ =>
      rw [hpc] at hcall
      cases io <;> cases hcall <;> trivial

end Calls

/-! ## What was submitted and what was started -/

/-- A step of the threads submits nothing, or the task a thread has in hand, in
the wrapper that suits it. -/
theorem Threads.step_submissions {label : Label} {s s' : Threads Q}
    (h : Threads.step label s = some s') :
    s'.service.measurementExecutor.submissions = s.service.measurementExecutor.submissions ∨
      ∃ i task now, s.pc i = .submit task ∧
        s'.service.measurementExecutor.submissions =
          s.service.measurementExecutor.submissions ++ [⟨task.wrapper, task, now⟩] := by
  cases label with
  | thread i io =>
      cases threadStep_move h with
      | walk _ _ _ _ _ _ _ hexecutor => exact .inl (by rw [hexecutor])
      | next _ _ _ _ hs' | clone _ _ _ _ _ _ _ hs' | add _ _ _ _ hs' | poll _ _ hs' =>
          rw [hs']
          exact .inl rfl
      | submit task now hpc _ hs' =>
          rw [hs']
          exact .inr ⟨i, task, now, hpc, rfl⟩
      | reject _ _ _ hs' | clear _ _ hs' =>
          rw [hs']
          exact .inl rfl
  | removeTaskByKey key =>
      cases h
      exact .inl (by rw [s.service.removeTaskByKey_measurementExecutor])
  | removePending task => cases h; exact .inl rfl
  | clearQueue => cases h; exact .inl rfl
  | shutdownExecutor => cases h; exact .inl rfl

/-- Every submission is in the wrapper that suits its task, the call under way is
one of a submission, and a real task was started by a `UserMeasurementTask`, or
after both tests. -/
structure Mediated (s : Execution Q) : Prop where
  suited : ∀ sub ∈ s.threads.service.measurementExecutor.submissions,
    sub.wrapper = sub.task.wrapper
  call : ∀ c, s.call = some c → c.sub ∈ s.threads.service.measurementExecutor.submissions
  started : ∀ st ∈ s.started, st.pauseRequested = some false ∧ st.canSchedule = some true ∨
    ∃ sub ∈ s.threads.service.measurementExecutor.submissions,
      sub.wrapper = .userMeasurementTask ∧ sub.task = st.task

theorem reachable_tested {s : Execution Q} (h : (executions Q).Reachable s) {c : Call}
    (hc : s.call = some c) (hpower : c.sub.wrapper = .powerAwareTask) : c.Tested := by
  refine reachable_call (P := fun c => c.sub.wrapper = .powerAwareTask → c.Tested)
    (fun _ _ _ => trivial) ?_ h c hc hpower
  intro c io pc htested hcall hpower
  rw [Call.after_sub] at hpower
  rw [hpower] at hcall
  exact (htested hpower).after hcall

theorem Mediated.threads {label : Label} {s : Execution Q} {threads : Threads Q}
    (h : Mediated s) (hstep : Threads.step label s.threads = some threads) :
    Mediated { s with threads } := by
  have hgrows : s.threads.service.measurementExecutor.submissions ⊆
      threads.service.measurementExecutor.submissions := by
    rcases Threads.step_submissions hstep with hsame | ⟨_, _, _, -, happend⟩
    · rw [hsame]
      exact List.Subset.refl _
    · rw [happend]
      exact List.subset_append_left ..
  constructor
  · intro sub hsub
    rcases Threads.step_submissions hstep with hsame | ⟨_, task, now, -, happend⟩
    · exact h.suited sub (hsame ▸ hsub)
    · rw [show ({ s with threads } : Execution Q).threads = threads from rfl, happend] at hsub
      rcases List.mem_append.mp hsub with hsub | hsub
      · exact h.suited sub hsub
      · rw [List.mem_singleton.mp hsub]
  · intro c hc
    exact hgrows (h.call c hc)
  · intro st hst
    rcases h.started st hst with hread | ⟨sub, hsub, huser, htask⟩
    · exact .inl hread
    · exact .inr ⟨sub, hgrows hsub, huser, htask⟩

theorem Mediated.call_step {io : CallIo} {s s' : Execution Q} (h : Mediated s)
    (hreach : (executions Q).Reachable s) (hstep : s.step (.call io) = some s') :
    Mediated s' := by
  rcases Execution.step_call hstep with ⟨c, pc, hcall, hpc, rfl⟩
  have hsub := h.call c hcall
  refine ⟨h.suited, ?_, ?_⟩
  · intro c' hc'
    dsimp only at hc'
    split at hc'
    · cases hc'
    · cases hc'
      rw [Call.after_sub]
      exact hsub
  · intro st hst
    rcases List.mem_append.mp hst with hst | hst
    · exact h.started st hst
    · unfold Call.starts at hst
      split at hst
      · rename_i hcalls _
        rw [List.mem_singleton.mp hst]
        -- a real task starts here: by which wrapper
        cases hwrapper : c.sub.wrapper with
        | userMeasurementTask => exact .inr ⟨c.sub, hsub, hwrapper, rfl⟩
        | powerAwareTask =>
            have hread := reachable_tested hreach hcall hwrapper
            simp only [Call.Tested, hcalls] at hread
            exact .inl hread
      · cases hst

theorem reachable_mediated {s : Execution Q} (h : (executions Q).Reachable s) : Mediated s := by
  refine h.invariant_of (P := Mediated) ?_ ?_
  · intro s₀ hinit
    rw [show s₀ = Execution.created from hinit]
    refine ⟨?_, ?_, ?_⟩
    · intro sub hsub
      cases hsub
    · intro c hc
      cases hc
    · intro st hst
      cases hst
  · intro label s s' hreach hs _ hstep
    cases label with
    | threads label =>
        rcases Option.map_eq_some_iff.mp hstep with ⟨threads, hthreads, rfl⟩
        exact hs.threads hthreads
    | take =>
        rcases Execution.step_take hstep with ⟨sub, hsub, -, rfl⟩
        refine ⟨hs.suited, ?_, hs.started⟩
        rintro c ⟨⟩
        exact hsub
    | drop =>
        rcases Execution.step_drop hstep with rfl
        exact ⟨hs.suited, hs.call, hs.started⟩
    | call io => exact hs.call_step hreach hstep

/-! ## A check-in that brings one task -/

/-- Thread 0 checks in, receives `d` alone, submits it to the queue (`n` steps of
`submitTask`) and from there to the executor. -/
def dispatchSteps (d : AcceptedDesc) (n : ℕ) : List ExecutionLabel :=
  List.map ExecutionLabel.threads
    (.thread 0 (.checkin [d]) :: List.replicate (n + 3) (.thread 0 (.clock 0)) ++
      .thread 0 (.consented true) :: List.replicate 4 (.thread 0 (.clock 0)))

/-- The same for a task of `USER_PRIORITY`, whose wrapper gets as far as its
`setCurrentTask(realTask)`. -/
def userTaskSteps : List ExecutionLabel :=
  dispatchSteps (ofPriority userPriority) 2 ++ [.take, .call .returned, .call .returned]

end MobiPerf.Scheduler
