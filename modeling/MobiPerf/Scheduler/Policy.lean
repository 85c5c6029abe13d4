import MobiPerf.Scheduler.Execution

/-!
# Scheduler.Policy — tasks of the server and the user's policy

A `PowerAwareTask` runs only while the user has not paused the scheduler and the
battery permits; a `UserMeasurementTask` runs always. Which of the two a task gets
is decided by its priority, and for the tasks of a check-in that is a number the
server has sent. The runs are those of `Scheduler.Execution`, with a record of the
objects that come from a check-in: those made of its entries, and their clones.

* `policyKept_runs`: where no entry of a schedule has `USER_PRIORITY`, the real task
  of an object that comes from a check-in is started only after both tests.
* `not_policyKept_userPriority`: with such an entry it is started untested.
-/

namespace MobiPerf.Scheduler

open Lib

variable {Q : Type} [PriorityQueue Q MeasurementTask MeasurementTask.Le]

/-! ## Objects that come from a check-in -/

/-- A run's state, and which task objects come from a check-in. -/
structure Policy (Q : Type) where
  execution : Execution Q
  fromServer : ℕ → Bool

/-- The object that thread `i` makes next comes from a check-in: it is made of an
entry, or cloned from one that does. -/
def Policy.makesServerTask (s : Policy Q) (i : ℕ) : Bool :=
  match s.execution.threads.pc i with
  | .next _ .handle => true
  | .clone task => s.fromServer task.ref
  | _ => false

/-- The record after a step of thread `i` that leads to `threads`. -/
def Policy.fromServerAfter (s : Policy Q) (i : ℕ) (threads : Threads Q) : ℕ → Bool :=
  let nextRef := s.execution.threads.service.nextRef
  if threads.service.nextRef = nextRef then s.fromServer
  else Function.update s.fromServer nextRef (s.makesServerTask i)

def Policy.step (label : ExecutionLabel) (s : Policy Q) : Option (Policy Q) :=
  (s.execution.step label).map fun execution => {
    execution
    fromServer :=
      match label with
      | .threads (.thread i _) => s.fromServerAfter i execution.threads
      | _ => s.fromServer }

def policies (Q : Type) [PriorityQueue Q MeasurementTask MeasurementTask.Le] :
    System (Policy Q) ExecutionLabel where
  Init s := s = ⟨Execution.created, fun _ => false⟩
  step := Policy.step

/-- A task that comes from a check-in was started only after its wrapper had read
that no pause is requested and that an experiment can be scheduled. -/
def Policy.Kept (s : Policy Q) : Prop :=
  ∀ st ∈ s.execution.started, s.fromServer st.task.ref = true →
    st.pauseRequested = some false ∧ st.canSchedule = some true

/-- No entry of a schedule has `USER_PRIORITY`. -/
def ServerPriorities : ExecutionLabel → Policy Q → Prop
  | .threads (.thread _ (.checkin ds)), _ => ∀ d ∈ ds, d.1.priority ≠ userPriority
  | _, _ => True

/-! ## No task of the server has the user's priority -/

/-- A task object that exists, without `USER_PRIORITY` if it comes from a check-in. -/
def Policy.Harmless (s : Policy Q) (t : MeasurementTask) : Prop :=
  t.ref < s.execution.threads.service.nextRef ∧
    (s.fromServer t.ref = true → t.desc.priority ≠ userPriority)

/-- The entries of a schedule that a thread still has to submit. -/
def Pc.entries : Pc → List AcceptedDesc
  | .clear ds => ds
  | .next rest .handle => rest
  | .size _ rest .handle | .pendingSize _ rest .handle | .add _ rest .handle => rest
  | _ => []

/-- The invariant: in the queue, in a thread's hands and in the executor, there
are harmless tasks only, and harmless entries on their way there. -/
structure AllHarmless (s : Policy Q) : Prop where
  queue : ∀ t ∈ PriorityQueue.toList s.execution.threads.service.taskQueue, s.Harmless t
  inHand : ∀ i t, (s.execution.threads.pc i).task = some t → s.Harmless t
  entries : ∀ i, ∀ d ∈ (s.execution.threads.pc i).entries, d.1.priority ≠ userPriority
  submitted : ∀ sub ∈ s.execution.threads.service.measurementExecutor.submissions,
    s.Harmless sub.task

omit [PriorityQueue Q MeasurementTask MeasurementTask.Le] in
/-- A thread at `old` moves to `pc`, with entries it had. -/
theorem entries_of_update {i : ℕ} {s s' : Threads Q} {old pc : Pc} {d : AcceptedDesc}
    (hold : s.pc i = old) (hpc : s'.pc = Function.update s.pc i pc)
    (hentries : pc.entries ⊆ old.entries) (hd : d ∈ (s'.pc i).entries) :
    d ∈ (s.pc i).entries := by
  rw [hpc, Function.update_self] at hd
  rw [hold]
  exact hentries hd

/-- A step leaves a thread with entries it had, or with those of the schedule it
has just received. -/
theorem threadStep_entries {i : ℕ} {io : Io} {s s' : Threads Q}
    (h : s.threadStep i io = some s') {d : AcceptedDesc} (hd : d ∈ (s'.pc i).entries) :
    d ∈ (s.pc i).entries ∨ ∃ ds, io = .checkin ds ∧ d ∈ ds := by
  -- a move on with the same entries
  have hsame : ∀ {old pc : Pc}, s.pc i = old → pc.entries = old.entries →
      some (s.goto i pc) = some s' → d ∈ (s.pc i).entries := by
    rintro old pc hpc hentries ⟨⟩
    exact entries_of_update hpc rfl (hentries ▸ List.Subset.refl _) hd
  unfold Threads.threadStep at h
  split at h
  case h_2 ds hpc =>
    -- a check-in has received its schedule
    cases h
    right
    refine ⟨ds, rfl, ?_⟩
    simpa [Threads.goto, Pc.entries] using hd
  all_goals left
  case h_4 userConsented hpc =>
    -- the test of the consent
    cases h
    refine entries_of_update hpc rfl ?_ hd
    cases userConsented <;> exact List.nil_subset _
  case h_7 task now hpc =>
    -- the test whether the head is due
    cases h
    refine entries_of_update hpc rfl ?_ hd
    split <;> exact List.nil_subset _
  case h_9 task now hpc =>
    -- `submit`, which throws after a shutdown
    split at h <;> cases h <;> exact entries_of_update hpc rfl (List.nil_subset _) hd
  case h_11 task now₁ now₂ parametersTaken hpc =>
    -- `clone`, if the task recurs
    split at h
    · split at h <;> cases h <;> exact entries_of_update hpc rfl (List.nil_subset _) hd
    · cases h
      exact entries_of_update hpc rfl (List.nil_subset _) hd
  case h_12 ds now hpc =>
    -- `removeAllUnscheduledTasks`
    cases h
    refine entries_of_update hpc rfl ?_ hd
    exact List.Subset.refl ds
  case h_13 after now hpc =>
    -- all tasks are submitted
    cases h
    refine entries_of_update hpc rfl ?_ hd
    cases after <;> exact List.nil_subset _
  case h_14 d' rest after now hpc =>
    -- the entry it makes an object of is no longer to be submitted
    cases h
    refine entries_of_update hpc rfl ?_ hd
    cases after with
    | handle => exact List.subset_cons_self d' rest
    | _ => exact List.nil_subset _
  case h_15 newTask rest after now hpc =>
    -- the first test of `submitTask`
    split at h
    · exact hsame hpc (by cases after <;> rfl) h
    · split at h
      · exact hsame hpc (by cases after <;> rfl) h
      · exact hsame hpc (by cases after <;> rfl) h
  case h_16 newTask rest after now hpc =>
    -- its second test
    split at h
    · exact hsame hpc (by cases after <;> rfl) h
    · exact hsame hpc (by cases after <;> rfl) h
  case h_17 newTask rest after now hpc =>
    -- `add`
    cases h
    refine entries_of_update hpc rfl ?_ hd
    cases after <;> exact List.Subset.refl _
  case h_18 hpc =>
    -- the head for the alarm
    split at h <;> cases h <;> exact entries_of_update hpc rfl (List.nil_subset _) hd
  case h_20 => cases h
  all_goals
    -- where the thread goes, no entries are left to submit
    rename_i hpc
    cases h
    exact entries_of_update hpc rfl (List.nil_subset _) hd

/-! ## Steps -/

section Steps

variable {s : Policy Q} {threads : Threads Q} {i : ℕ} {pc : Pc}

omit [PriorityQueue Q MeasurementTask MeasurementTask.Le] in
/-- What is harmless stays so, as later objects get later numbers. -/
theorem Policy.Harmless.mono {s' : Policy Q} {t : MeasurementTask} (h : s.Harmless t)
    (hnextRef : s.execution.threads.service.nextRef ≤ s'.execution.threads.service.nextRef)
    (hfrom : ∀ ref, ref < s.execution.threads.service.nextRef →
      s'.fromServer ref = s.fromServer ref) : s'.Harmless t := by
  refine ⟨Nat.lt_of_lt_of_le h.1 hnextRef, ?_⟩
  rw [hfrom t.ref h.1]
  exact h.2

/-- Thread `i` moves to `pc`. -/
theorem AllHarmless.update {s' : Policy Q} (h : AllHarmless s)
    (hpc : s'.execution.threads.pc = Function.update s.execution.threads.pc i pc)
    (hmono : ∀ t, s.Harmless t → s'.Harmless t)
    (hqueue : ∀ t ∈ PriorityQueue.toList s'.execution.threads.service.taskQueue,
      t ∈ PriorityQueue.toList s.execution.threads.service.taskQueue ∨ s'.Harmless t)
    (htask : ∀ t, pc.task = some t → s'.Harmless t)
    (hentries : ∀ d ∈ (s'.execution.threads.pc i).entries, d.1.priority ≠ userPriority)
    (hsubmitted : ∀ sub ∈ s'.execution.threads.service.measurementExecutor.submissions,
      sub ∈ s.execution.threads.service.measurementExecutor.submissions ∨
        s'.Harmless sub.task) : AllHarmless s' := by
  constructor
  · intro t ht
    -- a task in the queue was there before, or is harmless as the new one
    rcases hqueue t ht with hold | hnew
    · exact hmono t (h.queue t hold)
    · exact hnew
  · intro j t ht
    rw [hpc] at ht
    -- another thread holds what it held
    by_cases hj : j = i
    · subst hj
      rw [Function.update_self] at ht
      exact htask t ht
    · rw [Function.update_of_ne hj] at ht
      exact hmono t (h.inHand j t ht)
  · intro j d hd
    by_cases hj : j = i
    · subst hj
      exact hentries d hd
    · rw [hpc, Function.update_of_ne hj] at hd
      exact h.entries j d hd
  · intro sub hsub
    rcases hsubmitted sub hsub with hold | hnew
    · exact hmono sub.task (h.submitted sub hold)
    · exact hnew

omit [PriorityQueue Q MeasurementTask MeasurementTask.Le] in
/-- The record of the objects there are does not change. -/
theorem Policy.fromServerAfter_of_lt (s : Policy Q) (i : ℕ) (threads : Threads Q) {ref : ℕ}
    (h : ref < s.execution.threads.service.nextRef) :
    s.fromServerAfter i threads ref = s.fromServer ref := by
  unfold Policy.fromServerAfter
  split
  · rfl
  · exact Function.update_of_ne (Nat.ne_of_lt h) ..

omit [PriorityQueue Q MeasurementTask MeasurementTask.Le] in
/-- A new object comes from a check-in if its maker says so. -/
theorem Policy.fromServerAfter_new (s : Policy Q) (i : ℕ) {threads : Threads Q}
    (h : threads.service.nextRef = s.execution.threads.service.nextRef + 1) :
    s.fromServerAfter i threads s.execution.threads.service.nextRef = s.makesServerTask i := by
  unfold Policy.fromServerAfter
  rw [if_neg (by omega)]
  exact Function.update_self ..

omit [PriorityQueue Q MeasurementTask MeasurementTask.Le] in
/-- A new object is harmless if its maker gives it no `USER_PRIORITY` for a
check-in. -/
theorem Policy.harmless_new {t : MeasurementTask}
    (href : t.ref = s.execution.threads.service.nextRef)
    (hnextRef : threads.service.nextRef = s.execution.threads.service.nextRef + 1)
    (hpriority : s.makesServerTask i = true → t.desc.priority ≠ userPriority) :
    Policy.Harmless ⟨{ s.execution with threads }, s.fromServerAfter i threads⟩ t := by
  constructor
  · dsimp only
    omega
  · dsimp only
    rw [href, s.fromServerAfter_new i hnextRef]
    exact hpriority

theorem AllHarmless.threadStep {io : Io} (h : AllHarmless s)
    (hok : ∀ ds, io = .checkin ds → ∀ d ∈ ds, d.1.priority ≠ userPriority)
    (hstep : s.execution.threads.threadStep i io = some threads) :
    AllHarmless ⟨{ s.execution with threads }, s.fromServerAfter i threads⟩ := by
  have hentries : ∀ d ∈ (threads.pc i).entries, d.1.priority ≠ userPriority := by
    intro d hd
    rcases threadStep_entries hstep hd with hold | ⟨ds, hio, hds⟩
    · exact h.entries i d hold
    · exact hok ds hio d hds
  have hmono : s.execution.threads.service.nextRef ≤ threads.service.nextRef →
      ∀ t, s.Harmless t → Policy.Harmless ⟨{ s.execution with threads },
        s.fromServerAfter i threads⟩ t :=
    fun hle t ht => ht.mono hle fun ref href => s.fromServerAfter_of_lt i threads href
  have hold : ∀ {t}, (s.execution.threads.pc i).task = some t → s.Harmless t :=
    fun ht => h.inHand i _ ht
  cases threadStep_move hstep with
  | walk pc _ _ _ htask hpc hqueue hexecutor hnextRef _ =>
      have hmono' := hmono (Nat.le_of_eq hnextRef.symm)
      refine h.update hpc hmono' ?_ ?_ hentries ?_
      · intro t ht
        exact .inl (hqueue ▸ ht)
      · -- it has the task in hand already, or has just peeked it
        intro t ht
        rcases htask t ht with hsame | hpeek
        · exact hmono' t (hold hsame)
        · exact hmono' t (h.queue t (PriorityQueue.peek_mem hpeek))
      · intro sub hsub
        exact .inl (hexecutor ▸ hsub)
  | next d rest after hpc hs' =>
      subst hs'
      refine h.update rfl (hmono (Nat.le_succ _)) (fun t ht => .inl ht) ?_ hentries
        (fun sub hsub => .inl hsub)
      rintro t ⟨⟩
      refine Policy.harmless_new rfl rfl ?_
      intro hserver
      unfold Policy.makesServerTask at hserver
      rw [hpc] at hserver
      -- an object for a check-in is made of one of its entries
      cases after with
      | handle =>
          have hmem : d ∈ (s.execution.threads.pc i).entries := by
            rw [hpc]
            exact List.mem_cons_self
          exact h.entries i d hmem
      | _ => cases hserver
  | clone task newTask parametersTaken now₁ now₂ hpc hclone hs' =>
      subst hs'
      refine h.update rfl (hmono (Nat.le_succ _)) (fun t ht => .inl ht) ?_ hentries
        (fun sub hsub => .inl hsub)
      rintro t ⟨⟩
      have href : (newTask.advance task).ref = s.execution.threads.service.nextRef :=
        (newTask.advance_ref task).trans (MeasurementDesc.clone_ref hclone)
      refine Policy.harmless_new href rfl ?_
      intro hserver
      unfold Policy.makesServerTask at hserver
      rw [hpc] at hserver
      -- the clone has the priority of the task, which comes from a check-in too
      rw [newTask.advance_priority task, MeasurementDesc.clone_priority hclone,
        task.desc.atClone_priority]
      exact (hold (by rw [hpc]; rfl)).2 hserver
  | add newTask rest after hpc hs' =>
      subst hs'
      have hmono' := hmono (Nat.le_refl _)
      refine h.update rfl hmono' ?_ ?_ hentries (fun sub hsub => .inl hsub)
      · intro t ht
        rcases PriorityQueue.mem_add.mp ht with rfl | ht
        · exact .inr (hmono' t (hold (by rw [hpc]; rfl)))
        · exact .inl ht
      · intro t ht
        cases ht
  | poll task hpc hs' =>
      subst hs'
      have hmono' := hmono (Nat.le_refl _)
      refine h.update rfl hmono' ?_ ?_ hentries (fun sub hsub => .inl hsub)
      · intro t ht
        exact .inl ((PriorityQueue.poll_subperm _).subset ht)
      · rintro t ⟨⟩
        exact hmono' task (hold (by rw [hpc]; rfl))
  | submit task now hpc _ hs' =>
      subst hs'
      have hmono' := hmono (Nat.le_refl _)
      have htask := hmono' task (hold (by rw [hpc]; rfl))
      refine h.update rfl hmono' (fun t ht => .inl ht) ?_ hentries ?_
      · rintro t ⟨⟩
        exact htask
      · -- the submissions grow by the task that was in hand
        intro sub hsub
        rcases List.mem_append.mp hsub with hsub | hsub
        · exact .inl hsub
        · rw [List.mem_singleton.mp hsub]
          exact .inr htask
  | reject task hpc _ hs' =>
      subst hs'
      refine h.update rfl (hmono (Nat.le_refl _)) (fun t ht => .inl ht) ?_ hentries
        (fun sub hsub => .inl hsub)
      intro t ht
      cases ht
  | clear tasksFromServer hpc hs' =>
      subst hs'
      refine h.update rfl (hmono (Nat.le_refl _)) ?_ ?_ hentries (fun sub hsub => .inl hsub)
      · intro t ht
        exact .inl ((PriorityQueue.empty_subperm _).subset ht)
      · intro t ht
        cases ht

/-- A step that makes and submits nothing and moves no thread on. -/
theorem AllHarmless.frame {s' : Policy Q} (h : AllHarmless s)
    (hfrom : s'.fromServer = s.fromServer)
    (hpc : s'.execution.threads.pc = s.execution.threads.pc)
    (hnextRef : s'.execution.threads.service.nextRef = s.execution.threads.service.nextRef)
    (hqueue : PriorityQueue.toList s'.execution.threads.service.taskQueue ⊆
      PriorityQueue.toList s.execution.threads.service.taskQueue)
    (hsubmitted : s'.execution.threads.service.measurementExecutor.submissions =
      s.execution.threads.service.measurementExecutor.submissions) : AllHarmless s' := by
  have hmono : ∀ t, s.Harmless t → s'.Harmless t :=
    fun t ht => ht.mono (Nat.le_of_eq hnextRef.symm) fun ref _ => congrFun hfrom ref
  constructor
  · exact fun t ht => hmono t (h.queue t (hqueue ht))
  · exact fun i t ht => hmono t (h.inHand i t (hpc ▸ ht))
  · exact fun i d hd => h.entries i d (hpc ▸ hd)
  · exact fun sub hsub => hmono sub.task (h.submitted sub (hsubmitted ▸ hsub))

theorem step_allHarmless {label : ExecutionLabel} {s' : Policy Q} (h : AllHarmless s)
    (hok : ServerPriorities label s) (hstep : (policies Q).step label s = some s') :
    AllHarmless s' := by
  rcases Option.map_eq_some_iff.mp hstep with ⟨execution, hexecution, rfl⟩
  cases label with
  | threads label =>
      rcases Option.map_eq_some_iff.mp hexecution with ⟨threads, hthreads, rfl⟩
      -- a thread's step is the only one with entries or with a new task
      cases label with
      | thread i io =>
          -- the server's entries are the ones the guard is about
          refine h.threadStep ?_ hthreads
          rintro ds rfl
          exact hok
      | removeTaskByKey key =>
          cases hthreads
          have hframe := s.execution.threads.service.removeTaskByKey_frame key
          refine h.frame rfl rfl hframe.2 hframe.1.subset ?_
          dsimp only
          rw [s.execution.threads.service.removeTaskByKey_measurementExecutor key]
      | removePending task =>
          cases hthreads
          exact h.frame rfl rfl rfl (List.Subset.refl _) rfl
      | clearQueue =>
          cases hthreads
          exact h.frame rfl rfl rfl (PriorityQueue.empty_subperm _).subset rfl
      | shutdownExecutor =>
          cases hthreads
          exact h.frame rfl rfl rfl (List.Subset.refl _) rfl
  | take =>
      rcases Execution.step_take hexecution with ⟨sub, -, -, rfl⟩
      exact h.frame rfl rfl rfl (List.Subset.refl _) rfl
  | drop =>
      rcases Execution.step_drop hexecution with rfl
      exact h.frame rfl rfl rfl (List.Subset.refl _) rfl
  | call io =>
      rcases Execution.step_call hexecution with ⟨c, pc, -, -, rfl⟩
      exact h.frame rfl rfl rfl (List.Subset.refl _) rfl

end Steps

/-! ## Runs -/

theorem reachable_allHarmless {s : Policy Q} (h : (policies Q).ReachableBy ServerPriorities s) :
    AllHarmless s := by
  refine h.invariant (P := AllHarmless) ?_ fun label s s' hs hok => step_allHarmless hs hok
  intro s₀ hinit
  rw [show s₀ = ⟨Execution.created, fun _ => false⟩ from hinit]
  have hqueue : PriorityQueue.toList (Threads.created : Threads Q).service.taskQueue = [] :=
    PriorityQueue.toList_empty
  constructor
  · intro t ht
    dsimp only [Execution.created] at ht
    rw [hqueue] at ht
    cases ht
  · intro i t ht
    cases ht
  · intro i d hd
    cases hd
  · intro sub hsub
    cases hsub

/-- The steps of a run with its record are those of a run of the executor. -/
theorem reachable_execution {s : Policy Q} (h : (policies Q).Reachable s) :
    (executions Q).Reachable s.execution := by
  refine h.invariant (P := fun s => (executions Q).Reachable s.execution) ?_ ?_
  · intro s₀ hinit
    rw [show s₀ = ⟨Execution.created, fun _ => false⟩ from hinit]
    exact System.ReachableBy.init rfl
  · intro label s s' hs hstep
    rcases Option.map_eq_some_iff.mp hstep with ⟨execution, hexecution, rfl⟩
    exact hs.tail trivial hexecution

/-- Where no entry of a schedule has `USER_PRIORITY`, the server does not override
the user's policy, by any entry or any clone of one. -/
theorem policyKept_runs {s : Policy Q} (h : (policies Q).ReachableBy ServerPriorities s) :
    s.Kept := by
  intro st hst hserver
  have hmediated := reachable_mediated (reachable_execution h.reachable)
  rcases hmediated.started st hst with hread | ⟨sub, hsub, huser, htask⟩
  · exact hread
  · -- a `UserMeasurementTask` has a task of `USER_PRIORITY`
    have hharmless := (reachable_allHarmless h).submitted sub hsub
    have hwrapper := hmediated.suited sub hsub
    rw [huser] at hwrapper
    unfold MeasurementTask.wrapper at hwrapper
    split at hwrapper
    · rename_i hpriority
      exact absurd hpriority (hharmless.2 (htask ▸ hserver))
    · cases hwrapper

/-! ## Executed runs -/

instance : (label : ExecutionLabel) → (s : Policy Q) → Decidable (ServerPriorities label s)
  | .threads (.thread _ (.checkin ds)), _ =>
    inferInstanceAs (Decidable (∀ d ∈ ds, d.1.priority ≠ userPriority))
  | .threads (.thread _ .handleMeasurement), _ | .threads (.thread _ (.submitTask _)), _
  | .threads (.thread _ (.consented _)), _ | .threads (.thread _ (.clock _)), _
  | .threads (.thread _ (.cloneClock _ _ _)), _ | .threads (.removeTaskByKey _), _
  | .threads (.removePending _), _ | .threads .clearQueue, _ | .threads .shutdownExecutor, _
  | .take, _ | .drop, _ | .call _, _ => isTrue trivial

/-- An entry of priority 1 is started when both tests let it pass. -/
theorem policyKept_runs_priority1 :
    ∃ s : Policy (SortedQueue MeasurementTask.Le), s.Kept ∧ s.fromServer 0 = true ∧
      (s.execution.started.map fun st => st.task.ref) = [0] := by
  have hrun : ((policies (SortedQueue MeasurementTask.Le)).runBy ServerPriorities
      (dispatchSteps (ofPriority 1) 3 ++ [.take, .call .returned, .call .returned,
        .call (.read false), .call (.read true)] ++ List.replicate 3 (.call .returned))
      ⟨Execution.created, fun _ => false⟩).any fun s =>
      s.fromServer 0 = true ∧ (s.execution.started.map fun st => st.task.ref) = [0] := by
    decide +kernel
  rcases (Option.any_eq_true _ _).mp hrun with ⟨s, hsteps, hs⟩
  have hreach : (policies _).ReachableBy ServerPriorities s :=
    (System.ReachableBy.init rfl).steps (System.steps_of_runBy hsteps)
  exact ⟨s, policyKept_runs hreach, of_decide_eq_true hs⟩

/-- An entry of `USER_PRIORITY` is started, and neither the preference nor the
battery was looked at. -/
theorem not_policyKept_userPriority :
    ∃ s : Policy (SortedQueue MeasurementTask.Le), (policies _).Reachable s ∧ ¬ s.Kept := by
  have hrun : ((policies (SortedQueue MeasurementTask.Le)).run
      (userTaskSteps ++ List.replicate 3 (.call .returned))
      ⟨Execution.created, fun _ => false⟩).any fun s =>
      s.execution.started.any fun st =>
        s.fromServer st.task.ref = true ∧ st.pauseRequested = none := by
    decide +kernel
  rcases (Option.any_eq_true _ _).mp hrun with ⟨s, hsteps, hs⟩
  rcases List.any_eq_true.mp hs with ⟨st, hst, hread⟩
  rcases of_decide_eq_true hread with ⟨hserver, hnone⟩
  refine ⟨s, System.reachable_of_run rfl hsteps, ?_⟩
  intro hkept
  have hpause := (hkept st hst hserver).1
  rw [hnone] at hpause
  cases hpause

end MobiPerf.Scheduler
