import Mathlib.Data.Set.Basic
import MobiPerf.Lib.Reached
import MobiPerf.Scheduler.Service

/-!
# Scheduler.Upload — what `uploadResults` does with completed results

`uploadResults` first empties the pending map of every task that is finished,
cancelled, failed or overdue, collecting their results, and then posts what it
collected. The loop visits the keys of the map in whatever order the map iterates,
takes entries out while it does, and asks each future how it ended through nested
handlers; an exception that none of them takes ends the call there. The collected
results are in a local variable of the call: what the server does not acknowledge is
nowhere once the call is over.

* `UploadEnv.visitFrom_settled`: the loop settles each entry it reaches by the state
  of its future, and stops at the first whose failure cannot be reported.
* `keepsResults_iff`: when no completed result is lost.

The JSON library and the HTTP client are not part of the program; `Json` and
`Request` are what they answer, and nothing is assumed of the answers.
-/

namespace MobiPerf.Scheduler

open Lib

/-! ## What a call reads -/

/-- A result with the task it is of. -/
abbrev Finished := MeasurementTask × MeasurementResult

/-- What a call of the JSON library throws: a `JSONException` or another
exception. -/
inductive JsonFailure where
  | json (msg : String)
  | other (e : JavaException)
deriving DecidableEq, Repr

/-- `encodeToJson`, and the field `success` of the object in a response. -/
structure Json where
  encodeToJson : MeasurementResult → Except JsonFailure String
  readSuccess : Option String → Except JsonFailure Bool

/-- What `serviceRequest` finds: the account, the cookie it has, the cookie
`checkGetCookie` leaves (`none` when it returns false) and the response (`none`
when `execute` throws). -/
structure Request where
  isAnonymous : Bool
  hasAuthCookie : Bool
  checkGetCookie : Option Bool
  execute : Option String
deriving DecidableEq, Repr

/-- What one call of `uploadResults` reads from outside. `device` is what the phone
answers when the failure of a task is reported; `errorText` is the text of an error and
its stack trace, as the JSON library writes it. -/
structure UploadEnv where
  deadlineNow : MeasurementTask → Int
  resultNow : MeasurementTask → Int
  device : MeasurementTask → Device
  errorText : Throwable → String
  json : Json
  request : Request

def UploadEnv.getFailureResult (env : UploadEnv) (task : MeasurementTask) (error : Throwable) :
    Except JavaException MeasurementResult :=
  match (env.device task).getDeviceProperty with
  | none => .error .nullPointer
  | some _ => .ok {
      taskKey := task.desc.key
      type := task.desc.type
      timestamp := toLong (env.resultNow task * 1000)
      success := false
      values := [("error", env.errorText error)] }

/-! ## Asking a future -/

/-- What `Future.get` throws. -/
inductive GetFailure where
  | execution (cause : Throwable)
  | cancellation
deriving DecidableEq, Repr

def FutureState.isDone : FutureState → Bool
  | .running => false
  | _ => true

def FutureState.isCancelled : FutureState → Bool
  | .cancelled => true
  | _ => false

/-- `get` on a future that is done, which does not wait; `none` stands for the
wait of one that is not. -/
def FutureState.get : FutureState → Option (Except GetFailure MeasurementResult)
  | .running => none
  | .returned result => some (.ok result)
  | .threw cause => some (.error (.execution cause))
  | .cancelled => some (.error .cancellation)

/-- `cause instanceof MeasurementSkippedException`. -/
def Throwable.isSkip : Throwable → Bool
  | .measurementSkipped _ => true
  | _ => false

/-! ## Collecting the results -/

/-- Where the loop is: the map, `finishedTasks`, the tasks on whose futures it has
called `cancel(true)`, and the exception that has ended it. -/
structure UploadState where
  pendingTasks : PendingTasks
  finishedTasks : List Finished
  cancelled : List MeasurementTask
  thrown : Option JavaException

def UploadState.remove (st : UploadState) (task : MeasurementTask) : UploadState :=
  { st with pendingTasks := st.pendingTasks.erase task }

def UploadState.cancel (st : UploadState) (task : MeasurementTask) : UploadState :=
  { st with cancelled := st.cancelled ++ [task] }

/-- `finishedTasks.add` of a result that may throw as it is built. -/
def UploadState.add (st : UploadState) (task : MeasurementTask)
    (result : Except JavaException MeasurementResult) : UploadState :=
  match result with
  | .ok result => { st with finishedTasks := st.finishedTasks ++ [(task, result)] }
  | .error e => { st with thrown := some e }

/-- The body of the loop. -/
def UploadEnv.visit (env : UploadEnv) (st : UploadState) (task : MeasurementTask) : UploadState :=
  match st.pendingTasks.lookup task with
  | some future =>
    if future.isDone then
      let st := st.remove task
      if future.isCancelled then
        st.add task (env.getFailureResult task (.cancellation "Task cancelled"))
      else
        match future.get with
        | some (.ok result) => st.add task (.ok result)
        | some (.error (.execution cause)) =>
          -- no need to report skipped measurements
          if cause.isSkip then st else st.add task (env.getFailureResult task cause)
        | some (.error .cancellation) | none => st
    else if task.isPassedDeadline (env.deadlineNow task) then
      ((st.remove task).cancel task).add task
        (env.getFailureResult task (.runtime "Deadline passed before execution"))
    else st
  | none =>
    (st.remove task).add task
      (env.getFailureResult task (.runtime "Task scheduled after deadline"))

/-- The loop from here on, which an exception ends. -/
def UploadEnv.visitFrom (env : UploadEnv) : List MeasurementTask → UploadState → UploadState
  | [], st => st
  | task :: order, st =>
    if (env.visit st task).thrown.isSome then env.visit st task
    else env.visitFrom order (env.visit st task)

/-- The loop over the keys, in the order in which the map iterates. -/
def UploadEnv.visitAll (env : UploadEnv) (order : List MeasurementTask) (p : PendingTasks) :
    UploadState :=
  env.visitFrom order ⟨p, [], [], none⟩

/-! ## Posting them -/

/-- `serviceRequest`; a null cookie is dereferenced for the header. -/
def Request.serviceRequest (r : Request) : Except JavaException (Option String) :=
  if r.isAnonymous ∨ r.hasAuthCookie then .ok r.execute
  else
    match r.checkGetCookie with
    | none => .error (.io "serviceRequest: No authCookie yet")
    | some true => .ok r.execute
    | some false => .error .nullPointer

/-- The results that get into the array that is posted. -/
def Json.resultArray (json : Json) : List Finished → Except JavaException (List Finished)
  | [] => .ok []
  | finished :: finishedTasks =>
    match json.encodeToJson finished.2 with
    | .ok _ => (json.resultArray finishedTasks).map fun array => finished :: array
    | .error (.json _) => json.resultArray finishedTasks
    | .error (.other e) => .error e

/-- `uploadMeasurementResult`: the results the server acknowledged, and how the
call ended. -/
def UploadEnv.uploadMeasurementResult (env : UploadEnv) (finishedTasks : List Finished) :
    List Finished × Except JavaException Unit :=
  match env.json.resultArray finishedTasks with
  | .error e => ([], .error e)
  | .ok array =>
    match env.request.serviceRequest with
    | .error e => ([], .error e)
    | .ok response =>
      match env.json.readSuccess response with
      | .error (.json msg) => ([], .error (.io msg))
      | .error (.other e) => ([], .error e)
      | .ok false => ([], .error (.io "Failure posting measurement result"))
      | .ok true => (array, .ok ())

/-- The state a call of `uploadResults` leaves, what the server acknowledged in
it, and the exception it ended with, if it did. -/
structure UploadOutcome (Q : Type) where
  service : Service Q
  acknowledged : List Finished
  thrown : Option JavaException

variable {Q : Type}

def Service.uploadResults (s : Service Q) (env : UploadEnv) : UploadOutcome Q :=
  let st := env.visitAll s.pendingTasks.keys s.pendingTasks
  let s := { s with pendingTasks := st.pendingTasks }
  match st.thrown with
  | some e => ⟨s, [], some e⟩
  | none =>
    if st.finishedTasks.length > 0 then
      match env.uploadMeasurementResult st.finishedTasks with
      | (acknowledged, .ok ()) => ⟨s, acknowledged, none⟩
      -- an IOException is logged
      | (acknowledged, .error (.io _)) => ⟨s, acknowledged, none⟩
      | (acknowledged, .error e) => ⟨s, acknowledged, some e⟩
    else ⟨s, [], none⟩

/-! ## What an iteration does -/

/-- What the loop makes of a task and the future the map has for it: `none` leaves it in
the map, `some report` takes it out with a report, with none, or with an exception. -/
def UploadEnv.settle (env : UploadEnv) (task : MeasurementTask) :
    Option FutureState → Option (Except JavaException (Option MeasurementResult))
  | some (.returned result) => some (.ok (some result))
  | some .cancelled =>
    some ((env.getFailureResult task (.cancellation "Task cancelled")).map some)
  | some (.threw (.measurementSkipped _)) => some (.ok none)
  | some (.threw cause) => some ((env.getFailureResult task cause).map some)
  | some .running =>
    if task.isPassedDeadline (env.deadlineNow task) then
      some ((env.getFailureResult task (.runtime "Deadline passed before execution")).map some)
    else none
  | none => some ((env.getFailureResult task (.runtime "Task scheduled after deadline")).map some)

/-- The result that is reported for the task. -/
def UploadEnv.reported (env : UploadEnv) (task : MeasurementTask) (future : Option FutureState) :
    Option MeasurementResult :=
  match env.settle task future with
  | some (.ok report) => report
  | _ => none

/-- A result is reported when the future settles with one. -/
theorem UploadEnv.reported_eq_some_iff {env : UploadEnv} {task : MeasurementTask}
    {future : Option FutureState} {result : MeasurementResult} :
    env.reported task future = some result ↔
      env.settle task future = some (.ok (some result)) := by
  unfold reported
  split
  · rename_i report hsettle
    rw [hsettle]
    simp
  · rename_i hnot
    simp only [reduceCtorEq, false_iff]
    exact fun hsettle => hnot _ hsettle

/-- The exception that the task ends the loop with. -/
def UploadEnv.failure (env : UploadEnv) (task : MeasurementTask) (future : Option FutureState) :
    Option JavaException :=
  match env.settle task future with
  | some (.error e) => some e
  | _ => none

/-- The future of `task` is to be cancelled: not done, with the deadline past. -/
def UploadEnv.Overdue (env : UploadEnv) (task : MeasurementTask) (future : Option FutureState) :
    Prop :=
  future = some .running ∧ task.isPassedDeadline (env.deadlineNow task) = true

instance (env : UploadEnv) (task : MeasurementTask) (future : Option FutureState) :
    Decidable (env.Overdue task future) :=
  inferInstanceAs (Decidable (_ ∧ _))

/-- A task whose future the map knows is settled by that future. -/
theorem UploadEnv.visit_eq (env : UploadEnv) (st : UploadState) (task : MeasurementTask) :
    env.visit st task = {
      pendingTasks :=
        if (env.settle task (st.pendingTasks.lookup task)).isSome then st.pendingTasks.erase task
        else st.pendingTasks
      finishedTasks := st.finishedTasks ++
        ((env.reported task (st.pendingTasks.lookup task)).map fun result => (task, result)).toList
      cancelled := st.cancelled ++
        if env.Overdue task (st.pendingTasks.lookup task) then [task] else []
      thrown := (env.failure task (st.pendingTasks.lookup task)).or st.thrown } := by
  -- the result is added unless its construction threw, which is then what the visit throws
  have hadd : ∀ (st : UploadState) (result : Except JavaException MeasurementResult),
      st.add task result = { st with
        finishedTasks := st.finishedTasks ++
          (result.toOption.map fun result => (task, result)).toList
        thrown := match result with
          | .ok _ => st.thrown
          | .error e => some e } := by
    rintro st (e | result)
    · simp [UploadState.add, Except.toOption]
    · rfl
  unfold visit reported failure Overdue
  -- as the loop does: no future at all, a future that runs, and one that is done
  cases hfuture : st.pendingTasks.lookup task with
  -- scheduled after its deadline
  | none =>
      dsimp only
      rw [hadd]
      cases hresult : env.getFailureResult task (.runtime "Task scheduled after deadline") <;>
        simp [settle, hresult, UploadState.remove, Except.map, Except.toOption]
  | some future =>
      cases future with
      | running =>
          -- a task past its deadline is cancelled; one that is not stays as it is
          by_cases hpassed : task.isPassedDeadline (env.deadlineNow task) = true
          · simp only [FutureState.isDone, hpassed, hadd]
            cases hresult :
                env.getFailureResult task (.runtime "Deadline passed before execution") <;>
              simp [settle, hpassed, hresult, UploadState.remove, UploadState.cancel, Except.map,
                Except.toOption]
          · simp [settle, FutureState.isDone, hpassed]
      | returned result =>
          simp [settle, FutureState.isDone, FutureState.isCancelled, FutureState.get,
            UploadState.remove, UploadState.add]
      -- a skipped measurement is removed without a result
      | threw cause =>
          cases cause with
          | measurementSkipped msg =>
              simp [settle, FutureState.isDone, FutureState.isCancelled, FutureState.get,
                Throwable.isSkip, UploadState.remove]
          | measurementError msg | cancellation msg | runtime msg =>
              simp only [FutureState.isDone, FutureState.isCancelled, FutureState.get,
                Throwable.isSkip, hadd, if_true, Bool.false_eq_true, if_false]
              cases hresult : env.getFailureResult task _ <;>
                simp [settle, hresult, UploadState.remove, Except.map, Except.toOption]
      | cancelled =>
          simp only [FutureState.isDone, FutureState.isCancelled, hadd]
          cases hresult : env.getFailureResult task (.cancellation "Task cancelled") <;>
            simp [settle, hresult, UploadState.remove, Except.map, Except.toOption]

/-! ## What the loop leaves -/

/-- The tasks the loop comes to before it is over. -/
def UploadEnv.reached (env : UploadEnv) (p : PendingTasks) (order : List MeasurementTask) :
    List MeasurementTask :=
  Lib.reached (fun t => (env.failure t (p.lookup t)).isSome) order

/-- The loop has settled these tasks, each by the future it had at the start. -/
structure UploadEnv.Settled (env : UploadEnv) (tasks : List MeasurementTask)
    (st st' : UploadState) : Prop where
  pendingTasks : ∀ t, st'.pendingTasks.lookup t =
    if t ∈ tasks ∧ (env.settle t (st.pendingTasks.lookup t)).isSome then none
    else st.pendingTasks.lookup t
  finishedTasks : st'.finishedTasks = st.finishedTasks ++ tasks.filterMap fun t =>
    (env.reported t (st.pendingTasks.lookup t)).map fun result => (t, result)
  cancelled : st'.cancelled =
    st.cancelled ++ tasks.filter fun t => env.Overdue t (st.pendingTasks.lookup t)
  thrown : st'.thrown =
    (tasks.filterMap fun t => env.failure t (st.pendingTasks.lookup t)).head?.or st.thrown

/-- Nothing is settled at the start. -/
theorem UploadEnv.settled_nil (env : UploadEnv) (st : UploadState) : env.Settled [] st st := by
  constructor <;> simp

/-- An iteration settles its task, and does not touch the futures of the others. -/
theorem UploadEnv.settled_visit (env : UploadEnv) (st : UploadState) (task : MeasurementTask) :
    env.Settled [task] st (env.visit st task) := by
  rw [env.visit_eq]
  refine ⟨?_, ?_, ?_, ?_⟩
  · intro t
    by_cases ht : t = task
    · subst ht
      by_cases hsettle : (env.settle t (st.pendingTasks.lookup t)).isSome
      · simp [hsettle]
      · simp [hsettle]
    · dsimp only
      split
      · simp [ht]
      · simp [ht]
  · cases hreported : env.reported task (st.pendingTasks.lookup task) <;> simp [hreported]
  · simp [List.filter_cons]
  · cases hfailure : env.failure task (st.pendingTasks.lookup task) <;> simp [hfailure]

/-- What one part of the loop leaves to other tasks, the next finds as it was. -/
theorem UploadEnv.Settled.append {env : UploadEnv} {tasks rest : List MeasurementTask}
    {st st' st'' : UploadState} (h : env.Settled tasks st st') (hrest : env.Settled rest st' st'')
    (hthrown : st'.thrown = none) (hdisjoint : ∀ t ∈ rest, t ∉ tasks) :
    env.Settled (tasks ++ rest) st st'' := by
  -- the first part has not touched the tasks of the second
  have hlookup : ∀ t ∈ rest, st'.pendingTasks.lookup t = st.pendingTasks.lookup t := by
    intro t ht
    rw [h.pendingTasks, if_neg (fun hboth => hdisjoint t ht hboth.1)]
  constructor
  · intro t
    by_cases ht : t ∈ rest
    · rw [hrest.pendingTasks, hlookup t ht]
      simp [ht]
    · rw [hrest.pendingTasks, if_neg (fun hboth => ht hboth.1), h.pendingTasks]
      simp [ht]
  · rw [hrest.finishedTasks, h.finishedTasks, List.filterMap_append, List.append_assoc]
    congr 2
    apply List.filterMap_congr
    intro t ht
    rw [hlookup t ht]
  · rw [hrest.cancelled, h.cancelled, List.filter_append, List.append_assoc]
    congr 2
    apply List.filter_congr
    intro t ht
    rw [hlookup t ht]
  · -- nothing was thrown in the first part, so what is thrown is the second part's
    have hnone := h.thrown
    rw [hthrown, eq_comm, Option.or_eq_none_iff] at hnone
    rw [hrest.thrown, hthrown, List.filterMap_append, List.head?_eq_none_iff.mp hnone.1, hnone.2]
    congr 2
    apply List.filterMap_congr
    intro t ht
    rw [hlookup t ht]

/-- The loop over any distinct tasks settles those it reaches. -/
theorem UploadEnv.visitFrom_settled (env : UploadEnv) {order : List MeasurementTask}
    (hnodup : order.Nodup) {st : UploadState} (hthrown : st.thrown = none) :
    env.Settled (env.reached st.pendingTasks order) st (env.visitFrom order st) := by
  induction order generalizing st with
  | nil => exact env.settled_nil st
  | cons task order ih =>
      have hfresh : task ∉ order := (List.nodup_cons.mp hnodup).1
      have hvisit := env.settled_visit st task
      have hthrown' : (env.visit st task).thrown =
          env.failure task (st.pendingTasks.lookup task) := by
        rw [hvisit.thrown, hthrown]
        simp
      unfold visitFrom
      cases hfailure : env.failure task (st.pendingTasks.lookup task) with
      | some e =>
          -- the exception ends the loop
          have hreached : env.reached st.pendingTasks (task :: order) = [task] :=
            reached_cons_of_stops (by rw [hfailure]; rfl)
          rw [hthrown', hfailure, if_pos (by rfl), hreached]
          exact hvisit
      | none =>
          rw [hfailure] at hthrown'
          have hrest := ih (List.nodup_cons.mp hnodup).2 hthrown'
          have hsame : env.reached (env.visit st task).pendingTasks order =
              env.reached st.pendingTasks order := by
            refine reached_congr fun t ht => ?_
            have hne : t ≠ task := by
              rintro rfl
              exact hfresh ht
            rw [hvisit.pendingTasks, if_neg (fun hboth => hne (List.mem_singleton.mp hboth.1))]
          have hreached : env.reached st.pendingTasks (task :: order) =
              [task] ++ env.reached st.pendingTasks order :=
            reached_cons_of_not (by rw [hfailure]; rfl)
          rw [hthrown', if_neg (by simp), hreached]
          refine hvisit.append (hsame ▸ hrest) hthrown' ?_
          intro t ht hself
          rw [List.mem_singleton.mp hself] at ht
          exact hfresh (mem_of_mem_reached ht)

section Loop

variable {env : UploadEnv} {p : PendingTasks} {order : List MeasurementTask}

/-- The loop settles what it reaches. -/
theorem visitAll_settled (hnodup : order.Nodup) :
    env.Settled (env.reached p order) ⟨p, [], [], none⟩ (env.visitAll order p) := by
  have hstart : (⟨p, [], [], none⟩ : UploadState).thrown = none := rfl
  exact env.visitFrom_settled hnodup hstart

/-- So it takes those entries out of the map. -/
theorem visitAll_lookup (hnodup : order.Nodup) (task : MeasurementTask) :
    (env.visitAll order p).pendingTasks.lookup task =
      if task ∈ env.reached p order ∧ (env.settle task (p.lookup task)).isSome then none
      else p.lookup task :=
  (visitAll_settled hnodup).pendingTasks task

/-- What the loop reports: the results of the tasks it has reached. -/
theorem mem_visitAll_finishedTasks (hnodup : order.Nodup) (x : Finished) :
    x ∈ (env.visitAll order p).finishedTasks ↔
      x.1 ∈ env.reached p order ∧ env.reported x.1 (p.lookup x.1) = some x.2 := by
  rw [(visitAll_settled hnodup).finishedTasks, List.nil_append, List.mem_filterMap]
  constructor
  · rintro ⟨t, ht, heq⟩
    obtain ⟨result, hresult, rfl⟩ := Option.map_eq_some_iff.mp heq
    exact ⟨ht, hresult⟩
  · rintro ⟨hx, hreported⟩
    exact ⟨x.1, hx, by rw [hreported]; rfl⟩

/-- It throws exactly when a failure cannot be reported. -/
theorem visitAll_thrown_isSome (hnodup : order.Nodup) :
    (env.visitAll order p).thrown.isSome ↔ ∃ t ∈ order, (env.failure t (p.lookup t)).isSome := by
  rw [(visitAll_settled hnodup).thrown, Option.or_none, ← exists_reached_iff, List.isSome_head?,
    Ne, List.filterMap_eq_nil_iff]
  simp only [not_forall, exists_prop, Option.isSome_iff_ne_none]
  exact Iff.rfl

end Loop

/-! ## A failure that cannot be reported -/

/-- The failure of the task is to be reported: it was cancelled, has failed otherwise than by
a skip, or is past its deadline. -/
def UploadEnv.Fails (env : UploadEnv) (task : MeasurementTask) : FutureState → Prop
  | .returned _ => False
  | .cancelled => True
  | .threw cause => cause.isSkip = false
  | .running => task.isPassedDeadline (env.deadlineNow task) = true

/-- The failure of the task is to be reported, and the phone does not say what cells are
around it. -/
def UploadEnv.Unreported (env : UploadEnv) (p : PendingTasks) (task : MeasurementTask) : Prop :=
  ∃ future, p.lookup task = some future ∧ env.Fails task future ∧
    (env.device task).neighboringCellInfo = none

/-- With the neighbouring cells a failure has a result. -/
theorem UploadEnv.getFailureResult_of_cells {env : UploadEnv} {task : MeasurementTask}
    (h : (env.device task).neighboringCellInfo ≠ none) (error : Throwable) :
    env.getFailureResult task error = .ok {
      taskKey := task.desc.key
      type := task.desc.type
      timestamp := toLong (env.resultNow task * 1000)
      success := false
      values := [("error", env.errorText error)] } := by
  have hsome : (env.device task).getDeviceProperty.isSome := by
    rw [Device.getDeviceProperty_isSome, Option.isSome_iff_ne_none]
    exact h
  obtain ⟨properties, hproperties⟩ := Option.isSome_iff_exists.mp hsome
  unfold getFailureResult
  rw [hproperties]

/-- Without them reporting it throws. -/
theorem UploadEnv.getFailureResult_of_no_cells {env : UploadEnv} {task : MeasurementTask}
    (h : (env.device task).neighboringCellInfo = none) (error : Throwable) :
    env.getFailureResult task error = .error .nullPointer := by
  have hnone : (env.device task).getDeviceProperty = none := by
    rw [← Option.not_isSome_iff_eq_none, Device.getDeviceProperty_isSome, h]
    simp
  unfold getFailureResult
  rw [hnone]

/-- That is what ends the loop. -/
theorem UploadEnv.failure_isSome_iff {env : UploadEnv} {p : PendingTasks} {task : MeasurementTask}
    (h : task ∈ p.keys) : (env.failure task (p.lookup task)).isSome ↔ env.Unreported p task := by
  obtain ⟨future, hfuture⟩ :=
    Option.isSome_iff_exists.mp (AList.lookup_isSome.mpr (AList.mem_keys.mpr h))
  have hunreported : env.Unreported p task ↔
      env.Fails task future ∧ (env.device task).neighboringCellInfo = none := by
    unfold Unreported
    rw [hfuture]
    simp
  rw [hfuture, hunreported]
  unfold failure Fails
  by_cases hcells : (env.device task).neighboringCellInfo = none
  · have hresult := getFailureResult_of_no_cells hcells
    cases future with
    | running =>
        by_cases hpassed : task.isPassedDeadline (env.deadlineNow task) = true
        · simp [settle, hpassed, hresult, hcells, Except.map]
        · simp [settle, hpassed]
    | threw cause => cases cause <;> simp [settle, hresult, hcells, Except.map, Throwable.isSkip]
    | returned result | cancelled => simp [settle, hresult, hcells, Except.map]
  · have hresult := getFailureResult_of_cells hcells
    cases future with
    | running =>
        by_cases hpassed : task.isPassedDeadline (env.deadlineNow task) = true
        · simp [settle, hpassed, hresult, hcells, Except.map]
        · simp [settle, hpassed]
    | threw cause => cases cause <;> simp [settle, hresult, hcells, Except.map, Throwable.isSkip]
    | returned result | cancelled => simp [settle, hresult, hcells, Except.map]

/-- Without such a failure the loop comes to its end. -/
theorem reached_eq_order {env : UploadEnv} {p : PendingTasks} {order : List MeasurementTask}
    (h : order.Perm p.keys) (hreported : ∀ task, ¬ env.Unreported p task) :
    env.reached p order = order := by
  refine reached_eq_self fun t ht => ?_
  rw [← Bool.not_eq_true, UploadEnv.failure_isSome_iff (h.mem_iff.mp ht)]
  exact hreported t

/-! ## What the server acknowledges -/

/-- The array that is posted holds the results that could be encoded. -/
theorem Json.mem_resultArray {json : Json} {finishedTasks array : List Finished}
    (h : json.resultArray finishedTasks = .ok array) (x : Finished) :
    x ∈ array ↔ x ∈ finishedTasks ∧ ∃ text, json.encodeToJson x.2 = .ok text := by
  induction finishedTasks generalizing array with
  | nil =>
      cases h
      simp
  | cons finished finishedTasks ih =>
      unfold resultArray at h
      split at h
      · -- the result can be encoded
        rename_i text hencode
        cases hrest : json.resultArray finishedTasks with
        | error e =>
            rw [hrest] at h
            cases h
        | ok rest =>
            rw [hrest] at h
            cases h
            rw [List.mem_cons, List.mem_cons, ih hrest]
            constructor
            · rintro (rfl | ⟨hx, hex⟩)
              · exact ⟨Or.inl rfl, text, hencode⟩
              · exact ⟨Or.inr hx, hex⟩
            · rintro ⟨rfl | hx, hex⟩
              · exact Or.inl rfl
              · exact Or.inr ⟨hx, hex⟩
      · -- a `JSONException` leaves it out
        rename_i msg hencode
        rw [ih h, List.mem_cons]
        constructor
        · rintro ⟨hx, hex⟩
          exact ⟨Or.inr hx, hex⟩
        · rintro ⟨rfl | hx, text, hex⟩
          · rw [hencode] at hex
            cases hex
          · exact ⟨hx, text, hex⟩
      · cases h

/-- Only an exception other than a `JSONException` keeps the array from being
built. -/
theorem Json.resultArray_ok {json : Json} {finishedTasks : List Finished} :
    (∃ array, json.resultArray finishedTasks = .ok array) ↔
      ∀ x ∈ finishedTasks, ∀ e, json.encodeToJson x.2 ≠ .error (.other e) := by
  induction finishedTasks with
  | nil =>
      constructor
      · intro _ x hx
        cases hx
      · intro _
        exact ⟨[], rfl⟩
  | cons finished finishedTasks ih =>
      unfold resultArray
      rw [List.forall_mem_cons, ← ih]
      split
      · -- the result is encoded and stands in front of the rest
        rename_i text hencode
        rw [hencode]
        constructor
        · rintro ⟨array, harray⟩
          cases hrest : json.resultArray finishedTasks with
          | error e =>
              rw [hrest] at harray
              cases harray
          | ok rest =>
              refine ⟨?_, rest, rfl⟩
              intro e he
              cases he
        · rintro ⟨_, rest, hrest⟩
          exact ⟨finished :: rest, by rw [hrest]; rfl⟩
      · -- a `JSONException` is caught: the result is left out
        rename_i msg hencode
        rw [hencode]
        constructor
        · intro harray
          refine ⟨?_, harray⟩
          intro e he
          cases he
        · intro h
          exact h.2
      · -- any other exception leaves the loop
        rename_i e hencode
        rw [hencode]
        constructor
        · rintro ⟨array, harray⟩
          cases harray
        · intro h
          exact absurd rfl (h.1 e)

/-- The request was answered with `success` true. -/
def UploadEnv.Succeeds (env : UploadEnv) : Prop :=
  ∃ response, env.request.serviceRequest = .ok response ∧
    env.json.readSuccess response = .ok true

/-- What is acknowledged: in a request that succeeds, the results in the array. -/
theorem UploadEnv.mem_acknowledged (env : UploadEnv) (finishedTasks : List Finished)
    (x : Finished) :
    x ∈ (env.uploadMeasurementResult finishedTasks).1 ↔
      env.Succeeds ∧ ∃ array, env.json.resultArray finishedTasks = .ok array ∧ x ∈ array := by
  unfold uploadMeasurementResult Succeeds
  cases env.json.resultArray finishedTasks with
  | error e => simp
  | ok array =>
      cases env.request.serviceRequest with
      | error e => simp
      | ok response =>
          cases hread : env.json.readSuccess response with
          | error failure => cases failure <;> simp [hread]
          | ok success => cases success <;> simp [hread]

/-! ## Held and acknowledged results -/

/-- The completed results the scheduler holds. -/
def Service.held (s : Service Q) : Set Finished :=
  { x | s.pendingTasks.lookup x.1 = some (.returned x.2) }

/-- After the call the scheduler holds what it held before, less what the server
acknowledged in the call. -/
def KeepsResults (s : Service Q) (env : UploadEnv) : Prop :=
  (s.uploadResults env).service.held =
    s.held \ { x | x ∈ (s.uploadResults env).acknowledged }

/-- The map is what the loop leaves of it. -/
theorem uploadResults_pendingTasks (s : Service Q) (env : UploadEnv) :
    (s.uploadResults env).service.pendingTasks =
      (env.visitAll s.pendingTasks.keys s.pendingTasks).pendingTasks := by
  unfold Service.uploadResults
  dsimp only
  split
  · rfl
  · split
    · split <;> rfl
    · rfl

/-- The call leaves no future in the map that was not there. -/
theorem lookup_of_lookup_uploadResults {s : Service Q} {env : UploadEnv} {task : MeasurementTask}
    {future : FutureState}
    (h : (s.uploadResults env).service.pendingTasks.lookup task = some future) :
    s.pendingTasks.lookup task = some future := by
  rw [uploadResults_pendingTasks, visitAll_lookup s.pendingTasks.keys_nodup] at h
  split at h
  · cases h
  · exact h

/-- The upload touches nothing else. -/
theorem uploadResults_frame (s : Service Q) (env : UploadEnv) :
    (s.uploadResults env).service.taskQueue = s.taskQueue ∧
      (s.uploadResults env).service.nextRef = s.nextRef ∧
      (s.uploadResults env).service.measurementExecutor = s.measurementExecutor := by
  unfold Service.uploadResults
  dsimp only
  split
  · exact ⟨rfl, rfl, rfl⟩
  · split
    · split <;> exact ⟨rfl, rfl, rfl⟩
    · exact ⟨rfl, rfl, rfl⟩

/-- Nothing is posted when an exception ends the loop. -/
theorem uploadResults_acknowledged_of_thrown {s : Service Q} {env : UploadEnv} {e : JavaException}
    (h : (env.visitAll s.pendingTasks.keys s.pendingTasks).thrown = some e) :
    (s.uploadResults env).acknowledged = [] := by
  unfold Service.uploadResults
  dsimp only
  rw [h]

/-- What the server acknowledges was collected and posted. -/
theorem mem_uploadResults_acknowledged {s : Service Q} {env : UploadEnv}
    (h : (env.visitAll s.pendingTasks.keys s.pendingTasks).thrown = none) (x : Finished) :
    x ∈ (s.uploadResults env).acknowledged ↔
      x ∈ (env.uploadMeasurementResult
        (env.visitAll s.pendingTasks.keys s.pendingTasks).finishedTasks).1 := by
  unfold Service.uploadResults
  dsimp only
  rw [h]
  dsimp only
  split
  · split <;> simp_all
  · rename_i hempty
    have hnil : (env.visitAll s.pendingTasks.keys s.pendingTasks).finishedTasks = [] :=
      List.length_eq_zero_iff.mp (Nat.eq_zero_of_not_pos hempty)
    rw [hnil, env.mem_acknowledged]
    simp [Json.resultArray]

/-- Whatever the upload does, the completed results that are left in the map are those the
loop has not come to. -/
theorem mem_held_uploadResults (s : Service Q) (env : UploadEnv) (x : Finished) :
    x ∈ (s.uploadResults env).service.held ↔
      x ∈ s.held ∧ x.1 ∉ env.reached s.pendingTasks s.pendingTasks.keys := by
  show (s.uploadResults env).service.pendingTasks.lookup x.1 = some (.returned x.2) ↔
    s.pendingTasks.lookup x.1 = some (.returned x.2) ∧ _
  rw [uploadResults_pendingTasks, visitAll_lookup s.pendingTasks.keys_nodup]
  constructor
  · intro h
    split at h
    · cases h
    · rename_i hnot
      refine ⟨h, fun hreached => hnot ⟨hreached, ?_⟩⟩
      rw [h]
      rfl
  · rintro ⟨hheld, hnot⟩
    rw [if_neg fun hboth => hnot hboth.1]
    exact hheld

/-- The upload delivers what is held: the request succeeds, every completed
result can be encoded, and no result that is due for the upload makes the
encoding throw anything but a `JSONException`. -/
structure Delivers (s : Service Q) (env : UploadEnv) : Prop where
  succeeds : env.Succeeds
  encodes : ∀ x ∈ s.held, ∃ text, env.json.encodeToJson x.2 = .ok text
  noOther : ∀ x : Finished, ∀ future, s.pendingTasks.lookup x.1 = some future →
    env.settle x.1 (some future) = some (.ok (some x.2)) →
      ∀ e, env.json.encodeToJson x.2 ≠ .error (.other e)

/-- The loop comes to a failure it cannot report before it comes to any completed result. -/
def EndsEarly (s : Service Q) (env : UploadEnv) : Prop :=
  ∃ before task after, s.pendingTasks.keys = before ++ task :: after ∧
    env.Unreported s.pendingTasks task ∧ ∀ x ∈ s.held, x.1 ∉ before

/-- A call that an exception ends keeps the results the loop has not come to. -/
theorem keepsResults_iff_of_unreported {s : Service Q} {env : UploadEnv}
    (h : ∃ task, env.Unreported s.pendingTasks task) :
    KeepsResults s env ↔ EndsEarly s env := by
  -- a task that cannot be reported ends the loop, so the loop stops at the first of them
  have hkey : ∀ task, env.Unreported s.pendingTasks task → task ∈ s.pendingTasks.keys := by
    rintro task ⟨future, hfuture, -⟩
    exact PendingTasks.mem_keys hfuture
  have hstops : ∃ task ∈ s.pendingTasks.keys,
      (env.failure task (s.pendingTasks.lookup task)).isSome = true := by
    obtain ⟨task, htask⟩ := h
    exact ⟨task, hkey task htask, (UploadEnv.failure_isSome_iff (hkey task htask)).mpr htask⟩
  obtain ⟨before, first, after, hkeys, hfirst, hreached⟩ := exists_first hstops
  have hunreported : env.Unreported s.pendingTasks first := by
    refine (UploadEnv.failure_isSome_iff ?_).mp hfirst
    rw [hkeys]
    exact List.mem_append_right _ List.mem_cons_self
  -- a completed task is added as it is, without a construction that could throw
  have hcompleted : ∀ task, env.Unreported s.pendingTasks task → ∀ x ∈ s.held, x.1 ≠ task := by
    rintro task ⟨future, hfuture, hfails, -⟩ x hx rfl
    rw [show s.pendingTasks.lookup x.1 = some (.returned x.2) from hx] at hfuture
    cases hfuture
    exact hfails
  obtain ⟨e, hthrown⟩ := Option.isSome_iff_exists.mp
    ((visitAll_thrown_isSome s.pendingTasks.keys_nodup).mpr hstops)
  -- what is thrown leaves before the upload, so nothing is acknowledged
  have hkeeps : KeepsResults s env ↔
      ∀ x ∈ s.held, x.1 ∉ env.reached s.pendingTasks s.pendingTasks.keys := by
    unfold KeepsResults
    rw [uploadResults_acknowledged_of_thrown hthrown, Set.ext_iff]
    simp only [mem_held_uploadResults, List.not_mem_nil, Set.ofPred_false, Set.sdiff_empty]
    exact forall_congr' fun x => and_iff_left_iff_imp
  rw [hkeeps]
  constructor
  · intro hnone
    refine ⟨before, first, after, hkeys, hunreported, fun x hx hbefore => hnone x hx ?_⟩
    rw [UploadEnv.reached, hreached]
    exact List.mem_append_left _ hbefore
  · rintro ⟨before', task, after', hkeys', htask, hbefore⟩ x hx hmem
    have htask' := (UploadEnv.failure_isSome_iff (hkey task htask)).mpr htask
    rw [UploadEnv.reached, hkeys'] at hmem
    have hsubset : reached (fun t => (env.failure t (s.pendingTasks.lookup t)).isSome)
        (before' ++ task :: after') ⊆ before' ++ [task] := reached_subset before' after' htask'
    rcases List.mem_append.mp (hsubset hmem) with hmem | hmem
    · exact hbefore x hx hmem
    · exact hcompleted task htask x hx (List.mem_singleton.mp hmem)

section Reported

variable {s : Service Q} {env : UploadEnv}
  (hreported : ∀ task, ¬ env.Unreported s.pendingTasks task)

include hreported

/-- With every failure reported nothing is thrown. -/
theorem visitAll_thrown_of_reported :
    (env.visitAll s.pendingTasks.keys s.pendingTasks).thrown = none := by
  rw [← Option.not_isSome_iff_eq_none, visitAll_thrown_isSome s.pendingTasks.keys_nodup]
  rintro ⟨task, htask, hsome⟩
  exact hreported task ((UploadEnv.failure_isSome_iff htask).mp hsome)

/-- Collected is what the visits settle with a result. -/
theorem mem_finishedTasks_of_reported (x : Finished) :
    x ∈ (env.visitAll s.pendingTasks.keys s.pendingTasks).finishedTasks ↔
      ∃ future, s.pendingTasks.lookup x.1 = some future ∧
        env.settle x.1 (some future) = some (.ok (some x.2)) := by
  rw [mem_visitAll_finishedTasks s.pendingTasks.keys_nodup,
    reached_eq_order (List.Perm.refl _) hreported, UploadEnv.reported_eq_some_iff]
  constructor
  · rintro ⟨hkey, hsettle⟩
    obtain ⟨future, hfuture⟩ :=
      Option.isSome_iff_exists.mp (AList.lookup_isSome.mpr (AList.mem_keys.mpr hkey))
    exact ⟨future, hfuture, hfuture ▸ hsettle⟩
  · rintro ⟨future, hfuture, hsettle⟩
    exact ⟨PendingTasks.mem_keys hfuture, hfuture.symm ▸ hsettle⟩

/-- The loop comes to every completed result, so the map keeps none. -/
theorem held_uploadResults_of_reported : (s.uploadResults env).service.held = ∅ := by
  apply Set.eq_empty_of_forall_notMem
  intro x hx
  obtain ⟨hheld, hnot⟩ := (mem_held_uploadResults s env x).mp hx
  rw [reached_eq_order (List.Perm.refl _) hreported] at hnot
  exact hnot (PendingTasks.mem_keys hheld)

theorem mem_acknowledged_of_reported (x : Finished) :
    x ∈ (s.uploadResults env).acknowledged ↔
      env.Succeeds ∧ ∃ array, env.json.resultArray
        (env.visitAll s.pendingTasks.keys s.pendingTasks).finishedTasks = .ok array ∧
          x ∈ array := by
  rw [mem_uploadResults_acknowledged (visitAll_thrown_of_reported hreported),
    env.mem_acknowledged]

/-- A call that acknowledges what is held, and there is something, has delivered it. -/
theorem delivers_of_acknowledged {x₀ : Finished} (hx₀ : x₀ ∈ s.held)
    (hkeeps : ∀ x ∈ s.held, x ∈ (s.uploadResults env).acknowledged) : Delivers s env := by
  obtain ⟨hsucceeds, array, harray, -⟩ :=
    (mem_acknowledged_of_reported hreported x₀).mp (hkeeps x₀ hx₀)
  constructor
  · exact hsucceeds
  · intro x hx
    obtain ⟨-, array', harray', hmem⟩ :=
      (mem_acknowledged_of_reported hreported x).mp (hkeeps x hx)
    exact ((Json.mem_resultArray harray' x).mp hmem).2
  · intro x future hfuture hsettle
    exact Json.resultArray_ok.mp ⟨array, harray⟩ x
      ((mem_finishedTasks_of_reported hreported x).mpr ⟨future, hfuture, hsettle⟩)

/-- What is held is collected, so an upload that delivers it has it acknowledged. -/
theorem acknowledged_of_delivers (h : Delivers s env) {x : Finished} (hx : x ∈ s.held) :
    x ∈ (s.uploadResults env).acknowledged := by
  have hnoOther : ∀ y ∈ (env.visitAll s.pendingTasks.keys s.pendingTasks).finishedTasks, ∀ e,
      env.json.encodeToJson y.2 ≠ .error (.other e) := by
    intro y hy
    obtain ⟨future, hfuture, hsettle⟩ := (mem_finishedTasks_of_reported hreported y).mp hy
    exact h.noOther y future hfuture hsettle
  obtain ⟨array, harray⟩ := Json.resultArray_ok.mpr hnoOther
  have hcollected : x ∈ (env.visitAll s.pendingTasks.keys s.pendingTasks).finishedTasks :=
    (mem_finishedTasks_of_reported hreported x).mpr ⟨.returned x.2, hx, rfl⟩
  rw [mem_acknowledged_of_reported hreported]
  exact ⟨h.succeeds, array, harray,
    (Json.mem_resultArray harray x).mpr ⟨hcollected, h.encodes x hx⟩⟩

/-- A call whose loop comes to its end keeps the results only if the upload delivers them. -/
theorem keepsResults_iff_of_reported : KeepsResults s env ↔ s.held = ∅ ∨ Delivers s env := by
  have hsubset : KeepsResults s env ↔ ∀ x ∈ s.held, x ∈ (s.uploadResults env).acknowledged := by
    unfold KeepsResults
    rw [held_uploadResults_of_reported hreported, eq_comm, Set.sdiff_eq_empty]
    exact Iff.rfl
  rw [hsubset]
  constructor
  · intro hkeeps
    rcases Set.eq_empty_or_nonempty s.held with hempty | ⟨x₀, hx₀⟩
    · exact Or.inl hempty
    · exact Or.inr (delivers_of_acknowledged hreported hx₀ hkeeps)
  · rintro (hempty | hdelivers) x hx
    · rw [hempty] at hx
      exact absurd hx (Set.notMem_empty x)
    · exact acknowledged_of_delivers hreported hdelivers hx

end Reported

/-- A ping that is finished, with its result not yet uploaded. -/
def finishedPing : Finished :=
  (pingTaskOf 0 1 0 1000 1, ⟨some "ping", .ping, 500, true, [("mean_rtt_ms", "20")]⟩)

def finishedService : Service (SortedQueue MeasurementTask.Le) :=
  { Service.onCreate with
    pendingTasks := AList.singleton finishedPing.1 (.returned finishedPing.2)
    nextRef := 1 }

/-- The server answers that it could not take the results. -/
def refusingEnv : UploadEnv where
  deadlineNow _ := 600
  resultNow _ := 600
  device _ := ⟨600, some []⟩
  errorText _ := ""
  json := {
    encodeToJson := fun result => .ok (result.taskKey.getD "")
    readSuccess := fun response =>
      match response with
      | none => .error (.other .nullPointer)
      | some text => .ok (text = "\x7b\"success\": true\x7d") }
  request := ⟨true, false, none, some "\x7b\"success\": false\x7d"⟩

end MobiPerf.Scheduler
