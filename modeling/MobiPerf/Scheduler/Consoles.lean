import MobiPerf.Lib.Recent
import MobiPerf.Scheduler.Execution

/-!
# Scheduler.Consoles — from the end of a task to a console

When a measurement ends its wrapper broadcasts an intent with the task's priority
and a message. The receiver in the service puts the message on top of the user's
console or of the system's, by the priority it reads. Two values of that `int` are
reserved, and a `PowerAwareTask` casts the `long` of the description to it.

What a wrapper comes to is read off its operations (`Wrapper.call`), each of which may
throw, and the intents are those of the end broadcasts among them.

* `unreserved_iff`: which priorities are cast to neither reserved value;
* `UserMeasurementTask.endIntents_eq`, `PowerAwareTask.endIntents_eq`: which end
  intents a call of the wrapper sends;
* `routed_iff`: when exactly one message gets to the right console, and none to the other.

Left out: the broadcasts at the start and on the way, which carry no message.
-/

namespace MobiPerf.Scheduler

open Lib

/-! ## Intents -/

/-- `Integer.MAX_VALUE`. -/
def invalidPriority : Int := 2 ^ 31 - 1

def invalidProgress : Int := -1

def maxProgressBarValue : Int := 100

def measurementEndProgress : Int := maxProgressBarValue + 1

def maxListItems : ℕ := 128

/-- `(int) x` for a `long`. -/
def intOfLong (x : Int) : Int := Int.bmod x (2 ^ 32)

/-- The extras of a `MEASUREMENT_PROGRESS_UPDATE_ACTION`. -/
structure Intent where
  taskPriority : Option Int
  progress : Option Int
  string : Option String
  errorString : Option String
deriving DecidableEq, Repr

/-! ## The receiver -/

/-- The two consoles, the latest message on top, and the counters. -/
structure Consoles where
  userResults : List String
  systemResults : List String
  completedMeasurementCnt : ℕ
  failedMeasurementCnt : ℕ
deriving DecidableEq, Repr

def insertStringToConsole (console : List String) (msg : String) : List String :=
  let console := msg :: console
  if console.length > maxListItems then console.dropLast else console

/-- `updateResultsConsole`; an intent without a priority is read as invalid. -/
def Consoles.updateResultsConsole (c : Consoles) (intent : Intent) : Consoles :=
  let priority := intent.taskPriority.getD invalidPriority
  match intent.string.or intent.errorString with
  | none => c
  | some msg =>
    if priority = userPriority then
      { c with userResults := insertStringToConsole c.userResults msg }
    else if priority ≠ invalidPriority then
      { c with systemResults := insertStringToConsole c.systemResults msg }
    else c

/-- `onReceive` of a progress update. -/
def Consoles.onReceive (c : Consoles) (intent : Intent) : Consoles :=
  if intent.progress.getD invalidProgress = measurementEndProgress then
    let c :=
      if intent.errorString.isSome then
        { c with failedMeasurementCnt := c.failedMeasurementCnt + 1 }
      else { c with completedMeasurementCnt := c.completedMeasurementCnt + 1 }
    c.updateResultsConsole intent
  else c

/-! ## The wrappers -/

/-- How `realTask.call()` ends, with the text of what it returns or throws; a
`returned none` is a null result. An `error` is a `java.lang.Error`. -/
inductive TaskEnd where
  | returned (result : Option String)
  | measurementError (e : String)
  | measurementSkipped (e : String)
  | exception (e : String)
  | error
deriving DecidableEq, Repr

/-- What an operation throws: an `Exception`, or an `Error`, which the wrappers do not
catch. -/
inductive Thrown where
  | exception
  | error
deriving DecidableEq, Repr

/-- What a wrapper meets: what each of its operations throws, if it does (the broadcast of
a service object that is not attached, say), and whether a broadcast that throws has sent
its intent by then; what a `PowerAwareTask` reads, how the real task ends, and the texts
that go into the messages. No operation comes twice in a call. -/
structure WrapperEnv where
  throws : CallPc → Option Thrown
  sent : CallPc → Bool
  pauseRequested : Bool
  canScheduleExperiment : Bool
  taskEnd : TaskEnd
  taskText : String
  descriptor : String
  timestamp : String

def Thrown.io : Thrown → CallIo
  | .exception => .threw
  | .error => .threwError

def TaskEnd.io : TaskEnd → CallIo
  | .returned _ => .returned
  | .measurementError _ | .measurementSkipped _ | .exception _ => .threw
  | .error => .threwError

/-- The value of the variable `result` once the real task has ended so. -/
def TaskEnd.result : TaskEnd → Option String
  | .returned result => result
  | _ => none

/-- What the operation comes to, with `io` when nothing is thrown. -/
def WrapperEnv.orThrown (env : WrapperEnv) (pc : CallPc) (io : CallIo) : CallIo :=
  ((env.throws pc).map Thrown.io).getD io

/-- What the operation of the wrapper at `pc` comes to. -/
def WrapperEnv.io (env : WrapperEnv) (wrapper : Wrapper) (pc : CallPc) : CallIo :=
  match pc with
  | .setCurrentTask | .clearCurrentTask => .returned
  -- only a `PowerAwareTask` has a log line here
  | .callTask =>
    match wrapper with
    | .userMeasurementTask => .returned
    | .powerAwareTask => env.orThrown .callTask .returned
  | .body => env.taskEnd.io
  | .readPaused => env.orThrown .readPaused (.read env.pauseRequested)
  | .canScheduleExperiment =>
    env.orThrown .canScheduleExperiment (.read env.canScheduleExperiment)
  | pc => env.orThrown pc .returned

/-- The operations of the wrapper from `pc` on, at most this many. -/
def Wrapper.operationsFrom (wrapper : Wrapper) (env : WrapperEnv) : ℕ → CallPc → List CallPc
  | 0, _ => []
  | fuel + 1, pc =>
    match wrapper.call pc (env.io wrapper pc) with
    | none => []
    | some next => pc :: wrapper.operationsFrom env fuel next

/-- The operations of the wrapper's `call`, which has no more than thirteen. -/
def Wrapper.operations (wrapper : Wrapper) (env : WrapperEnv) : List CallPc :=
  wrapper.operationsFrom env 13 .announce

/-- The intent of the broadcast at `pc` gets out. -/
def WrapperEnv.GetsOut (env : WrapperEnv) (pc : CallPc) : Prop :=
  env.throws pc = none ∨ env.sent pc = true

instance (env : WrapperEnv) (pc : CallPc) : Decidable (env.GetsOut pc) :=
  inferInstanceAs (Decidable (_ ∨ _))

/-- The intent of `broadcastMeasurementEnd` of a `UserMeasurementTask`. -/
def UserMeasurementTask.endIntent (env : WrapperEnv) (result : Option String) : Intent where
  taskPriority := some userPriority
  progress := some measurementEndProgress
  string := result
  errorString :=
    match result with
    | some _ => none
    | none => some ("Measurement " ++ env.descriptor ++ " has failed" ++ "\nTimestamp: " ++
        env.timestamp)

/-- A `MeasurementError`: its text, and whether it is a `MeasurementSkippedException`. -/
structure MeasurementError where
  text : String
  isSkip : Bool

/-- The intent of `broadcastMeasurementEnd` of a `PowerAwareTask`: only true errors are
told. -/
def PowerAwareTask.endIntent (task : MeasurementTask) (env : WrapperEnv)
    (result : Option String) (error : Option MeasurementError) : Option Intent :=
  if error.any MeasurementError.isSkip then none
  else
    some {
      taskPriority := some (intOfLong task.desc.priority)
      progress := some measurementEndProgress
      string := result
      errorString :=
        match result with
        | some _ => none
        | none => some ("Measurement " ++ env.taskText ++ " failed. " ++ "\n\nTimestamp: " ++
            env.timestamp ++ (error.map fun e => "\n\n" ++ e.text).getD "") }

/-- The error a `PowerAwareTask` broadcasts: a `MeasurementError` of the real task as it
is, any other exception in one of its own. -/
def PowerAwareTask.caught (env : WrapperEnv) (ops : List CallPc) : MeasurementError :=
  let err : MeasurementError :=
    ⟨"sjtu.omnilab.omniperf.core.MeasurementError: " ++ "Got exception running task", false⟩
  if .body ∈ ops then
    match env.taskEnd with
    | .measurementError e => ⟨e, false⟩
    | .measurementSkipped e => ⟨e, true⟩
    | _ => err
  else err

/-- The intent an operation sends about the end of the task, in a call of these
operations. -/
def Wrapper.endIntent (wrapper : Wrapper) (task : MeasurementTask) (env : WrapperEnv)
    (ops : List CallPc) (pc : CallPc) : Option Intent :=
  match wrapper, pc with
  | .userMeasurementTask, .broadcastMeasurementEnd =>
    some (UserMeasurementTask.endIntent env (if .body ∈ ops then env.taskEnd.result else none))
  | .powerAwareTask, .broadcastMeasurementEnd =>
    PowerAwareTask.endIntent task env env.taskEnd.result none
  | .powerAwareTask, .broadcastError =>
    PowerAwareTask.endIntent task env none (some (PowerAwareTask.caught env ops))
  | _, _ => none

/-- The end intents of the wrapper's `call`. -/
def Wrapper.endIntents (wrapper : Wrapper) (task : MeasurementTask) (env : WrapperEnv) :
    List Intent :=
  (wrapper.operations env).flatMap fun pc =>
    if env.GetsOut pc then (wrapper.endIntent task env (wrapper.operations env) pc).toList else []

/-! ## What is wanted -/

/-- The consoles after the end broadcasts of the task, in the wrapper `handleMeasurement`
chooses for it. -/
def Consoles.afterTask (c : Consoles) (task : MeasurementTask) (env : WrapperEnv) : Consoles :=
  (task.wrapper.endIntents task env).foldl Consoles.onReceive c

/-- One message for the user's console, none for the system's. -/
def ToUser (task : MeasurementTask) (env : WrapperEnv) : Prop :=
  ∀ c : Consoles, ∃ msg,
    (c.afterTask task env).userResults = insertStringToConsole c.userResults msg ∧
      (c.afterTask task env).systemResults = c.systemResults

/-- One message for the system's console, none for the user's. -/
def ToSystem (task : MeasurementTask) (env : WrapperEnv) : Prop :=
  ∀ c : Consoles, ∃ msg,
    (c.afterTask task env).systemResults = insertStringToConsole c.systemResults msg ∧
      (c.afterTask task env).userResults = c.userResults

/-- Nothing is thrown before the tests of a `PowerAwareTask`, nor by them. -/
def WrapperEnv.Tests (env : WrapperEnv) : Prop :=
  env.throws .announce = none ∧ env.throws .acquireWakeLock = none ∧
    env.throws .readPaused = none ∧ (env.pauseRequested = true ∨
      env.throws .canScheduleExperiment = none)

/-- The wrapper of a system task gets as far as the call of the real task. -/
def WrapperEnv.Calls (env : WrapperEnv) : Prop :=
  env.throws .announce = none ∧ env.throws .acquireWakeLock = none ∧
    env.throws .readPaused = none ∧ env.pauseRequested = false ∧
    env.throws .canScheduleExperiment = none ∧ env.canScheduleExperiment = true ∧
    env.throws .broadcastMeasurementStart = none

/-- A system task is skipped: by a test of its wrapper, or by itself. -/
def WrapperEnv.Skips (env : WrapperEnv) : Prop :=
  (env.Tests ∧ (env.pauseRequested = true ∨ env.canScheduleExperiment = false)) ∨
    (env.Calls ∧ env.throws .callTask = none ∧ ∃ e, env.taskEnd = .measurementSkipped e)

/-- Exactly one end broadcast of a `PowerAwareTask` gets out. -/
def WrapperEnv.BroadcastsOnce (env : WrapperEnv) : Prop :=
  env.Calls ∧
    match env.throws .callTask with
    | some .error => False
    | some .exception => env.GetsOut .broadcastError
    | none =>
      match env.taskEnd with
      | .error | .measurementSkipped _ => False
      | .measurementError _ | .exception _ => env.GetsOut .broadcastError
      | .returned _ =>
        match env.throws .broadcastMeasurementEnd with
        | none => True
        | some .error => env.sent .broadcastMeasurementEnd = true
        -- the `catch` broadcasts once more
        | some .exception =>
          ¬ (env.sent .broadcastMeasurementEnd = true ↔ env.GetsOut .broadcastError)

/-- The end of a user's task gets to the user's console, and that of a task of the
system that was not skipped to the system's. -/
def Routed (task : MeasurementTask) (env : WrapperEnv) : Prop :=
  if task.desc.priority = userPriority then ToUser task env
  else ¬ env.Skips → ToSystem task env

/-! ## The cast -/

/-- The `long`s that are cast to a given `int`. -/
theorem intOfLong_eq_iff {x n : Int} (hlo : -2 ^ 31 ≤ n) (hhi : n < 2 ^ 31) :
    intOfLong x = n ↔ x % 2 ^ 32 = n % 2 ^ 32 := by
  unfold intOfLong
  rw [Int.bmod_def]
  constructor
  · intro h
    split at h <;> omega
  · intro h
    split <;> omega

/-- The low half of the priority is not that of a reserved value. -/
def Unreserved (priority : Int) : Prop :=
  priority % 2 ^ 32 ≠ 2 ^ 31 ∧ priority % 2 ^ 32 ≠ 2 ^ 31 - 1

/-- A priority is unreserved when its `int` is none of those with a meaning. -/
theorem unreserved_iff (priority : Int) :
    Unreserved priority ↔
      intOfLong priority ≠ userPriority ∧ intOfLong priority ≠ invalidPriority := by
  have huser := intOfLong_eq_iff (x := priority) (n := userPriority) (by decide) (by decide)
  have hinvalid := intOfLong_eq_iff (x := priority) (n := invalidPriority) (by decide) (by decide)
  rw [Ne, Ne, huser, hinvalid]
  exact Iff.rfl

/-! ## Receiving -/

theorem insertStringToConsole_eq : insertStringToConsole = push maxListItems := rfl

/-- A console grows by one message until it is full. -/
theorem length_insertStringToConsole {console : List String} (h : console.length ≤ maxListItems)
    (msg : String) :
    (insertStringToConsole console msg).length = min maxListItems (console.length + 1) := by
  rw [insertStringToConsole_eq, push_of_length_le h, List.length_take, List.length_cons]

/-- A message goes to the console that the priority of its intent says. -/
theorem updateResultsConsole_message {c : Consoles} {intent : Intent} {priority : Int}
    {msg : String} (hpriority : intent.taskPriority = some priority)
    (hmsg : intent.string.or intent.errorString = some msg) :
    (c.updateResultsConsole intent).userResults =
        (if priority = userPriority then insertStringToConsole c.userResults msg
          else c.userResults) ∧
      (c.updateResultsConsole intent).systemResults =
        if priority ≠ userPriority ∧ priority ≠ invalidPriority then
          insertStringToConsole c.systemResults msg
        else c.systemResults := by
  unfold Consoles.updateResultsConsole
  rw [hpriority, hmsg]
  simp only [Option.getD_some]
  by_cases huser : priority = userPriority
  · rw [if_pos huser, if_pos huser, if_neg (not_and_of_not_left _ (not_not.mpr huser))]
    exact ⟨rfl, rfl⟩
  · rw [if_neg huser, if_neg huser]
    by_cases hinvalid : priority = invalidPriority
    · rw [if_neg (not_not.mpr hinvalid), if_neg (not_and_of_not_right _ (not_not.mpr hinvalid))]
      exact ⟨rfl, rfl⟩
    · rw [if_pos hinvalid, if_pos ⟨huser, hinvalid⟩]
      exact ⟨rfl, rfl⟩

/-- The end of a task, with a priority and a message. -/
def Intent.IsEnd (priority : Int) (intent : Intent) : Prop :=
  intent.taskPriority = some priority ∧ intent.progress = some measurementEndProgress ∧
    ∃ msg, intent.string.or intent.errorString = some msg

/-- So does the message of an end intent; the counters beside the consoles are
another matter. -/
theorem onReceive_end {c : Consoles} {intent : Intent} {priority : Int} {msg : String}
    (hpriority : intent.taskPriority = some priority)
    (hprogress : intent.progress = some measurementEndProgress)
    (hmsg : intent.string.or intent.errorString = some msg) :
    (c.onReceive intent).userResults =
        (if priority = userPriority then insertStringToConsole c.userResults msg
          else c.userResults) ∧
      (c.onReceive intent).systemResults =
        if priority ≠ userPriority ∧ priority ≠ invalidPriority then
          insertStringToConsole c.systemResults msg
        else c.systemResults := by
  unfold Consoles.onReceive
  rw [hprogress, Option.getD_some, if_pos rfl]
  dsimp only
  split
  · exact updateResultsConsole_message hpriority hmsg
  · exact updateResultsConsole_message hpriority hmsg

/-! ## The operations of a call -/

/-- How many operations are left, at most. -/
def Wrapper.rank : Wrapper → CallPc → ℕ
  | _, .announce => 13
  | _, .acquireWakeLock => 12
  | _, .readPaused => 11
  | _, .canScheduleExperiment => 10
  | _, .setCurrentTask => 9
  | _, .broadcastMeasurementStart => 8
  | _, .callTask => 7
  | _, .body => 6
  | .userMeasurementTask, .clearCurrentTask => 5
  | .powerAwareTask, .clearCurrentTask => 2
  | .userMeasurementTask, .broadcastMeasurementEnd => 4
  | .powerAwareTask, .broadcastMeasurementEnd => 5
  | _, .broadcastError => 4
  | _, .releaseWakeLock => 3
  | .userMeasurementTask, .announceDone => 2
  | .powerAwareTask, .announceDone => 1
  | _, .persistState => 1
  | _, .ended => 0

/-- A call goes on to a later operation. -/
theorem Wrapper.call_rank {wrapper : Wrapper} {pc next : CallPc} {io : CallIo}
    (h : wrapper.call pc io = some next) : wrapper.rank next < wrapper.rank pc := by
  cases wrapper <;> cases pc <;> cases io <;> cases h <;> first | decide | (split <;> decide)

/-- No call has operations beyond the last that is counted. -/
theorem Wrapper.operationsFrom_succ {wrapper : Wrapper} {env : WrapperEnv} {fuel : ℕ}
    {pc : CallPc} (h : wrapper.rank pc ≤ fuel) :
    wrapper.operationsFrom env (fuel + 1) pc = wrapper.operationsFrom env fuel pc := by
  induction fuel generalizing pc with
  | zero =>
      unfold operationsFrom
      cases hcall : wrapper.call pc (env.io wrapper pc) with
      | none => rfl
      | some next => exact absurd (call_rank hcall) (by omega)
  | succ fuel ih =>
      rw [operationsFrom, operationsFrom]
      cases hcall : wrapper.call pc (env.io wrapper pc) with
      | none => rfl
      | some next =>
          have hrank := call_rank hcall
          simp only
          rw [ih (by omega)]

/-- More passes find no more operations: a call ends. -/
theorem Wrapper.operationsFrom_announce {wrapper : Wrapper} {env : WrapperEnv} {fuel : ℕ}
    (h : 13 ≤ fuel) : wrapper.operationsFrom env fuel .announce = wrapper.operations env := by
  induction fuel, h using Nat.le_induction with
  | base => rfl
  | succ fuel hle ih => rw [operationsFrom_succ (by cases wrapper <;> exact hle), ih]

/-- An operation, and those behind it. -/
theorem Wrapper.operationsFrom_eq {wrapper : Wrapper} {env : WrapperEnv} {fuel : ℕ}
    {pc next : CallPc} (h : wrapper.call pc (env.io wrapper pc) = some next) :
    wrapper.operationsFrom env (fuel + 1) pc = pc :: wrapper.operationsFrom env fuel next := by
  rw [operationsFrom, h]

/-- Operations that send nothing about the end of the task, nor run it. -/
def Silent (ops : List CallPc) : Prop :=
  ∀ pc ∈ ops, pc ≠ .body ∧ pc ≠ .broadcastMeasurementEnd ∧ pc ≠ .broadcastError

theorem silent_cons {pc : CallPc} {ops : List CallPc} :
    Silent (pc :: ops) ↔
      (pc ≠ .body ∧ pc ≠ .broadcastMeasurementEnd ∧ pc ≠ .broadcastError) ∧ Silent ops :=
  List.forall_mem_cons

/-- From its release on, a wrapper is silent; so is a `PowerAwareTask` that has cleared the
current task. -/
theorem Wrapper.operationsFrom_silent {wrapper : Wrapper} {env : WrapperEnv} {pc : CallPc}
    (h : pc = .releaseWakeLock ∨ pc = .announceDone ∨ pc = .persistState ∨ pc = .ended ∨
      pc = .clearCurrentTask ∧ wrapper = .powerAwareTask) (fuel : ℕ) :
    Silent (wrapper.operationsFrom env fuel pc) := by
  induction fuel generalizing pc with
  | zero => exact fun _ hpc => nomatch hpc
  | succ fuel ih =>
      rw [operationsFrom]
      cases hcall : wrapper.call pc (env.io wrapper pc) with
      | none => exact fun _ hpc => nomatch hpc
      | some next =>
          refine silent_cons.mpr ⟨?_, ih ?_⟩
          · rcases h with rfl | rfl | rfl | rfl | ⟨rfl, -⟩ <;> decide
          · generalize env.io wrapper pc = io at hcall
            cases wrapper <;> rcases h with rfl | rfl | rfl | rfl | ⟨rfl, hwrapper⟩ <;>
              cases io <;> cases hcall <;> simp_all

/-- An operation that throws is left for its handler. -/
theorem WrapperEnv.goto_orThrown (env : WrapperEnv) (pc next failed : CallPc) :
    (env.orThrown pc .returned).goto next failed =
      some (if env.throws pc = none then next else failed) := by
  unfold orThrown
  rcases env.throws pc with _ | _ | _ <;> rfl

/-- So is one that reads a value. -/
theorem WrapperEnv.test_orThrown (env : WrapperEnv) (pc passed failed : CallPc)
    (value wanted : Bool) :
    (env.orThrown pc (.read value)).test wanted passed failed =
      some (if env.throws pc = none ∧ value = wanted then passed else failed) := by
  unfold orThrown CallIo.test
  rcases env.throws pc with _ | _ | _ <;> simp [Thrown.io]

/-- An exception is reported, an error is not. -/
theorem WrapperEnv.gotoOrCatch_orThrown (env : WrapperEnv) (pc next : CallPc) :
    (env.orThrown pc .returned).gotoOrCatch next = some (match env.throws pc with
      | none => next
      | some .exception => .broadcastError
      | some .error => .releaseWakeLock) := by
  unfold orThrown
  rcases env.throws pc with _ | _ | _ <;> rfl

/-! ## The wrapper of a user's task -/

namespace UserMeasurementTask

variable {env : WrapperEnv}

/-- The `finally` clears the current task and broadcasts the end. -/
theorem operationsFrom_finally (env : WrapperEnv) (fuel : ℕ) :
    ∃ rest, Wrapper.userMeasurementTask.operationsFrom env (fuel + 2) .clearCurrentTask =
      .clearCurrentTask :: .broadcastMeasurementEnd :: rest ∧ Silent rest := by
  have hclear : Wrapper.userMeasurementTask.call .clearCurrentTask
      (env.io .userMeasurementTask .clearCurrentTask) = some .broadcastMeasurementEnd :=
    rfl
  have hend : Wrapper.userMeasurementTask.call .broadcastMeasurementEnd
      (env.io .userMeasurementTask .broadcastMeasurementEnd) =
        some (if env.throws .broadcastMeasurementEnd = none then .releaseWakeLock else .ended) :=
    env.goto_orThrown _ _ _
  rw [Wrapper.operationsFrom_eq hclear, Wrapper.operationsFrom_eq hend]
  refine ⟨_, rfl, Wrapper.operationsFrom_silent ?_ _⟩
  split <;> simp

/-- Once it has announced the task, the call comes to one end broadcast, whatever happens
before. -/
theorem operations_of_announced (h : env.throws .announce = none) :
    ∃ before rest, Wrapper.userMeasurementTask.operations env =
      before ++ .broadcastMeasurementEnd :: rest ∧
        .broadcastMeasurementEnd ∉ before ∧ Silent rest := by
  -- what each operation in front of the `finally` goes on to
  have hannounce : Wrapper.userMeasurementTask.call .announce
      (env.io .userMeasurementTask .announce) =
        some (if env.throws .announce = none then .acquireWakeLock else .ended) :=
    env.goto_orThrown _ _ _
  have hacquire : Wrapper.userMeasurementTask.call .acquireWakeLock
      (env.io .userMeasurementTask .acquireWakeLock) =
        some (if env.throws .acquireWakeLock = none then .setCurrentTask
          else .clearCurrentTask) :=
    env.goto_orThrown _ _ _
  have hstart : Wrapper.userMeasurementTask.call .broadcastMeasurementStart
      (env.io .userMeasurementTask .broadcastMeasurementStart) =
        some (if env.throws .broadcastMeasurementStart = none then .callTask
          else .clearCurrentTask) :=
    env.goto_orThrown _ _ _
  have hset : Wrapper.userMeasurementTask.call .setCurrentTask
      (env.io .userMeasurementTask .setCurrentTask) = some .broadcastMeasurementStart :=
    rfl
  have hcall : Wrapper.userMeasurementTask.call .callTask
      (env.io .userMeasurementTask .callTask) = some .body :=
    rfl
  have hbody : Wrapper.userMeasurementTask.call .body (env.io .userMeasurementTask .body) =
      some .clearCurrentTask := by
    show env.taskEnd.io.goto _ _ = _
    cases env.taskEnd <;> rfl
  rw [if_pos h] at hannounce
  unfold Wrapper.operations
  rw [Wrapper.operationsFrom_eq hannounce, Wrapper.operationsFrom_eq hacquire]
  -- wherever the `try` is left, the `finally` comes next
  by_cases hlocked : env.throws .acquireWakeLock = none
  · rw [if_pos hlocked, Wrapper.operationsFrom_eq hset, Wrapper.operationsFrom_eq hstart]
    by_cases hstarted : env.throws .broadcastMeasurementStart = none
    · rw [if_pos hstarted, Wrapper.operationsFrom_eq hcall, Wrapper.operationsFrom_eq hbody]
      obtain ⟨rest, hrest, hsilent⟩ := operationsFrom_finally env 5
      rw [hrest]
      exact ⟨[.announce, .acquireWakeLock, .setCurrentTask, .broadcastMeasurementStart, .callTask,
        .body, .clearCurrentTask], rest, rfl, by decide, hsilent⟩
    · rw [if_neg hstarted]
      obtain ⟨rest, hrest, hsilent⟩ := operationsFrom_finally env 7
      rw [hrest]
      exact ⟨[.announce, .acquireWakeLock, .setCurrentTask, .broadcastMeasurementStart,
        .clearCurrentTask], rest, rfl, by decide, hsilent⟩
  · rw [if_neg hlocked]
    obtain ⟨rest, hrest, hsilent⟩ := operationsFrom_finally env 9
    rw [hrest]
    exact ⟨[.announce, .acquireWakeLock, .clearCurrentTask], rest, rfl, by decide, hsilent⟩

/-- The announcement stands before the `try`. -/
theorem operations_of_not_announced (h : env.throws .announce ≠ none) :
    Silent (Wrapper.userMeasurementTask.operations env) := by
  have hannounce : Wrapper.userMeasurementTask.call .announce
      (env.io .userMeasurementTask .announce) =
        some (if env.throws .announce = none then .acquireWakeLock else .ended) :=
    env.goto_orThrown _ _ _
  rw [if_neg h] at hannounce
  unfold Wrapper.operations
  rw [Wrapper.operationsFrom_eq hannounce]
  exact silent_cons.mpr ⟨by decide, Wrapper.operationsFrom_silent (by simp) _⟩

/-- The operations without an end broadcast send no end intent. -/
theorem flatMap_endIntent {task : MeasurementTask} {ops all : List CallPc}
    (h : .broadcastMeasurementEnd ∉ ops) :
    (ops.flatMap fun pc => if env.GetsOut pc then
      (Wrapper.userMeasurementTask.endIntent task env all pc).toList else []) = [] := by
  rw [List.flatMap_eq_nil_iff]
  intro pc hpc
  have hne : pc ≠ .broadcastMeasurementEnd := by
    rintro rfl
    exact h hpc
  cases pc <;> first | contradiction | exact ite_self _

/-- The end intents of a `UserMeasurementTask`: one, for the user and with a message, unless
the announcement or the broadcast itself throws. -/
theorem endIntents_eq (task : MeasurementTask) (env : WrapperEnv) :
    ∃ result, Wrapper.userMeasurementTask.endIntents task env =
      if env.throws .announce = none ∧ env.GetsOut .broadcastMeasurementEnd then
        [endIntent env result]
      else [] := by
  unfold Wrapper.endIntents
  by_cases hannounced : env.throws .announce = none
  · obtain ⟨before, rest, hops, hbefore, hrest⟩ := operations_of_announced hannounced
    have hsilent : .broadcastMeasurementEnd ∉ rest := fun hmem => (hrest _ hmem).2.1 rfl
    refine ⟨if .body ∈ Wrapper.userMeasurementTask.operations env then env.taskEnd.result
      else none, ?_⟩
    rw [hops, List.flatMap_append, List.flatMap_cons, flatMap_endIntent hbefore,
      flatMap_endIntent hsilent, List.nil_append, List.append_nil]
    by_cases hout : env.GetsOut .broadcastMeasurementEnd
    · rw [if_pos hout, if_pos ⟨hannounced, hout⟩]
      rfl
    · rw [if_neg hout, if_neg fun hboth => hout hboth.2]
  · have hsilent := operations_of_not_announced hannounced
    refine ⟨none, ?_⟩
    rw [if_neg fun hboth => hannounced hboth.1]
    exact flatMap_endIntent fun hmem => (hsilent _ hmem).2.1 rfl

/-- The intent always carries a message. -/
theorem endIntent_message (env : WrapperEnv) (result : Option String) :
    ∃ msg, (endIntent env result).string.or (endIntent env result).errorString = some msg := by
  cases result with
  | some text => exact ⟨text, rfl⟩
  | none => exact ⟨_, rfl⟩

end UserMeasurementTask

/-! ## The wrapper of a system task -/

namespace PowerAwareTask

variable {env : WrapperEnv} {task : MeasurementTask}

/-- What a `PowerAwareTask` calls before the inner `try`. -/
def beforeTry : List CallPc := [.announce, .acquireWakeLock, .readPaused, .canScheduleExperiment,
  .setCurrentTask, .broadcastMeasurementStart]

/-- It comes to the inner `try`, or to nothing that sends or runs anything. -/
theorem operations_cases (env : WrapperEnv) :
    (env.Calls ∧ Wrapper.powerAwareTask.operations env =
      beforeTry ++ Wrapper.powerAwareTask.operationsFrom env 7 .callTask) ∨
    (¬ env.Calls ∧ Silent (Wrapper.powerAwareTask.operations env)) := by
  -- what each operation in front of the `try` goes on to
  have hannounce : Wrapper.powerAwareTask.call .announce (env.io .powerAwareTask .announce) =
      some (if env.throws .announce = none then .acquireWakeLock else .ended) :=
    env.goto_orThrown _ _ _
  have hacquire : Wrapper.powerAwareTask.call .acquireWakeLock
      (env.io .powerAwareTask .acquireWakeLock) =
        some (if env.throws .acquireWakeLock = none then .readPaused else .releaseWakeLock) :=
    env.goto_orThrown _ _ _
  have hpaused : Wrapper.powerAwareTask.call .readPaused (env.io .powerAwareTask .readPaused) =
      some (if env.throws .readPaused = none ∧ env.pauseRequested = false then
        .canScheduleExperiment else .releaseWakeLock) :=
    env.test_orThrown _ _ _ _ _
  have hpower : Wrapper.powerAwareTask.call .canScheduleExperiment
      (env.io .powerAwareTask .canScheduleExperiment) =
        some (if env.throws .canScheduleExperiment = none ∧ env.canScheduleExperiment = true then
          .setCurrentTask else .releaseWakeLock) :=
    env.test_orThrown _ _ _ _ _
  have hset : Wrapper.powerAwareTask.call .setCurrentTask
      (env.io .powerAwareTask .setCurrentTask) = some .broadcastMeasurementStart :=
    rfl
  have hstart : Wrapper.powerAwareTask.call .broadcastMeasurementStart
      (env.io .powerAwareTask .broadcastMeasurementStart) =
        some (if env.throws .broadcastMeasurementStart = none then .callTask
          else .releaseWakeLock) :=
    env.goto_orThrown _ _ _
  have hsilent : ∀ fuel, Silent (Wrapper.powerAwareTask.operationsFrom env fuel .releaseWakeLock) :=
    Wrapper.operationsFrom_silent (.inl rfl)
  unfold Wrapper.operations WrapperEnv.Calls
  rw [Wrapper.operationsFrom_eq hannounce]
  -- the announcement stands in front of everything: when it throws nothing is called
  by_cases h₁ : env.throws .announce = none
  swap
  · rw [if_neg h₁]
    refine .inr ⟨fun h => h₁ h.1, silent_cons.mpr ⟨by decide, ?_⟩⟩
    exact Wrapper.operationsFrom_silent (by simp) _
  -- from the acquisition on, what throws or is not allowed leads to the release
  rw [if_pos h₁, Wrapper.operationsFrom_eq hacquire]
  by_cases h₂ : env.throws .acquireWakeLock = none
  swap
  · rw [if_neg h₂]
    refine .inr ⟨fun h => h₂ h.2.1, ?_⟩
    simp only [silent_cons]
    exact ⟨by decide, by decide, hsilent _⟩
  rw [if_pos h₂, Wrapper.operationsFrom_eq hpaused]
  by_cases h₃ : env.throws .readPaused = none ∧ env.pauseRequested = false
  swap
  · rw [if_neg h₃]
    refine .inr ⟨fun h => h₃ ⟨h.2.2.1, h.2.2.2.1⟩, ?_⟩
    simp only [silent_cons]
    exact ⟨by decide, by decide, by decide, hsilent _⟩
  rw [if_pos h₃, Wrapper.operationsFrom_eq hpower]
  by_cases h₄ : env.throws .canScheduleExperiment = none ∧ env.canScheduleExperiment = true
  swap
  · rw [if_neg h₄]
    refine .inr ⟨fun h => h₄ ⟨h.2.2.2.2.1, h.2.2.2.2.2.1⟩, ?_⟩
    simp only [silent_cons]
    exact ⟨by decide, by decide, by decide, by decide, hsilent _⟩
  rw [if_pos h₄, Wrapper.operationsFrom_eq hset, Wrapper.operationsFrom_eq hstart]
  by_cases h₅ : env.throws .broadcastMeasurementStart = none
  · rw [if_pos h₅]
    exact .inl ⟨⟨h₁, h₂, h₃.1, h₃.2, h₄.1, h₄.2, h₅⟩, rfl⟩
  · rw [if_neg h₅]
    refine .inr ⟨fun h => h₅ h.2.2.2.2.2.2, ?_⟩
    simp only [silent_cons]
    exact ⟨by decide, by decide, by decide, by decide, by decide, by decide, hsilent _⟩

/-- The operations of the inner `try` and its `catch`. -/
def tryOperations (env : WrapperEnv) : List CallPc :=
  match env.throws .callTask with
  | some .error => [.callTask]
  | some .exception => [.callTask, .broadcastError]
  | none =>
    match env.taskEnd with
    -- no `catch` takes an `Error`
    | .error => [.callTask, .body]
    | .returned _ =>
      if env.throws .broadcastMeasurementEnd = some .exception then
        [.callTask, .body, .broadcastMeasurementEnd, .broadcastError]
      else [.callTask, .body, .broadcastMeasurementEnd]
    | _ => [.callTask, .body, .broadcastError]

/-- From `callTask` on the task is run and its end reported, and nothing else is
sent. -/
theorem operationsFrom_callTask (env : WrapperEnv) :
    ∃ rest, Wrapper.powerAwareTask.operationsFrom env 7 .callTask = tryOperations env ++ rest ∧
      Silent rest := by
  -- what each operation of the `try` goes on to
  have hcall : Wrapper.powerAwareTask.call .callTask (env.io .powerAwareTask .callTask) =
      some (match env.throws .callTask with
        | none => .body
        | some .exception => .broadcastError
        | some .error => .releaseWakeLock) :=
    env.gotoOrCatch_orThrown _ _
  have hbody : Wrapper.powerAwareTask.call .body (env.io .powerAwareTask .body) =
      some (match env.taskEnd with
        | .returned _ => .broadcastMeasurementEnd
        | .error => .releaseWakeLock
        | _ => .broadcastError) := by
    show env.taskEnd.io.gotoOrCatch _ = _
    cases env.taskEnd <;> rfl
  have hend : Wrapper.powerAwareTask.call .broadcastMeasurementEnd
      (env.io .powerAwareTask .broadcastMeasurementEnd) =
        some (match env.throws .broadcastMeasurementEnd with
          | none => .releaseWakeLock
          | some .exception => .broadcastError
          | some .error => .releaseWakeLock) :=
    env.gotoOrCatch_orThrown _ _
  have herror : Wrapper.powerAwareTask.call .broadcastError
      (env.io .powerAwareTask .broadcastError) = some .releaseWakeLock := by
    refine (env.goto_orThrown _ _ _).trans ?_
    rw [ite_self]
  have hsilent : ∀ fuel, Silent (Wrapper.powerAwareTask.operationsFrom env fuel .releaseWakeLock) :=
    Wrapper.operationsFrom_silent (.inl rfl)
  rw [Wrapper.operationsFrom_eq hcall]
  unfold tryOperations
  cases hthrows : env.throws .callTask with
  -- the call throws before the body is run
  | some thrown =>
      cases thrown with
      | error => exact ⟨_, rfl, hsilent 6⟩
      | exception =>
          refine ⟨_, ?_, hsilent 5⟩
          dsimp only
          rw [Wrapper.operationsFrom_eq herror]
          rfl
  | none =>
      dsimp only
      rw [Wrapper.operationsFrom_eq hbody]
      -- the body is run, and its end decides what is broadcast
      cases htask : env.taskEnd with
      | error => exact ⟨_, rfl, hsilent 5⟩
      | measurementError e | measurementSkipped e | exception e =>
          refine ⟨_, ?_, hsilent 4⟩
          dsimp only
          rw [Wrapper.operationsFrom_eq herror]
          rfl
      | returned result =>
          dsimp only
          rw [Wrapper.operationsFrom_eq hend]
          -- a broadcast of the end that throws is followed by one of the error
          rcases hlast : env.throws .broadcastMeasurementEnd with _ | _ | _
          · exact ⟨_, rfl, hsilent 4⟩
          · refine ⟨_, ?_, hsilent 3⟩
            dsimp only
            rw [Wrapper.operationsFrom_eq herror, if_pos rfl]
            rfl
          · refine ⟨_, ?_, hsilent 4⟩
            rw [if_neg (by simp)]
            rfl

/-- Silent operations send no end intent. -/
theorem flatMap_endIntent {ops all : List CallPc} (h : Silent ops) :
    (ops.flatMap fun pc => if env.GetsOut pc then
      (Wrapper.powerAwareTask.endIntent task env all pc).toList else []) = [] := by
  rw [List.flatMap_eq_nil_iff]
  intro pc hpc
  have hne := h pc hpc
  cases pc <;> first | exact absurd rfl hne.2.1 | exact absurd rfl hne.2.2 | exact ite_self _

/-- The end intents come from the inner `try` and its `catch`. -/
theorem endIntents_eq (task : MeasurementTask) (env : WrapperEnv) (h : env.Calls) :
    Wrapper.powerAwareTask.endIntents task env = (tryOperations env).flatMap fun pc =>
      if env.GetsOut pc then
        (Wrapper.powerAwareTask.endIntent task env (tryOperations env) pc).toList
      else [] := by
  rcases operations_cases env with ⟨-, hops⟩ | ⟨hnot, -⟩
  swap
  · exact absurd h hnot
  obtain ⟨rest, hrest, hsilent⟩ := operationsFrom_callTask env
  rw [hrest] at hops
  -- what stands in front of the `try` sends nothing and runs nothing
  have hbefore : Silent beforeTry := by
    unfold beforeTry
    simp only [silent_cons]
    exact ⟨by decide, by decide, by decide, by decide, by decide, by decide,
      fun _ hpc => nomatch hpc⟩
  have hbody : (CallPc.body ∈ Wrapper.powerAwareTask.operations env) ↔
      (CallPc.body ∈ tryOperations env) := by
    have hbefore' : CallPc.body ∉ beforeTry := by decide
    have hrest' : CallPc.body ∉ rest := fun hmem => (hsilent _ hmem).1 rfl
    rw [hops, List.mem_append, List.mem_append]
    tauto
  -- the end intents only ask whether the body was run
  have hsame : ∀ pc, Wrapper.powerAwareTask.endIntent task env
      (Wrapper.powerAwareTask.operations env) pc =
        Wrapper.powerAwareTask.endIntent task env (tryOperations env) pc := by
    intro pc
    unfold Wrapper.endIntent caught
    simp only [hbody]
  unfold Wrapper.endIntents
  simp only [hsame]
  rw [hops, List.flatMap_append, List.flatMap_append, flatMap_endIntent hbefore,
    flatMap_endIntent hsilent, List.nil_append, List.append_nil]

/-- A wrapper that does not call its task sends none. -/
theorem endIntents_of_not_calls (h : ¬ env.Calls) :
    Wrapper.powerAwareTask.endIntents task env = [] := by
  rcases operations_cases env with ⟨hcalls, -⟩ | ⟨-, hsilent⟩
  · exact absurd hcalls h
  · exact flatMap_endIntent hsilent

/-- It sends one exactly when it broadcasts once. -/
theorem length_endIntents_iff (h : ¬ env.Skips) :
    (Wrapper.powerAwareTask.endIntents task env).length = 1 ↔ env.BroadcastsOnce := by
  unfold WrapperEnv.BroadcastsOnce
  by_cases hcalls : env.Calls
  swap
  · rw [endIntents_of_not_calls hcalls]
    simp [hcalls]
  rw [endIntents_eq task env hcalls]
  simp only [hcalls, true_and]
  unfold tryOperations
  cases hthrows : env.throws .callTask with
  | some thrown =>
      cases thrown with
      | error => simp [Wrapper.endIntent]
      | exception =>
          by_cases hout : env.GetsOut .broadcastError <;>
            simp [Wrapper.endIntent, endIntent, caught, hout]
  | none =>
      cases htask : env.taskEnd with
      | error => simp [Wrapper.endIntent]
      | measurementSkipped e => exact absurd (.inr ⟨hcalls, hthrows, e, htask⟩) h
      | measurementError e | exception e =>
          by_cases hout : env.GetsOut .broadcastError <;>
            simp [Wrapper.endIntent, endIntent, caught, hout, htask]
      | returned result =>
          rcases hlast : env.throws .broadcastMeasurementEnd with _ | _ | _
          · simp [Wrapper.endIntent, endIntent, WrapperEnv.GetsOut, hlast]
          · -- it may be told twice, once as a result and once as an error
            have hfirst : env.GetsOut .broadcastMeasurementEnd ↔
                env.sent .broadcastMeasurementEnd = true := by
              simp [WrapperEnv.GetsOut, hlast]
            by_cases hsent : env.sent .broadcastMeasurementEnd = true <;>
              by_cases hout : env.GetsOut .broadcastError <;>
              simp [Wrapper.endIntent, endIntent, caught, hfirst, hsent, hout, htask]
          · by_cases hsent : env.sent .broadcastMeasurementEnd = true <;>
              simp [Wrapper.endIntent, endIntent, WrapperEnv.GetsOut, hlast, hsent]

/-- What is sent is an end intent of the task's priority. -/
theorem isEnd_endIntent {env : WrapperEnv} {result : Option String}
    {error : Option MeasurementError} {intent : Intent}
    (h : endIntent task env result error = some intent) :
    intent.IsEnd (intOfLong task.desc.priority) := by
  unfold endIntent at h
  split at h
  · cases h
  · cases h
    refine ⟨rfl, rfl, ?_⟩
    cases result with
    | some text => exact ⟨text, rfl⟩
    | none => exact ⟨_, rfl⟩

/-- Each end intent has the cast of the task's priority, and a message. -/
theorem isEnd_of_mem {intent : Intent}
    (h : intent ∈ Wrapper.powerAwareTask.endIntents task env) :
    intent.IsEnd (intOfLong task.desc.priority) := by
  unfold Wrapper.endIntents at h
  obtain ⟨pc, -, hpc⟩ := List.mem_flatMap.mp h
  split at hpc
  · rw [Option.mem_toList] at hpc
    unfold Wrapper.endIntent at hpc
    split at hpc
    · rename_i heq _
      cases heq
    · exact isEnd_endIntent hpc
    · exact isEnd_endIntent hpc
    · cases hpc
  · cases hpc

end PowerAwareTask

/-! ## What gets to the consoles -/

/-- On consoles that were empty, as many messages as there are end intents, up to the
bound, in the console that their priority says. -/
theorem length_onReceive {priority : Int} {intents : List Intent}
    (h : ∀ intent ∈ intents, intent.IsEnd priority) {c : Consoles}
    (huser : c.userResults.length ≤ maxListItems)
    (hsystem : c.systemResults.length ≤ maxListItems) :
    (intents.foldl Consoles.onReceive c).userResults.length =
        (if priority = userPriority then
          min maxListItems (c.userResults.length + intents.length)
        else c.userResults.length) ∧
      (intents.foldl Consoles.onReceive c).systemResults.length =
        if priority ≠ userPriority ∧ priority ≠ invalidPriority then
          min maxListItems (c.systemResults.length + intents.length)
        else c.systemResults.length := by
  induction intents generalizing c with
  | nil => simp [huser, hsystem]
  | cons intent intents ih =>
      obtain ⟨hpriority, hprogress, msg, hmsg⟩ := h intent List.mem_cons_self
      have hrest := fun i hi => h i (List.mem_cons_of_mem intent hi)
      have hreceive := onReceive_end (c := c) hpriority hprogress hmsg
      have hu := congrArg List.length hreceive.1
      have hs := congrArg List.length hreceive.2
      rw [apply_ite List.length, length_insertStringToConsole huser] at hu
      rw [apply_ite List.length, length_insertStringToConsole hsystem] at hs
      have hih := ih hrest (c := c.onReceive intent) (by rw [hu]; split <;> omega)
        (by rw [hs]; split <;> omega)
      rw [List.foldl_cons, List.length_cons, hih.1, hih.2, hu, hs]
      constructor
      · split <;> omega
      · split <;> omega

/-- Exactly one message gets to the user's console and none to the system's when there is
one end intent for the user. -/
theorem toUser_iff_length {task : MeasurementTask} {env : WrapperEnv} (priority : Int)
    (h : ∀ intent ∈ task.wrapper.endIntents task env, intent.IsEnd priority) :
    ToUser task env ↔
      (task.wrapper.endIntents task env).length = 1 ∧ priority = userPriority := by
  unfold ToUser Consoles.afterTask
  generalize task.wrapper.endIntents task env = intents at h
  constructor
  · intro hall
    -- on empty consoles the messages can be counted
    obtain ⟨msg, huser, -⟩ := hall ⟨[], [], 0, 0⟩
    have hcount := (length_onReceive h (c := ⟨[], [], 0, 0⟩) (by decide) (by decide)).1
    rw [huser, length_insertStringToConsole (by decide)] at hcount
    unfold maxListItems at hcount
    dsimp only [List.length_nil] at hcount
    split at hcount
    · rename_i hpriority
      exact ⟨by omega, hpriority⟩
    · omega
  · rintro ⟨hone, rfl⟩ c
    obtain ⟨intent, rfl⟩ := List.length_eq_one_iff.mp hone
    obtain ⟨hpriority, hprogress, msg, hmsg⟩ := h intent (List.mem_singleton_self intent)
    have hreceive := onReceive_end (c := c) hpriority hprogress hmsg
    rw [if_pos rfl, if_neg (fun hne => hne.1 rfl)] at hreceive
    exact ⟨msg, hreceive.1, hreceive.2⟩

/-- An end gets to the system's console when one intent is sent and its priority is
no reserved one. -/
theorem toSystem_iff_length {task : MeasurementTask} {env : WrapperEnv} (priority : Int)
    (h : ∀ intent ∈ task.wrapper.endIntents task env, intent.IsEnd priority) :
    ToSystem task env ↔ (task.wrapper.endIntents task env).length = 1 ∧
      priority ≠ userPriority ∧ priority ≠ invalidPriority := by
  unfold ToSystem Consoles.afterTask
  generalize task.wrapper.endIntents task env = intents at h
  constructor
  · intro hall
    obtain ⟨msg, hsystem, -⟩ := hall ⟨[], [], 0, 0⟩
    have hcount := (length_onReceive h (c := ⟨[], [], 0, 0⟩) (by decide) (by decide)).2
    rw [hsystem, length_insertStringToConsole (by decide)] at hcount
    unfold maxListItems at hcount
    dsimp only [List.length_nil] at hcount
    split at hcount
    · rename_i hpriority
      exact ⟨by omega, hpriority⟩
    · omega
  · rintro ⟨hone, hboth⟩ c
    obtain ⟨intent, rfl⟩ := List.length_eq_one_iff.mp hone
    obtain ⟨hpriority, hprogress, msg, hmsg⟩ := h intent (List.mem_singleton_self intent)
    have hreceive := onReceive_end (c := c) hpriority hprogress hmsg
    rw [if_neg hboth.1, if_pos hboth] at hreceive
    exact ⟨msg, hreceive.2, hreceive.1⟩

/-! ## Which way a task goes -/

/-- An end gets to the user's console exactly when the announcement does not throw
and the intent gets out. -/
theorem toUser_iff {task : MeasurementTask} (h : task.desc.priority = userPriority)
    (env : WrapperEnv) :
    ToUser task env ↔
      env.throws .announce = none ∧ env.GetsOut .broadcastMeasurementEnd := by
  have hwrapper : task.wrapper = .userMeasurementTask := if_pos h
  obtain ⟨result, hintents⟩ := UserMeasurementTask.endIntents_eq task env
  rw [toUser_iff_length userPriority, hwrapper, hintents]
  · split
    · rename_i hboth
      simp [hboth]
    · rename_i hnot
      simp [hnot]
  · rw [hwrapper, hintents]
    intro intent hintent
    split at hintent
    · rw [List.mem_singleton.mp hintent]
      exact ⟨rfl, rfl, UserMeasurementTask.endIntent_message env result⟩
    · cases hintent

/-- An end gets to the system's console exactly when it is broadcast once, with an
unreserved priority. -/
theorem toSystem_iff {task : MeasurementTask} (h : task.desc.priority ≠ userPriority)
    {env : WrapperEnv} (hskips : ¬ env.Skips) :
    ToSystem task env ↔ env.BroadcastsOnce ∧ Unreserved task.desc.priority := by
  have hwrapper : task.wrapper = .powerAwareTask := if_neg h
  rw [toSystem_iff_length (intOfLong task.desc.priority), hwrapper,
    PowerAwareTask.length_endIntents_iff hskips, unreserved_iff]
  rw [hwrapper]
  exact fun intent => PowerAwareTask.isEnd_of_mem

/-- The end of a user's task gets to the right console exactly when its announcement returns
and its end broadcast gets out; that of a system task, when it was skipped, or when exactly
one end broadcast of its wrapper gets out and the priority is not cast to a reserved
value. -/
theorem routed_iff (task : MeasurementTask) (env : WrapperEnv) :
    Routed task env ↔
      if task.desc.priority = userPriority then
        env.throws .announce = none ∧ env.GetsOut .broadcastMeasurementEnd
      else env.Skips ∨ (env.BroadcastsOnce ∧ Unreserved task.desc.priority) := by
  unfold Routed
  by_cases huser : task.desc.priority = userPriority
  · rw [if_pos huser, if_pos huser]
    exact toUser_iff huser env
  · rw [if_neg huser, if_neg huser]
    by_cases hskips : env.Skips
    · exact iff_of_true (fun hnot => absurd hskips hnot) (.inl hskips)
    · have hiff := toSystem_iff huser hskips
      constructor
      · intro hrouted
        exact .inr (hiff.mp (hrouted hskips))
      · rintro (h | h)
        · exact absurd h hskips
        · exact fun _ => hiff.mpr h

/-- A ping of the system that returns a result, with nothing thrown on the way. -/
def pingEnds : WrapperEnv where
  throws _ := none
  sent _ := false
  pauseRequested := false
  canScheduleExperiment := true
  taskEnd := .returned (some "[Ping]")
  taskText := "<MeasurementTask> ping"
  descriptor := "ping"
  timestamp := "0"

/-- With priority `2 ^ 31` its result is shown to the user. -/
theorem not_routed_priority31 :
    ¬ ∀ (task : MeasurementTask) (env : WrapperEnv), (∀ pc, env.throws pc = none) →
      Routed task env := by
  intro hall
  have hrouted := hall (pingTaskOf 0 (2 ^ 31) 0 90000 1) pingEnds fun _ => rfl
  have hskips : ¬ pingEnds.Skips := by
    rintro (⟨-, h | h⟩ | ⟨-, -, e, h⟩)
    · cases h
    · cases h
    · cases h
  have hsystem : ToSystem (pingTaskOf 0 (2 ^ 31) 0 90000 1) pingEnds := by
    unfold Routed at hrouted
    rw [if_neg (by decide)] at hrouted
    exact hrouted hskips
  obtain ⟨msg, hinserted, -⟩ := hsystem ⟨[], [], 0, 0⟩
  have hnone : ((⟨[], [], 0, 0⟩ : Consoles).afterTask (pingTaskOf 0 (2 ^ 31) 0 90000 1)
      pingEnds).systemResults = [] := by decide
  rw [hnone] at hinserted
  cases hinserted

end MobiPerf.Scheduler
