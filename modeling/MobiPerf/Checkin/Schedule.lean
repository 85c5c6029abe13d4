import MobiPerf.Lib.Fallible
import MobiPerf.Scheduler.Task

/-!
# Checkin.Schedule — the schedule a check-in reads

`Checkin.checkin` from the array the server returned to the list of tasks, with
`MeasurementJsonConvertor` under it: an entry's type is looked up, Gson fills a
description from its fields, and the type's constructor checks it. Each part has
exceptions of its own, and the loop catches one kind of them.

The two libraries are parameters (`JsonLibraries`): an accessor of `org.json`
throws when a name is missing, a conversion of Gson throws when it has no value.
A task is given by its description, `intervalSec` still being the `double` Gson
read.

* `checkin_eq_decoded_iff`: the schedule is the tasks of the entries that decode,
  in order, exactly when every object of the array is `Tolerated`. An entry
  without a `type`, and one of a supported type with a field Gson cannot convert,
  end the whole check-in; one whose interval is no number is lost although its
  constructor accepts it, by the line that logs it.
* `checkin_accepted`: what the scheduler gets was accepted by a constructor.
-/

namespace MobiPerf.Checkin

open Lib Scheduler

/-! ## JSON values and the libraries -/

/-- A value of `org.json`; its numbers are those a `double` holds. -/
inductive JsonValue where
  | null
  | bool (b : Bool)
  | number (x : ℚ)
  | string (s : String)
  | array (values : List JsonValue)
  | object (entries : List (String × JsonValue))

abbrev JsonObject := List (String × JsonValue)

/-- A `double`: a rational, or one of the three values that are none. -/
inductive JavaDouble where
  | finite (x : ℚ)
  | nan
  | posInfinity
  | negInfinity
deriving DecidableEq, Repr

/-- `x <= 0`, which no comparison with `NaN` satisfies. -/
def JavaDouble.notPositive : JavaDouble → Bool
  | .finite x => x ≤ 0
  | .negInfinity => true
  | .nan | .posInfinity => false

def JavaDouble.isNumber : JavaDouble → Bool
  | .finite _ => true
  | .nan | .posInfinity | .negInfinity => false

/-- The exceptions of a check-in. -/
inductive Throwable where
  | jsonException (name : String)
  | jsonParse (field : String)
  | nullPointer
  | invocationTarget (cause : JavaException)
  | illegalArgument
  | io (msg : String)
deriving DecidableEq, Repr

/-- The kinds of field a description has. -/
inductive FieldKind where
  | string
  | date
  | double
  | long
  | int
  | boolean
  | map
deriving DecidableEq, Repr

/-- What the code uses of `org.json`, Gson and `SimpleDateFormat`: `none` is a
value that does not convert. In a map, a null value reads as a missing one. -/
structure JsonLibraries where
  valueOf : JsonValue → String
  getAsString : JsonValue → Option String
  parseDate : String → Option Int
  double : JsonValue → Option JavaDouble
  long : JsonValue → Option Int
  int : JsonValue → Option Int
  boolean : JsonValue → Option Bool
  map : JsonValue → Option Params

variable (lib : JsonLibraries)

/-- `DateTypeConverter.deserialize`: what is no string or no date becomes a
`JsonParseException`. -/
def JsonLibraries.date (v : JsonValue) : Option Int :=
  (lib.getAsString v).bind lib.parseDate

def JsonLibraries.converts (kind : FieldKind) (v : JsonValue) : Bool :=
  match kind with
  | .string => (lib.getAsString v).isSome
  | .date => (lib.date v).isSome
  | .double => (lib.double v).isSome
  | .long => (lib.long v).isSome
  | .int => (lib.int v).isSome
  | .boolean => (lib.boolean v).isSome
  | .map => (lib.map v).isSome

def JsonObject.opt (json : JsonObject) (name : String) : Option JsonValue :=
  (json.find? fun e => e.1 = name).map Prod.snd

/-- `JSONObject.get`. -/
def JsonObject.get (json : JsonObject) (name : String) : Except Throwable JsonValue :=
  match json.opt name with
  | some v => .ok v
  | none => .error (.jsonException name)

/-- `JSONObject.getString`, which writes out a value of another type. -/
def JsonObject.getString (json : JsonObject) (name : String) : Except Throwable String := do
  match ← json.get name with
  | .string s => pure s
  | v => pure (lib.valueOf v)

/-! ## Gson on a description -/

/-- The fields of `MeasurementDesc`, under their names in JSON. -/
def generalFields : List (String × FieldKind) :=
  [("type", .string), ("key", .string), ("start_time", .date), ("end_time", .date),
    ("interval_sec", .double), ("count", .long), ("priority", .long), ("parameters", .map)]

/-- The fields each description class adds. -/
def ownFields : TaskType → List (String × FieldKind)
  | .ping =>
    [("ping_exe", .string), ("target", .string), ("packet_size_byte", .int),
      ("ping_timeout_sec", .int)]
  | .http => [("url", .string), ("method", .string), ("headers", .string), ("body", .string)]
  | .traceroute =>
    [("target", .string), ("packet_size_byte", .int), ("ping_timeout_sec", .int),
      ("ping_interval_sec", .double), ("pings_per_hop", .int), ("max_hop_count", .int),
      ("ping_exe", .string)]
  | .dnsLookup => [("target", .string), ("server", .string)]
  | .tcpThroughput =>
    [("data_limit_mb_up", .double), ("data_limit_mb_down", .double), ("dir_up", .boolean),
      ("duration_period_sec", .double), ("pkt_size_up_bytes", .int),
      ("sample_period_sec", .double), ("slow_start_period_sec", .double), ("target", .string),
      ("tcp_timeout_sec", .double)]
  -- not in `measurementTypes`: no entry is decoded to it
  | .udpBurst =>
    [("packet_size_byte", .int), ("udp_burst_count", .int), ("dst_port", .int),
      ("target", .string), ("dir_up", .boolean)]

def fields (type : TaskType) : List (String × FieldKind) := ownFields type ++ generalFields

/-- A field as Gson reads it: a missing name or a `null` leaves the field as it
is. -/
def readField {α : Type} (convert : JsonValue → Option α) (json : JsonObject) (name : String) :
    Except Throwable (Option α) :=
  match json.opt name with
  | none | some .null => .ok none
  | some v =>
    match convert v with
    | some a => .ok (some a)
    | none => .error (.jsonParse name)

/-- A field whose value the task's constructor does not use. -/
def checkField (json : JsonObject) (field : String × FieldKind) : Except Throwable Unit := do
  let _ ← readField (fun v => if lib.converts field.2 v then some () else none) json field.1
  pure ()

/-- The description as Gson fills it: the fields the task's constructor copies. -/
structure ParsedDesc where
  key : Option String
  startTime : Option Int
  endTime : Option Int
  intervalSec : JavaDouble
  count : Int
  priority : Int
  parameters : Option Params

/-- `gson.fromJson(json.toString(), descClass)`. -/
def fromJson (type : TaskType) (json : JsonObject) : Except Throwable ParsedDesc := do
  forM (ownFields type) (checkField lib json)
  checkField lib json ("type", .string)
  let key ← readField lib.getAsString json "key"
  let startTime ← readField lib.date json "start_time"
  let endTime ← readField lib.date json "end_time"
  let intervalSec ← readField lib.double json "interval_sec"
  let count ← readField lib.long json "count"
  let priority ← readField lib.long json "priority"
  let parameters ← readField lib.map json "parameters"
  pure {
    key, startTime, endTime, parameters
    intervalSec := intervalSec.getD (.finite 0)
    count := count.getD 0
    priority := priority.getD 0 }

/-! ## One entry -/

/-- `MeasurementTask.getTaskClassForMeasurement`: the static map from a type's
name to its class. -/
def getTaskClassForMeasurement (type : String) : Option TaskType :=
  if type = "ping" then some .ping
  else if type = "http" then some .http
  else if type = "traceroute" then some .traceroute
  else if type = "dns_lookup" then some .dnsLookup
  else if type = "tcpthroughput" then some .tcpThroughput
  else none

/-- `getMeasurementTypes().contains(type)`, for any object. -/
def supports : JsonValue → Bool
  | .string s => (getTaskClassForMeasurement s).isSome
  | _ => false

/-- A description as the constructor of a task leaves it, its interval a
`double`. -/
structure TaskDesc where
  type : TaskType
  key : Option String
  startTime : Int
  endTime : Int
  intervalSec : JavaDouble
  count : Int
  priority : Int
  parameters : Option Params
deriving DecidableEq, Repr

/-- The constructor of the description of a `type`, from the one Gson filled;
`clock` is its two readings of the clock. -/
def TaskDesc.construct (type : TaskType) (desc : ParsedDesc) (clock : Int × Int) :
    Except JavaException TaskDesc := do
  type.checkParams desc.parameters
  .ok {
    type
    key := desc.key
    startTime := desc.startTime.getD clock.1
    endTime := cappedEndTime desc.endTime clock.2
    intervalSec :=
      if desc.intervalSec.notPositive then .finite defaultSystemMeasurementIntervalSec
      else desc.intervalSec
    count := desc.count
    priority := desc.priority
    parameters := desc.parameters }

/-- The body of `makeMeasurementTaskFromJson`, inside its `try`. -/
def makeTask (json : JsonObject) (clock : Int × Int) : Except Throwable TaskDesc := do
  let name ← json.getString lib "type"
  match getTaskClassForMeasurement name with
  | none => .error .nullPointer
  | some taskClass =>
    let measurementDesc ← fromJson lib taskClass json
    match TaskDesc.construct taskClass measurementDesc clock with
    | .error e => .error (.invocationTarget e)
    | .ok task => .ok task

/-- `makeMeasurementTaskFromJson`: a `JsonParseException` is not among those
it turns into an `IllegalArgumentException`. -/
def makeMeasurementTaskFromJson (json : JsonObject) (clock : Int × Int) :
    Except Throwable TaskDesc :=
  match makeTask lib json clock with
  | .ok task => .ok task
  | .error (.jsonException _) => .error .illegalArgument
  | .error (.invocationTarget _) => .error .illegalArgument
  | .error e => .error e

/-- `toJsonString(task.measurementDesc)`, for the log: Gson refuses a `double`
that is no number. -/
def toJsonString (task : TaskDesc) : Except Throwable Unit :=
  if task.intervalSec.isNumber then .ok () else .error .illegalArgument

/-! ## The check-in -/

/-- One round of the loop: the task it adds to the schedule, if any. -/
def checkinEntry (clock : Int × Int) (entry : JsonValue) : Except Throwable (Option TaskDesc) :=
  match entry with
  | .object json => do
    -- outside the inner `try`: a missing type leaves the loop
    let type ← JsonObject.get json "type"
    if supports type then
      let made : Except Throwable TaskDesc := do
        let task ← makeMeasurementTaskFromJson lib json clock
        toJsonString task
        pure task
      match made with
      | .ok task => .ok (some task)
      | .error .illegalArgument => .ok none
      | .error e => .error e
    else .ok none
  | _ => .ok none

/-- `checkin`, from the array the server returned; `clock i` is what the
constructor reads when it decodes entry `i`. -/
def checkin (clock : ℕ → Int × Int) (jsonArray : List JsonValue) :
    Except Throwable (List TaskDesc) :=
  match jsonArray.zipIdx.foldlM (collectStep fun e => checkinEntry lib (clock e.2) e.1) [] with
  | .ok schedule => .ok schedule
  | .error (.jsonException _) => .error (.io "There is exception during checkin()")
  | .error e => .error e

/-! ## What the schedule should be -/

/-- The supported type an entry names, if it names one. -/
def JsonObject.taskType (json : JsonObject) : Option TaskType :=
  match json.opt "type" with
  | some (.string name) => getTaskClassForMeasurement name
  | _ => none

/-- The task an entry stands for, taken alone: its type is supported, its fields
convert and the constructor accepts its parameters. -/
def decode (clock : Int × Int) : JsonValue → Option TaskDesc
  | .object json => do
    let type ← JsonObject.taskType json
    let desc ← (fromJson lib type json).toOption
    (TaskDesc.construct type desc clock).toOption
  | _ => none

/-- The tasks of the entries that decode, in the array's order. -/
def decoded (clock : ℕ → Int × Int) (jsonArray : List JsonValue) : List TaskDesc :=
  jsonArray.zipIdx.filterMap fun e => decode lib (clock e.2) e.1

def Convertible (json : JsonObject) (field : String × FieldKind) : Prop :=
  json.opt field.1 = none ∨ json.opt field.1 = some .null ∨
    ∃ v, json.opt field.1 = some v ∧ lib.converts field.2 v

/-- The entry is one the check-in gets past, and does not lose for its interval:
it has a type; if that type is supported, its fields convert; and if its parameters
are then accepted, its interval is a number. -/
structure Tolerated (json : JsonObject) : Prop where
  typed : json.opt "type" ≠ none
  convertible : ∀ type, json.taskType = some type →
    ∀ field ∈ fields type, Convertible lib json field
  numeric : ∀ type parameters, json.taskType = some type →
    readField lib.map json "parameters" = .ok parameters →
      type.checkParams parameters = .ok () →
        readField lib.double json "interval_sec" ≠ .ok (some .nan) ∧
          readField lib.double json "interval_sec" ≠ .ok (some .posInfinity)

/-! ## Reading the fields -/

variable {lib}

theorem readField_ok_iff {α : Type} {convert : JsonValue → Option α} {json : JsonObject}
    {name : String} :
    (∃ o, readField convert json name = .ok o) ↔
      json.opt name = none ∨ json.opt name = some .null ∨
        ∃ v, json.opt name = some v ∧ (convert v).isSome := by
  unfold readField
  split
  · rename_i hnone
    simp [hnone]
  · rename_i hnull
    simp [hnull]
  · rename_i v hv hsome
    cases hconvert : convert v with
    | none =>
        have hnull : v ≠ .null := hv
        simp [hsome, hnull, hconvert]
    | some a => simp [hsome, hconvert]

theorem checkField_ok_iff {json : JsonObject} {field : String × FieldKind} :
    checkField lib json field = .ok () ↔ Convertible lib json field := by
  have hread : (∃ o, readField (fun v => if lib.converts field.2 v then some () else none) json
      field.1 = .ok o) ↔ _ := readField_ok_iff
  unfold checkField Convertible
  rw [except_bind_eq_ok]
  simpa [pure, Except.pure] using hread

/-- What Gson returned was read from fields that all convert. -/
theorem fromJson_eq_ok {type : TaskType} {json : JsonObject} {desc : ParsedDesc}
    (h : fromJson lib type json = .ok desc) :
    (∀ field ∈ fields type, Convertible lib json field) ∧
      readField lib.map json "parameters" = .ok desc.parameters ∧
      ∃ interval, readField lib.double json "interval_sec" = .ok interval ∧
        desc.intervalSec = interval.getD (.finite 0) := by
  unfold fromJson at h
  -- every field has been read
  rcases except_bind_eq_ok.mp h with ⟨⟨⟩, hown, h⟩
  rcases except_bind_eq_ok.mp h with ⟨⟨⟩, htype, h⟩
  rcases except_bind_eq_ok.mp h with ⟨key, hkey, h⟩
  rcases except_bind_eq_ok.mp h with ⟨startTime, hstart, h⟩
  rcases except_bind_eq_ok.mp h with ⟨endTime, hend, h⟩
  rcases except_bind_eq_ok.mp h with ⟨interval, hinterval, h⟩
  rcases except_bind_eq_ok.mp h with ⟨count, hcount, h⟩
  rcases except_bind_eq_ok.mp h with ⟨priority, hpriority, h⟩
  rcases except_bind_eq_ok.mp h with ⟨parameters, hparameters, h⟩
  cases h
  refine ⟨?_, hparameters, interval, hinterval, rfl⟩
  intro field hfield
  rcases List.mem_append.mp hfield with hfield | hfield
  · exact checkField_ok_iff.mp (forM_eq_ok.mp hown field hfield)
  · -- the general fields are the eight read above
    have hgeneral : Convertible lib json ("type", .string) ∧
        Convertible lib json ("key", .string) ∧ Convertible lib json ("start_time", .date) ∧
        Convertible lib json ("end_time", .date) ∧
        Convertible lib json ("interval_sec", .double) ∧
        Convertible lib json ("count", .long) ∧ Convertible lib json ("priority", .long) ∧
        Convertible lib json ("parameters", .map) :=
      ⟨checkField_ok_iff.mp htype, readField_ok_iff.mp ⟨key, hkey⟩,
        readField_ok_iff.mp ⟨startTime, hstart⟩, readField_ok_iff.mp ⟨endTime, hend⟩,
        readField_ok_iff.mp ⟨interval, hinterval⟩, readField_ok_iff.mp ⟨count, hcount⟩,
        readField_ok_iff.mp ⟨priority, hpriority⟩, readField_ok_iff.mp ⟨parameters, hparameters⟩⟩
    simp only [generalFields, List.mem_cons, List.not_mem_nil, or_false] at hfield
    rcases hgeneral with ⟨h₁, h₂, h₃, h₄, h₅, h₆, h₇, h₈⟩
    rcases hfield with rfl | rfl | rfl | rfl | rfl | rfl | rfl | rfl <;> assumption

/-- And fields that all convert are enough for Gson to return. -/
theorem exists_fromJson {type : TaskType} {json : JsonObject}
    (h : ∀ field ∈ fields type, Convertible lib json field) :
    ∃ desc, fromJson lib type json = .ok desc := by
  have hown : forM (ownFields type) (checkField lib json) = .ok ⟨⟩ :=
    forM_eq_ok.mpr fun field hfield =>
      checkField_ok_iff.mpr (h field (List.mem_append_left _ hfield))
  have hgeneral : ∀ field ∈ generalFields, Convertible lib json field :=
    fun field hfield => h field (List.mem_append_right _ hfield)
  have htype := checkField_ok_iff.mpr (hgeneral ("type", .string) (by decide))
  have hread : ∀ {α : Type} (convert : JsonValue → Option α) (name : String) (kind : FieldKind),
      (name, kind) ∈ generalFields → (∀ v, lib.converts kind v = (convert v).isSome) →
        ∃ o, readField convert json name = .ok o := by
    intro α convert name kind hfield hconvert
    have hconvertible := hgeneral (name, kind) hfield
    unfold Convertible at hconvertible
    simp only [hconvert] at hconvertible
    exact readField_ok_iff.mpr hconvertible
  rcases hread lib.getAsString "key" .string (by decide) (fun _ => rfl) with ⟨key, hkey⟩
  rcases hread lib.date "start_time" .date (by decide) (fun _ => rfl) with ⟨start, hstart⟩
  rcases hread lib.date "end_time" .date (by decide) (fun _ => rfl) with ⟨stop, hstop⟩
  rcases hread lib.double "interval_sec" .double (by decide) (fun _ => rfl) with ⟨i, hi⟩
  rcases hread lib.long "count" .long (by decide) (fun _ => rfl) with ⟨count, hcount⟩
  rcases hread lib.long "priority" .long (by decide) (fun _ => rfl) with ⟨priority, hpriority⟩
  rcases hread lib.map "parameters" .map (by decide) (fun _ => rfl) with ⟨ps, hps⟩
  unfold fromJson
  rw [hown, htype, hkey, hstart, hstop, hi, hcount, hpriority, hps]
  exact ⟨_, rfl⟩

/-- Gson halts with an exception of its own only. -/
theorem fromJson_error {type : TaskType} {json : JsonObject} {e : Throwable}
    (h : fromJson lib type json = .error e) : ∃ field, e = .jsonParse field := by
  -- a field that cannot be converted is named in the error, and nothing else throws
  have hread : ∀ {α : Type} (convert : JsonValue → Option α) (name : String),
      Ends (readField convert json name) (fun _ => True)
        fun e => ∃ field, e = .jsonParse field := by
    intro α convert name
    unfold readField
    split
    · exact ends_ok trivial
    · exact ends_ok trivial
    · split
      · exact ends_ok trivial
      · exact ends_error ⟨name, rfl⟩
  have hcheck : ∀ field, Ends (checkField lib json field) (fun _ => True)
      fun e => ∃ field, e = .jsonParse field :=
    fun field => (hread _ field.1).bind fun _ _ _ => ends_ok trivial
  have hown : Ends (forM (ownFields type) (checkField lib json)) (fun _ => True)
      fun e => ∃ field, e = .jsonParse field := by
    -- the fields of the type's own description are checked one by one
    induction ownFields type with
    | nil => exact ends_ok trivial
    | cons field fs ih =>
        rw [List.forM_cons]
        exact (hcheck field).bind fun _ _ _ => ih
  have hends : Ends (fromJson lib type json) (fun _ => True)
      fun e => ∃ field, e = .jsonParse field := by
    unfold fromJson
    refine hown.bind fun _ _ _ => (hcheck _).bind fun _ _ _ => ?_
    refine (hread _ _).bind fun _ _ _ => (hread _ _).bind fun _ _ _ => ?_
    refine (hread _ _).bind fun _ _ _ => (hread _ _).bind fun _ _ _ => ?_
    refine (hread _ _).bind fun _ _ _ => (hread _ _).bind fun _ _ _ => ?_
    exact (hread _ _).bind fun _ _ _ => ends_ok trivial
  exact hends.2 e h

/-! ## The constructor -/

theorem construct_of_checkParams {type : TaskType} {desc : ParsedDesc} {clock : Int × Int}
    (h : type.checkParams desc.parameters = .ok ()) :
    ∃ task, TaskDesc.construct type desc clock = .ok task := by
  unfold TaskDesc.construct
  rw [h]
  exact ⟨_, rfl⟩

theorem checkParams_of_construct {type : TaskType} {desc : ParsedDesc} {clock : Int × Int}
    {task : TaskDesc} (h : TaskDesc.construct type desc clock = .ok task) :
    type.checkParams desc.parameters = .ok () := by
  rcases except_bind_eq_ok.mp h with ⟨⟨⟩, hcheck, -⟩
  exact hcheck

/-- The constructor repairs an interval that is not above zero, and no other. -/
theorem construct_isNumber_iff {type : TaskType} {desc : ParsedDesc} {clock : Int × Int}
    {task : TaskDesc} (h : TaskDesc.construct type desc clock = .ok task) :
    task.intervalSec.isNumber = true ↔
      desc.intervalSec ≠ .nan ∧ desc.intervalSec ≠ .posInfinity := by
  rcases except_bind_eq_ok.mp h with ⟨⟨⟩, -, htask⟩
  cases htask
  dsimp only
  cases desc.intervalSec with
  | finite x =>
      by_cases hx : x ≤ 0 <;> simp [JavaDouble.notPositive, JavaDouble.isNumber, hx]
  | nan => simp [JavaDouble.notPositive, JavaDouble.isNumber]
  | posInfinity => simp [JavaDouble.notPositive, JavaDouble.isNumber]
  | negInfinity => simp [JavaDouble.notPositive, JavaDouble.isNumber]

/-! ## One entry -/

theorem taskType_eq_some {json : JsonObject} {type : TaskType} (h : json.taskType = some type) :
    ∃ name, json.opt "type" = some (.string name) ∧
      getTaskClassForMeasurement name = some type := by
  unfold JsonObject.taskType at h
  split at h
  · rename_i name htype
    exact ⟨name, htype, h⟩
  · cases h

/-- An entry of no supported type is passed over, if it has a type at all. -/
theorem checkinEntry_unsupported {json : JsonObject} {clock : Int × Int}
    (htyped : json.opt "type" ≠ none) (h : json.taskType = none) :
    checkinEntry lib clock (.object json) = .ok none := by
  rcases Option.ne_none_iff_exists'.mp htyped with ⟨v, hv⟩
  have hsupports : supports v = false := by
    unfold JsonObject.taskType at h
    rw [hv] at h
    cases v with
    | string name => simpa [supports] using h
    | _ => rfl
  have hget : JsonObject.get json "type" = .ok v := by
    unfold JsonObject.get
    rw [hv]
  simp [checkinEntry, hget, hsupports, bind, Except.bind]

/-- An entry of a supported type: what Gson throws leaves the loop, what the
constructor or the log line throws does not. -/
theorem checkinEntry_supported {json : JsonObject} {type : TaskType} {clock : Int × Int}
    (h : json.taskType = some type) :
    checkinEntry lib clock (.object json) =
      (fromJson lib type json).bind fun desc =>
        .ok ((TaskDesc.construct type desc clock).toOption.filter fun task =>
          task.intervalSec.isNumber) := by
  -- the type is read twice, from the entry and in `makeMeasurementTaskFromJson`
  rcases taskType_eq_some h with ⟨name, htype, hclass⟩
  have hget : JsonObject.get json "type" = .ok (.string name) := by
    unfold JsonObject.get
    rw [htype]
  have hname : json.getString lib "type" = .ok name := by
    unfold JsonObject.getString
    rw [hget]
    rfl
  have hsupports : supports (.string name) = true := by
    simp [supports, hclass]
  unfold checkinEntry
  dsimp only
  rw [hget]
  simp only [bind, Except.bind, hsupports, if_true]
  unfold makeMeasurementTaskFromJson makeTask
  rw [hname]
  simp only [bind, Except.bind, hclass]
  -- an entry that cannot be read, constructed or printed leaves no task
  cases hjson : fromJson lib type json with
  | error e =>
      rcases fromJson_error hjson with ⟨field, rfl⟩
      rfl
  | ok desc =>
      cases hconstruct : TaskDesc.construct type desc clock with
      | error e => simp [hconstruct, Except.toOption]
      | ok task =>
          cases hnumber : task.intervalSec.isNumber <;>
            simp [hconstruct, hnumber, toJsonString, Except.toOption, pure, Except.pure,
              Option.filter_some]

theorem decode_supported {json : JsonObject} {type : TaskType} {clock : Int × Int}
    {desc : ParsedDesc} (htype : json.taskType = some type)
    (hjson : fromJson lib type json = .ok desc) :
    decode lib clock (.object json) = (TaskDesc.construct type desc clock).toOption := by
  simp [decode, htype, hjson, Except.toOption]

/-- An entry that Gson reads is taken for what it is, unless the interval of the
task it makes is no number. -/
theorem checkinEntry_read_iff {json : JsonObject} {type : TaskType} {clock : Int × Int}
    {desc : ParsedDesc} (htype : json.taskType = some type)
    (hjson : fromJson lib type json = .ok desc) :
    checkinEntry lib clock (.object json) = .ok (decode lib clock (.object json)) ↔
      ∀ task, TaskDesc.construct type desc clock = .ok task →
        task.intervalSec.isNumber = true := by
  rw [checkinEntry_supported htype, decode_supported htype hjson, hjson]
  show Except.ok _ = Except.ok _ ↔ _
  rw [Except.ok.injEq]
  cases hconstruct : TaskDesc.construct type desc clock with
  | error e =>
      constructor
      · intro _ task hok
        cases hok
      · intro _
        rfl
  | ok task => simp [Except.toOption, Option.filter_some]

/-- The interval Gson reads is no number exactly if the field holds none; a field
that is not there leaves zero. -/
theorem interval_iff {json : JsonObject} {type : TaskType} {desc : ParsedDesc}
    (hjson : fromJson lib type json = .ok desc) :
    desc.intervalSec ≠ .nan ∧ desc.intervalSec ≠ .posInfinity ↔
      readField lib.double json "interval_sec" ≠ .ok (some .nan) ∧
        readField lib.double json "interval_sec" ≠ .ok (some .posInfinity) := by
  rcases fromJson_eq_ok hjson with ⟨-, -, interval, hinterval, hdesc⟩
  rw [hinterval, hdesc]
  cases interval with
  | none => simp
  | some x => simp

/-- The loop takes an entry for what it is exactly when it tolerates it. -/
theorem checkinEntry_eq_iff {json : JsonObject} {clock : Int × Int} :
    checkinEntry lib clock (.object json) = .ok (decode lib clock (.object json)) ↔
      Tolerated lib json := by
  constructor
  · intro heq
    have hread : ∀ type, json.taskType = some type → ∃ desc, fromJson lib type json = .ok desc := by
      intro type htype
      rw [checkinEntry_supported htype] at heq
      rcases except_bind_eq_ok.mp heq with ⟨desc, hjson, -⟩
      exact ⟨desc, hjson⟩
    constructor
    · intro hnone
      have hget : JsonObject.get json "type" = .error (.jsonException "type") := by
        unfold JsonObject.get
        rw [hnone]
      simp [checkinEntry, hget, bind, Except.bind] at heq
    · intro type htype
      rcases hread type htype with ⟨desc, hjson⟩
      exact (fromJson_eq_ok hjson).1
    · intro type parameters htype hparameters hcheck
      rcases hread type htype with ⟨desc, hjson⟩
      have hps := (fromJson_eq_ok hjson).2.1
      rw [hps] at hparameters
      cases hparameters
      have hmade : ∃ task, TaskDesc.construct type desc clock = .ok task :=
        construct_of_checkParams hcheck
      rcases hmade with ⟨task, hconstruct⟩
      have hnumber := (checkinEntry_read_iff htype hjson).mp heq task hconstruct
      exact (interval_iff hjson).mp ((construct_isNumber_iff hconstruct).mp hnumber)
  · intro htolerated
    cases htype : json.taskType with
    | none =>
        -- a type that is not supported is passed over
        rw [checkinEntry_unsupported htolerated.typed htype]
        simp [decode, htype]
    | some type =>
        rcases exists_fromJson (htolerated.convertible type htype) with ⟨desc, hjson⟩
        refine (checkinEntry_read_iff htype hjson).mpr fun task hconstruct => ?_
        have hcheck := checkParams_of_construct hconstruct
        have hps := (fromJson_eq_ok hjson).2.1
        have hnumeric := htolerated.numeric type desc.parameters htype hps hcheck
        exact (construct_isNumber_iff hconstruct).mpr ((interval_iff hjson).mpr hnumeric)

/-- What is no object is passed over. -/
theorem checkinEntry_of_not_object {entry : JsonValue} {clock : Int × Int}
    (h : ∀ json, entry ≠ .object json) :
    checkinEntry lib clock entry = .ok (decode lib clock entry) := by
  cases entry with
  | object json => exact absurd rfl (h json)
  | _ => rfl

/-- An entry adds the task it stands for, or none. -/
theorem checkinEntry_cases {entry : JsonValue} {clock : Int × Int} {o : Option TaskDesc}
    (h : checkinEntry lib clock entry = .ok o) : o = none ∨ o = decode lib clock entry := by
  cases entry with
  | object json =>
      cases htype : JsonObject.taskType json with
      | none =>
          have htyped : JsonObject.opt json "type" ≠ none := by
            intro hnone
            simp [checkinEntry, JsonObject.get, hnone, bind, Except.bind] at h
          rw [checkinEntry_unsupported htyped htype] at h
          cases h
          exact .inl rfl
      | some type =>
          rw [checkinEntry_supported htype] at h
          rcases except_bind_eq_ok.mp h with ⟨desc, hjson, hround⟩
          rw [decode_supported htype hjson]
          cases hround
          cases (TaskDesc.construct type desc clock).toOption with
          | none => exact .inl rfl
          | some task =>
              cases hnumber : task.intervalSec.isNumber with
              | false => exact .inl (by simp [Option.filter_some, hnumber])
              | true => exact .inr (by simp [Option.filter_some, hnumber])
  | _ =>
      cases h
      exact .inl rfl

/-! ## The whole array -/

theorem checkin_eq_ok_iff {clock : ℕ → Int × Int} {jsonArray : List JsonValue}
    {tasks : List TaskDesc} :
    checkin lib clock jsonArray = .ok tasks ↔
      (∀ e ∈ jsonArray.zipIdx, ∃ o, checkinEntry lib (clock e.2) e.1 = .ok o) ∧
        tasks = jsonArray.zipIdx.filterMap fun e =>
          (checkinEntry lib (clock e.2) e.1).toOption.join := by
  have hloop : jsonArray.zipIdx.foldlM
        (collectStep fun e => checkinEntry lib (clock e.2) e.1) [] = .ok tasks ↔ _ :=
    foldlM_collect_eq_ok
  rw [List.nil_append] at hloop
  rw [← hloop]
  unfold checkin
  split
  · rename_i schedule heq
    rw [heq]
  · rename_i name heq
    simp [heq]
  · rename_i e _ heq
    simp [heq]

variable (lib)

/-- The check-in returns the tasks of the entries that decode, in order, exactly
when it tolerates every object of the array. -/
theorem checkin_eq_decoded_iff (clock : ℕ → Int × Int) (jsonArray : List JsonValue) :
    checkin lib clock jsonArray = .ok (decoded lib clock jsonArray) ↔
      ∀ json, .object json ∈ jsonArray → Tolerated lib json := by
  rw [checkin_eq_ok_iff]
  unfold decoded
  constructor
  · -- the lists agree, so the entries agree at each place
    rintro ⟨hreturns, hsame⟩ json hjson
    have hround : ∀ e ∈ jsonArray.zipIdx,
        (checkinEntry lib (clock e.2) e.1).toOption.join = none ∨
          (checkinEntry lib (clock e.2) e.1).toOption.join = decode lib (clock e.2) e.1 := by
      intro e he
      rcases hreturns e he with ⟨o, ho⟩
      rw [ho]
      exact checkinEntry_cases ho
    have hentries := (filterMap_eq_filterMap_iff hround).mp hsame.symm
    rcases List.getElem_of_mem hjson with ⟨i, hi, hget⟩
    have hmem : (.object json, i) ∈ jsonArray.zipIdx :=
      List.mem_zipIdx_iff_getElem?.mpr (List.getElem?_eq_some_iff.mpr ⟨hi, hget⟩)
    rcases hreturns _ hmem with ⟨o, ho⟩
    have hdecode := hentries _ hmem
    rw [ho] at hdecode
    have hkept : checkinEntry lib (clock i) (.object json) =
        .ok (decode lib (clock i) (.object json)) := by
      rw [← hdecode]
      exact ho
    exact checkinEntry_eq_iff.mp hkept
  · intro htolerated
    have hround : ∀ e ∈ jsonArray.zipIdx,
        checkinEntry lib (clock e.2) e.1 = .ok (decode lib (clock e.2) e.1) := by
      rintro ⟨entry, i⟩ he
      by_cases hobject : ∃ json, entry = .object json
      · rcases hobject with ⟨json, rfl⟩
        have hmem : .object json ∈ jsonArray :=
          List.mem_of_getElem? (List.mem_zipIdx_iff_getElem?.mp he)
        exact checkinEntry_eq_iff.mpr (htolerated json hmem)
      · exact checkinEntry_of_not_object fun json heq => hobject ⟨json, heq⟩
    constructor
    · exact fun e he => ⟨_, hround e he⟩
    · refine List.filterMap_congr fun e he => ?_
      rw [hround e he]
      rfl

/-- The libraries on the values of the array below. -/
def stringLibraries : JsonLibraries where
  valueOf
    | .string s => s
    | _ => ""
  getAsString
    | .string s => some s
    | _ => none
  parseDate := fun _ => none
  double
    | .number x => some (.finite x)
    | _ => none
  long
    | .number x => some ⌊x⌋
    | _ => none
  int
    | .number x => some ⌊x⌋
    | _ => none
  boolean
    | .bool b => some b
    | _ => none
  map
    | .object entries => entries.mapM fun
      | (name, .string s) => some (name, s)
      | _ => none
    | _ => none

/-- A ping of the local host, after an entry that has no type. -/
def untypedFirst : List JsonValue :=
  [.object [("key", .string "untyped")],
    .object [("type", .string "ping"), ("parameters", .object [("target", .string "localhost")])]]

/-- The entry without a type costs the ping, which decodes. -/
theorem not_checkin_eq_decoded_untyped :
    checkin stringLibraries (fun _ => (0, 0)) untypedFirst ≠
      .ok (decoded stringLibraries (fun _ => (0, 0)) untypedFirst) := by
  have hfails : checkin stringLibraries (fun _ => (0, 0)) untypedFirst =
      .error (.io "There is exception during checkin()") := by
    decide +kernel
  rw [hfails]
  rintro ⟨⟩

/-! ## What the scheduler gets -/

variable {lib}

/-- The description as the scheduler holds it, when the interval is a number. -/
def TaskDesc.toDesc (task : TaskDesc) : Option MeasurementDesc :=
  match task.intervalSec with
  | .finite x => some {
      type := task.type
      key := task.key
      startTime := task.startTime
      endTime := task.endTime
      intervalSec := x
      count := task.count
      priority := task.priority
      parameters := task.parameters }
  | _ => none

/-- The constructor of a task is the scheduler's, on an interval that is a
number. -/
theorem construct_toDesc {type : TaskType} {desc : ParsedDesc} {clock : Int × Int}
    {task : TaskDesc} (h : TaskDesc.construct type desc clock = .ok task)
    (hnumber : task.intervalSec.isNumber = true) :
    ∃ (x : ℚ) (d : MeasurementDesc), task.toDesc = some d ∧
      MeasurementDesc.construct type desc.key desc.startTime desc.endTime x desc.count
        desc.priority desc.parameters clock.1 clock.2 = .ok d := by
  have hcheck := checkParams_of_construct h
  rcases except_bind_eq_ok.mp h with ⟨⟨⟩, -, htask⟩
  cases htask
  unfold TaskDesc.toDesc MeasurementDesc.construct
  rw [hcheck]
  dsimp only at hnumber ⊢
  cases hinterval : desc.intervalSec with
  | finite x =>
      by_cases hx : x ≤ 0
      · exact ⟨x, by simp [JavaDouble.notPositive, hx, bind, Except.bind]⟩
      · exact ⟨x, by simp [JavaDouble.notPositive, hx, bind, Except.bind]⟩
  | negInfinity => exact ⟨0, by simp [JavaDouble.notPositive, bind, Except.bind]⟩
  | nan =>
      rw [hinterval] at hnumber
      simp [JavaDouble.notPositive, JavaDouble.isNumber] at hnumber
  | posInfinity =>
      rw [hinterval] at hnumber
      simp [JavaDouble.notPositive, JavaDouble.isNumber] at hnumber

/-- Whatever the server sends, the tasks of a check-in that returns carry
descriptions their constructors accepted. -/
theorem checkin_accepted {clock : ℕ → Int × Int} {jsonArray : List JsonValue}
    {tasks : List TaskDesc} (h : checkin lib clock jsonArray = .ok tasks) :
    ∀ task ∈ tasks, ∃ d : AcceptedDesc, task.toDesc = some d.1 := by
  rcases checkin_eq_ok_iff.mp h with ⟨hreturns, rfl⟩
  intro task htask
  rcases List.mem_filterMap.mp htask with ⟨⟨entry, i⟩, he, hround⟩
  rcases hreturns _ he with ⟨o, ho⟩
  rw [ho] at hround
  have hround : o = some task := hround
  subst hround
  -- an entry that is no object has thrown before
  cases entry with
  | object json =>
      cases htype : JsonObject.taskType json with
      -- an entry without a type leaves nothing behind
      | none =>
          rcases checkinEntry_cases ho with hnone | hdecode
          · cases hnone
          · simp [decode, htype] at hdecode
      | some type =>
          rw [checkinEntry_supported htype] at ho
          rcases except_bind_eq_ok.mp ho with ⟨desc, hjson, hkept⟩
          rcases Option.filter_eq_some_iff.mp (Except.ok.inj hkept) with ⟨hconstruct, hnumber⟩
          -- the entry was kept, so its task was constructed
          have hconstruct : TaskDesc.construct type desc (clock i) = .ok task := by
            cases hc : TaskDesc.construct type desc (clock i) with
            | error e => simp [hc, Except.toOption] at hconstruct
            | ok t =>
                rw [hc] at hconstruct
                cases hconstruct
                rfl
          rcases construct_toDesc hconstruct hnumber with ⟨x, d, htoDesc, hd⟩
          exact ⟨⟨d, MeasurementDesc.construct_accepted hd⟩, htoDesc⟩
  | _ => cases ho

end MobiPerf.Checkin
