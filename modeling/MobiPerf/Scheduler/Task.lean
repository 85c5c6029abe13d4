import Mathlib.Data.Rat.Floor
import Mathlib.Tactic.NormNum
import Mathlib.Order.Defs.Unbundled

/-!
# Scheduler.Task — measurement tasks and their descriptions

The data of `MeasurementTask` and `MeasurementDesc`: what a description's
constructor makes of its arguments, which parameter maps each measurement
accepts, the order in which tasks are queued, the two clock tests, and `clone`.

A `long` is an `Int`, with `toLong` wherever the source's arithmetic can leave
the 64 bits; `intervalSec`, a `double`, is a rational. Tasks are objects: `ref`
is a task's identity, by which the pending map tells tasks apart.
-/

namespace MobiPerf.Scheduler

/-! ## Java arithmetic -/

/-- The value of a `long` expression: wrapped to 64 bits. -/
def toLong (x : Int) : Int := Int.bmod x (2 ^ 64)

/-- `(long) x` for a `double`: truncated towards zero, held at the ends of the
range. -/
def castLong (x : ℚ) : Int :=
  let n := if 0 ≤ x then ⌊x⌋ else -⌊-x⌋
  max (-2 ^ 63) (min (2 ^ 63 - 1) n)

/-- A value within the 64 bits is itself. -/
theorem toLong_eq {x : Int} (hlo : -2 ^ 63 ≤ x) (hhi : x < 2 ^ 63) : toLong x = x := by
  unfold toLong
  rw [Int.bmod_def]
  split <;> omega

/-- The zeros of the scripts whose decimal digits are single `char`s; the other
nine digits follow each. -/
def scriptZeros : List ℕ := [
  0x0660, 0x06F0, 0x07C0, 0x0966, 0x09E6, 0x0A66, 0x0AE6, 0x0B66, 0x0BE6, 0x0C66, 0x0CE6, 0x0D66,
  0x0DE6, 0x0E50, 0x0ED0, 0x0F20, 0x1040, 0x1090, 0x17E0, 0x1810, 0x1946, 0x19D0, 0x1A80, 0x1A90,
  0x1B50, 0x1BB0, 0x1C40, 0x1C50, 0xA620, 0xA8D0, 0xA900, 0xA9D0, 0xA9F0, 0xAA50, 0xABF0, 0xFF10]

/-- `Character.digit(c, radix)`: the digits of every script, and Latin letters,
also those of full width. -/
def charDigit (radix : ℕ) (c : Char) : Option ℕ :=
  let n := c.toNat
  let digit :=
    if c.isDigit then some (n - 48)
    else if 'a' ≤ c ∧ c ≤ 'z' then some (n - 87)
    else if 'A' ≤ c ∧ c ≤ 'Z' then some (n - 55)
    else if 0xFF21 ≤ n ∧ n ≤ 0xFF3A then some (n - 0xFF17)
    else if 0xFF41 ≤ n ∧ n ≤ 0xFF5A then some (n - 0xFF37)
    else (scriptZeros.find? fun z => z ≤ n ∧ n < z + 10).map (n - ·)
  digit.filter (· < radix)

/-- The value of a text of digits; a letter that is no digit counts as zero. -/
def radixValue (radix : ℕ) (ds : List Char) : ℕ :=
  ds.foldl (fun r d => r * radix + (charDigit radix d).getD 0) 0

/-- `Integer.parseInt(s, radix)`; `none` is its `NumberFormatException`. -/
def parseRadix (radix : ℕ) (s : List Char) : Option Int :=
  let digits (ds : List Char) : Option Int :=
    if ds ≠ [] ∧ ds.all fun d => (charDigit radix d).isSome then some (radixValue radix ds : Int)
    else none
  let value := match s with
    | '-' :: ds => (digits ds).map fun n => -n
    | '+' :: ds => digits ds
    | ds => digits ds
  value.filter fun n => -2 ^ 31 ≤ n ∧ n < 2 ^ 31

/-- `Integer.parseInt(s)`. -/
def parseInt (s : String) : Option Int := parseRadix 10 s.toList

/-! ## The properties of the device -/

structure NeighboringCellInfo where
  lac : Int
  cid : Int
  rssi : Int
deriving DecidableEq, Repr

def NeighboringCellInfo.text (cidOnly : Bool) (info : NeighboringCellInfo) : String :=
  if cidOnly then toString info.cid ++ ";"
  else toString info.lac ++ "," ++ toString info.cid ++ "," ++ toString info.rssi ++ ";"

/-- `getCellInfo`; `none` is its `NullPointerException`: a list that the phone does not
have is asked for its size all the same. -/
def getCellInfo (cidOnly : Bool) : Option (List NeighboringCellInfo) → Option (Option String)
  | none => none
  | some infos =>
    if infos.length > 0 then
      -- without the trailing semicolon
      some (some (String.ofList (String.join (infos.map (·.text cidOnly))).toList.dropLast))
    else some none

/-- What the phone answers when it is asked for its properties. -/
structure Device where
  timestamp : Int
  neighboringCellInfo : Option (List NeighboringCellInfo)
deriving DecidableEq, Repr

/-- Of the properties of the device, the time and the cell towers in range. -/
structure DeviceProperty where
  timestamp : Int
  cellInfo : Option String
deriving DecidableEq, Repr

/-- `none` is the `NullPointerException` of `getCellInfo`, which nothing here catches. -/
def Device.getDeviceProperty (device : Device) : Option DeviceProperty :=
  (getCellInfo false device.neighboringCellInfo).map fun cellInfo => ⟨device.timestamp, cellInfo⟩

/-- The phone has its properties when it has a list of the cells around it, be it an empty
one. -/
theorem Device.getDeviceProperty_isSome (device : Device) :
    device.getDeviceProperty.isSome = device.neighboringCellInfo.isSome := by
  unfold getDeviceProperty getCellInfo
  cases device.neighboringCellInfo with
  | none => rfl
  | some infos =>
      dsimp only
      split <;> rfl

/-! ## Constants -/

/-- `Integer.MIN_VALUE`. -/
def userPriority : Int := -2 ^ 31

def infiniteCount : Int := -1

def defaultSystemMeasurementIntervalSec : ℚ := 15 * 60

theorem defaultSystemMeasurementIntervalSec_pos : 0 < defaultSystemMeasurementIntervalSec := by
  unfold defaultSystemMeasurementIntervalSec
  norm_num

def taskExpirationMsec : Int := 24 * 3600 * 1000

/-! ## Parameters -/

/-- The measurement types that have a task class. -/
inductive TaskType where
  | ping
  | http
  | traceroute
  | dnsLookup
  | tcpThroughput
  | udpBurst
deriving DecidableEq, Repr

/-- A `Map<String, String>`. -/
abbrev Params := List (String × String)

def Params.get (ps : Params) (name : String) : Option String :=
  (ps.find? fun p => p.1 = name).map Prod.snd

/-- The exceptions the scheduler's code meets: from a constructor of a description
or a task, from an executor that was shut down, from a request. -/
inductive JavaException where
  | invalidParameter (msg : String)
  | nullPointer
  | rejectedExecution
  | io (msg : String)
deriving DecidableEq, Repr

/-- What a description's class asks of its parameters: the fields it parses as
integers when they are there and not empty, those of them it parses once more as
a `double` when they are positive, and the field it must have. -/
structure ParamSpec where
  numeric : List String
  decimal : List String
  numericError : String
  required : String
  requiredError : String

/-- `val != null && val.length() > 0` and `parseInt` throws. -/
def badNumber (ps : Params) (field : String) : Bool :=
  match ps.get field with
  | none => false
  | some val => val ≠ "" && (parseInt val).isNone

/-- `parseInt` finds a positive number and `parseDouble`, which takes ASCII digits
only, throws. -/
def badDecimal (ps : Params) (field : String) : Bool :=
  match ps.get field with
  | none => false
  | some val => (parseInt val).any (0 < ·) && val.toList.any fun c => 128 ≤ c.toNat

/-- `initializeParams` and the test after it, for the classes that differ in
their fields only. -/
def ParamSpec.check (spec : ParamSpec) (params : Option Params) : Except JavaException Unit :=
  match params with
  | none => .error (.invalidParameter spec.requiredError)
  | some ps =>
    if spec.numeric.any (badNumber ps) || spec.decimal.any (badDecimal ps) then
      .error (.invalidParameter spec.numericError)
    else
      match ps.get spec.required with
      | none => .error (.invalidParameter spec.requiredError)
      | some target =>
        if target = "" then .error (.invalidParameter spec.requiredError) else .ok ()

def pingDesc : ParamSpec where
  numeric := ["packet_size_byte", "ping_timeout_sec"]
  decimal := []
  numericError := "PingTask cannot be created due to invalid params"
  required := "target"
  requiredError := "PingTask cannot be created due  to null target string"

def tracerouteDesc : ParamSpec where
  numeric := ["packet_size_byte", "ping_timeout_sec", "ping_interval_sec", "pings_per_hop",
    "max_hop_count"]
  decimal := []
  numericError := "PingTask cannot be created due to invalid params"
  required := "target"
  requiredError := "Target of traceroute cannot be null"

def dnsLookupDesc : ParamSpec where
  numeric := []
  decimal := []
  numericError := ""
  required := "target"
  requiredError := "LookupDnsTask cannot be created due  to null target string"

def tcpThroughputDesc : ParamSpec where
  numeric := ["data_limit_mb_down", "data_limit_mb_up", "duration_period_sec",
    "pkt_size_up_bytes", "sample_period_sec", "slow_start_period_sec", "tcp_timeout_sec"]
  decimal := ["data_limit_mb_down", "data_limit_mb_up", "duration_period_sec",
    "sample_period_sec", "slow_start_period_sec"]
  numericError := "TCP Throughput Task invalid parameters."
  required := "target"
  requiredError := "TCPThroughputTask null target"

def udpBurstDesc : ParamSpec where
  numeric := ["packet_size_byte", "packet_burst", "dst_port"]
  decimal := []
  numericError := "UDPTask invalid params"
  required := "target"
  requiredError := "UDPBurstTask null target"

/-- `HttpDesc`: a missing url is dereferenced, and an empty one gets a scheme
before it is tested. -/
def httpDescCheck (params : Option Params) : Except JavaException Unit :=
  match params with
  | none => .error (.invalidParameter "URL for http task is null")
  | some ps =>
    match ps.get "url" with
    | none => .error .nullPointer
    | some _ => .ok ()

/-- The check the constructor of each description makes. -/
def TaskType.checkParams : TaskType → Option Params → Except JavaException Unit
  | .ping => pingDesc.check
  | .http => httpDescCheck
  | .traceroute => tracerouteDesc.check
  | .dnsLookup => dnsLookupDesc.check
  | .tcpThroughput => tcpThroughputDesc.check
  | .udpBurst => udpBurstDesc.check

/-- No class accepts a null map. -/
theorem TaskType.checkParams_none (type : TaskType) : type.checkParams none ≠ .ok () := by
  intro h
  cases type <;> cases h

/-! ## Descriptions -/

structure MeasurementDesc where
  type : TaskType
  key : Option String
  startTime : Int
  endTime : Int
  intervalSec : ℚ
  count : Int
  priority : Int
  parameters : Option Params
deriving DecidableEq, Repr

/-- What the constructor leaves: an interval above zero and parameters its class
accepts. -/
def MeasurementDesc.Accepted (d : MeasurementDesc) : Prop :=
  0 < d.intervalSec ∧ d.type.checkParams d.parameters = .ok ()

/-- A description as a constructor leaves it. -/
abbrev AcceptedDesc := { d : MeasurementDesc // d.Accepted }

theorem AcceptedDesc.accepted (d : AcceptedDesc) : d.val.Accepted := d.property

/-- The end time the constructor keeps: no later than a day from `now`. -/
def cappedEndTime (endTime : Option Int) (now : Int) : Int :=
  match endTime with
  | none => toLong (now + taskExpirationMsec)
  | some t =>
    if toLong (t - now) > taskExpirationMsec then toLong (now + taskExpirationMsec) else t

/-- The constructor of the description of a `type`; `startNow` and `now` are its
two readings of the clock. -/
def MeasurementDesc.construct (type : TaskType) (key : Option String)
    (startTime endTime : Option Int) (intervalSec : ℚ) (count priority : Int)
    (parameters : Option Params) (startNow now : Int) : Except JavaException MeasurementDesc := do
  type.checkParams parameters
  .ok {
    type, key, count, priority, parameters
    startTime := startTime.getD startNow
    endTime := cappedEndTime endTime now
    intervalSec := if intervalSec ≤ 0 then defaultSystemMeasurementIntervalSec else intervalSec }

theorem MeasurementDesc.construct_accepted {type : TaskType} {key : Option String}
    {startTime endTime : Option Int} {intervalSec : ℚ} {count priority : Int}
    {parameters : Option Params} {startNow now : Int} {d : MeasurementDesc}
    (h : construct type key startTime endTime intervalSec count priority parameters startNow now =
      .ok d) : d.Accepted := by
  unfold construct at h
  cases hcheck : type.checkParams parameters with
  | error e =>
      rw [hcheck] at h
      cases h
  | ok u =>
      rw [hcheck] at h
      cases h
      constructor
      · show 0 < if intervalSec ≤ 0 then defaultSystemMeasurementIntervalSec else intervalSec
        split
        · exact defaultSystemMeasurementIntervalSec_pos
        · rename_i hpos
          exact lt_of_not_ge hpos
      · exact hcheck

/-! ## Tasks -/

/-- A task object with the description it was built with. -/
structure MeasurementTask where
  ref : ℕ
  desc : MeasurementDesc
  accepted : desc.Accepted

deriving instance DecidableEq for MeasurementTask

namespace MeasurementTask

/-- `compareTo` of two longs. -/
def compareLong (a b : Int) : Int :=
  if a < b then -1 else if a = b then 0 else 1

/-- `compareTo`: priority first, then start time, which the constructor never
leaves null. -/
def compareTo (t another : MeasurementTask) : Int :=
  let priorityComparison := compareLong t.desc.priority another.desc.priority
  if priorityComparison = 0 then compareLong t.desc.startTime another.desc.startTime
  else priorityComparison

/-- `TaskComparator` puts `t` no later than `u`. -/
def Le (t u : MeasurementTask) : Prop := t.compareTo u ≤ 0

instance : DecidableRel Le := fun _ _ => inferInstanceAs (Decidable (_ ≤ _))

theorem le_iff {t u : MeasurementTask} :
    Le t u ↔ t.desc.priority < u.desc.priority ∨
      (t.desc.priority = u.desc.priority ∧ t.desc.startTime ≤ u.desc.startTime) := by
  unfold Le compareTo compareLong
  dsimp only
  constructor
  · intro h
    split at h <;> split at h <;> omega
  · intro h
    split <;> split <;> omega

instance : Std.Total Le where
  total t u := by
    rw [le_iff, le_iff]
    omega

instance : IsTrans MeasurementTask Le where
  trans t u v := by
    rw [le_iff, le_iff, le_iff]
    omega

/-- `timeFromExecution` at clock reading `now`. -/
def timeFromExecution (t : MeasurementTask) (now : Int) : Int :=
  toLong (t.desc.startTime - now)

/-- `isPassedDeadline` at clock reading `now`; the end time is never null. -/
def isPassedDeadline (t : MeasurementTask) (now : Int) : Bool :=
  t.desc.endTime ≤ now

/-- The start time `handleMeasurement` gives the next run. -/
def newStartTime (t : MeasurementTask) : Int :=
  toLong (t.desc.startTime + toLong (castLong t.desc.intervalSec * 1000))

/-- `newTask.getDescription().count = count`, and the same for the start time;
neither is looked at by the constructor's checks. -/
def withCount (t : MeasurementTask) (count : Int) : MeasurementTask :=
  { t with desc := { t.desc with count := count } }

def withStartTime (t : MeasurementTask) (startTime : Int) : MeasurementTask :=
  { t with desc := { t.desc with startTime := startTime } }

end MeasurementTask

/-- One constructor call of `clone`, which copies every field. -/
def MeasurementDesc.copy (d : MeasurementDesc) (now : Int) :
    Except JavaException MeasurementDesc :=
  construct d.type d.key (some d.startTime) (some d.endTime) d.intervalSec d.count d.priority
    d.parameters now now

/-- `clone` on the description as it is at the call: a new description from it,
and the new task's own from that one. -/
def MeasurementDesc.clone (d : MeasurementDesc) (ref : ℕ) (now₁ now₂ : Int) :
    Except JavaException MeasurementTask :=
  match d.copy now₁ with
  | .error e => .error e
  | .ok d₁ =>
    match h : d₁.copy now₂ with
    | .error e => .error e
    | .ok d₂ => .ok ⟨ref, d₂, construct_accepted h⟩

/-- Copying an accepted description succeeds and at most brings the end time
forward. -/
theorem MeasurementDesc.copy_of_accepted {d : MeasurementDesc} (h : d.Accepted) (now : Int) :
    d.copy now = .ok { d with endTime := cappedEndTime (some d.endTime) now } := by
  unfold copy construct
  rw [h.2]
  have hinterval : ¬ d.intervalSec ≤ 0 := not_le_of_gt h.1
  simp [bind, Except.bind, hinterval]

/-- So does cloning a task whose parameters are still there. -/
theorem MeasurementDesc.clone_of_accepted {d : MeasurementDesc} (h : d.Accepted) (ref : ℕ)
    (now₁ now₂ : Int) :
    ∃ t, d.clone ref now₁ now₂ = .ok t ∧ t.ref = ref ∧
      t.desc = { d with
        endTime := cappedEndTime (some (cappedEndTime (some d.endTime) now₁)) now₂ } := by
  have h₁ := copy_of_accepted h now₁
  have haccepted : MeasurementDesc.Accepted
      { d with endTime := cappedEndTime (some d.endTime) now₁ } := h
  have h₂ := copy_of_accepted haccepted now₂
  unfold clone
  rw [h₁]
  dsimp only
  split
  · rename_i e herror
    rw [h₂] at herror
    cases herror
  · rename_i d₂ hok
    rw [h₂] at hok
    cases hok
    exact ⟨_, rfl, rfl, rfl⟩

theorem MeasurementDesc.clone_ref {d : MeasurementDesc} {ref : ℕ} {now₁ now₂ : Int}
    {t : MeasurementTask} (h : d.clone ref now₁ now₂ = .ok t) : t.ref = ref := by
  unfold clone at h
  split at h
  · cases h
  · split at h
    · cases h
    · cases h
      rfl

theorem MeasurementDesc.copy_priority {d d' : MeasurementDesc} {now : Int}
    (h : d.copy now = .ok d') : d'.priority = d.priority := by
  unfold copy construct at h
  cases hcheck : d.type.checkParams d.parameters with
  | error e =>
      rw [hcheck] at h
      cases h
  | ok u =>
      rw [hcheck] at h
      cases h
      rfl

/-- A clone has the priority of the task it is made from. -/
theorem MeasurementDesc.clone_priority {d : MeasurementDesc} {ref : ℕ} {now₁ now₂ : Int}
    {t : MeasurementTask} (h : d.clone ref now₁ now₂ = .ok t) :
    t.desc.priority = d.priority := by
  unfold clone at h
  split at h
  · cases h
  · rename_i d₁ hcopy₁
    split at h
    · cases h
    · rename_i d₂ hcopy₂
      cases h
      exact (copy_priority hcopy₂).trans (copy_priority hcopy₁)

/-- A description whose parameters a result has taken cannot be cloned. -/
theorem MeasurementDesc.clone_of_no_parameters {d : MeasurementDesc} (h : d.parameters = none)
    (ref : ℕ) (now₁ now₂ : Int) : ∃ e, d.clone ref now₁ now₂ = .error e := by
  have hcheck := d.type.checkParams_none
  unfold clone copy construct
  rw [h]
  cases hresult : d.type.checkParams none with
  | error e => exact ⟨e, rfl⟩
  | ok u => exact absurd hresult hcheck

/-! ## A ping task, for executed runs -/

def pingDescOf (priority startTime endTime count : Int) : MeasurementDesc where
  type := .ping
  key := some "ping"
  startTime := startTime
  endTime := endTime
  intervalSec := 60
  count := count
  priority := priority
  parameters := some [("target", "localhost")]

theorem pingDescOf_accepted (priority startTime endTime count : Int) :
    (pingDescOf priority startTime endTime count).Accepted := by
  constructor
  · show (0 : ℚ) < 60
    norm_num
  · rfl

def pingTaskOf (ref : ℕ) (priority startTime endTime count : Int) : MeasurementTask where
  ref := ref
  desc := pingDescOf priority startTime endTime count
  accepted := pingDescOf_accepted priority startTime endTime count

end MobiPerf.Scheduler
