import MobiPerf.Measurements.Desc

/-!
# Measurements.Result — a result and how it is shown

A task writes its values into a result as JSON texts; `toString` reads them back,
one way for each type, and computes with them. What a formatter prints is the
list of its lines. An exception of a formatter is caught, and the text is that
the measurement has failed.

* `toString_eq_failedText_iff`: that text comes of an exception of the formatter, and of
  nothing else.
-/

namespace MobiPerf.Measurements

open Lib Scheduler

/-! ## Results -/

inductive Desc where
  | ping (desc : PingDesc)
  | http (desc : HttpDesc)
  | dnsLookup (desc : DnsLookupDesc)
  | traceroute (desc : TracerouteDesc)
  | udpBurst (desc : UDPBurstDesc)
  | tcpThroughput (desc : TCPThroughputDesc)

/-- A `HashMap<String, String>`: the last value put for a key is found first. -/
abbrev Values := List (String × String)

def Values.get (values : Values) (key : String) : Option String := values.lookup key

/-- `timestamp` is the one of the device's properties. -/
structure MeasurementResult where
  type : TaskType
  timestamp : ℤ
  success : Bool
  parameters : Desc
  values : Values

/-- `new MeasurementResult`, for which the properties of the device are asked: the
list of the cells around the phone may be missing. -/
def newResult (device : Device) (type : TaskType) (success : Bool) (parameters : Desc) :
    Except JavaException MeasurementResult :=
  match device.getDeviceProperty with
  | none => .error .nullPointer
  | some properties =>
    .ok { type, timestamp := properties.timestamp, success, parameters, values := [] }

/-- A result is begun where the phone has such a list. -/
theorem newResult_of_cells {device : Device} (h : device.neighboringCellInfo.isSome)
    (type : TaskType) (success : Bool) (parameters : Desc) :
    newResult device type success parameters =
      .ok ⟨type, device.timestamp, success, parameters, []⟩ := by
  rw [← device.getDeviceProperty_isSome] at h
  obtain ⟨properties, hproperties⟩ := Option.isSome_iff_exists.mp h
  have htimestamp : properties.timestamp = device.timestamp := by
    obtain ⟨cellInfo, -, heq⟩ := Option.map_eq_some_iff.mp hproperties
    rw [← heq]
  unfold newResult
  simp only [hproperties, htimestamp]

/-- Without the neighbouring cells no result is built. -/
theorem newResult_of_no_cells {device : Device} (h : ¬ device.neighboringCellInfo.isSome)
    (type : TaskType) (success : Bool) (parameters : Desc) :
    newResult device type success parameters = .error .nullPointer := by
  rw [← device.getDeviceProperty_isSome, Option.not_isSome_iff_eq_none] at h
  unfold newResult
  simp only [h]

/-- What follows is done where there is a result to go on with. -/
theorem newResult_bind_eq_ok {device : Device} {type : TaskType} {success : Bool}
    {parameters : Desc} {α : Type} {f : MeasurementResult → Except JavaException α} {a : α} :
    (newResult device type success parameters >>= f) = .ok a ↔
      device.neighboringCellInfo.isSome ∧
        f ⟨type, device.timestamp, success, parameters, []⟩ = .ok a := by
  by_cases h : device.neighboringCellInfo.isSome
  · rw [newResult_of_cells h]
    exact (and_iff_right h).symm
  · rw [newResult_of_no_cells h]
    exact iff_of_false nofun fun hboth => h hboth.1

/-- The last value written under a key is found. -/
theorem Values.get_cons (values : Values) (key key' text : String) :
    Values.get ((key', text) :: values) key = if key = key' then some text else values.get key := by
  unfold Values.get
  rw [List.lookup_cons]
  by_cases h : key = key'
  · simp [h]
  · rw [if_neg h, beq_false_of_ne h]

variable (J : Platform)

def MeasurementResult.addResult (r : MeasurementResult) (resultType : String)
    (resultVal : Platform.Object) : Except JavaException MeasurementResult := do
  let text ← J.toJsonString resultVal
  .ok { r with values := (resultType, text) :: r.values }

/-! ## Formatters -/

def removeQuotes (str : Option String) : Option String :=
  str.map fun s => String.ofList (s.toList.filter (· ≠ '"'))

/-- `Util.getTimeStringFromMicrosecond`. -/
def getTimeStringFromMicrosecond (microsecond : ℤ) : String := J.dateText (microsecond.tdiv 1000)

/-- A string of blanks. -/
def blanks (n : ℕ) : String := String.ofList (List.replicate n ' ')

/-- `String.format("%6.2f", time)`. -/
def format6 (x : Value) : String :=
  blanks (6 - (J.locale.format 2 x).length) ++ J.locale.format 2 x

def getPingResult (desc : PingDesc) (r : MeasurementResult) : Except JavaException (List String) :=
  let head := [
    "[Ping]",
    "Target: " ++ desc.target,
    "IP address: " ++ (removeQuotes (r.values.get "target_ip")).getD "Unknown",
    "Timestamp: " ++ getTimeStringFromMicrosecond J r.timestamp]
  if r.success then do
    let packetLoss ← J.parseFloat (r.values.get "packet_loss")
    let count ← intValue (r.values.get "packets_sent")
    let received := castInt
      (J.float.mul (J.float.ofInt count) (J.float.sub (J.float.ofInt 1) packetLoss))
    let mean ← J.parseFloat (r.values.get "mean_rtt_ms")
    let min ← J.parseFloat (r.values.get "min_rtt_ms")
    let max ← J.parseFloat (r.values.get "max_rtt_ms")
    let stddev ← J.parseFloat (r.values.get "stddev_rtt_ms")
    .ok (head ++ [
      "\n" ++ toString count ++ " packets transmitted, " ++ toString received ++ " received, " ++
        J.floatText (J.float.mul packetLoss (J.float.ofInt 100)) ++ "% packet loss",
      "Mean RTT: " ++ J.locale.format 1 mean ++ " ms",
      "Min RTT:  " ++ J.locale.format 1 min ++ " ms",
      "Max RTT:  " ++ J.locale.format 1 max ++ " ms",
      "Std dev:  " ++ J.locale.format 1 stddev ++ " ms"])
  else .ok (head ++ ["Failed"])

def getHttpResult (desc : HttpDesc) (r : MeasurementResult) : Except JavaException (List String) :=
  let head := [
    "[HTTP]",
    "URL: " ++ desc.url,
    "Timestamp: " ++ getTimeStringFromMicrosecond J r.timestamp]
  if r.success then do
    let headerLen ← intValue (r.values.get "headers_len")
    let bodyLen ← intValue (r.values.get "body_len")
    let time ← intValue (r.values.get "time_ms")
    -- a division of integers by zero is an exception
    if time = 0 then .error .arithmetic
    else
      let length := toInt (headerLen + bodyLen)
      .ok (head ++ [
        "",
        "Downloaded " ++ toString length ++ " bytes in " ++ toString time ++ " ms",
        "Bandwidth: " ++ toString (toInt ((toInt (length * 8)).tdiv time)) ++ " Kbps"])
  else .ok (head ++ ["Download failed, status code " ++ (r.values.get "code").getD "null"])

def getDnsResult (desc : DnsLookupDesc) (r : MeasurementResult) :
    Except JavaException (List String) :=
  let head := [
    "[DNS Lookup]",
    "Target: " ++ desc.target,
    "Timestamp: " ++ getTimeStringFromMicrosecond J r.timestamp]
  if r.success then do
    let time ← intValue (r.values.get "time_ms")
    .ok (head ++ [
      "\nAddress: " ++ (removeQuotes (r.values.get "address")).getD "Unknown",
      "Lookup time: " ++ toString time ++ " ms"])
  else .ok (head ++ ["Failed"])

def hopAddrKey (i j : ℕ) : String := "hop_" ++ toString i ++ "_addr_" ++ toString j

def hopRttKey (i : ℕ) : String := "hop_" ++ toString i ++ "_rtt_ms"

/-- The number between the underscores of a key is its hop. -/
theorem toList_hopKey (i : ℕ) (rest : List Char) (key : String)
    (h : key = "hop_" ++ toString i ++ String.ofList ('_' :: rest)) :
    key.toList = "hop_".toList ++ (Nat.toDigits 10 i ++ '_' :: rest) := by
  rw [h, String.toList_append, String.toList_append, String.toList_ofList, List.append_assoc]
  simp

/-- Numbers differ in their digits. -/
theorem toDigits_injective {i k : ℕ} (h : Nat.toDigits 10 i = Nat.toDigits 10 k) : i = k := by
  calc i = Nat.ofDigitChars 10 (Nat.toDigits 10 i) 0 := Nat.ofDigitChars_ten_toDigits.symm
    _ = Nat.ofDigitChars 10 (Nat.toDigits 10 k) 0 := by rw [h]
    _ = k := Nat.ofDigitChars_ten_toDigits

/-- Hops have different keys for their times. -/
theorem hopRttKey_injective {i k : ℕ} (h : hopRttKey i = hopRttKey k) : i = k := by
  have hi := toList_hopKey i "rtt_ms".toList (hopRttKey i) rfl
  have hk := toList_hopKey k "rtt_ms".toList (hopRttKey k) rfl
  rw [h, hk] at hi
  have htail := List.append_cancel_left hi
  have hsplit := append_sep_inj Nat.underscore_not_in_toDigits Nat.underscore_not_in_toDigits htail
  exact (toDigits_injective hsplit.1).symm

/-- These differ from those of the addresses. -/
theorem hopRttKey_ne_hopAddrKey (i k j : ℕ) : hopRttKey i ≠ hopAddrKey k j := by
  intro h
  have hi := toList_hopKey i "rtt_ms".toList (hopRttKey i) rfl
  have hrest : "_addr_" ++ toString j =
      String.ofList ('_' :: ("addr_".toList ++ (toString j).toList)) := by
    rw [← String.toList_inj]
    simp
  have hk := toList_hopKey k ("addr_".toList ++ (toString j).toList) (hopAddrKey k j) (by
    rw [hopAddrKey, String.append_assoc, hrest])
  rw [h, hk] at hi
  have htail := List.append_cancel_left hi
  have hsplit := append_sep_inj Nat.underscore_not_in_toDigits Nat.underscore_not_in_toDigits htail
  exact absurd hsplit.2 (by simp)

/-- The number of hops has a key of its own. -/
theorem num_hops_ne_hopRttKey (i : ℕ) : "num_hops" ≠ hopRttKey i := by
  intro h
  have hi := toList_hopKey i "rtt_ms".toList (hopRttKey i) rfl
  rw [← h] at hi
  exact absurd (congrArg List.head? hi) (by simp)

/-- It is none of the addresses' either. -/
theorem num_hops_ne_hopAddrKey (i j : ℕ) : "num_hops" ≠ hopAddrKey i j := by
  intro h
  have hhead := congrArg (fun s => s.toList.head?) h
  unfold hopAddrKey at hhead
  simp [String.toList_append] at hhead

/-- The line of hop `i`; `width` is the length of the longest hop number. -/
def hopLine (values : Values) (width i : ℕ) : Except JavaException String := do
  let ipAddress := (removeQuotes (values.get (hopAddrKey i 1))).getD "Unknown"
  let hop := toString (i + 1)
  -- the longest address has 15 letters
  let hopInfo :=
    hop ++ blanks (width + 1 - hop.length) ++ ipAddress ++ blanks (16 - ipAddress.length)
  let timeStr := (removeQuotes (values.get (hopRttKey i))).getD "Unknown"
  let time ← J.parseFloat (some timeStr)
  .ok (hopInfo ++ format6 J time ++ " ms")

def getTracerouteResult (desc : TracerouteDesc) (r : MeasurementResult) :
    Except JavaException (List String) :=
  let head := [
    "[Traceroute]",
    "Target: " ++ desc.target,
    "Timestamp: " ++ getTimeStringFromMicrosecond J r.timestamp]
  if r.success then do
    let hops ← intValue (r.values.get "num_hops")
    let width := (toString (toInt (hops + 1))).length
    let lines ← (List.range hops.toNat).mapM (hopLine J r.values width)
    .ok (head ++ " " :: lines)
  else .ok (head ++ ["Failed"])

def UDPBurstDesc.title (desc : UDPBurstDesc) : String :=
  if desc.dirUp then "[UDPBurstUp]" else "[UDPBurstDown]"

def getUDPBurstResult (desc : UDPBurstDesc) (r : MeasurementResult) :
    Except JavaException (List String) :=
  let head := [
    desc.title,
    "Target: " ++ desc.target,
    "IP addr: " ++ (r.values.get "target_ip").getD "null"]
  if r.success then
    .ok (head ++ [
      "PRR: " ++ (r.values.get "PRR").getD "null",
      "Timestamp: " ++ getTimeStringFromMicrosecond J r.timestamp])
  else .ok (head ++ ["Failed"])

/-- The median of a JSON list that is sorted already; -1 for what is no list and
for the empty one. -/
def calMedianSpeedFromTCPThroughputOutput (output : Option String) :
    Except JavaException Value :=
  match output with
  | none => .ok (.finite (-1))
  | some s =>
    let chars := s.toList
    if s = "" ∨ s = "[]" ∨ chars.head? ≠ some '[' ∨ chars.getLast? ≠ some ']' then
      .ok (.finite (-1))
    else
      let splitResult := split ',' (String.ofList chars.tail.dropLast)
      let resultLen := splitResult.length
      if resultLen = 0 then .ok (.finite 0)
      else if resultLen % 2 = 0 then do
        let upper ← J.parseDouble (splitResult.getD (resultLen / 2) "")
        let lower ← J.parseDouble (splitResult.getD (resultLen / 2 - 1) "")
        .ok (J.double.div (J.double.add upper lower) (J.double.ofInt 2))
      else J.parseDouble (splitResult.getD ((resultLen - 1) / 2) "")

/-- The speed in the unit that suits it. -/
def speedText (tp : Value) : String :=
  let kb := Value.finite 1024
  let mb := Value.finite (1024 * 1024)
  if tp.lt (.finite 0) then "No results available."
  else if mb.lt tp then "Speed: " ++ J.locale.format 2 (J.double.div tp mb) ++ " Gbps"
  else if kb.lt tp then "Speed: " ++ J.locale.format 2 (J.double.div tp kb) ++ " Mbps"
  else "Speed: " ++ J.locale.format 2 tp ++ " Kbps"

def TCPThroughputDesc.title (desc : TCPThroughputDesc) : String :=
  if desc.dir_up then "[TCP Uplink]" else "[TCP Downlink]"

def getTCPThroughputResult (desc : TCPThroughputDesc) (r : MeasurementResult) :
    Except JavaException (List String) :=
  let head := [
    desc.title,
    "Target: " ++ desc.target,
    "Timestamp: " ++ getTimeStringFromMicrosecond J r.timestamp]
  if r.success then do
    let tp ← calMedianSpeedFromTCPThroughputOutput J (r.values.get "tcp_speed_results")
    match r.values.get "data_limit_exceeded" with
    | none => .error .nullPointer
    | some exceeded =>
      let notice :=
        if exceeded = "true" then
          "\n* Task finishes earlier due to exceeding maximum number of " ++
            (if desc.dir_up then "transmitted" else "received") ++ " bytes"
        else ""
      .ok (head ++ ["", speedText J tp ++ notice])
  else .ok (head ++ ["Failed"])

/-! ## The text -/

/-- The formatter of the result's type, behind the cast of its parameters. -/
def MeasurementResult.format (r : MeasurementResult) : Except JavaException (List String) :=
  match r.type, r.parameters with
  | .ping, .ping desc => getPingResult J desc r
  | .http, .http desc => getHttpResult J desc r
  | .dnsLookup, .dnsLookup desc => getDnsResult J desc r
  | .traceroute, .traceroute desc => getTracerouteResult J desc r
  | .udpBurst, .udpBurst desc => getUDPBurstResult J desc r
  | .tcpThroughput, .tcpThroughput desc => getTCPThroughputResult J desc r
  | _, _ => .error .classCast

/-- Every line with a line feed behind it. -/
def printed (lines : List String) : String := String.join (lines.map (· ++ "\n"))

def MeasurementResult.failedText : String := "Measurement has failed"

def MeasurementResult.toString (r : MeasurementResult) : String :=
  match r.format J with
  | .ok lines => printed lines
  | .error _ => failedText

/-- What a formatter prints starts with the name of the measurement in
brackets. -/
def Titled (lines : List String) : Prop :=
  ∃ title rest, lines = title :: rest ∧ title.toList.head? = some '['

section Titles

variable {J} {r : MeasurementResult} {lines : List String}

/-- A ping's text begins with its title. -/
theorem titled_getPingResult {desc : PingDesc} (h : getPingResult J desc r = .ok lines) :
    Titled lines := by
  unfold getPingResult at h
  split at h
  · obtain ⟨_, -, h⟩ := except_bind_eq_ok.mp h
    obtain ⟨_, -, h⟩ := except_bind_eq_ok.mp h
    obtain ⟨_, -, h⟩ := except_bind_eq_ok.mp h
    obtain ⟨_, -, h⟩ := except_bind_eq_ok.mp h
    obtain ⟨_, -, h⟩ := except_bind_eq_ok.mp h
    obtain ⟨_, -, h⟩ := except_bind_eq_ok.mp h
    cases h
    exact ⟨_, _, rfl, by decide⟩
  · cases h
    exact ⟨_, _, rfl, by decide⟩

theorem titled_getHttpResult {desc : HttpDesc} (h : getHttpResult J desc r = .ok lines) :
    Titled lines := by
  unfold getHttpResult at h
  split at h
  · obtain ⟨_, -, h⟩ := except_bind_eq_ok.mp h
    obtain ⟨_, -, h⟩ := except_bind_eq_ok.mp h
    obtain ⟨time, -, h⟩ := except_bind_eq_ok.mp h
    split at h
    · cases h
    · cases h
      exact ⟨_, _, rfl, by decide⟩
  · cases h
    exact ⟨_, _, rfl, by decide⟩

theorem titled_getDnsResult {desc : DnsLookupDesc} (h : getDnsResult J desc r = .ok lines) :
    Titled lines := by
  unfold getDnsResult at h
  split at h
  · obtain ⟨_, -, h⟩ := except_bind_eq_ok.mp h
    cases h
    exact ⟨_, _, rfl, by decide⟩
  · cases h
    exact ⟨_, _, rfl, by decide⟩

theorem titled_getTracerouteResult {desc : TracerouteDesc}
    (h : getTracerouteResult J desc r = .ok lines) : Titled lines := by
  unfold getTracerouteResult at h
  split at h
  · obtain ⟨_, -, h⟩ := except_bind_eq_ok.mp h
    obtain ⟨_, -, h⟩ := except_bind_eq_ok.mp h
    cases h
    exact ⟨_, _, rfl, by decide⟩
  · cases h
    exact ⟨_, _, rfl, by decide⟩

theorem titled_getUDPBurstResult {desc : UDPBurstDesc}
    (h : getUDPBurstResult J desc r = .ok lines) : Titled lines := by
  unfold getUDPBurstResult at h
  have htitle : desc.title.toList.head? = some '[' := by
    unfold UDPBurstDesc.title
    split <;> decide
  split at h
  · cases h
    exact ⟨_, _, rfl, htitle⟩
  · cases h
    exact ⟨_, _, rfl, htitle⟩

theorem titled_getTCPThroughputResult {desc : TCPThroughputDesc}
    (h : getTCPThroughputResult J desc r = .ok lines) : Titled lines := by
  unfold getTCPThroughputResult at h
  have htitle : desc.title.toList.head? = some '[' := by
    unfold TCPThroughputDesc.title
    split <;> decide
  split at h
  · obtain ⟨_, -, h⟩ := except_bind_eq_ok.mp h
    split at h
    · cases h
    · cases h
      exact ⟨_, _, rfl, htitle⟩
  · cases h
    exact ⟨_, _, rfl, htitle⟩

/-- Every text begins with a title. -/
theorem titled_format (h : r.format J = .ok lines) : Titled lines := by
  unfold MeasurementResult.format at h
  split at h
  · exact titled_getPingResult h
  · exact titled_getHttpResult h
  · exact titled_getDnsResult h
  · exact titled_getTracerouteResult h
  · exact titled_getUDPBurstResult h
  · exact titled_getTCPThroughputResult h
  · cases h

/-- So it is not the text of a failure. -/
theorem Titled.printed_ne (h : Titled lines) : printed lines ≠ MeasurementResult.failedText := by
  rcases h with ⟨title, rest, rfl, htitle⟩
  intro heq
  have hhead : (printed (title :: rest)).toList.head? = some '[' := by
    unfold printed
    rw [List.map_cons, String.join_cons, String.toList_append, String.toList_append]
    cases hchars : title.toList with
    | nil => simp [hchars] at htitle
    | cons c cs => simpa [hchars] using htitle
  rw [heq] at hhead
  exact absurd hhead (by decide)

/-- A result is shown as failed exactly when its formatter meets an exception. -/
theorem toString_eq_failedText_iff :
    r.toString J = MeasurementResult.failedText ↔ ¬ ∃ lines, r.format J = .ok lines := by
  unfold MeasurementResult.toString
  cases hformat : r.format J with
  | error e => simp
  | ok lines => simpa using (titled_format hformat).printed_ne

end Titles

/-- The number a task writes is read back when it is an `int`. -/
theorem intValue_toString_eq_ok {n m : ℤ} :
    intValue (some (toString n)) = .ok m ↔ m = n ∧ -2 ^ 31 ≤ n ∧ n < 2 ^ 31 := by
  have hparse := parseInt_toString n
  unfold intValue
  by_cases h : -2 ^ 31 ≤ n ∧ n < 2 ^ 31
  · rw [if_pos h] at hparse
    simp only [hparse, Except.ok.injEq]
    constructor
    · intro heq
      exact ⟨heq.symm, h⟩
    · intro heq
      exact heq.1.symm
  · rw [if_neg h] at hparse
    simp only [hparse]
    constructor
    · intro heq
      cases heq
    · intro hin
      exact absurd hin.2 h

/-- A number can be shown when it is an `int`. -/
theorem exists_intValue_iff {n : ℤ} :
    (∃ m, intValue (some (toString n)) = .ok m) ↔ -2 ^ 31 ≤ n ∧ n < 2 ^ 31 := by
  constructor
  · rintro ⟨m, hm⟩
    exact (intValue_toString_eq_ok.mp hm).2
  · intro h
    exact ⟨n, intValue_toString_eq_ok.mpr ⟨rfl, h⟩⟩

/-! ## What is asked of a call -/

/-- A measurement error is the only exception that leaves the call. -/
abbrev Contained (call : Except JavaException MeasurementResult) : Prop :=
  FailsOnly (fun e => e.isMeasurementError) call

/-- A successful result of the call can be shown. -/
def Shown (call : Except JavaException MeasurementResult) : Prop :=
  ∀ r, call = .ok r → r.success → r.toString J ≠ MeasurementResult.failedText

/-- A result that cannot be begun fails with what few callers expect. -/
theorem failsOnly_newResult_iff {P : JavaException → Prop} (hP : ¬ P .nullPointer)
    {device : Device} {type : TaskType} {success : Bool} {parameters : Desc} {α : Type}
    {f : MeasurementResult → Except JavaException α} :
    FailsOnly P (newResult device type success parameters >>= f) ↔
      device.neighboringCellInfo.isSome ∧
        FailsOnly P (f ⟨type, device.timestamp, success, parameters, []⟩) := by
  by_cases h : device.neighboringCellInfo.isSome
  · rw [newResult_of_cells h]
    exact (and_iff_right h).symm
  · rw [newResult_of_no_cells h]
    exact iff_of_false (fun hfails => hP (failsOnly_error.mp hfails)) fun hboth => h hboth.1

/-- A handler that logs the message and then reports the failure. -/
theorem contained_logError {message : Option String} {text : String} :
    Contained (do J.logError message; .error (.measurementError text)) ↔ J.Logs message := by
  unfold Platform.logError
  by_cases h : J.Logs message
  · rw [if_pos h]
    exact iff_of_true (failsOnly_error.mpr rfl) h
  · rw [if_neg h]
    refine iff_of_false (fun hfails => ?_) h
    cases failsOnly_error.mp hfails

section Shown

variable {J}

theorem shown_error {e : JavaException} : Shown J (.error e) := by
  intro r heq
  cases heq

/-- What a call can show, step by step. -/
theorem shown_bind {α : Type} {x : Except JavaException α}
    {f : α → Except JavaException MeasurementResult} :
    Shown J (x >>= f) ↔ ∀ a, x = .ok a → Shown J (f a) := by
  constructor
  · intro h a hx r hf
    exact h r (except_bind_eq_ok.mpr ⟨a, hx, hf⟩)
  · intro h r hr
    obtain ⟨a, hx, hf⟩ := except_bind_eq_ok.mp hr
    exact h a hx r hf

/-- A result that cannot be begun is not shown. -/
theorem shown_newResult_iff {device : Device} {type : TaskType} {success : Bool}
    {parameters : Desc} {f : MeasurementResult → Except JavaException MeasurementResult} :
    Shown J (newResult device type success parameters >>= f) ↔
      (device.neighboringCellInfo.isSome →
        Shown J (f ⟨type, device.timestamp, success, parameters, []⟩)) := by
  by_cases h : device.neighboringCellInfo.isSome
  · rw [newResult_of_cells h]
    exact (imp_iff_right h).symm
  · rw [newResult_of_no_cells h]
    exact iff_of_true shown_error fun hcells => absurd hcells h

/-- A handler that gives no result leaves nothing to show. -/
theorem shown_catchIo {handler : IoFailure → Except JavaException MeasurementResult}
    (hhandler : ∀ failure, Shown J (handler failure))
    {body : Except JavaException MeasurementResult} :
    Shown J (catchIo handler body) ↔ Shown J body := by
  cases body with
  | ok r => exact Iff.rfl
  | error e =>
      cases e with
      | io failure => exact iff_of_true (hhandler failure) shown_error
      | _ => exact Iff.rfl

/-- A result can be shown when a success has a text. -/
theorem shown_ok_iff {r : MeasurementResult} :
    Shown J (.ok r) ↔ (r.success → ∃ lines, r.format J = .ok lines) := by
  constructor
  · intro h hsuccess
    have hne := h r rfl hsuccess
    rw [Ne, toString_eq_failedText_iff] at hne
    exact not_not.mp hne
  · intro h r' heq hsuccess
    cases heq
    rw [Ne, toString_eq_failedText_iff]
    exact not_not.mpr (h hsuccess)

end Shown

end MobiPerf.Measurements
