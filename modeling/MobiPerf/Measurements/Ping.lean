import Mathlib.Data.Int.Interval
import MobiPerf.Lib.Pattern
import MobiPerf.Measurements.Result

/-!
# Measurements.Ping — the round-trip times

Three ways to ping, each tried when the one before it fails: the ping command,
whose output is searched for times; reachability as the platform tells it; and
requests for the head of a page. The statistics of the times make the result.

* `PingTask.contained_iff`: no other exception leaves the call when no permission
  is refused while the executable is searched, the statistics of the times of
  the command are finite, its output does not speak of no packets sent, the log
  takes the messages, and an answer finds a list of the cells around the phone;
* `PingTask.shown`: every result can be shown.
-/

namespace MobiPerf.Measurements

open Lib Scheduler

/-! ## The environment -/

/-- What running the ping command comes to. -/
inductive PingCommand where
  | io (failure : IoFailure)
  | security (message : Option String)
  | started (output : Input String)

/-- The clock before and after a request. -/
structure Timed where
  startTime : ℤ
  endTime : ℤ
deriving DecidableEq, Repr

def Timed.rrt (t : Timed) : ℤ := toLong (t.endTime - t.startTime)

/-- `path` is what starting the ping executable in each directory comes to;
`reachable` and `head` are by request, with whether the target was reached;
`url` is what `new URL` comes to. -/
structure PingEnv where
  getByName : Option InetAddress
  path : List (String × Exec)
  command : PingCommand
  reachable : ℕ → Except IoFailure (Bool × Timed)
  url : Except IoFailure Unit
  head : ℕ → Except IoFailure Timed
  device : Device

namespace PingTask

/-! ## Lines of the ping output -/

/-- `\s`. -/
def isSpace (c : Char) : Bool :=
  c = ' ' || c = '\t' || c = '\n' || c = Char.ofNat 0x0B || c = Char.ofNat 0x0C || c = '\r'

/-- `.`. -/
def isDot (c : Char) : Bool :=
  !(c = '\n' || c = '\r' || c = Char.ofNat 0x85 || c = Char.ofNat 0x2028 || c = Char.ofNat 0x2029)

/-- `\.[0-9]+`. -/
def fractionPattern : Pattern Char (List Char) := do
  let _ ← Pattern.one (· = '.')
  let fraction ← Pattern.run Char.isDigit 1
  pure ('.' :: fraction)

/-- `icmp_seq=([0-9]+)\s.* time=([0-9]+(\.[0-9]+)?)`. -/
def infoPattern : Pattern Char (String × List Char) := do
  let _ ← Pattern.word "icmp_seq=".toList
  let seq ← Pattern.run Char.isDigit 1
  let _ ← Pattern.one isSpace
  let _ ← Pattern.run isDot 0
  let _ ← Pattern.word " time=".toList
  let whole ← Pattern.run Char.isDigit 1
  let fraction ← Pattern.optional fractionPattern
  pure (String.ofList seq, whole ++ fraction)

/-- The sequence number and the time of a line, when it has them. -/
def extractInfoFromPingOutput (outputLine : String) : Option (String × String) :=
  (infoPattern.find outputLine.toList).map fun found => (found.1, String.ofList found.2)

/-- `([0-9]+)\spackets.*\s([0-9]+)\sreceived`. -/
def packetLossPattern : Pattern Char (String × String) := do
  let sent ← Pattern.run Char.isDigit 1
  let _ ← Pattern.one isSpace
  let _ ← Pattern.word "packets".toList
  let _ ← Pattern.run isDot 0
  let _ ← Pattern.one isSpace
  let received ← Pattern.run Char.isDigit 1
  let _ ← Pattern.one isSpace
  let _ ← Pattern.word "received".toList
  pure (String.ofList sent, String.ofList received)

/-- The packets sent and received that a line speaks of. -/
def extractPacketLossInfoFromPingOutput (outputLine : String) : Option (ℤ × ℤ) := do
  let (sent, received) ← packetLossPattern.find outputLine.toList
  let sent ← parseInt sent
  let received ← parseInt received
  pure (sent, received)

example : extractInfoFromPingOutput "64 bytes from 1.2.3.4: icmp_seq=7 ttl=50 time=12.5 ms" =
    some ("7", "12.5") := by
  decide +kernel

example : extractPacketLossInfoFromPingOutput
    "10 packets transmitted, 9 received, 10% packet loss, time 4510ms" = some (10, 9) := by
  decide +kernel

/-! ## Statistics -/

section Statistics

variable (J : Platform)

def pingCount : ℕ := 10

/-- `Double.MIN_VALUE`: the least positive value. -/
def minValue : Value := .finite (1 / 2 ^ 1074)

/-- `Double.MAX_VALUE`. -/
def maxValue : Value := .finite ((2 - 1 / 2 ^ 52) * 2 ^ 1023)

/-- `1.4` as a `float`. -/
def pingFilterThres : Value := .finite (11744051 / 2 ^ 23)

def min (rrtVals : List Value) : Value :=
  rrtVals.foldl (fun min rrt => if rrt.lt min then rrt else min) maxValue

/-- The maximum starts with the least positive value. -/
def max (rrtVals : List Value) : Value :=
  rrtVals.foldl (fun max rrt => if max.lt rrt then rrt else max) minValue

def avg (rrtVals : List Value) : Value :=
  J.double.div (J.double.sum rrtVals) (J.double.ofInt rrtVals.length)

def squaredDeviation (avg val : Value) : Value :=
  J.double.mul (J.double.sub val avg) (J.double.sub val avg)

def getStandardDeviation (values : List Value) (avg : Value) : Value :=
  let total := J.double.sum (values.map (squaredDeviation J avg))
  if (Value.finite 0).lt total then
    J.double.sqrt (J.double.div total (J.double.ofInt values.length))
  else .finite 0

def applyInnerBandFilter (vals : List Value) (lowerBound upperBound : Value) : List Value :=
  vals.filter fun rrtVal => rrtVal.le upperBound && lowerBound.le rrtVal

/-- The first times are often large, and left out of this mean. -/
def filterPingResults (rrts : List Value) (avg : Value) : Value :=
  let filteredResults :=
    applyInnerBandFilter rrts minValue (J.double.mul avg pingFilterThres)
  if filteredResults ≠ [] then
    J.double.div (J.double.sum filteredResults) (J.double.ofInt filteredResults.length)
  else avg

/-- The share of the packets sent that were not received. -/
def packetLossOf (received sent : ℤ) : Value :=
  J.double.sub (J.double.ofInt 1) (J.double.div (J.double.ofInt received) (J.double.ofInt sent))

end Statistics

/-! ## The result -/

def addFilteredAvg (J : Platform) (result : MeasurementResult) (filteredAvg avg : Value) :
    Except JavaException MeasurementResult :=
  if filteredAvg.beq avg then .ok result
  else result.addResult J "filtered_mean_rtt_ms" (.double filteredAvg)

/-- There is no result without a time. -/
def constructResult (J : Platform) (desc : PingDesc) (env : PingEnv) (targetIp : String)
    (rrtVals : List Value) (packetLoss : Value) (packetsSent : ℤ) (pingMethod : String) :
    Except JavaException (Option MeasurementResult) :=
  if rrtVals = [] then .ok none
  else do
    let avg := avg J rrtVals
    let filteredAvg := filterPingResults J rrtVals avg
    let result ← newResult env.device .ping true (.ping desc)
    let result ← result.addResult J "target_ip" (.string (some targetIp))
    let result ← result.addResult J "mean_rtt_ms" (.double avg)
    let result ← result.addResult J "min_rtt_ms" (.double (min rrtVals))
    let result ← result.addResult J "max_rtt_ms" (.double (max rrtVals))
    let result ← result.addResult J "stddev_rtt_ms"
      (.double (getStandardDeviation J rrtVals avg))
    let result ← addFilteredAvg J result filteredAvg avg
    let result ← result.addResult J "packet_loss" (.double packetLoss)
    let result ← result.addResult J "packets_sent" (.whole packetsSent)
    let result ← result.addResult J "ping_method" (.string (some pingMethod))
    .ok (some result)

/-- The end of each way to ping: what is caught is logged, and a way that gives
no result fails. -/
def orFail (J : Platform) (catches : JavaException → Bool)
    (body : Except JavaException (Option MeasurementResult)) :
    Except JavaException MeasurementResult :=
  match body with
  | .ok (some result) => .ok result
  | .ok none => .error (.measurementError "")
  | .error e =>
    if catches e then do
      J.logError e.message
      .error (.measurementError (e.message.getD "null" ++ "\n"))
    else .error e

/-! ## The ping command -/

/-- What the loop over the output keeps. -/
structure Reading where
  rrts : List Value
  receivedIcmpSeq : List ℤ
  packetLoss : Value
  packetsSent : ℤ

/-- A line with a time: a sequence number that was there before is a duplicate. -/
def readInfo (J : Platform) (st : Reading) (line : String) : Except JavaException Reading :=
  match extractInfoFromPingOutput line with
  | none => .ok st
  | some extractedValues => do
    let curIcmpSeq ← intValue (some extractedValues.1)
    let rrtVal ← J.parseDouble extractedValues.2
    if curIcmpSeq ∈ st.receivedIcmpSeq then .ok st
    else .ok {
      st with
      rrts := st.rrts ++ [rrtVal]
      receivedIcmpSeq := st.receivedIcmpSeq ++ [curIcmpSeq] }

def readLoss (J : Platform) (st : Reading) (line : String) : Reading :=
  match extractPacketLossInfoFromPingOutput line with
  | none => st
  | some packetLossInfo => {
      st with
      packetLoss := packetLossOf J packetLossInfo.2 packetLossInfo.1
      packetsSent := packetLossInfo.1 }

def readLine (J : Platform) (st : Reading) (line : String) : Except JavaException Reading := do
  let st ← readInfo J st line
  .ok (readLoss J st line)

/-- An output that tells no loss leaves an estimate of it. -/
def Reading.loss (J : Platform) (st : Reading) : Value :=
  if st.packetLoss.beq minValue then packetLossOf J st.rrts.length pingCount else st.packetLoss

def runCommand (J : Platform) (desc : PingDesc) (env : PingEnv) (targetIp : String) :
    Except JavaException (Option MeasurementResult) :=
  match env.command with
  | .io failure => .error (.io failure)
  | .security message => .error (.security message)
  | .started output => do
    let st ← output.readAll (readLine J) ⟨[], [], minValue, pingCount⟩
    constructResult J desc env targetIp st.rrts (st.loss J) st.packetsSent "ping_cmd"

def isCaughtInCommand : JavaException → Bool
  | .io _ => true
  | .security _ => true
  | .numberFormat _ => true
  | .invalidParameter _ => true
  | _ => false

/-- The executable is searched outside of the `try`. -/
def executePingCmdTask (J : Platform) (desc : PingDesc) (env : PingEnv) (addr : InetAddress) :
    Except JavaException MeasurementResult := do
  match ← pingExecutableBasedOnIPType addr.version env.path with
  | none => .error (.measurementError "Ping executable not found")
  | some _ => orFail J isCaughtInCommand (runCommand J desc env addr.hostAddress)

/-! ## The other ways -/

section Requests

variable {α : Type}

/-- The time of request `i`; `rrt` is what its answer says of the time. -/
def timeOf (request : ℕ → Except IoFailure α) (rrt : α → Option Value) (i : ℕ) :
    Except JavaException (Option Value) :=
  match request i with
  | .error failure => .error (.io failure)
  | .ok answer => .ok (rrt answer)

/-- Ten requests, and the result of their times. -/
def requests (J : Platform) (desc : PingDesc) (env : PingEnv) (targetIp : String)
    (request : ℕ → Except IoFailure α) (rrt : α → Option Value) (pingMethod : String) :
    Except JavaException (Option MeasurementResult) := do
  let rrts ← (List.range pingCount).foldlM (collectStep (timeOf request rrt)) []
  constructResult J desc env targetIp rrts (packetLossOf J rrts.length pingCount) pingCount
    pingMethod

end Requests

/-- The time of a request, when it reached the target. -/
def reachableRrt (J : Platform) (answer : Bool × Timed) : Option Value :=
  if answer.1 then some (J.double.ofInt answer.2.rrt) else none

def headRrt (J : Platform) (answer : Timed) : Option Value := some (J.double.ofInt answer.rrt)

def executeJavaPingTask (J : Platform) (desc : PingDesc) (env : PingEnv) (targetIp : String) :
    Except JavaException MeasurementResult :=
  orFail J (fun e => e.isIllegalArgument || e.isIo)
    (requests J desc env targetIp env.reachable (reachableRrt J) "java_ping")

def executeHttpPingTask (J : Platform) (desc : PingDesc) (env : PingEnv) (targetIp : String) :
    Except JavaException MeasurementResult :=
  orFail J JavaException.isIo
    (match env.url with
    | .error failure => .error (.io failure)
    | .ok () => requests J desc env targetIp env.head (headRrt J) "http")

/-! ## The call -/

/-- `try { x } catch (MeasurementError e) { y }`. -/
def orElse (x y : Except JavaException MeasurementResult) :
    Except JavaException MeasurementResult :=
  match x with
  | .error (.measurementError _) => y
  | x => x

def call (J : Platform) (desc : PingDesc) (env : PingEnv) :
    Except JavaException MeasurementResult :=
  match env.getByName with
  | none => .error (.measurementError ("Unknown host " ++ desc.target))
  | some addr =>
    orElse (executePingCmdTask J desc env addr)
      (orElse (executeJavaPingTask J desc env addr.hostAddress)
        (executeHttpPingTask J desc env addr.hostAddress))

/-! ## Reading the output -/

section Output

variable {J : Platform}

/-- The sequence number of a line, when it has one, is an `int`. -/
def ReadsNumber (line : String) : Prop :=
  ∀ found, extractInfoFromPingOutput line = some found → (parseInt found.1).isSome

/-- The sequence number and the time a line replies with. -/
def replyOf (J : Platform) (line : String) : Option (ℤ × Value) := do
  let found ← extractInfoFromPingOutput line
  let icmpSeq ← parseInt found.1
  let rrt ← readDecimal found.2
  pure (icmpSeq, J.double.convert rrt)

/-- A reply is kept when its number is new. -/
def keepReply (kept : List (ℤ × Value)) (reply : ℤ × Value) : List (ℤ × Value) :=
  if reply.1 ∈ kept.map Prod.fst then kept else kept ++ [reply]

def repliesOf (J : Platform) (lines : List String) : List (ℤ × Value) :=
  (lines.filterMap (replyOf J)).foldl keepReply []

def rrtsOf (J : Platform) (lines : List String) : List Value := (repliesOf J lines).map Prod.snd

/-- The last line that speaks of packets sent and received. -/
def lossInfoOf (lines : List String) : Option (ℤ × ℤ) :=
  (lines.filterMap extractPacketLossInfoFromPingOutput).getLast?

/-- What the loop keeps of some lines. -/
def readingOf (J : Platform) (lines : List String) : Reading where
  rrts := rrtsOf J lines
  receivedIcmpSeq := (repliesOf J lines).map Prod.fst
  packetLoss := (lossInfoOf lines).elim minValue fun info => packetLossOf J info.2 info.1
  packetsSent := (lossInfoOf lines).elim pingCount Prod.fst

/-- What `fractionPattern` captures is a fraction. -/
theorem captures_fractionPattern : Pattern.Captures fractionPattern IsFraction := by
  refine Pattern.captures_bind_of_forall fun _ => ?_
  refine (Pattern.captures_run Char.isDigit 1).bind fun fraction hfraction => ?_
  exact Pattern.captures_pure (Or.inr ⟨fraction, rfl, hfraction.2⟩)

/-- The time of a line is a decimal text. -/
theorem captures_infoPattern : Pattern.Captures infoPattern fun found =>
    ∃ whole tail, found.2 = whole ++ tail ∧ whole ≠ [] ∧ (∀ c ∈ whole, c.isDigit) ∧
      IsFraction tail := by
  refine Pattern.captures_bind_of_forall fun _ => ?_
  refine Pattern.captures_bind_of_forall fun _ => ?_
  refine Pattern.captures_bind_of_forall fun _ => ?_
  refine Pattern.captures_bind_of_forall fun _ => ?_
  refine Pattern.captures_bind_of_forall fun _ => ?_
  refine (Pattern.captures_run Char.isDigit 1).bind fun whole hwhole => ?_
  refine (captures_fractionPattern.optional (Or.inl rfl)).bind fun tail htail => ?_
  refine Pattern.captures_pure ⟨whole, tail, rfl, ?_, hwhole.2, htail⟩
  rintro rfl
  exact absurd hwhole.1 (by decide)

/-- The time that is extracted from a line can be read. -/
theorem readDecimal_of_extractInfo {line : String} {found : String × String}
    (h : extractInfoFromPingOutput line = some found) : (readDecimal found.2).isSome := by
  unfold extractInfoFromPingOutput at h
  rw [Option.map_eq_some_iff] at h
  obtain ⟨captured, hfind, hfound⟩ := h
  obtain ⟨whole, tail, htime, hne, hwhole, htail⟩ := captures_infoPattern.find hfind
  rw [← hfound, htime]
  have hreads := readDecimal_isSome (Or.inl (rfl : ([] : List Char) = [])) hne hwhole htail
  rwa [List.nil_append] at hreads

/-- One more line adds its reply, if it has one, to those that are kept. -/
theorem repliesOf_append (lines : List String) (line : String) :
    repliesOf J (lines ++ [line]) =
      (replyOf J line).elim (repliesOf J lines) (keepReply (repliesOf J lines)) := by
  unfold repliesOf
  rw [List.filterMap_append, List.foldl_append]
  cases hreply : replyOf J line with
  | none => simp [hreply]
  | some reply => simp [hreply]

/-- A line that speaks of packets takes the place of those before it. -/
theorem lossInfoOf_append (lines : List String) (line : String) :
    lossInfoOf (lines ++ [line]) =
      (extractPacketLossInfoFromPingOutput line).or (lossInfoOf lines) := by
  unfold lossInfoOf
  rw [List.filterMap_append, List.getLast?_append]
  cases hinfo : extractPacketLossInfoFromPingOutput line with
  | none => simp [hinfo]
  | some info => simp [hinfo]

/-- What a reply adds to what the loop keeps. -/
def addReply (st : Reading) (reply : ℤ × Value) : Reading :=
  if reply.1 ∈ st.receivedIcmpSeq then st
  else {
    st with
    rrts := st.rrts ++ [reply.2]
    receivedIcmpSeq := st.receivedIcmpSeq ++ [reply.1] }

/-- On a line whose number is an `int` the reply is kept. -/
theorem readInfo_of_readsNumber (st : Reading) {line : String} (h : ReadsNumber line) :
    readInfo J st line = .ok ((replyOf J line).elim st (addReply st)) := by
  unfold readInfo
  cases hfound : extractInfoFromPingOutput line with
  | none =>
      have hreply : replyOf J line = none := by simp [replyOf, hfound]
      rw [hreply]
      rfl
  | some found =>
      obtain ⟨icmpSeq, hseq⟩ := Option.isSome_iff_exists.mp (h found hfound)
      obtain ⟨rrt, hrrt⟩ := Option.isSome_iff_exists.mp (readDecimal_of_extractInfo hfound)
      have hreply : replyOf J line = some (icmpSeq, J.double.convert rrt) := by
        simp [replyOf, hfound, hseq, hrrt]
      simp only [intValue, Platform.parseDouble, hseq, hrrt, hreply]
      show (if icmpSeq ∈ st.receivedIcmpSeq then .ok st else _) =
        Except.ok (addReply st (icmpSeq, J.double.convert rrt))
      unfold addReply
      split
      · rfl
      · rfl

/-- Such a line is read for its reply and for the packet loss. -/
theorem readLine_of_readsNumber (st : Reading) {line : String} (h : ReadsNumber line) :
    readLine J st line = .ok (readLoss J ((replyOf J line).elim st (addReply st)) line) := by
  unfold readLine
  rw [readInfo_of_readsNumber st h]
  rfl

/-- One more line of the output. -/
theorem readingOf_append (lines : List String) (line : String) :
    readingOf J (lines ++ [line]) =
      readLoss J ((replyOf J line).elim (readingOf J lines) (addReply (readingOf J lines)))
        line := by
  have hreply : (replyOf J line).elim (readingOf J lines) (addReply (readingOf J lines)) = {
      readingOf J lines with
      rrts := rrtsOf J (lines ++ [line])
      receivedIcmpSeq := (repliesOf J (lines ++ [line])).map Prod.fst } := by
    unfold rrtsOf
    rw [repliesOf_append]
    cases replyOf J line with
    | none => rfl
    | some reply =>
        show addReply (readingOf J lines) reply = _
        unfold addReply
        simp only [Option.elim_some, keepReply]
        split
        · rename_i hmem
          rw [if_pos (show reply.1 ∈ (repliesOf J lines).map Prod.fst from hmem)]
          rfl
        · rename_i hmem
          rw [if_neg (show reply.1 ∉ (repliesOf J lines).map Prod.fst from hmem)]
          simp [readingOf, rrtsOf]
  rw [hreply]
  unfold readLoss readingOf
  rw [lossInfoOf_append]
  cases extractPacketLossInfoFromPingOutput line with
  | none => rfl
  | some info => rfl

/-- A number beyond an `int` throws. -/
theorem readInfo_of_not_readsNumber (st : Reading) {line : String} (h : ¬ ReadsNumber line) :
    ∃ message, readInfo J st line = .error (.numberFormat message) := by
  obtain ⟨found, hfound⟩ := not_forall.mp h
  obtain ⟨hsome, hnot⟩ := Classical.not_imp.mp hfound
  rw [Option.not_isSome_iff_eq_none] at hnot
  have hinfo : readInfo J st line = .error (numberFormat found.1) := by
    unfold readInfo
    simp only [hsome, intValue, hnot]
    rfl
  exact ⟨_, hinfo⟩

theorem readLine_of_not_readsNumber (st : Reading) {line : String} (h : ¬ ReadsNumber line) :
    ∃ message, readLine J st line = .error (.numberFormat message) := by
  obtain ⟨message, hinfo⟩ := readInfo_of_not_readsNumber (J := J) st h
  unfold readLine
  rw [hinfo]
  exact ⟨message, rfl⟩

/-- When every number is an `int` the loop comes to the end of the output. -/
theorem readLines_of_readsNumber {lines : List String} (h : ∀ line ∈ lines, ReadsNumber line) :
    lines.foldlM (readLine J) ⟨[], [], minValue, pingCount⟩ = .ok (readingOf J lines) := by
  induction lines using List.reverseRecOn with
  | nil => rfl
  | append_singleton lines line ih =>
      rw [List.forall_mem_append] at h
      rw [List.foldlM_append, ih h.1]
      have hline := readLine_of_readsNumber (J := J) (readingOf J lines)
        (h.2 line (List.mem_singleton.mpr rfl))
      show (readLine J (readingOf J lines) line >>= pure) = _
      rw [hline, readingOf_append]
      rfl

/-- A sequence number that is no `int` ends the loop. -/
theorem readLines_of_not_readsNumber (st : Reading) {lines : List String}
    (h : ¬ ∀ line ∈ lines, ReadsNumber line) :
    ∃ message, lines.foldlM (readLine J) st = .error (.numberFormat message) := by
  induction lines generalizing st with
  | nil => exact absurd (fun line hline => absurd hline List.not_mem_nil) h
  | cons line lines ih =>
      rw [List.foldlM_cons]
      by_cases hline : ReadsNumber line
      · rw [readLine_of_readsNumber st hline]
        exact ih _ fun hall => h (List.forall_mem_cons.mpr ⟨hline, hall⟩)
      · obtain ⟨message, hmessage⟩ := readLine_of_not_readsNumber (J := J) st hline
        rw [hmessage]
        exact ⟨message, rfl⟩

end Output

/-! ## The statistics -/

section Finite

variable {J : Platform} {desc : PingDesc} {env : PingEnv} {targetIp pingMethod : String}
  {rrts : List Value} {packetLoss : Value} {packetsSent : ℤ}

/-- The statistics of the times are within the range of a `double`. -/
structure Representable (J : Platform) (rrts : List Value) : Prop where
  avg : (avg J rrts).isFinite
  mdev : (getStandardDeviation J rrts (PingTask.avg J rrts)).isFinite
  filteredAvg : (filterPingResults J rrts (PingTask.avg J rrts)).isFinite

theorem Representable.isFinite_rrt (h : Representable J rrts) : ∀ rrt ∈ rrts, rrt.isFinite :=
  Rounding.isFinite_of_sum (Rounding.isFinite_of_div h.avg)

/-- Picking one of the times keeps it finite. -/
theorem isFinite_foldl_pick (better : Value → Value → Bool) {x : Value} (hx : x.isFinite)
    (h : ∀ rrt ∈ rrts, rrt.isFinite) :
    (rrts.foldl (fun best rrt => if better rrt best then rrt else best) x).isFinite := by
  induction rrts generalizing x with
  | nil => exact hx
  | cons rrt rrts ih =>
      rw [List.forall_mem_cons] at h
      rw [List.foldl_cons]
      split
      · exact ih h.1 h.2
      · exact ih hx h.2

/-- The least of finite times is finite. -/
theorem isFinite_min (h : ∀ rrt ∈ rrts, rrt.isFinite) : (min rrts).isFinite :=
  isFinite_foldl_pick (fun rrt best => rrt.lt best) rfl h

/-- The greatest of finite times is finite. -/
theorem isFinite_max (h : ∀ rrt ∈ rrts, rrt.isFinite) : (max rrts).isFinite :=
  isFinite_foldl_pick (fun rrt best => best.lt rrt) rfl h

variable (J desc env targetIp rrts packetLoss packetsSent pingMethod) in
/-- The result of some times. -/
def resultOf : MeasurementResult :=
  let avg := avg J rrts
  let filteredAvg := filterPingResults J rrts avg
  { type := .ping
    timestamp := env.device.timestamp
    success := true
    parameters := .ping desc
    values := [
      ("ping_method", J.quote pingMethod),
      ("packets_sent", toString packetsSent),
      ("packet_loss", J.doubleText packetLoss)] ++
      (if filteredAvg.beq avg then []
        else [("filtered_mean_rtt_ms", J.doubleText filteredAvg)]) ++ [
      ("stddev_rtt_ms", J.doubleText (getStandardDeviation J rrts avg)),
      ("max_rtt_ms", J.doubleText (max rrts)),
      ("min_rtt_ms", J.doubleText (min rrts)),
      ("mean_rtt_ms", J.doubleText avg),
      ("target_ip", J.quote targetIp)] }

/-- When all statistics are finite the result has them. -/
theorem constructResult_of_finite (hcells : env.device.neighboringCellInfo.isSome)
    (hne : rrts ≠ []) (h : Representable J rrts) (hloss : packetLoss.isFinite) :
    constructResult J desc env targetIp rrts packetLoss packetsSent pingMethod =
      .ok (some (resultOf J desc env targetIp pingMethod rrts packetLoss packetsSent)) := by
  have hmin := isFinite_min h.isFinite_rrt
  have hmax := isFinite_max h.isFinite_rrt
  unfold constructResult resultOf
  rw [if_neg hne, newResult_of_cells hcells]
  simp only [addFilteredAvg, MeasurementResult.addResult, Platform.toJsonString, h.avg, h.mdev,
    h.filteredAvg, hmin,
    hmax, hloss, if_true]
  by_cases hbeq : (filterPingResults J rrts (avg J rrts)).beq (avg J rrts)
  · simp only [hbeq, if_true]
    rfl
  · simp only [hbeq]
    rfl

/-- Without the neighbouring cells there is no result. -/
theorem constructResult_of_no_cells (hcells : ¬ env.device.neighboringCellInfo.isSome)
    (hne : rrts ≠ []) :
    constructResult J desc env targetIp rrts packetLoss packetsSent pingMethod =
      .error .nullPointer := by
  unfold constructResult
  rw [if_neg hne, newResult_of_no_cells hcells]
  rfl

/-- The JSON encoder refuses a value that is not finite. -/
theorem ends_addResult_double {r : MeasurementResult} {key : String} {x : Value} :
    Ends (r.addResult J key (.double x)) (fun _ => x.isFinite = true)
      fun e => ∃ message, e = .illegalArgument message := by
  unfold MeasurementResult.addResult Platform.toJsonString
  by_cases hx : x.isFinite
  · simp only [hx, if_true]
    exact ends_ok trivial
  · simp only [hx]
    exact ends_error ⟨_, rfl⟩

/-- The last two values are written exactly when the filtered mean is finite. -/
theorem ends_addFilteredAvg {r : MeasurementResult} {filteredAvg avg : Value}
    (havg : avg.isFinite) :
    Ends (addFilteredAvg J r filteredAvg avg) (fun _ => filteredAvg.isFinite = true)
      fun e => ∃ message, e = .illegalArgument message := by
  unfold addFilteredAvg
  split
  · rename_i hbeq
    simp only [Value.beq, Bool.and_eq_true, decide_eq_true_eq] at hbeq
    rw [hbeq.2]
    exact ends_ok havg
  · exact ends_addResult_double

/-- JSON has no text for a statistic that is not finite. -/
theorem constructResult_of_not_finite (hcells : env.device.neighboringCellInfo.isSome)
    (hne : rrts ≠ []) (h : ¬ (Representable J rrts ∧ packetLoss.isFinite)) :
    ∃ message, constructResult J desc env targetIp rrts packetLoss packetsSent pingMethod =
      .error (.illegalArgument message) := by
  have hends : Ends
      (constructResult J desc env targetIp rrts packetLoss packetsSent pingMethod)
      (fun _ => Representable J rrts ∧ packetLoss.isFinite = true)
      fun e => ∃ message, e = .illegalArgument message := by
    have hok : ∀ {α : Type} {a : α}, Ends (.ok a : Except JavaException α) (fun _ => True)
        fun e => ∃ message, e = .illegalArgument message := ends_ok trivial
    unfold constructResult
    rw [if_neg hne, newResult_of_cells hcells]
    refine Ends.bind (P := fun _ => True) hok fun _ _ _ => ?_
    refine ends_addResult_double.bind fun _ _ havg => ?_
    refine ends_addResult_double.bind fun _ _ _ => ?_
    refine ends_addResult_double.bind fun _ _ _ => ?_
    refine ends_addResult_double.bind fun _ _ hmdev => ?_
    refine (ends_addFilteredAvg havg).bind fun _ _ hfiltered => ?_
    refine ends_addResult_double.bind fun _ _ hloss => ?_
    exact ends_ok ⟨⟨havg, hmdev, hfiltered⟩, hloss⟩
  cases hresult : constructResult J desc env targetIp rrts packetLoss packetsSent pingMethod with
  | ok result => exact absurd (hends.1 result hresult) h
  | error e =>
      obtain ⟨message, rfl⟩ := hends.2 e hresult
      exact ⟨message, rfl⟩

end Finite

/-! ### Bounds -/

section Bounds

variable {J : Platform} {rrts : List Value} {k : ℕ}

/-- A mean of at most ten values. -/
theorem within_mean {vals : List Value} (hk : k ≤ 256) (hne : vals ≠ [])
    (hlen : vals.length ≤ pingCount) (h : ∀ v ∈ vals, v.Within k) :
    (J.double.div (J.double.sum vals) (J.double.ofInt vals.length)).Within (k + 10) := by
  have hcount : pingCount = 10 := rfl
  have hsum := Rounding.within_sum (R := J.double) h (by omega)
  have hpos : vals.length ≠ 0 := fun hzero => hne (List.length_eq_zero_iff.mp hzero)
  refine Rounding.within_div_ofInt (l := 4) (by omega) (by omega) (hsum.mono (by omega)) ?_ ?_
  · exact_mod_cast hpos
  · rw [abs_of_nonneg (Int.natCast_nonneg _)]
    omega

/-- The square doubles the bound, with room for the rounding. -/
theorem within_squaredDeviation {avg val : Value} (hk : k ≤ 256) (havg : avg.Within (k + 10))
    (hval : val.Within k) : (squaredDeviation J avg val).Within (2 * k + 22) := by
  have hsub := Rounding.within_sub (R := J.double) (by omega) (hval.mono (Nat.le_add_right k 10))
    havg
  have hmul := Rounding.within_mul (R := J.double) (by omega) hsub hsub
  exact hmul.mono (by omega)

/-- The deviation of bounded times is finite. -/
theorem isFinite_getStandardDeviation {avg : Value} (hk : k ≤ 256)
    (hlen : rrts.length ≤ pingCount) (havg : avg.Within (k + 10))
    (h : ∀ v ∈ rrts, v.Within k) : (getStandardDeviation J rrts avg).isFinite := by
  have hcount : pingCount = 10 := rfl
  have hdeviations : ∀ d ∈ rrts.map (squaredDeviation J avg), d.Within (2 * k + 22) := by
    intro d hd
    obtain ⟨val, hval, rfl⟩ := List.mem_map.mp hd
    exact within_squaredDeviation hk havg (h val hval)
  have htotal : (J.double.sum (rrts.map (squaredDeviation J avg))).Within (2 * (k + 16)) := by
    refine (Rounding.within_sum hdeviations ?_).mono ?_
    · rw [List.length_map]
      omega
    · rw [List.length_map]
      omega
  obtain ⟨total, heq, hle⟩ := htotal
  unfold getStandardDeviation
  rw [heq]
  by_cases hpos : (Value.finite 0).lt (.finite total)
  · simp only [hpos, if_true]
    have hpos' : 0 < total := of_decide_eq_true hpos
    -- a positive total has a term
    have hne : rrts.length ≠ 0 := by
      intro hzero
      rw [List.length_eq_zero_iff.mp hzero] at heq
      cases heq
      exact lt_irrefl _ hpos'
    have hdiv : (J.double.div (.finite total) (J.double.ofInt rrts.length)).Within
        (2 * (k + 16)) := by
      refine Rounding.within_div_ofInt (l := 4) (by omega) (by omega) ⟨total, rfl, hle⟩ ?_ ?_
      · exact_mod_cast hne
      · rw [abs_of_nonneg (Int.natCast_nonneg _)]
        omega
    obtain ⟨q, hq, hqle⟩ := hdiv
    have hq0 := Rounding.div_ofInt_nonneg hpos'.le (Int.natCast_nonneg _) hq
    rw [hq]
    exact (Rounding.within_sqrt (by omega) hq0 ⟨q, rfl, hqle⟩).isFinite
  · simp only [hpos]
    rfl

/-- A few times of moderate size have finite statistics. -/
theorem representable_of_within (hk : k ≤ 256) (hne : rrts ≠ []) (hlen : rrts.length ≤ pingCount)
    (h : ∀ rrt ∈ rrts, rrt.Within k) : Representable J rrts := by
  have havg : (avg J rrts).Within (k + 10) := within_mean hk hne hlen h
  refine ⟨havg.isFinite, isFinite_getStandardDeviation hk hlen havg h, ?_⟩
  unfold filterPingResults applyInnerBandFilter
  generalize hfiltered : rrts.filter _ = filtered
  have hsublist : filtered.Sublist rrts := hfiltered ▸ List.filter_sublist
  by_cases hnil : filtered = []
  · simp only [hnil]
    exact havg.isFinite
  · simp only [hnil, ne_eq, not_false_iff, if_true]
    exact (within_mean hk hnil (hsublist.length_le.trans hlen)
      fun v hv => h v (hsublist.subset hv)).isFinite

/-- The loss is a number unless no packets were sent. -/
theorem isFinite_packetLossOf_iff {received sent : ℤ} (hreceived : |received| ≤ 2 ^ 32)
    (hsent : |sent| ≤ 2 ^ 32) : (packetLossOf J received sent).isFinite ↔ sent ≠ 0 := by
  unfold packetLossOf
  constructor
  · rintro h rfl
    have hneg := (Rounding.isFinite_of_add h).2
    rw [Value.isFinite_neg] at hneg
    exact Rounding.not_isFinite_div_zero hneg
  · intro hne
    have hone : (J.double.ofInt 1).Within 32 := Rounding.within_ofInt (by omega) (by norm_num)
    have hnum : (J.double.ofInt received).Within 32 := Rounding.within_ofInt (by omega) hreceived
    have hdiv := Rounding.within_div_ofInt (R := J.double) (l := 32) (by omega) (by omega) hnum
      hne hsent
    exact (Rounding.within_sub (by omega) hone hdiv).isFinite

end Bounds

/-! ## Exceptions -/

section Exceptions

variable {J : Platform} {desc : PingDesc} {env : PingEnv} {targetIp pingMethod : String}

/-- What a way to ping may meet: what it catches, when the log takes the message,
and a measurement error. -/
def Handled (J : Platform) (catches : JavaException → Bool) (e : JavaException) : Prop :=
  if catches e then J.Logs e.message else e.isMeasurementError

/-- A method with a `catch` clause throws nothing else exactly when its body throws
what the clause takes. -/
theorem contained_orFail_iff {catches : JavaException → Bool}
    {body : Except JavaException (Option MeasurementResult)} :
    Contained (orFail J catches body) ↔ FailsOnly (Handled J catches) body := by
  cases body with
  | ok o =>
      cases o with
      | none => exact iff_of_true (failsOnly_error.mpr rfl) failsOnly_ok
      | some result => exact iff_of_true failsOnly_ok failsOnly_ok
  | error e =>
      rw [failsOnly_error]
      unfold orFail Handled
      by_cases hcaught : catches e
      · simp only [hcaught, if_true]
        exact contained_logError J
      · simp only [hcaught]
        exact failsOnly_error

/-- It returns the result of its body. -/
theorem orFail_eq_ok_iff {catches : JavaException → Bool}
    {body : Except JavaException (Option MeasurementResult)} {r : MeasurementResult} :
    orFail J catches body = .ok r ↔ body = .ok (some r) := by
  cases body with
  | ok o =>
      cases o with
      | none => simp [orFail]
      | some result => simp [orFail]
  | error e =>
      refine iff_of_false (fun h => ?_) (fun h => ?_)
      · simp only [orFail] at h
        split at h
        · obtain ⟨_, -, h⟩ := except_bind_eq_ok.mp h
          cases h
        · cases h
      · cases h

/-- The second way is tried when the first one returned nothing. -/
theorem contained_orElse_iff {x y : Except JavaException MeasurementResult} :
    Contained (orElse x y) ↔ Contained x ∧ ((¬ ∃ r, x = .ok r) → Contained y) := by
  cases x with
  | ok r =>
      refine iff_of_true failsOnly_ok ⟨failsOnly_ok, fun h => absurd ⟨r, rfl⟩ h⟩
  | error e =>
      have hnot : ¬ ∃ r, (Except.error e : Except JavaException MeasurementResult) = .ok r := by
        rintro ⟨r, hr⟩
        cases hr
      simp only [hnot, not_false_iff, true_imp_iff]
      cases e with
      | measurementError message =>
          have hx : Contained (.error (.measurementError message)) := failsOnly_error.mpr rfl
          exact (and_iff_right hx).symm
      | _ =>
          refine iff_of_false (fun h => ?_) (fun h => ?_)
          · cases failsOnly_error.mp h
          · cases failsOnly_error.mp h.1

/-! ### Requests -/

section Requests

variable {α : Type} {request : ℕ → Except IoFailure α} {rrt : α → Option Value}

def failureAt (request : ℕ → Except IoFailure α) (i : ℕ) : Option IoFailure :=
  match request i with
  | .error failure => some failure
  | .ok _ => none

/-- The failure of the first request that fails. -/
def firstFailure (request : ℕ → Except IoFailure α) : Option IoFailure :=
  (List.range pingCount).findSome? (failureAt request)

/-- The times of the requests. -/
def timesOf (request : ℕ → Except IoFailure α) (rrt : α → Option Value) : List Value :=
  (List.range pingCount).filterMap fun i => (request i).toOption.bind rrt

/-- The loop ends at the first request that fails. -/
theorem collect_of_failure {l : List ℕ} {collected : List Value} {failure : IoFailure}
    (h : l.findSome? (failureAt request) = some failure) :
    l.foldlM (collectStep (timeOf request rrt)) collected = .error (.io failure) := by
  induction l generalizing collected with
  | nil => cases h
  | cons i l ih =>
      rw [List.findSome?_cons] at h
      rw [List.foldlM_cons]
      unfold collectStep timeOf
      cases hi : request i with
      | error f =>
          simp only [failureAt, hi] at h
          cases h
          rfl
      | ok answer =>
          simp only [failureAt, hi] at h
          cases hrrt : rrt answer with
          | none =>
              simp only [hrrt]
              exact ih h
          | some time =>
              simp only [hrrt]
              exact ih h

/-- When no request fails all times are collected. -/
theorem collect_of_no_failure (h : firstFailure request = none) :
    (List.range pingCount).foldlM (collectStep (timeOf request rrt)) [] =
      .ok (timesOf request rrt) := by
  have hok : ∀ i ∈ List.range pingCount, ∃ answer, request i = .ok answer := by
    intro i hi
    have hnone := List.findSome?_eq_none_iff.mp h i hi
    unfold failureAt at hnone
    cases hrequest : request i with
    | error failure =>
        rw [hrequest] at hnone
        cases hnone
    | ok answer => exact ⟨answer, rfl⟩
  rw [foldlM_collect_eq_ok]
  constructor
  · intro i hi
    obtain ⟨answer, hanswer⟩ := hok i hi
    refine ⟨rrt answer, ?_⟩
    unfold timeOf
    rw [hanswer]
  · rw [List.nil_append]
    refine List.filterMap_congr fun i hi => ?_
    obtain ⟨answer, hanswer⟩ := hok i hi
    unfold timeOf
    simp [hanswer, Except.toOption]

/-- A failing request ends the method with its exception. -/
theorem requests_of_failure {failure : IoFailure} (h : firstFailure request = some failure) :
    requests J desc env targetIp request rrt pingMethod = .error (.io failure) := by
  unfold requests
  rw [collect_of_failure h]
  rfl

/-- Without a time there is no result. -/
theorem requests_of_no_times (h : firstFailure request = none)
    (hnil : timesOf request rrt = []) :
    requests J desc env targetIp request rrt pingMethod = .ok none := by
  unfold requests
  rw [collect_of_no_failure h, hnil]
  rfl

/-- With a time the result is built, which needs the neighbouring cells. -/
theorem requests_of_no_cells (hcells : ¬ env.device.neighboringCellInfo.isSome)
    (h : firstFailure request = none) (hne : timesOf request rrt ≠ []) :
    requests J desc env targetIp request rrt pingMethod = .error .nullPointer := by
  unfold requests
  rw [collect_of_no_failure h]
  exact constructResult_of_no_cells hcells hne

/-- Times that are of type `long` have finite statistics. -/
theorem requests_of_no_failure (hcells : env.device.neighboringCellInfo.isSome)
    (hrrt : ∀ answer time, rrt answer = some time → time.Within 63)
    (h : firstFailure request = none) (hne : timesOf request rrt ≠ []) :
    requests J desc env targetIp request rrt pingMethod = .ok
      (some (resultOf J desc env targetIp pingMethod (timesOf request rrt)
        (packetLossOf J (timesOf request rrt).length pingCount) pingCount)) := by
  unfold requests
  rw [collect_of_no_failure h]
  show constructResult J desc env targetIp (timesOf request rrt) _ _ _ = _
  have hlen : (timesOf request rrt).length ≤ pingCount := by
    have hle := List.length_filterMap_le (fun i => (request i).toOption.bind rrt)
      (List.range pingCount)
    rwa [List.length_range] at hle
  have hwithin : ∀ time ∈ timesOf request rrt, time.Within 63 := by
    intro time htime
    obtain ⟨i, -, hi⟩ := List.mem_filterMap.mp htime
    obtain ⟨answer, -, hanswer⟩ := Option.bind_eq_some_iff.mp hi
    exact hrrt answer time hanswer
  have hcount : pingCount = 10 := rfl
  refine constructResult_of_finite hcells hne
    (representable_of_within (by omega) hne hlen hwithin) ?_
  refine (isFinite_packetLossOf_iff ?_ ?_).mpr (by decide)
  · rw [abs_of_nonneg (Int.natCast_nonneg _)]
    omega
  · decide

/-- Requests come to what is handled when the log takes the message of the first
failure, and times without a failure find a list of the cells around the phone. -/
theorem requests_failsOnly_iff {catches : JavaException → Bool}
    (hio : ∀ failure, catches (.io failure) = true) (hnull : catches .nullPointer = false)
    (hrrt : ∀ answer time, rrt answer = some time → time.Within 63) :
    FailsOnly (Handled J catches) (requests J desc env targetIp request rrt pingMethod) ↔
      (∀ failure, firstFailure request = some failure → J.Logs failure.message) ∧
        (firstFailure request = none → timesOf request rrt ≠ [] →
          env.device.neighboringCellInfo.isSome) := by
  cases hfailure : firstFailure request with
  | some failure =>
      rw [requests_of_failure hfailure, failsOnly_error, Handled, if_pos (hio failure)]
      simp [JavaException.message]
  | none =>
      rw [and_iff_right nofun, imp_iff_right rfl]
      by_cases hnil : timesOf request rrt = []
      · rw [requests_of_no_times hfailure hnil]
        exact iff_of_true failsOnly_ok fun hne => absurd hnil hne
      · rw [imp_iff_right hnil]
        by_cases hcells : env.device.neighboringCellInfo.isSome
        · rw [requests_of_no_failure hcells hrrt hfailure hnil]
          exact iff_of_true failsOnly_ok hcells
        · rw [requests_of_no_cells hcells hfailure hnil, failsOnly_error, Handled, hnull]
          exact iff_of_false Bool.false_ne_true hcells

/-- There is a result exactly when no request fails, one gives a time, and the cells
are known. -/
theorem requests_isSome_iff (hrrt : ∀ answer time, rrt answer = some time → time.Within 63) :
    (∃ r, requests J desc env targetIp request rrt pingMethod = .ok (some r)) ↔
      (firstFailure request = none ∧ timesOf request rrt ≠ []) ∧
        env.device.neighboringCellInfo.isSome := by
  cases hfailure : firstFailure request with
  | some failure =>
      rw [requests_of_failure hfailure]
      simp
  | none =>
      by_cases hnil : timesOf request rrt = []
      · rw [requests_of_no_times hfailure hnil]
        simp [hnil]
      · by_cases hcells : env.device.neighboringCellInfo.isSome
        · rw [requests_of_no_failure hcells hrrt hfailure hnil]
          simp [hnil, hcells]
        · rw [requests_of_no_cells hcells hfailure hnil]
          simp [hcells]

end Requests

/-- A time in milliseconds is a `long`, also as a double. -/
theorem within_rrt (J : Platform) (t : Timed) : (J.double.ofInt t.rrt).Within 63 := by
  refine Rounding.within_ofInt (by omega) ?_
  have hlo := Int.le_bmod (x := t.endTime - t.startTime) (m := 2 ^ 64) (by decide)
  have hhi := Int.bmod_lt (x := t.endTime - t.startTime) (m := 2 ^ 64) (by decide)
  unfold Timed.rrt toLong
  rw [abs_le]
  omega

/-- So is the time of a reachable host. -/
theorem within_reachableRrt {answer : Bool × Timed} {time : Value}
    (h : reachableRrt J answer = some time) : time.Within 63 := by
  unfold reachableRrt at h
  split at h
  · cases h
    exact within_rrt J _
  · cases h

/-- So is the time of a HEAD request. -/
theorem within_headRrt {answer : Timed} {time : Value} (h : headRrt J answer = some time) :
    time.Within 63 := by
  cases h
  exact within_rrt J _

/-- The platform reaches the target. -/
def Reached (env : PingEnv) : Prop :=
  firstFailure env.reachable = none ∧ ∃ i < pingCount, ∃ t, env.reachable i = .ok (true, t)

/-- There is a time exactly when the host was reached once. -/
theorem timesOf_reachable_ne_nil : timesOf env.reachable (reachableRrt J) ≠ [] ↔
    ∃ i < pingCount, ∃ t, env.reachable i = .ok (true, t) := by
  unfold timesOf
  rw [Ne, List.filterMap_eq_nil_iff]
  constructor
  · intro h
    obtain ⟨i, hi⟩ := not_forall.mp h
    obtain ⟨hmem, hsome⟩ := Classical.not_imp.mp hi
    refine ⟨i, List.mem_range.mp hmem, ?_⟩
    cases hrequest : env.reachable i with
    | error failure => simp [hrequest, Except.toOption] at hsome
    | ok answer =>
        rcases answer with ⟨status, t⟩
        cases status with
        | false => simp [hrequest, Except.toOption, reachableRrt] at hsome
        | true => exact ⟨t, rfl⟩
  · rintro ⟨i, hi, t, hrequest⟩ hall
    have hnone := hall i (List.mem_range.mpr hi)
    simp [hrequest, Except.toOption, reachableRrt] at hnone

/-- The host is reached when no request fails and one gives a time. -/
theorem reached_iff : Reached env ↔
    firstFailure env.reachable = none ∧ timesOf env.reachable (reachableRrt J) ≠ [] := by
  rw [timesOf_reachable_ne_nil]
  rfl

/-- The Java ping throws nothing else exactly when a failure has a text and the
cells are known. -/
theorem contained_executeJavaPingTask_iff :
    Contained (executeJavaPingTask J desc env targetIp) ↔
      (∀ failure, firstFailure env.reachable = some failure → J.Logs failure.message) ∧
        (Reached env → env.device.neighboringCellInfo.isSome) := by
  unfold executeJavaPingTask
  rw [contained_orFail_iff, requests_failsOnly_iff (fun _ => rfl) rfl
    (fun _ _ => within_reachableRrt), reached_iff (J := J), and_imp]

/-- It has a result exactly when the host is reached. -/
theorem executeJavaPingTask_isOk_iff
    (hcells : Reached env → env.device.neighboringCellInfo.isSome) :
    (∃ r, executeJavaPingTask J desc env targetIp = .ok r) ↔ Reached env := by
  unfold executeJavaPingTask
  simp only [orFail_eq_ok_iff]
  rw [requests_isSome_iff (fun _ _ => within_reachableRrt), ← reached_iff]
  exact and_iff_left_of_imp hcells

/-- The failure of the requests for the head of a page. -/
def headFailure (env : PingEnv) : Option IoFailure :=
  match env.url with
  | .error failure => some failure
  | .ok () => firstFailure env.head

/-- Requests for the head of a page that do not fail have times. -/
theorem timesOf_head_ne_nil (h : firstFailure env.head = none) :
    timesOf env.head (headRrt J) ≠ [] := by
  have hmem : 0 ∈ List.range pingCount := List.mem_range.mpr (by decide)
  have hfirst := List.findSome?_eq_none_iff.mp h 0 hmem
  unfold timesOf
  rw [Ne, List.filterMap_eq_nil_iff]
  intro hall
  have hnone := hall 0 hmem
  unfold failureAt at hfirst
  cases hrequest : env.head 0 with
  | error failure => simp [hrequest] at hfirst
  | ok answer => simp [hrequest, Except.toOption, headRrt] at hnone

/-- The HTTP ping throws nothing else exactly when a failure has a text and the
cells are known. -/
theorem contained_executeHttpPingTask_iff :
    Contained (executeHttpPingTask J desc env targetIp) ↔
      (∀ failure, headFailure env = some failure → J.Logs failure.message) ∧
        (headFailure env = none → env.device.neighboringCellInfo.isSome) := by
  unfold executeHttpPingTask headFailure
  rw [contained_orFail_iff]
  cases env.url with
  | error failure =>
      simp [failsOnly_error, Handled, JavaException.isIo, JavaException.message]
  | ok _ =>
      dsimp only
      rw [requests_failsOnly_iff (fun _ => rfl) rfl (fun _ _ => within_headRrt)]
      refine and_congr_right fun _ => forall_congr' fun hnone => ?_
      exact imp_iff_right (timesOf_head_ne_nil hnone)

end Exceptions

/-! ### The command -/

section Command

variable {J : Platform} {desc : PingDesc} {env : PingEnv} {targetIp : String}

/-- The output of the command can be made a result of: the statistics of its
times are finite, and it does not speak of no packets sent. -/
structure Summarizes (J : Platform) (lines : List String) : Prop where
  rrts : Representable J (rrtsOf J lines)
  sent : ∀ sent received, lossInfoOf lines = some (sent, received) → sent ≠ 0

/-- What the command may come to: a failure whose message the log takes, an
output with a sequence number that is none, or an output without times or with
a summary. -/
def CommandReads (J : Platform) : PingCommand → Prop
  | .io failure => J.Logs failure.message
  | .security message => J.Logs message
  | .started output =>
    (∀ line ∈ output.items, ReadsNumber line) →
      match output.failure with
      | some failure => J.Logs failure.message
      | none => rrtsOf J output.items ≠ [] → Summarizes J output.items

/-- The command answers with times. -/
def CommandAnswers (J : Platform) (command : PingCommand) : Prop :=
  ∃ output, command = .started output ∧ (∀ line ∈ output.items, ReadsNumber line) ∧
    output.failure = none ∧ rrtsOf J output.items ≠ []

/-- The packets a line speaks of are counted in `int`s. -/
theorem bounds_of_mem_lossInfos {lines : List String} {sent received : ℤ}
    (h : (sent, received) ∈ lines.filterMap extractPacketLossInfoFromPingOutput) :
    (-2 ^ 31 ≤ sent ∧ sent < 2 ^ 31) ∧ (-2 ^ 31 ≤ received ∧ received < 2 ^ 31) := by
  obtain ⟨line, -, hline⟩ := List.mem_filterMap.mp h
  unfold extractPacketLossInfoFromPingOutput at hline
  obtain ⟨found, -, hline⟩ := Option.bind_eq_some_iff.mp hline
  obtain ⟨n, hn, hline⟩ := Option.bind_eq_some_iff.mp hline
  obtain ⟨m, hm, hline⟩ := Option.bind_eq_some_iff.mp hline
  cases hline
  exact ⟨parseInt_bounds hn, parseInt_bounds hm⟩

/-- So are those of the line that decides. -/
theorem bounds_of_lossInfoOf {lines : List String} {sent received : ℤ}
    (h : lossInfoOf lines = some (sent, received)) :
    (-2 ^ 31 ≤ sent ∧ sent < 2 ^ 31) ∧ (-2 ^ 31 ≤ received ∧ received < 2 ^ 31) :=
  bounds_of_mem_lossInfos (List.mem_of_getLast? h)

/-- No sequence number is kept twice. -/
theorem nodup_foldl_keepReply {replies kept : List (ℤ × Value)} (h : (kept.map Prod.fst).Nodup) :
    ((replies.foldl keepReply kept).map Prod.fst).Nodup := by
  induction replies generalizing kept with
  | nil => exact h
  | cons reply replies ih =>
      rw [List.foldl_cons]
      unfold keepReply
      split
      · exact ih h
      · rename_i hnew
        refine ih ?_
        rw [List.map_append, List.nodup_append]
        refine ⟨h, List.nodup_singleton _, ?_⟩
        intro a ha b hb heq
        rw [List.map_singleton, List.mem_singleton] at hb
        exact hnew (hb ▸ heq ▸ ha)

/-- A reply that is kept was read. -/
theorem mem_foldl_keepReply {replies kept : List (ℤ × Value)} {reply : ℤ × Value}
    (h : reply ∈ replies.foldl keepReply kept) : reply ∈ kept ∨ reply ∈ replies := by
  induction replies generalizing kept with
  | nil => exact Or.inl h
  | cons first replies ih =>
      rw [List.foldl_cons] at h
      rcases ih h with hmem | hmem
      · unfold keepReply at hmem
        split at hmem
        · exact Or.inl hmem
        · rcases List.mem_append.mp hmem with hmem | hmem
          · exact Or.inl hmem
          · exact Or.inr (List.mem_cons.mpr (Or.inl (List.mem_singleton.mp hmem)))
      · exact Or.inr (List.mem_cons_of_mem _ hmem)

/-- There are no more times than sequence numbers. -/
theorem length_rrtsOf_le (lines : List String) : (rrtsOf J lines).length ≤ 2 ^ 32 := by
  have hnodup : ((repliesOf J lines).map Prod.fst).Nodup := nodup_foldl_keepReply List.nodup_nil
  have hsubset : ((repliesOf J lines).map Prod.fst).toFinset ⊆ Finset.Ico (-2 ^ 31) (2 ^ 31) := by
    intro n hn
    obtain ⟨reply, hreply, rfl⟩ := List.mem_map.mp (List.mem_toFinset.mp hn)
    have hmem := (mem_foldl_keepReply hreply).resolve_left List.not_mem_nil
    obtain ⟨line, -, hline⟩ := List.mem_filterMap.mp hmem
    unfold replyOf at hline
    obtain ⟨found, -, hline⟩ := Option.bind_eq_some_iff.mp hline
    obtain ⟨icmpSeq, hseq, hline⟩ := Option.bind_eq_some_iff.mp hline
    obtain ⟨time, -, hline⟩ := Option.bind_eq_some_iff.mp hline
    cases hline
    exact Finset.mem_Ico.mpr (parseInt_bounds hseq)
  have hcard := Finset.card_le_card hsubset
  rw [List.toFinset_card_of_nodup hnodup, List.length_map, Int.card_Ico] at hcard
  unfold rrtsOf
  rw [List.length_map]
  exact hcard

/-- The loss is a number unless the line that decides speaks of no packet sent. -/
theorem isFinite_loss_iff {lines : List String} : ((readingOf J lines).loss J).isFinite ↔
    ∀ sent received, lossInfoOf lines = some (sent, received) → sent ≠ 0 := by
  -- without a summary the loss is worked out from the ten pings, and is finite
  have hestimate : (packetLossOf J (rrtsOf J lines).length pingCount).isFinite := by
    have hlen := length_rrtsOf_le (J := J) lines
    refine (isFinite_packetLossOf_iff ?_ (by decide)).mpr (by decide)
    rw [abs_of_nonneg (Int.natCast_nonneg _)]
    exact_mod_cast hlen
  unfold Reading.loss
  cases hinfo : lossInfoOf lines with
  | none =>
      have hmin : (readingOf J lines).packetLoss = minValue := by
        unfold readingOf
        rw [hinfo]
        rfl
      have hbeq : minValue.beq minValue = true := by simp [Value.beq, minValue]
      rw [hmin, hbeq]
      exact iff_of_true hestimate (fun _ _ h => by cases h)
  | some info =>
      -- with a summary the division by the packets sent decides
      obtain ⟨⟨hslo, hshi⟩, hrlo, hrhi⟩ := bounds_of_lossInfoOf hinfo
      have hloss : (readingOf J lines).packetLoss = packetLossOf J info.2 info.1 := by
        unfold readingOf
        rw [hinfo]
        rfl
      have hiff : (packetLossOf J info.2 info.1).isFinite ↔ info.1 ≠ 0 :=
        isFinite_packetLossOf_iff (abs_le.mpr (by omega)) (abs_le.mpr (by omega))
      have hgoal : (∀ sent received, some info = some (sent, received) → sent ≠ 0) ↔
          info.1 ≠ 0 := by
        constructor
        · intro h
          exact h info.1 info.2 rfl
        · rintro h sent received heq
          cases heq
          exact h
      rw [hloss, hgoal, ← hiff]
      split
      · -- a loss read as the smallest double counts as not read
        rename_i hbeq
        simp only [Value.beq, Bool.and_eq_true, decide_eq_true_eq] at hbeq
        rw [hbeq.2]
        exact iff_of_true hestimate rfl
      · exact Iff.rfl

/-- An output whose sequence numbers are numbers is read to its end. -/
theorem runCommand_of_readsNumber {output : Input String} (hcommand : env.command = .started output)
    (h : ∀ line ∈ output.items, ReadsNumber line) :
    runCommand J desc env targetIp =
      match output.failure with
      | some failure => .error (.io failure)
      | none =>
        constructResult J desc env targetIp (rrtsOf J output.items)
          ((readingOf J output.items).loss J)
          (readingOf J output.items).packetsSent "ping_cmd" := by
  unfold runCommand
  rw [hcommand]
  simp only [Input.readAll, readLines_of_readsNumber h]
  cases output.failure with
  | none => rfl
  | some failure => rfl

/-- A number beyond an `int` ends the command with an exception. -/
theorem runCommand_of_not_readsNumber (J : Platform) (desc : PingDesc) (targetIp : String)
    {output : Input String} (hcommand : env.command = .started output)
    (h : ¬ ∀ line ∈ output.items, ReadsNumber line) :
    ∃ message, runCommand J desc env targetIp = .error (.numberFormat message) := by
  obtain ⟨message, hmessage⟩ :=
    readLines_of_not_readsNumber (J := J) ⟨[], [], minValue, pingCount⟩ h
  refine ⟨message, ?_⟩
  unfold runCommand
  rw [hcommand]
  simp only [Input.readAll, hmessage]
  rfl

/-- A command that was started answers when it is read to its end and gives a time. -/
theorem commandAnswers_started_iff {output : Input String} :
    CommandAnswers J (.started output) ↔ (∀ line ∈ output.items, ReadsNumber line) ∧
      output.failure = none ∧ rrtsOf J output.items ≠ [] := by
  constructor
  · rintro ⟨_, heq, hall⟩
    cases heq
    exact hall
  · intro hall
    exact ⟨output, rfl, hall⟩

/-- The command throws nothing its method does not catch exactly when its output can
be read and the cells are known. -/
theorem runCommand_failsOnly_iff :
    FailsOnly (Handled J isCaughtInCommand) (runCommand J desc env targetIp) ↔
      CommandReads J env.command ∧
        (CommandAnswers J env.command → env.device.neighboringCellInfo.isSome) := by
  have hio : ∀ failure, Handled J isCaughtInCommand (.io failure) ↔ J.Logs failure.message :=
    fun _ => Iff.rfl
  cases hcommand : env.command with
  | io failure =>
      unfold runCommand
      rw [hcommand, failsOnly_error, hio]
      refine (and_iff_left ?_).symm
      rintro ⟨_, h, -⟩
      cases h
  | security message =>
      unfold runCommand
      rw [hcommand, failsOnly_error]
      refine (and_iff_left ?_).symm
      rintro ⟨_, h, -⟩
      cases h
  | started output =>
      rw [commandAnswers_started_iff]
      by_cases hread : ∀ line ∈ output.items, ReadsNumber line
      · rw [runCommand_of_readsNumber hcommand hread]
        refine Iff.trans ?_ (and_congr_left fun _ => (forall_prop_of_true hread).symm)
        cases hfailure : output.failure with
        | some failure =>
            rw [failsOnly_error, hio]
            refine (and_iff_left ?_).symm
            rintro ⟨-, h, -⟩
            cases h
        | none =>
            by_cases hnil : rrtsOf J output.items = []
            · -- no reply is no result
              simp only [constructResult, hnil, if_true]
              exact iff_of_true failsOnly_ok
                ⟨fun h => absurd rfl h, fun h => absurd rfl h.2.2⟩
            · have hsummary : Summarizes J output.items ↔
                  Representable J (rrtsOf J output.items) ∧
                    ((readingOf J output.items).loss J).isFinite := by
                rw [isFinite_loss_iff]
                exact ⟨fun h => ⟨h.rrts, h.sent⟩, fun h => ⟨h.1, h.2⟩⟩
              refine Iff.trans ?_ (and_congr (forall_prop_of_true hnil).symm
                (imp_iff_right ⟨hread, rfl, hnil⟩).symm)
              rw [hsummary]
              by_cases hcells : env.device.neighboringCellInfo.isSome
              · rw [and_iff_left hcells]
                by_cases hfinite : Representable J (rrtsOf J output.items) ∧
                    ((readingOf J output.items).loss J).isFinite
                · simp only [constructResult_of_finite hcells hnil hfinite.1 hfinite.2]
                  exact iff_of_true failsOnly_ok hfinite
                · -- the encoder of the result refuses what is not finite
                  obtain ⟨message, hmessage⟩ : ∃ message,
                      constructResult J desc env targetIp (rrtsOf J output.items)
                        ((readingOf J output.items).loss J)
                        (readingOf J output.items).packetsSent "ping_cmd" =
                          .error (.illegalArgument message) :=
                    constructResult_of_not_finite hcells hnil hfinite
                  simp only [hmessage]
                  refine iff_of_false (fun h => ?_) hfinite
                  cases failsOnly_error.mp h
              · -- the result is not begun
                simp only [constructResult_of_no_cells hcells hnil]
                refine iff_of_false (fun h => ?_) fun h => hcells h.2
                cases failsOnly_error.mp h
      · -- a sequence number beyond the `int`s
        obtain ⟨message, hmessage⟩ := runCommand_of_not_readsNumber J desc targetIp hcommand hread
        rw [hmessage, failsOnly_error]
        exact iff_of_true (Or.inl rfl) ⟨fun h => absurd h hread, fun h => absurd h.1 hread⟩

/-- A command that can be read gives a result when it answers. -/
theorem runCommand_isSome_iff (h : CommandReads J env.command)
    (hcells : CommandAnswers J env.command → env.device.neighboringCellInfo.isSome) :
    (∃ r, runCommand J desc env targetIp = .ok (some r)) ↔ CommandAnswers J env.command := by
  cases hcommand : env.command with
  | io failure =>
      unfold runCommand
      rw [hcommand]
      simp [CommandAnswers]
  | security message =>
      unfold runCommand
      rw [hcommand]
      simp [CommandAnswers]
  | started output =>
      rw [hcommand] at h hcells
      rw [commandAnswers_started_iff] at hcells ⊢
      by_cases hread : ∀ line ∈ output.items, ReadsNumber line
      · have hrest := h hread
        rw [runCommand_of_readsNumber hcommand hread]
        cases hfailure : output.failure with
        | some failure => simp
        | none =>
            simp only [hfailure] at hrest
            -- without a round trip the command has no answer
            by_cases hnil : rrtsOf J output.items = []
            · simp [constructResult, hnil]
            · have hsummary := hrest hnil
              have hanswers := hcells ⟨hread, hfailure, hnil⟩
              simp only [constructResult_of_finite hanswers hnil hsummary.rrts
                (isFinite_loss_iff.mpr hsummary.sent)]
              exact iff_of_true ⟨_, rfl⟩ ⟨hread, trivial, hnil⟩
      · -- a line that is not a number ends the command with an exception
        obtain ⟨message, hmessage⟩ := runCommand_of_not_readsNumber J desc targetIp hcommand hread
        rw [hmessage]
        refine iff_of_false ?_ fun hall => hread hall.1
        rintro ⟨r, hr⟩
        cases hr

variable {addr : InetAddress}

/-- The ping command's method throws nothing else exactly when its path may be
looked at and, where it is installed, its output can be read and the cells are
known. -/
theorem contained_executePingCmdTask_iff : Contained (executePingCmdTask J desc env addr) ↔
    Permitted env.path ∧ (Installed env.path → CommandReads J env.command ∧
      (CommandAnswers J env.command → env.device.neighboringCellInfo.isSome)) := by
  unfold executePingCmdTask
  rw [Contained, failsOnly_bind, pingExecutable_failsOnly_iff]
  refine and_congr_right fun _ => ?_
  rw [← pingExecutable_eq_some_iff addr.version]
  constructor
  · rintro h ⟨exe, hexe⟩
    exact runCommand_failsOnly_iff.mp (contained_orFail_iff.mp (h (some exe) hexe))
  · intro h exe hexe
    cases exe with
    | none => exact failsOnly_error.mpr rfl
    | some exe =>
        exact contained_orFail_iff.mpr (runCommand_failsOnly_iff.mpr (h ⟨exe, hexe⟩))

/-- It has a result exactly when the command is there and answers. -/
theorem executePingCmdTask_isOk_iff (h : Installed env.path → CommandReads J env.command ∧
      (CommandAnswers J env.command → env.device.neighboringCellInfo.isSome)) :
    (∃ r, executePingCmdTask J desc env addr = .ok r) ↔
      Installed env.path ∧ CommandAnswers J env.command := by
  unfold executePingCmdTask
  simp only [except_bind_eq_ok]
  constructor
  · rintro ⟨r, exe, hexe, hr⟩
    cases exe with
    | none => cases hr
    | some exe =>
        have hinstalled := (pingExecutable_eq_some_iff addr.version).mp ⟨exe, hexe⟩
        obtain ⟨hreads, hcells⟩ := h hinstalled
        exact ⟨hinstalled,
          (runCommand_isSome_iff hreads hcells).mp ⟨r, orFail_eq_ok_iff.mp hr⟩⟩
  · rintro ⟨hinstalled, hanswers⟩
    obtain ⟨exe, hexe⟩ := (pingExecutable_eq_some_iff addr.version).mpr hinstalled
    obtain ⟨hreads, hcells⟩ := h hinstalled
    obtain ⟨r, hr⟩ := (runCommand_isSome_iff hreads hcells).mpr hanswers
    exact ⟨r, some exe, hexe, orFail_eq_ok_iff.mpr hr⟩

end Command

/-! ### The call -/

section Call

variable {J : Platform} {desc : PingDesc} {env : PingEnv}

/-- One of the ways to ping answers with times. -/
def Answers (J : Platform) (env : PingEnv) : Prop :=
  (Installed env.path ∧ CommandAnswers J env.command) ∨ Reached env ∨ headFailure env = none

/-- What pinging a known host needs of its surroundings: the ways that are tried
each come to something that is handled, and an answer to a result. -/
structure Pings (J : Platform) (env : PingEnv) : Prop where
  permitted : Permitted env.path
  command : Installed env.path → CommandReads J env.command
  reachable : ¬ (Installed env.path ∧ CommandAnswers J env.command) →
    ∀ failure, firstFailure env.reachable = some failure → J.Logs failure.message
  head : ¬ (Installed env.path ∧ CommandAnswers J env.command) → ¬ Reached env →
    ∀ failure, headFailure env = some failure → J.Logs failure.message
  cells : Answers J env → env.device.neighboringCellInfo.isSome

/-- The call throws nothing else exactly when the ways it tries do not. -/
theorem contained_iff :
    Contained (call J desc env) ↔ (env.getByName.isSome → Pings J env) := by
  unfold call
  cases env.getByName with
  | none => exact iff_of_true (failsOnly_error.mpr rfl) (fun h => by cases h)
  | some addr =>
      refine Iff.trans ?_ (forall_prop_of_true rfl).symm
      simp only [contained_orElse_iff, contained_executePingCmdTask_iff,
        contained_executeJavaPingTask_iff, contained_executeHttpPingTask_iff]
      constructor
      · rintro ⟨⟨hpermitted, hcommand⟩, hrest⟩
        rw [executePingCmdTask_isOk_iff hcommand] at hrest
        refine ⟨hpermitted, fun h => (hcommand h).1, fun h => (hrest h).1.1, fun h hnot => ?_,
          fun hanswers => ?_⟩
        · obtain ⟨⟨-, hcells⟩, hhead⟩ := hrest h
          rw [executeJavaPingTask_isOk_iff hcells] at hhead
          exact (hhead hnot).1
        · -- the first of the ways that answers makes the result
          by_cases hfirst : Installed env.path ∧ CommandAnswers J env.command
          · exact (hcommand hfirst.1).2 hfirst.2
          · obtain ⟨⟨-, hcells⟩, hhead⟩ := hrest hfirst
            rw [executeJavaPingTask_isOk_iff hcells] at hhead
            by_cases hsecond : Reached env
            · exact hcells hsecond
            · exact (hhead hsecond).2 ((hanswers.resolve_left hfirst).resolve_left hsecond)
      · rintro ⟨hpermitted, hcommand, hreachable, hhead, hcells⟩
        have hcells' : Reached env → env.device.neighboringCellInfo.isSome := fun h =>
          hcells (Or.inr (Or.inl h))
        have hcommand' : Installed env.path → CommandReads J env.command ∧
            (CommandAnswers J env.command → env.device.neighboringCellInfo.isSome) := fun h =>
          ⟨hcommand h, fun hanswers => hcells (Or.inl ⟨h, hanswers⟩)⟩
        rw [executePingCmdTask_isOk_iff hcommand', executeJavaPingTask_isOk_iff hcells']
        exact ⟨⟨hpermitted, hcommand'⟩, fun h => ⟨⟨hreachable h, hcells'⟩, fun hnot =>
          ⟨hhead h hnot, fun hnone => hcells (Or.inr (Or.inr hnone))⟩⟩⟩

end Call

/-! ## Showing the result -/

section Shown

variable {J : Platform} {desc : PingDesc} {env : PingEnv} {targetIp pingMethod : String}

/-- The text of a finite double can be read as a float. -/
theorem exists_parseFloat {x : Value} (h : x.isFinite) :
    ∃ y, J.parseFloat (some (J.doubleText x)) = .ok y := by
  cases x with
  | nan => cases h
  | infinite negative => cases h
  | finite q =>
      obtain ⟨y, hy⟩ := Option.isSome_iff_exists.mp (J.readDecimal_doubleText q)
      refine ⟨J.float.convert y, ?_⟩
      unfold Platform.parseFloat
      simp only [hy]

/-- A result with finite statistics can be shown. -/
theorem shown_resultOf {rrts : List Value} {packetLoss : Value} {packetsSent : ℤ}
    (h : Representable J rrts) (hloss : packetLoss.isFinite)
    (hlo : -2 ^ 31 ≤ packetsSent) (hhi : packetsSent < 2 ^ 31) :
    Shown J (.ok (resultOf J desc env targetIp pingMethod rrts packetLoss packetsSent)) := by
  rw [shown_ok_iff]
  intro hsuccess
  -- only the filtered mean may be left out, and the report does not read it
  have hvalues : ∀ key, key ≠ "filtered_mean_rtt_ms" →
      (resultOf J desc env targetIp pingMethod rrts packetLoss packetsSent).values.get key =
      Values.get [
        ("ping_method", J.quote pingMethod),
        ("packets_sent", toString packetsSent),
        ("packet_loss", J.doubleText packetLoss),
        ("stddev_rtt_ms", J.doubleText (getStandardDeviation J rrts (avg J rrts))),
        ("max_rtt_ms", J.doubleText (max rrts)),
        ("min_rtt_ms", J.doubleText (min rrts)),
        ("mean_rtt_ms", J.doubleText (avg J rrts)),
        ("target_ip", J.quote targetIp)] key := by
    intro key hkey
    dsimp only [resultOf]
    split
    · rfl
    · simp only [List.cons_append, List.nil_append, Values.get_cons, if_neg hkey]
  show ∃ lines, getPingResult J desc
    (resultOf J desc env targetIp pingMethod rrts packetLoss packetsSent) = .ok lines
  unfold getPingResult
  rw [if_pos hsuccess]
  rw [hvalues _ (by decide), hvalues _ (by decide), hvalues _ (by decide), hvalues _ (by decide),
    hvalues _ (by decide), hvalues _ (by decide), hvalues _ (by decide)]
  -- every number shown is finite, so each is read back
  obtain ⟨loss, hloss⟩ := exists_parseFloat (J := J) hloss
  obtain ⟨mean, hmean⟩ := exists_parseFloat (J := J) h.avg
  obtain ⟨min, hmin⟩ := exists_parseFloat (J := J) (isFinite_min h.isFinite_rrt)
  obtain ⟨max, hmax⟩ := exists_parseFloat (J := J) (isFinite_max h.isFinite_rrt)
  obtain ⟨stddev, hstddev⟩ := exists_parseFloat (J := J) h.mdev
  have hsent := intValue_toString_eq_ok.mpr ⟨rfl, hlo, hhi⟩
  simp only [exists_bind_eq_ok]
  exact ⟨loss, hloss, packetsSent, hsent, mean, hmean, min, hmin, max, hmax, stddev, hstddev, _,
    rfl⟩

/-- A result is only made of finite statistics. -/
theorem shown_constructResult {rrts : List Value} {packetLoss : Value} {packetsSent : ℤ}
    {result : MeasurementResult} (hlo : -2 ^ 31 ≤ packetsSent) (hhi : packetsSent < 2 ^ 31)
    (h : constructResult J desc env targetIp rrts packetLoss packetsSent pingMethod =
      .ok (some result)) : Shown J (.ok result) := by
  by_cases hnil : rrts = []
  · unfold constructResult at h
    rw [if_pos hnil] at h
    cases h
  · by_cases hcells : env.device.neighboringCellInfo.isSome
    swap
    · rw [constructResult_of_no_cells hcells hnil] at h
      cases h
    by_cases hfinite : Representable J rrts ∧ packetLoss.isFinite
    · rw [constructResult_of_finite hcells hnil hfinite.1 hfinite.2] at h
      cases h
      exact shown_resultOf hfinite.1 hfinite.2 hlo hhi
    · obtain ⟨message, hmessage⟩ : ∃ message,
          constructResult J desc env targetIp rrts packetLoss packetsSent pingMethod =
            .error (.illegalArgument message) :=
        constructResult_of_not_finite hcells hnil hfinite
      rw [hmessage] at h
      cases h

/-- What a method with a `catch` clause returns is its body's result. -/
theorem shown_orFail {catches : JavaException → Bool}
    {body : Except JavaException (Option MeasurementResult)}
    (h : ∀ result, body = .ok (some result) → Shown J (.ok result)) :
    Shown J (orFail J catches body) := by
  intro r hr
  exact h r (orFail_eq_ok_iff.mp hr) r rfl

/-- Either way's result can be shown. -/
theorem shown_orElse {x y : Except JavaException MeasurementResult} (hx : Shown J x)
    (hy : Shown J y) : Shown J (orElse x y) := by
  cases x with
  | ok r => exact hx
  | error e =>
      cases e with
      | measurementError message => exact hy
      | _ => exact shown_error

/-- The result of the requests can be shown. -/
theorem shown_requests {α : Type} {request : ℕ → Except IoFailure α} {rrt : α → Option Value}
    {result : MeasurementResult}
    (h : requests J desc env targetIp request rrt pingMethod = .ok (some result)) :
    Shown J (.ok result) := by
  obtain ⟨rrts, -, h⟩ := except_bind_eq_ok.mp h
  exact shown_constructResult (by decide) (by decide) h

/-- The result of the command can be shown. -/
theorem shown_runCommand {result : MeasurementResult}
    (h : runCommand J desc env targetIp = .ok (some result)) : Shown J (.ok result) := by
  cases hcommand : env.command with
  | io failure =>
      unfold runCommand at h
      rw [hcommand] at h
      cases h
  | security message =>
      unfold runCommand at h
      rw [hcommand] at h
      cases h
  | started output =>
      by_cases hread : ∀ line ∈ output.items, ReadsNumber line
      · rw [runCommand_of_readsNumber hcommand hread] at h
        cases hfailure : output.failure with
        | some failure =>
            simp only [hfailure] at h
            cases h
        | none =>
            simp only [hfailure] at h
            -- the packets sent are an `int`: read from the summary, or the ten of the command
            have hsent : -2 ^ 31 ≤ (readingOf J output.items).packetsSent ∧
                (readingOf J output.items).packetsSent < 2 ^ 31 := by
              show -2 ^ 31 ≤ (lossInfoOf output.items).elim (pingCount : ℤ) Prod.fst ∧
                (lossInfoOf output.items).elim (pingCount : ℤ) Prod.fst < 2 ^ 31
              cases hinfo : lossInfoOf output.items with
              | none => exact ⟨by decide, by decide⟩
              | some info => exact (bounds_of_lossInfoOf hinfo).1
            exact shown_constructResult hsent.1 hsent.2 h
      · obtain ⟨message, hmessage⟩ := runCommand_of_not_readsNumber J desc targetIp hcommand hread
        rw [hmessage] at h
        cases h

/-- Whatever the call returns can be shown. -/
theorem shown : Shown J (call J desc env) := by
  unfold call
  cases env.getByName with
  | none => exact shown_error
  | some addr =>
      refine shown_orElse ?_ (shown_orElse ?_ ?_)
      · refine shown_bind.mpr fun exe _ => ?_
        cases exe with
        | none => exact shown_error
        | some exe => exact shown_orFail fun _ => shown_runCommand
      · exact shown_orFail fun _ => shown_requests
      · refine shown_orFail fun result h => ?_
        cases hurl : env.url with
        | error failure =>
            rw [hurl] at h
            cases h
        | ok _ =>
            rw [hurl] at h
            exact shown_requests h

end Shown

end PingTask

end MobiPerf.Measurements
