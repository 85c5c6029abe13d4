import MobiPerf.Measurements.Platform

/-!
# Measurements.Desc — the descriptions of the six measurements

What `initializeParams` makes of a parameters map. The fields hold what the
constructors leave in them: the counts are positive, the periods of the
throughput test within their bounds. A field of type `double` that only ever
holds a whole number is an integer.
-/

namespace MobiPerf.Measurements

open Lib Scheduler

/-! ## Fields -/

/-- A positive `int`. -/
abbrev Positive := { n : ℤ // 0 < n ∧ n < 2 ^ 31 }

def Positive.one : Positive := ⟨1, by decide⟩

theorem parseInt_bounds {s : String} {n : ℤ} (h : parseInt s = some n) :
    -2 ^ 31 ≤ n ∧ n < 2 ^ 31 := by
  unfold parseInt parseRadix at h
  exact of_decide_eq_true (Option.filter_eq_some_iff.mp h).2

/-- A numeric field: the value given, when it is positive, and else the default.
`error` is what the constructor says when it is no number. -/
def numberParam (error : String) (ps : Params) (name : String) (default : Positive) :
    Except JavaException Positive :=
  match ps.get name with
  | none => .ok default
  | some val =>
    if val = "" then .ok default
    else
      match h : parseInt val with
      | none => .error (.invalidParameter error)
      | some n => if hn : 0 < n then .ok ⟨n, hn, (parseInt_bounds h).2⟩ else .ok default

/-- A field of type `double`: a positive number is parsed once more, as one. The
`double` of ASCII digits is the `int`. -/
def decimalParam (error : String) (ps : Params) (name : String) (default : Positive) :
    Except JavaException Positive := do
  let n ← numberParam error ps name default
  if badDecimal ps name then .error (.invalidParameter error) else .ok n

theorem get_absent {target name : String} (h : "target" ≠ name) :
    Params.get [("target", target)] name = none := by
  simp [Params.get, h]

theorem numberParam_absent {ps : Params} {name : String} (h : ps.get name = none)
    (error : String) (default : Positive) : numberParam error ps name default = .ok default := by
  rw [numberParam, h]

/-- The field a description must have. -/
def requiredParam (error : String) (ps : Params) (name : String) : Except JavaException String :=
  match ps.get name with
  | none => .error (.invalidParameter error)
  | some val => if val = "" then .error (.invalidParameter error) else .ok val

theorem requiredParam_present {ps : Params} {name val : String} (h : ps.get name = some val)
    (hval : val ≠ "") (error : String) : requiredParam error ps name = .ok val := by
  rw [requiredParam, h]
  exact if_neg hval

/-! ## Ping -/

structure PingDesc where
  target : String
  packetSizeByte : Positive
  pingTimeoutSec : Positive

def PingDesc.nullTarget : String := "PingTask cannot be created due  to null target string"

def PingDesc.construct : Option Params → Except JavaException PingDesc
  | none => .error (.invalidParameter nullTarget)
  | some ps => do
    let invalid := "PingTask cannot be created due to invalid params"
    let packetSizeByte ← numberParam invalid ps "packet_size_byte" ⟨56, by decide⟩
    let pingTimeoutSec ← numberParam invalid ps "ping_timeout_sec" ⟨10, by decide⟩
    let target ← requiredParam nullTarget ps "target"
    .ok { target, packetSizeByte, pingTimeoutSec }

/-! ## HTTP -/

structure HttpDesc where
  url : String
  method : String
  headers : Option String
  body : Option String
deriving DecidableEq, Repr

/-- A missing url is dereferenced; one without a scheme gets one. -/
def HttpDesc.construct : Option Params → Except JavaException HttpDesc
  | none => .error (.invalidParameter "URL for http task is null")
  | some ps =>
    match ps.get "url" with
    | none => .error .nullPointer
    | some url =>
      .ok {
        url :=
          if startsWith "http://" url || startsWith "https://" url then url
          else "http://" ++ url
        method :=
          match ps.get "method" with
          | none => "get"
          | some method => if method = "" then "get" else method
        headers := ps.get "headers"
        body := ps.get "body" }

/-! ## DNS lookup -/

structure DnsLookupDesc where
  target : String
deriving DecidableEq, Repr

def DnsLookupDesc.nullTarget : String :=
  "LookupDnsTask cannot be created due  to null target string"

def DnsLookupDesc.construct : Option Params → Except JavaException DnsLookupDesc
  | none => .error (.invalidParameter nullTarget)
  | some ps => do
    let target ← requiredParam nullTarget ps "target"
    .ok { target }

/-! ## Traceroute -/

structure TracerouteDesc where
  target : String
  packetSizeByte : Positive
  pingTimeoutSec : Positive
  pingIntervalSec : ℚ
  pingsPerHop : Positive
  maxHopCount : Positive

def TracerouteDesc.nullTarget : String := "Target of traceroute cannot be null"

def TracerouteDesc.construct : Option Params → Except JavaException TracerouteDesc
  | none => .error (.invalidParameter nullTarget)
  | some ps => do
    let invalid := "PingTask cannot be created due to invalid params"
    let packetSizeByte ← numberParam invalid ps "packet_size_byte" ⟨56, by decide⟩
    let pingTimeoutSec ← numberParam invalid ps "ping_timeout_sec" ⟨10, by decide⟩
    -- the default is half a second
    let halves ← numberParam invalid ps "ping_interval_sec" ⟨1, by decide⟩
    let given := (ps.get "ping_interval_sec").any fun val => (parseInt val).any (0 < ·)
    let pingsPerHop ← numberParam invalid ps "pings_per_hop" ⟨3, by decide⟩
    let maxHopCount ← numberParam invalid ps "max_hop_count" ⟨30, by decide⟩
    let target ← requiredParam nullTarget ps "target"
    .ok {
      target, packetSizeByte, pingTimeoutSec, pingsPerHop, maxHopCount
      pingIntervalSec := if given then halves.val else 1 / 2 }

/-- What a map that names only the target leaves. -/
def TracerouteDesc.defaults (target : String) : TracerouteDesc where
  target := target
  packetSizeByte := ⟨56, by decide⟩
  pingTimeoutSec := ⟨10, by decide⟩
  pingIntervalSec := 1 / 2
  pingsPerHop := ⟨3, by decide⟩
  maxHopCount := ⟨30, by decide⟩

theorem TracerouteDesc.construct_defaults {target : String} (h : target ≠ "") :
    construct (some [("target", target)]) = .ok (defaults target) := by
  have hname : Params.get [("target", target)] "target" = some target := rfl
  simp [construct, defaults, numberParam_absent, get_absent, requiredParam_present hname h, bind,
    Except.bind]

/-! ## UDP burst -/

structure UDPBurstDesc where
  target : String
  packetSizeByte : ℤ
  udpBurstCount : Positive
  dstPort : Positive
  dirUp : Bool
  packetSizeByte_mem : 20 ≤ packetSizeByte ∧ packetSizeByte ≤ 500

def UDPBurstDesc.nullTarget : String := "UDPBurstTask null target"

def UDPBurstDesc.construct : Option Params → Except JavaException UDPBurstDesc
  | none => .error (.invalidParameter nullTarget)
  | some ps => do
    let invalid := "UDPTask invalid params"
    let size ← numberParam invalid ps "packet_size_byte" ⟨100, by decide⟩
    let udpBurstCount ← numberParam invalid ps "packet_burst" ⟨10, by decide⟩
    let dstPort ← numberParam invalid ps "dst_port" ⟨31341, by decide⟩
    let target ← requiredParam nullTarget ps "target"
    .ok {
      target, udpBurstCount, dstPort
      packetSizeByte := min (max size.val 20) 500
      dirUp := ps.get "direction" = some "Up"
      packetSizeByte_mem := by omega }

/-- What a map that names only the target leaves. -/
def UDPBurstDesc.defaults (target : String) : UDPBurstDesc where
  target := target
  packetSizeByte := 100
  udpBurstCount := ⟨10, by decide⟩
  dstPort := ⟨31341, by decide⟩
  dirUp := false
  packetSizeByte_mem := by decide

theorem UDPBurstDesc.construct_defaults {target : String} (h : target ≠ "") :
    construct (some [("target", target)]) = .ok (defaults target) := by
  have hname : Params.get [("target", target)] "target" = some target := rfl
  simp [construct, defaults, numberParam_absent, get_absent, requiredParam_present hname h, bind,
    Except.bind]

/-! ## TCP throughput -/

structure TCPThroughputDesc where
  target : String
  dir_up : Bool
  data_limit_mb_up : ℤ
  data_limit_mb_down : ℤ
  duration_period_sec : ℤ
  pkt_size_up_bytes : ℤ
  sample_period_sec : ℤ
  slow_start_period_sec : ℤ
  tcp_timeout_sec : ℤ
  data_limit_mb_up_mem : 0 < data_limit_mb_up ∧ data_limit_mb_up ≤ 5
  data_limit_mb_down_mem : 0 < data_limit_mb_down ∧ data_limit_mb_down ≤ 10
  duration_period_sec_mem : 0 < duration_period_sec ∧ duration_period_sec ≤ 15
  pkt_size_up_bytes_mem : 700 ≤ pkt_size_up_bytes ∧ pkt_size_up_bytes ≤ 1357
  sample_period_sec_mem : 0 < sample_period_sec ∧ sample_period_sec ≤ 7
  slow_start_period_sec_mem : 0 < slow_start_period_sec ∧ slow_start_period_sec ≤ 7
  tcp_timeout_sec_le : tcp_timeout_sec ≤ 30

def TCPThroughputDesc.nullTarget : String := "TCPThroughputTask null target"

/-- The timeout given is taken in milliseconds, as an `int`, and only then
compared with its bound; the default is the bound. -/
def TCPThroughputDesc.timeout (given : Bool) (value : ℤ) : ℤ :=
  if given then min (toInt (value * 1000)) 30 else 30

def TCPThroughputDesc.construct : Option Params → Except JavaException TCPThroughputDesc
  | none => .error (.invalidParameter nullTarget)
  | some ps => do
    let invalid := "TCP Throughput Task invalid parameters."
    let down ← decimalParam invalid ps "data_limit_mb_down" ⟨10, by decide⟩
    let up ← decimalParam invalid ps "data_limit_mb_up" ⟨5, by decide⟩
    let duration ← decimalParam invalid ps "duration_period_sec" ⟨15, by decide⟩
    let size ← numberParam invalid ps "pkt_size_up_bytes" ⟨1357, by decide⟩
    let sample ← decimalParam invalid ps "sample_period_sec" ⟨1, by decide⟩
    let slowStart ← decimalParam invalid ps "slow_start_period_sec" ⟨5, by decide⟩
    let timeout ← numberParam invalid ps "tcp_timeout_sec" ⟨1, by decide⟩
    let given := (ps.get "tcp_timeout_sec").any fun val => (parseInt val).any (0 < ·)
    let target ← requiredParam nullTarget ps "target"
    .ok {
      target
      dir_up := ps.get "dir_up" = some "Up" || ps.get "dir_up" = some "true"
      data_limit_mb_up := min up.val 5
      data_limit_mb_down := min down.val 10
      duration_period_sec := min duration.val 15
      pkt_size_up_bytes := max (min size.val 1357) 700
      sample_period_sec := min sample.val 7
      slow_start_period_sec := min slowStart.val 7
      tcp_timeout_sec := TCPThroughputDesc.timeout given timeout.val
      data_limit_mb_up_mem := by omega
      data_limit_mb_down_mem := by omega
      duration_period_sec_mem := by omega
      pkt_size_up_bytes_mem := by omega
      sample_period_sec_mem := by omega
      slow_start_period_sec_mem := by omega
      tcp_timeout_sec_le := by
        unfold TCPThroughputDesc.timeout
        split <;> omega }

end MobiPerf.Measurements
