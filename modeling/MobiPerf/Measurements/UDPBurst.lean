import MobiPerf.Measurements.Result

/-!
# Measurements.UDPBurst — the packet bursts

A burst is sent up and its receipt read, or a burst is asked for and counted. The
socket is a variable of the call that is assigned once the sending is done, and
closed in the end.

* `UDPBurstTask.contained_iff`: what goes wrong before the socket is assigned, an
  unknown host already, leaves the call as a null pointer exception, and so does a
  missing list of the cells around the phone when what came was read;
* `UDPBurstTask.shown`: every result can be shown.
-/

namespace MobiPerf.Measurements

open Lib Scheduler

/-! ## The environment -/

/-- What waiting for a datagram comes to. -/
inductive Received where
  | datagram (bytes : List UInt8)
  | socketException
  | ioException
deriving DecidableEq, Repr

structure UDPBurstEnv where
  getByName : Option InetAddress
  openSocket : Bool
  send : ℕ → Except IoFailure Unit
  receive : ℕ → Received
  device : Device

namespace UDPBurstTask

def minPacketSize : ℕ := 20

def pktData : ℤ := 3

/-! ## Sending -/

def resolve (desc : UDPBurstDesc) (env : UDPBurstEnv) : Except JavaException InetAddress :=
  match env.getByName with
  | none => .error (.measurementError ("Unknown host " ++ desc.target))
  | some addr => .ok addr

def openSocket (env : UDPBurstEnv) : Except JavaException Unit :=
  if env.openSocket then .ok () else .error (.measurementError "Socket creation failed")

/-- `new DatagramPacket(data, data.length, addr, port)`. -/
def newDatagramPacket (desc : UDPBurstDesc) : Except JavaException Unit :=
  if desc.dstPort.val ≤ 65535 then .ok () else .error (.illegalArgument "Port out of range")

def sendPacket (desc : UDPBurstDesc) (env : UDPBurstEnv) (_ : Unit) (i : ℕ) :
    Except JavaException Unit :=
  match env.send i with
  | .ok () => .ok ()
  | .error _ => .error (.measurementError ("Error sending " ++ desc.target))

/-- `n` packets through a new socket; writing a message into memory does not
fail. -/
def sendPackets (desc : UDPBurstDesc) (env : UDPBurstEnv) (n : ℕ) :
    Except JavaException InetAddress := do
  let addr ← resolve desc env
  openSocket env
  newDatagramPacket desc
  (List.range n).foldlM (sendPacket desc env) ()
  .ok addr

def sendUpBurst (desc : UDPBurstDesc) (env : UDPBurstEnv) : Except JavaException InetAddress :=
  sendPackets desc env desc.udpBurstCount.val.toNat

def sendDownRequest (desc : UDPBurstDesc) (env : UDPBurstEnv) :
    Except JavaException InetAddress :=
  sendPackets desc env 1

def sendBurst (desc : UDPBurstDesc) (env : UDPBurstEnv) : Except JavaException InetAddress :=
  if desc.dirUp then sendUpBurst desc env else sendDownRequest desc env

/-! ## Receiving -/

/-- `readInt` of a `DataInputStream`. -/
def readInt : List UInt8 → Option (ℤ × List UInt8)
  | a :: b :: c :: d :: rest =>
    some (toInt (a.toNat * 2 ^ 24 + b.toNat * 2 ^ 16 + c.toNat * 2 ^ 8 + d.toNat), rest)
  | _ => none

/-- The packet's type, the size of its burst and its number. -/
def readHeader (bytes : List UInt8) : Option (ℤ × ℤ × ℤ) := do
  let (ptype, rest) ← readInt bytes
  let (burstsize, rest) ← readInt rest
  let (pktnum, _) ← readInt rest
  some (ptype, burstsize, pktnum)

def parseHeader (desc : UDPBurstDesc) (bytes : List UInt8) :
    Except JavaException (ℤ × ℤ × ℤ) :=
  match readHeader bytes with
  | some header => .ok header
  | none => .error (.measurementError ("Error parsing response from " ++ desc.target))

/-- The server's count of the packets it received. -/
def recvUpResponse (desc : UDPBurstDesc) (env : UDPBurstEnv) : Except JavaException ℤ :=
  match env.receive 0 with
  | .socketException => .error (.measurementError ("Timed out reading from " ++ desc.target))
  | .ioException => .error (.measurementError ("Error reading from " ++ desc.target))
  | .datagram bytes => do
    let header ← parseHeader desc (bytes.take minPacketSize)
    .ok header.2.2

/-- The loop over the burst, from packet `i` on, with `pktrecv` counted so far:
a failure to receive ends it. -/
def recvFrom (desc : UDPBurstDesc) (env : UDPBurstEnv) :
    ℕ → ℕ → ℤ → Except JavaException ℤ
  | 0, _, pktrecv => .ok pktrecv
  | rounds + 1, i, pktrecv =>
    match env.receive i with
    | .socketException => .ok pktrecv
    | .ioException => .ok pktrecv
    | .datagram bytes => do
      let header ← parseHeader desc (bytes.take desc.packetSizeByte.toNat)
      recvFrom desc env rounds (i + 1) (if header.1 = pktData then pktrecv + 1 else pktrecv)

def recvDownResponse (desc : UDPBurstDesc) (env : UDPBurstEnv) : Except JavaException ℤ :=
  recvFrom desc env desc.udpBurstCount.val.toNat 0 0

def recvResponse (desc : UDPBurstDesc) (env : UDPBurstEnv) : Except JavaException ℤ :=
  if desc.dirUp then recvUpResponse desc env else recvDownResponse desc env

/-! ## The call -/

/-- `pktrecv / (float) desc.udpBurstCount`. -/
def ratio (J : Platform) (desc : UDPBurstDesc) (pktrecv : ℤ) : Value :=
  J.float.div (J.float.ofInt pktrecv) (J.float.ofInt desc.udpBurstCount.val)

def report (J : Platform) (desc : UDPBurstDesc) (env : UDPBurstEnv) (targetIp : String)
    (response : Value) : Except JavaException MeasurementResult := do
  let result ← newResult env.device .udpBurst true (.udpBurst desc)
  let result ← result.addResult J "target_ip" (.string (some targetIp))
  result.addResult J "PRR" (.float response)

/-- `socket.close()`: the socket is `null` unless the sending returned it. -/
def closeSocket (socket : Except JavaException InetAddress) : Except JavaException Unit :=
  match socket with
  | .ok _ => .ok ()
  | .error _ => .error .nullPointer

def call (J : Platform) (desc : UDPBurstDesc) (env : UDPBurstEnv) :
    Except JavaException MeasurementResult := do
  let socket := sendBurst desc env
  let (addr, response) ← tryFinally
    (do
      let addr ← socket
      let pktrecv ← recvResponse desc env
      .ok (addr, ratio J desc pktrecv))
    (closeSocket socket)
  report J desc env addr.hostAddress response

/-! ## Exceptions -/

variable {J : Platform} {desc : UDPBurstDesc} {env : UDPBurstEnv}

/-- The packets a burst up or the request for a burst down is made of. -/
def packetsSent (desc : UDPBurstDesc) : ℕ := if desc.dirUp then desc.udpBurstCount.val.toNat else 1

/-- The burst is the loop over its packets. -/
theorem sendBurst_eq : sendBurst desc env = sendPackets desc env (packetsSent desc) := by
  unfold sendBurst packetsSent
  split
  · rfl
  · rfl

/-- What sending needs: a known host, a socket, a port that is one, and every
packet sent. -/
structure Sent (desc : UDPBurstDesc) (env : UDPBurstEnv) : Prop where
  resolved : env.getByName.isSome
  opened : env.openSocket
  port : desc.dstPort.val ≤ 65535
  sent : ∀ i < packetsSent desc, env.send i = .ok ()

/-- It is sent when every packet is. -/
theorem sendPackets_ok_iff {n : ℕ} :
    (List.range n).foldlM (sendPacket desc env) () = .ok () ↔ ∀ i < n, env.send i = .ok () := by
  induction n with
  | zero => simp [pure, Except.pure]
  | succ n ih =>
      rw [List.range_succ, List.foldlM_append, except_bind_eq_ok]
      have hlast : sendPacket desc env () n = .ok () ↔ env.send n = .ok () := by
        unfold sendPacket
        cases env.send n <;> simp
      constructor
      · rintro ⟨⟨⟩, hfirst, hrest⟩ i hi
        have hn : sendPacket desc env () n = .ok () := by simpa using hrest
        rcases Nat.lt_succ_iff_lt_or_eq.mp hi with hi | rfl
        · exact ih.mp hfirst i hi
        · exact hlast.mp hn
      · intro h
        refine ⟨(), ih.mpr fun i hi => h i (Nat.lt_succ_of_lt hi), ?_⟩
        have hn := hlast.mpr (h n (Nat.lt_succ_self n))
        simpa using hn

/-- So is the burst, to an address that is known. -/
theorem sendBurst_ok_iff : (∃ addr, sendBurst desc env = .ok addr) ↔ Sent desc env := by
  rw [sendBurst_eq]
  unfold sendPackets
  simp only [exists_bind_eq_ok]
  constructor
  · rintro ⟨addr, hresolve, ⟨⟩, hopen, ⟨⟩, hpacket, ⟨⟩, hsent, -⟩
    refine ⟨?_, ?_, ?_, sendPackets_ok_iff.mp hsent⟩
    · unfold resolve at hresolve
      cases hname : env.getByName with
      | none =>
          rw [hname] at hresolve
          cases hresolve
      | some _ => rfl
    · unfold openSocket at hopen
      split at hopen
      · assumption
      · cases hopen
    · unfold newDatagramPacket at hpacket
      split at hpacket
      · assumption
      · cases hpacket
  · rintro ⟨hname, hopen, hport, hsent⟩
    obtain ⟨addr, haddr⟩ := Option.isSome_iff_exists.mp hname
    refine ⟨addr, ?_, (), ?_, (), ?_, (), sendPackets_ok_iff.mpr hsent, addr, rfl⟩
    · unfold resolve
      rw [haddr]
    · exact if_pos hopen
    · exact if_pos hport

/-- A header that cannot be read is a failed measurement. -/
theorem parseHeader_failsOnly {bytes : List UInt8} :
    FailsOnly (fun e => e.isMeasurementError) (parseHeader desc bytes) := by
  unfold parseHeader
  split
  · exact failsOnly_ok
  · exact failsOnly_error.mpr rfl

/-- One that is accepted has its fields. -/
theorem readHeader_of_parseHeader {bytes : List UInt8} {header : ℤ × ℤ × ℤ}
    (h : parseHeader desc bytes = .ok header) : readHeader bytes = some header := by
  unfold parseHeader at h
  split at h
  · rename_i hread
    rw [hread, Except.ok.inj h]
  · cases h

/-- A field is an `int`. -/
theorem readInt_mem {bytes rest : List UInt8} {n : ℤ} (h : readInt bytes = some (n, rest)) :
    -2 ^ 31 ≤ n ∧ n < 2 ^ 31 := by
  unfold readInt at h
  split at h
  · obtain ⟨rfl, -⟩ := Prod.mk.inj (Option.some.inj h)
    exact toInt_mem _
  · cases h

/-- A count that is read or made is an `int`. -/
theorem recvUpResponse_ends :
    Ends (recvUpResponse desc env) (fun n => -2 ^ 31 ≤ n ∧ n < 2 ^ 31)
      (fun e => e.isMeasurementError) := by
  unfold recvUpResponse
  split
  · exact ends_error rfl
  · exact ends_error rfl
  · rename_i bytes _
    have hparse : Ends (parseHeader desc (bytes.take minPacketSize))
        (fun header => -2 ^ 31 ≤ header.2.2 ∧ header.2.2 < 2 ^ 31)
        (fun e => e.isMeasurementError) := by
      refine ⟨?_, parseHeader_failsOnly⟩
      intro header hheader
      have hread := readHeader_of_parseHeader hheader
      unfold readHeader at hread
      obtain ⟨⟨ptype, rest⟩, -, hread⟩ := Option.bind_eq_some_iff.mp hread
      obtain ⟨⟨burstsize, rest'⟩, -, hread⟩ := Option.bind_eq_some_iff.mp hread
      obtain ⟨⟨pktnum, rest''⟩, hnum, hread⟩ := Option.bind_eq_some_iff.mp hread
      cases hread
      exact readInt_mem hnum
    exact hparse.bind fun header _ hheader => ends_ok hheader

/-- Each round counts one packet at most. -/
theorem recvFrom_ends {rounds i : ℕ} {pktrecv : ℤ} :
    Ends (recvFrom desc env rounds i pktrecv) (fun n => pktrecv ≤ n ∧ n ≤ pktrecv + rounds)
      (fun e => e.isMeasurementError) := by
  induction rounds generalizing i pktrecv with
  | zero =>
      apply ends_ok
      omega
  | succ rounds ih =>
      unfold recvFrom
      split
      · apply ends_ok
        omega
      · apply ends_ok
        omega
      · rename_i bytes _
        have hparse : Ends (parseHeader desc (bytes.take desc.packetSizeByte.toNat))
            (fun _ => True) (fun e => e.isMeasurementError) :=
          ⟨fun _ _ => trivial, parseHeader_failsOnly⟩
        refine hparse.bind fun header _ _ => ih.mono fun n hn => ?_
        split at hn <;> push_cast <;> omega

/-- So the count is an `int`. -/
theorem recvResponse_ends :
    Ends (recvResponse desc env) (fun n => |n| ≤ 2 ^ 31) (fun e => e.isMeasurementError) := by
  have hcount := desc.udpBurstCount.property
  unfold recvResponse
  split
  · refine recvUpResponse_ends.mono fun n hn => ?_
    rw [abs_le]
    omega
  · refine recvFrom_ends.mono fun n hn => ?_
    rw [abs_le]
    omega

/-- What is received is read: the receipt of a burst up, and of a burst down every packet
up to the first that does not come. -/
def Reads (desc : UDPBurstDesc) (env : UDPBurstEnv) : Prop :=
  if desc.dirUp then
    ∃ bytes, env.receive 0 = .datagram bytes ∧ (readHeader (bytes.take minPacketSize)).isSome
  else
    ∀ k < desc.udpBurstCount.val.toNat, (∀ j < k, ∃ bytes, env.receive j = .datagram bytes) →
      ∀ bytes, env.receive k = .datagram bytes →
        (readHeader (bytes.take desc.packetSizeByte.toNat)).isSome

variable (desc) in
/-- A header is accepted when it can be read. -/
theorem exists_parseHeader_iff {bytes : List UInt8} :
    (∃ header, parseHeader desc bytes = .ok header) ↔ (readHeader bytes).isSome := by
  unfold parseHeader
  cases readHeader bytes with
  | none => simp
  | some header => simp

/-- The server's answer to an uplink burst is one packet with a header. -/
theorem exists_recvUpResponse_iff : (∃ n, recvUpResponse desc env = .ok n) ↔
    ∃ bytes, env.receive 0 = .datagram bytes ∧
      (readHeader (bytes.take minPacketSize)).isSome := by
  unfold recvUpResponse
  cases env.receive 0 with
  | socketException => simp
  | ioException => simp
  | datagram bytes =>
      simp only [exists_bind_eq_ok, Received.datagram.injEq, exists_eq_left',
        ← exists_parseHeader_iff desc]
      constructor
      · rintro ⟨header, hheader, -⟩
        exact ⟨header, hheader⟩
      · rintro ⟨header, hheader⟩
        exact ⟨header, hheader, _, rfl⟩

/-- The rest of a burst is counted when the packets of it that come can be read. -/
theorem exists_recvFrom_iff {rounds i : ℕ} {pktrecv : ℤ} :
    (∃ n, recvFrom desc env rounds i pktrecv = .ok n) ↔
      ∀ k < rounds, (∀ j < k, ∃ bytes, env.receive (i + j) = .datagram bytes) →
        ∀ bytes, env.receive (i + k) = .datagram bytes →
          (readHeader (bytes.take desc.packetSizeByte.toNat)).isSome := by
  induction rounds generalizing i pktrecv with
  | zero => exact iff_of_true ⟨pktrecv, rfl⟩ fun k hk => absurd hk (Nat.not_lt_zero k)
  | succ rounds ih =>
      -- a packet that does not come is the first one or has one before it
      have hends : (∀ bytes, env.receive i ≠ .datagram bytes) →
          ∀ k < rounds + 1, (∀ j < k, ∃ bytes, env.receive (i + j) = .datagram bytes) →
            ∀ bytes, env.receive (i + k) = .datagram bytes →
              (readHeader (bytes.take desc.packetSizeByte.toNat)).isSome := by
        intro hnot k _ hbefore bytes hbytes
        cases k with
        | zero => exact absurd hbytes (hnot bytes)
        | succ k =>
            obtain ⟨first, hfirst⟩ := hbefore 0 (Nat.succ_pos k)
            exact absurd hfirst (hnot first)
      unfold recvFrom
      cases hreceive : env.receive i with
      | socketException => exact iff_of_true ⟨pktrecv, rfl⟩ (hends (by simp [hreceive]))
      | ioException => exact iff_of_true ⟨pktrecv, rfl⟩ (hends (by simp [hreceive]))
      | datagram bytes =>
          simp only [exists_bind_eq_ok, ih]
          constructor
          · rintro ⟨header, hheader, hrest⟩ k hk hbefore next hnext
            cases k with
            | zero =>
                rw [Nat.add_zero, hreceive] at hnext
                cases hnext
                exact (exists_parseHeader_iff desc).mp ⟨header, hheader⟩
            | succ k =>
                refine hrest k (Nat.lt_of_succ_lt_succ hk) (fun j hj => ?_) next ?_
                · rw [Nat.add_assoc, Nat.add_comm 1 j]
                  exact hbefore (j + 1) (Nat.succ_lt_succ hj)
                · rwa [Nat.add_assoc, Nat.add_comm 1 k]
          · intro h
            obtain ⟨header, hheader⟩ := (exists_parseHeader_iff desc).mpr
              (h 0 (Nat.succ_pos rounds) (fun j hj => absurd hj (Nat.not_lt_zero j)) bytes hreceive)
            refine ⟨header, hheader, fun k hk hbefore next hnext => ?_⟩
            rw [Nat.add_assoc, Nat.add_comm 1 k] at hnext
            refine h (k + 1) (Nat.succ_lt_succ hk) (fun j hj => ?_) next hnext
            cases j with
            | zero => exact ⟨bytes, hreceive⟩
            | succ j =>
                rw [← Nat.add_comm 1 j, ← Nat.add_assoc]
                exact hbefore j (Nat.lt_of_succ_lt_succ hj)

/-- A response is received exactly when it can be read. -/
theorem exists_recvResponse_iff : (∃ n, recvResponse desc env = .ok n) ↔ Reads desc env := by
  unfold recvResponse Reads
  split
  · exact exists_recvUpResponse_iff
  · unfold recvDownResponse
    rw [exists_recvFrom_iff]
    simp only [Nat.zero_add]

/-- The report needs the neighbouring cells. -/
theorem contained_report_iff {targetIp : String} {pktrecv : ℤ} (h : |pktrecv| ≤ 2 ^ 31) :
    Contained (report J desc env targetIp (ratio J desc pktrecv)) ↔
      env.device.neighboringCellInfo.isSome := by
  have hcount := desc.udpBurstCount.property
  have hwithin : (ratio J desc pktrecv).Within 31 := by
    apply Rounding.within_div_ofInt (l := 31) (by decide) (by decide)
    · exact Rounding.within_ofInt (by decide) h
    · omega
    · rw [abs_le]
      omega
  unfold report MeasurementResult.addResult Platform.toJsonString
  rw [Contained, failsOnly_newResult_iff Bool.false_ne_true]
  simp only [hwithin.isFinite, if_true]
  exact and_iff_left failsOnly_ok

/-- The socket is still `null` when it is closed. -/
theorem call_of_error {e : JavaException} (h : sendBurst desc env = .error e) :
    call J desc env = .error .nullPointer := by
  unfold call
  simp only [h]
  rfl

/-- A call that has sent its burst receives the response and reports. -/
theorem call_of_sent {addr : InetAddress} (h : sendBurst desc env = .ok addr) :
    call J desc env = (do
      let pktrecv ← recvResponse desc env
      report J desc env addr.hostAddress (ratio J desc pktrecv)) := by
  unfold call
  simp only [h]
  cases recvResponse desc env with
  | error e => rfl
  | ok pktrecv => rfl

/-- The call throws nothing else exactly when it sends its burst, and the cells are
known once it has read. -/
theorem contained_iff : Contained (call J desc env) ↔
    Sent desc env ∧ (Reads desc env → env.device.neighboringCellInfo.isSome) := by
  rw [← sendBurst_ok_iff, ← exists_recvResponse_iff]
  cases hsend : sendBurst desc env with
  | error e =>
      rw [call_of_error hsend, Contained, failsOnly_error]
      simp [JavaException.isMeasurementError]
  | ok addr =>
      have hrecv : Ends (recvResponse desc env) _ _ := recvResponse_ends
      rw [call_of_sent hsend, Contained, failsOnly_bind]
      constructor
      · rintro ⟨-, hreport⟩
        refine ⟨⟨addr, rfl⟩, ?_⟩
        rintro ⟨n, hn⟩
        exact (contained_report_iff (hrecv.1 n hn)).mp (hreport n hn)
      · rintro ⟨-, hcells⟩
        exact ⟨hrecv.2, fun n hn => (contained_report_iff (hrecv.1 n hn)).mpr (hcells ⟨n, hn⟩)⟩

/-! ## Showing the result -/

/-- The formatter prints what it finds. -/
theorem shown_report {targetIp : String} {response : Value} :
    Shown J (report J desc env targetIp response) := by
  unfold report
  rw [shown_newResult_iff]
  intro _
  rw [shown_bind]
  intro result hip
  cases hip
  unfold MeasurementResult.addResult
  rw [shown_bind]
  intro text _
  rw [shown_ok_iff]
  intro _
  exact ⟨_, rfl⟩

/-- Whatever the call returns can be shown. -/
theorem shown : Shown J (call J desc env) := by
  cases hsend : sendBurst desc env with
  | error e =>
      rw [call_of_error hsend]
      exact shown_error
  | ok addr =>
      rw [call_of_sent hsend, shown_bind]
      exact fun _ _ => shown_report

end UDPBurstTask

end MobiPerf.Measurements
