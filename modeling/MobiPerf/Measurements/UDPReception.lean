import Mathlib.Data.List.Dedup
import MobiPerf.Lib.Ratio
import MobiPerf.Measurements.UDPBurst

/-!
# Measurements.UDPReception — what the reception ratio counts

The header of a packet holds its type, the size of its burst, its number, its size and
the number of the burst. The loop over a burst down looks at the type alone, and the
receipt of a burst up is taken from any packet.

* `UDPBurstTask.recvFrom_eq_countP`: a burst down is counted by the data packets, each
  as often as it comes;
* `UDPBurstTask.countP_eq_distinct_iff`: that is the number of distinct packets of the
  burst when nothing else is among them;
* `UDPBurstTask.reception_counted_iff`: the ratio that is reported is the one that is wanted in
  that case, or when the receipt is one.
-/

namespace MobiPerf.Measurements

open Lib Scheduler

namespace UDPBurstTask

/-! ## Packets -/

def pktResponse : ℤ := 2

structure Packet where
  ptype : ℤ
  burstsize : ℤ
  pktnum : ℤ
  packetSize : ℤ
  seq : ℤ
deriving DecidableEq, Repr

/-- The whole header; a short datagram has none. -/
def readPacket (bytes : List UInt8) : Option Packet := do
  let (ptype, rest) ← readInt bytes
  let (burstsize, rest) ← readInt rest
  let (pktnum, rest) ← readInt rest
  let (packetSize, rest) ← readInt rest
  let (seq, _) ← readInt rest
  some ⟨ptype, burstsize, pktnum, packetSize, seq⟩

/-- The datagrams of some rounds, as far as they fit into the buffer, up to the first
failure to receive one. -/
def datagrams (desc : UDPBurstDesc) (env : UDPBurstEnv) : ℕ → ℕ → List (List UInt8)
  | 0, _ => []
  | rounds + 1, i =>
    match env.receive i with
    | .datagram bytes => bytes.take desc.packetSizeByte.toNat :: datagrams desc env rounds (i + 1)
    | .socketException => []
    | .ioException => []

/-- The datagrams of a burst down. -/
def received (desc : UDPBurstDesc) (env : UDPBurstEnv) : List (List UInt8) :=
  datagrams desc env desc.udpBurstCount.val.toNat 0

/-- A data packet, of whatever burst. -/
def isData (bytes : List UInt8) : Bool := (readHeader bytes).any fun header => header.1 = pktData

/-- The packet's number, if it is a data packet of the burst `seq`. -/
def numberInBurst (desc : UDPBurstDesc) (seq : ℤ) (bytes : List UInt8) : Option ℤ :=
  match readPacket bytes with
  | none => none
  | some p =>
    if p.ptype = pktData ∧ p.burstsize = desc.udpBurstCount.val ∧ p.seq = seq ∧
        0 ≤ p.pktnum ∧ p.pktnum < desc.udpBurstCount.val then
      some p.pktnum
    else none

/-- The numbers of the packets of the burst, in the order they came. -/
def numbersReceived (desc : UDPBurstDesc) (env : UDPBurstEnv) (seq : ℤ) : List ℤ :=
  (received desc env).filterMap (numberInBurst desc seq)

/-- How many packets of the burst came. -/
def distinctReceived (desc : UDPBurstDesc) (env : UDPBurstEnv) (seq : ℤ) : ℕ :=
  (numbersReceived desc env seq).dedup.length

/-! ## What is wanted -/

/-- The value of `response` when nothing was thrown. -/
def response (J : Platform) (desc : UDPBurstDesc) (env : UDPBurstEnv) :
    Except JavaException Value := do
  let _ ← sendBurst desc env
  let pktrecv ← recvResponse desc env
  .ok (ratio J desc pktrecv)

/-- `q` is reported, and counts the burst: the packets that came down, or what the
server said in a response. -/
structure Counted (J : Platform) (desc : UDPBurstDesc) (env : UDPBurstEnv) (seq : ℤ)
    (r : MeasurementResult) (q : ℚ) : Prop where
  response : response J desc env = .ok (.finite q)
  reported : r.values.get "PRR" = some (J.floatText (.finite q))
  nonneg : 0 ≤ q
  le_one : q ≤ 1
  down : desc.dirUp = false → .finite q = ratio J desc (distinctReceived desc env seq)
  up : desc.dirUp = true → ∃ bytes header, env.receive 0 = .datagram bytes ∧
    readHeader (bytes.take minPacketSize) = some header ∧ header.1 = pktResponse

/-- The data packets that come are those of the burst, each once; over `2 ^ 24` packets
two numbers of them may have one ratio. -/
def CleanBurst (J : Platform) (desc : UDPBurstDesc) (env : UDPBurstEnv) (seq : ℤ) : Prop :=
  ((∀ bytes ∈ received desc env, isData bytes → (numberInBurst desc seq bytes).isSome) ∧
      (numbersReceived desc env seq).Nodup) ∨
    (2 ^ 24 ≤ desc.udpBurstCount.val ∧
      ratio J desc ((received desc env).countP isData) =
        ratio J desc (distinctReceived desc env seq))

/-- The first packet is a response, with a number of packets of the burst, or one that
is the same `float` as that of all. -/
def Receipt (J : Platform) (desc : UDPBurstDesc) (env : UDPBurstEnv) : Prop :=
  ∃ bytes ptype burstsize pktnum, env.receive 0 = .datagram bytes ∧
    readHeader (bytes.take minPacketSize) = some (ptype, burstsize, pktnum) ∧
    ptype = pktResponse ∧ 0 ≤ pktnum ∧ (pktnum ≤ desc.udpBurstCount.val ∨
      J.float.ofInt pktnum = J.float.ofInt desc.udpBurstCount.val)

/-! ## Counting -/

variable {J : Platform} {desc : UDPBurstDesc} {env : UDPBurstEnv} {seq : ℤ}

theorem readHeader_of_readPacket {bytes : List UInt8} {p : Packet}
    (h : readPacket bytes = some p) : readHeader bytes = some (p.ptype, p.burstsize, p.pktnum) := by
  unfold readPacket at h
  obtain ⟨⟨ptype, rest⟩, htype, h⟩ := Option.bind_eq_some_iff.mp h
  obtain ⟨⟨burstsize, rest'⟩, hsize, h⟩ := Option.bind_eq_some_iff.mp h
  obtain ⟨⟨pktnum, rest''⟩, hnum, h⟩ := Option.bind_eq_some_iff.mp h
  obtain ⟨⟨packetSize, rest'''⟩, -, h⟩ := Option.bind_eq_some_iff.mp h
  obtain ⟨⟨seq, _⟩, -, h⟩ := Option.bind_eq_some_iff.mp h
  cases h
  unfold readHeader
  exact Option.bind_eq_some_iff.mpr ⟨_, htype, Option.bind_eq_some_iff.mpr ⟨_, hsize,
    Option.bind_eq_some_iff.mpr ⟨_, hnum, rfl⟩⟩⟩

theorem isData_of_numberInBurst {bytes : List UInt8}
    (h : (numberInBurst desc seq bytes).isSome) : isData bytes := by
  unfold numberInBurst at h
  cases hread : readPacket bytes with
  | none =>
      rw [hread] at h
      cases h
  | some p =>
      rw [hread] at h
      dsimp only at h
      split at h
      · rename_i hof
        unfold isData
        rw [readHeader_of_readPacket hread]
        exact decide_eq_true hof.1
      · cases h

/-- The loop looks at the types alone. -/
theorem recvFrom_eq_countP {rounds i : ℕ} {pktrecv n : ℤ}
    (h : recvFrom desc env rounds i pktrecv = .ok n) :
    n = pktrecv + (datagrams desc env rounds i).countP isData := by
  induction rounds generalizing i pktrecv with
  | zero =>
      cases h
      exact (Int.add_zero _).symm
  | succ rounds ih =>
      unfold recvFrom at h
      unfold datagrams
      cases hreceive : env.receive i with
      -- a time-out or an error of the socket ends the loop with what was counted
      | socketException | ioException =>
          rw [hreceive] at h
          cases h
          exact (Int.add_zero _).symm
      | datagram bytes =>
          rw [hreceive] at h
          obtain ⟨header, hheader, hrest⟩ := except_bind_eq_ok.mp h
          have hread := readHeader_of_parseHeader hheader
          have hdata :
              isData (bytes.take desc.packetSizeByte.toNat) = decide (header.1 = pktData) := by
            unfold isData
            rw [hread]
            rfl
          rw [ih hrest]
          dsimp only
          rw [List.countP_cons, hdata]
          by_cases htype : header.1 = pktData
          · rw [if_pos htype, decide_eq_true htype, if_pos rfl]
            push_cast
            omega
          · rw [if_neg htype, decide_eq_false htype, if_neg Bool.false_ne_true]
            push_cast
            omega

theorem countP_eq_iff {α : Type} {p q : α → Bool} {l : List α} (h : ∀ x, p x → q x) :
    l.countP p = l.countP q ↔ ∀ x ∈ l, q x → p x := by
  have hboth : (l.filter q).countP p = l.countP p := by
    rw [List.countP_filter]
    exact List.countP_congr fun x _ => by
      rw [Bool.and_eq_true]
      exact and_iff_left_of_imp (h x)
  have hall : l.countP q = (l.filter q).length := List.countP_eq_length_filter
  rw [← hboth, hall, List.countP_eq_length, List.forall_mem_filter]

theorem length_dedup_eq_iff {l : List ℤ} : l.dedup.length = l.length ↔ l.Nodup := by
  constructor
  · intro h
    exact List.dedup_eq_self.mp ((List.dedup_sublist l).eq_of_length h)
  · intro h
    rw [List.dedup_eq_self.mpr h]

theorem distinctReceived_le :
    distinctReceived desc env seq ≤ (received desc env).countP isData := by
  calc distinctReceived desc env seq ≤ (numbersReceived desc env seq).length :=
        (List.dedup_sublist _).length_le
    _ = (received desc env).countP fun bytes => (numberInBurst desc seq bytes).isSome :=
        List.length_filterMap_eq_countP
    _ ≤ (received desc env).countP isData :=
        List.countP_mono_left fun _ _ => isData_of_numberInBurst

/-- Every data packet counts when all are of the burst and none comes twice. -/
theorem countP_eq_distinct_iff :
    (received desc env).countP isData = distinctReceived desc env seq ↔
      (∀ bytes ∈ received desc env, isData bytes → (numberInBurst desc seq bytes).isSome) ∧
        (numbersReceived desc env seq).Nodup := by
  have hlength : (numbersReceived desc env seq).length =
      (received desc env).countP fun bytes => (numberInBurst desc seq bytes).isSome :=
    List.length_filterMap_eq_countP
  have hdedup : distinctReceived desc env seq ≤ (numbersReceived desc env seq).length :=
    (List.dedup_sublist _).length_le
  have hall := countP_eq_iff (l := received desc env)
    (p := fun bytes => (numberInBurst desc seq bytes).isSome) (q := isData)
    fun _ => isData_of_numberInBurst
  have hcount : (received desc env).countP (fun bytes => (numberInBurst desc seq bytes).isSome) ≤
      (received desc env).countP isData :=
    List.countP_mono_left fun _ _ => isData_of_numberInBurst
  rw [← hall, ← hlength, ← length_dedup_eq_iff]
  rw [← hlength] at hcount
  unfold distinctReceived at hdedup ⊢
  omega

/-! ## Reporting -/

variable {r : MeasurementResult}

/-- A call that returned reports the value of `response`. -/
theorem response_of_call (h : call J desc env = .ok r) :
    ∃ n, recvResponse desc env = .ok n ∧ response J desc env = .ok (ratio J desc n) ∧
      r.values.get "PRR" = some (J.floatText (ratio J desc n)) := by
  cases hsend : sendBurst desc env with
  | error e =>
      rw [call_of_error hsend] at h
      cases h
  | ok addr =>
      rw [call_of_sent hsend] at h
      obtain ⟨n, hn, hreport⟩ := except_bind_eq_ok.mp h
      refine ⟨n, hn, ?_, ?_⟩
      · unfold response
        rw [hsend, hn]
        rfl
      · unfold report at hreport
        obtain ⟨-, hvalues⟩ := newResult_bind_eq_ok.mp hreport
        obtain ⟨result, -, hprr⟩ := except_bind_eq_ok.mp hvalues
        unfold MeasurementResult.addResult at hprr
        obtain ⟨text, htext, hresult⟩ := except_bind_eq_ok.mp hprr
        change (if (ratio J desc n).isFinite then .ok (J.floatText (ratio J desc n)) else _) =
          Except.ok text at htext
        split at htext
        · rw [← Except.ok.inj hresult, ← Except.ok.inj htext]
          rfl
        · cases htext

theorem ratio_eq (hfloat : J.float = Rounding.binary32) (n : ℤ) :
    ratio J desc n = Rounding.ratio n desc.udpBurstCount.val := by
  unfold ratio Rounding.ratio
  rw [hfloat]

theorem length_datagrams_le (rounds i : ℕ) : (datagrams desc env rounds i).length ≤ rounds := by
  induction rounds generalizing i with
  | zero => exact Nat.le_refl 0
  | succ rounds ih =>
      unfold datagrams
      cases env.receive i with
      | socketException | ioException => exact Nat.zero_le _
      | datagram bytes =>
          dsimp only
          rw [List.length_cons]
          exact Nat.succ_le_succ (ih (i + 1))

/-- No more data packets are counted than the burst has. -/
theorem countP_isData_le :
    (((received desc env).countP isData : ℕ) : ℤ) ≤ desc.udpBurstCount.val := by
  have hcount := desc.udpBurstCount.property
  have hpackets : (received desc env).countP isData ≤ (received desc env).length :=
    List.countP_le_length
  have hlength : (received desc env).length ≤ desc.udpBurstCount.val.toNat :=
    length_datagrams_le _ _
  omega

/-- A burst down is clean when its ratio is that of the packets that came. -/
theorem cleanBurst_iff (hfloat : J.float = Rounding.binary32) (seq : ℤ) :
    CleanBurst J desc env seq ↔ ratio J desc ((received desc env).countP isData) =
      ratio J desc (distinctReceived desc env seq) := by
  have hcount := desc.udpBurstCount.property
  have hdata := @countP_isData_le desc env
  have hdistinct := @distinctReceived_le desc env seq
  unfold CleanBurst
  rw [← countP_eq_distinct_iff]
  constructor
  · rintro (heq | ⟨-, hratio⟩)
    · rw [heq]
    · exact hratio
  · intro hratio
    rcases lt_or_ge desc.udpBurstCount.val (2 ^ 24) with hsmall | hlarge
    · have hvalues := hratio
      rw [ratio_eq hfloat, ratio_eq hfloat] at hvalues
      have heq := Rounding.ratio_injective (Int.natCast_nonneg _) hdata (Int.natCast_nonneg _)
        (by omega) hcount.1 hsmall hvalues
      exact .inl (Int.ofNat.inj heq)
    · exact .inr ⟨hlarge, hratio⟩

theorem counted_down_iff (hfloat : J.float = Rounding.binary32) (seq : ℤ)
    (hdir : desc.dirUp = false) (h : call J desc env = .ok r) :
    (∃ q, Counted J desc env seq r q) ↔ CleanBurst J desc env seq := by
  have hcount := desc.udpBurstCount.property
  obtain ⟨n, hn, hresponse, hreported⟩ := response_of_call h
  have hpackets : n = (received desc env).countP isData := by
    unfold recvResponse at hn
    rw [hdir, if_neg Bool.false_ne_true] at hn
    exact (recvFrom_eq_countP hn).trans (Int.zero_add _)
  rw [cleanBurst_iff hfloat, ← hpackets]
  constructor
  · intro ⟨q, hcounted⟩
    rw [← hcounted.down hdir]
    exact Except.ok.inj (hresponse.symm.trans hcounted.response)
  · intro hratio
    have hle : n ≤ desc.udpBurstCount.val := by
      rw [hpackets]
      exact countP_isData_le
    obtain ⟨q, hq, h0, h1⟩ := Rounding.ratio_mem (n := n) (by omega) hle hcount.1 (by omega)
    rw [← ratio_eq hfloat] at hq
    rw [hq] at hresponse hreported
    refine ⟨q, hresponse, hreported, h0, h1, fun _ => by rw [← hq, hratio], fun hup => ?_⟩
    rw [hdir] at hup
    cases hup

/-- The number comes from the header of the first packet. -/
theorem exists_header_of_recvUpResponse {n : ℤ} (h : recvUpResponse desc env = .ok n) :
    ∃ bytes header, env.receive 0 = .datagram bytes ∧
      readHeader (bytes.take minPacketSize) = some header ∧ header.2.2 = n := by
  unfold recvUpResponse at h
  split at h
  · cases h
  · cases h
  · rename_i bytes hreceive
    obtain ⟨header, hheader, hnumber⟩ := except_bind_eq_ok.mp h
    exact ⟨bytes, header, hreceive, readHeader_of_parseHeader hheader, Except.ok.inj hnumber⟩

theorem counted_up_iff (hfloat : J.float = Rounding.binary32) (seq : ℤ)
    (hdir : desc.dirUp = true) (h : call J desc env = .ok r) :
    (∃ q, Counted J desc env seq r q) ↔ Receipt J desc env := by
  have hcount := desc.udpBurstCount.property
  obtain ⟨n, hn, hresponse, hreported⟩ := response_of_call h
  have hup : recvUpResponse desc env = .ok n := by
    unfold recvResponse at hn
    rwa [hdir, if_pos rfl] at hn
  have hrange := recvUpResponse_ends.1 n hup
  -- the number reported is the one in the datagram received
  obtain ⟨bytes, header, hreceive, hread, hnum⟩ := exists_header_of_recvUpResponse hup
  obtain ⟨a, b, q, -, -, -, -, hq, -⟩ := Rounding.exists_ratio (n := n)
    (abs_le.mpr ⟨hrange.1, hrange.2.le⟩) hcount.1 hcount.2.le
  -- the ratio is in [0, 1] as the number is up to the count, rounding apart
  have hunit := Rounding.ratio_unit_iff hrange.1 hrange.2.le hcount.1 hcount.2.le hq
  rw [← ratio_eq hfloat] at hq
  rw [hq] at hresponse hreported
  unfold Receipt
  rw [hfloat]
  constructor
  · intro ⟨q', hcounted⟩
    have hsame : Value.finite q = .finite q' :=
      Except.ok.inj (hresponse.symm.trans hcounted.response)
    obtain ⟨bytes', header', hreceive', hread', htype⟩ := hcounted.up hdir
    have hmem := hunit.mp (by
      rw [Value.finite.inj hsame]
      exact ⟨hcounted.nonneg, hcounted.le_one⟩)
    rw [hreceive] at hreceive'
    rw [← Received.datagram.inj hreceive', hread] at hread'
    rw [← Option.some.inj hread'] at htype
    exact ⟨bytes, header.1, header.2.1, header.2.2, hreceive, hread, htype, by
      rw [hnum]
      exact hmem⟩
  · intro ⟨bytes', ptype, burstsize, pktnum, hreceive', hread', htype, hmem⟩
    rw [hreceive] at hreceive'
    rw [← Received.datagram.inj hreceive', hread] at hread'
    have hheader := Option.some.inj hread'
    rw [hheader] at hnum hread
    rw [show pktnum = n from hnum] at hmem
    obtain ⟨h0, h1⟩ := hunit.mpr hmem
    refine ⟨q, hresponse, hreported, h0, h1, fun hdown => ?_, fun _ =>
      ⟨bytes, _, hreceive, hread, htype⟩⟩
    rw [hdir] at hdown
    cases hdown

/-- The reported ratio is the one that is wanted exactly when a burst down is clean, or
the first packet behind a burst up is its receipt. -/
theorem reception_counted_iff (hfloat : J.float = Rounding.binary32) (seq : ℤ)
    (h : call J desc env = .ok r) :
    (∃ q, Counted J desc env seq r q) ↔
      if desc.dirUp then Receipt J desc env else CleanBurst J desc env seq := by
  cases hdir : desc.dirUp with
  | false => exact counted_down_iff hfloat seq hdir h
  | true => exact counted_up_iff hfloat seq hdir h

/-! ## Two bursts -/

/-- A number that was received is reported. -/
theorem call_of_received (hcells : env.device.neighboringCellInfo.isSome)
    (hfloat : J.float = Rounding.binary32) {addr : InetAddress} {n : ℤ}
    (hsend : sendBurst desc env = .ok addr) (hn : recvResponse desc env = .ok n) :
    ∃ r, call J desc env = .ok r := by
  have hcount := desc.udpBurstCount.property
  obtain ⟨a, b, q, -, -, -, -, hq, -⟩ :=
    Rounding.exists_ratio (recvResponse_ends.1 n hn) hcount.1 hcount.2.le
  rw [← ratio_eq hfloat] at hq
  rw [call_of_sent hsend, hn]
  change ∃ r, report J desc env addr.hostAddress (ratio J desc n) = .ok r
  unfold report
  rw [hq, newResult_of_cells hcells]
  exact ⟨_, rfl⟩

/-- A burst down of packets of 20 bytes. -/
def downBurst (udpBurstCount : Positive) : UDPBurstDesc :=
  { UDPBurstDesc.defaults "localhost" with
    packetSizeByte := 20
    udpBurstCount := udpBurstCount
    packetSizeByte_mem := by decide }

/-- Some packets come, and then none. -/
def receiving (packets : List (List UInt8)) : UDPBurstEnv where
  getByName := some ⟨.v4, "127.0.0.1", "localhost"⟩
  openSocket := true
  send _ := .ok ()
  receive i :=
    match packets[i]? with
    | some bytes => .datagram bytes
    | none => .ioException
  device := ⟨0, some []⟩

/-- The first data packet of a burst of two, the burst with the sequence number 1. -/
def firstPacket : List UInt8 := [0, 0, 0, 3, 0, 0, 0, 2, 0, 0, 0, 0, 0, 0, 0, 20, 0, 0, 0, 1]

/-- The call for a burst of two. -/
theorem call_receiving {packets : List (List UInt8)} {n : ℤ}
    (hn : recvResponse (downBurst ⟨2, by decide⟩) (receiving packets) = .ok n) :
    ∃ r, call Platform.latin (downBurst ⟨2, by decide⟩) (receiving packets) = .ok r := by
  obtain ⟨addr, haddr⟩ := sendBurst_ok_iff.mpr
    (⟨rfl, rfl, by decide, fun _ _ => rfl⟩ : Sent (downBurst ⟨2, by decide⟩) (receiving packets))
  exact call_of_received rfl rfl haddr hn

/-- One of the two packets comes. -/
theorem counted_iff_lost : ∃ r q, Counted Platform.latin (downBurst ⟨2, by decide⟩)
    (receiving [firstPacket]) 1 r q :=
  have hcall := @call_receiving [firstPacket] 1 (by decide +kernel)
  have hclean : CleanBurst Platform.latin (downBurst ⟨2, by decide⟩) (receiving [firstPacket]) 1 :=
    .inl (by decide +kernel)
  hcall.elim fun r h => ⟨r, (reception_counted_iff rfl 1 h).mpr hclean⟩

/-- It comes twice, and stands for both. -/
theorem counted_fails_on_duplicate :
    ¬ ∀ (J : Platform) (desc : UDPBurstDesc) (env : UDPBurstEnv) (seq : ℤ) (r : MeasurementResult),
      J.float = Rounding.binary32 → call J desc env = .ok r → ∃ q, Counted J desc env seq r q := by
  intro hall
  obtain ⟨r, hcall⟩ := @call_receiving [firstPacket, firstPacket] 2 (by decide +kernel)
  have hclean := (counted_down_iff rfl 1 rfl hcall).mp (hall _ _ _ 1 r rfl hcall)
  rcases hclean with ⟨-, hnodup⟩ | ⟨hlarge, -⟩
  · exact absurd hnodup (by decide +kernel)
  · exact absurd hlarge (by decide)

end UDPBurstTask

end MobiPerf.Measurements
