import MobiPerf.Lib.DoWhile
import MobiPerf.Measurements.TCPThroughput

/-!
# Measurements.TCPWindow — how long and how much a throughput test transfers

Both transfers are loops that test behind each write or read. The loop of writes
tests the data cap and the time, that of reads the cap only, until the stream
ends.

* `TCPThroughputTask.cap_holds`: over a cellular network either loop transfers
  less than its cap and one buffer, no sum leaves the `int`s on the way, and the
  flag is set exactly when the cap is reached;
* `TCPThroughputTask.respectsWindow_iff`: the time allowed is respected exactly
  when no write that is not held by the cap ends between the milliseconds of the
  duration, with the seconds of the slow start added as if they were
  milliseconds, and the end of the window, and every read that leaves the cap
  unreached has been dealt with before the window is over.
-/

namespace MobiPerf.Measurements

open Lib Scheduler

namespace TCPThroughputTask

variable {J : Platform} {desc : TCPThroughputDesc} {env : TCPThroughputEnv}

/-! ## The loops -/

section Loops

/-- The milliseconds since the start of the test. -/
def elapsed (env : TCPThroughputEnv) (time : ℤ) : ℤ := toLong (time - env.startTime)

def sendStep (desc : TCPThroughputDesc) (totalSendSize _endTime : ℤ) : ℤ :=
  toInt (totalSendSize + desc.pkt_size_up_bytes)

def sendStop (desc : TCPThroughputDesc) (env : TCPThroughputEnv) (totalSendSize endTime : ℤ) :
    Bool :=
  (dataLimitOn env ∧ dataLimitByteUp desc ≤ totalSendSize) ∨
    totalDuration desc ≤ elapsed env endTime

def receiveStep (J : Platform) (desc : TCPThroughputDesc) (env : TCPThroughputEnv)
    (st : Receiving) (read : Chunk 5000 × SampleClock) : Receiving :=
  count J desc env read.2 read.1.val.length st

def receiveStop (desc : TCPThroughputDesc) (env : TCPThroughputEnv) (st : Receiving)
    (_read : Chunk 5000 × SampleClock) : Bool :=
  exceeds desc env st

/-- One pass of the uplink's loop. -/
theorem send_cons (endTime : ℤ) (writes : List ℤ) (total : ℤ) :
    send desc env (endTime :: writes) total =
      if dataLimitOn env ∧ dataLimitByteUp desc ≤ sendStep desc total endTime then
        .ok (true, endTime)
      else if elapsed env endTime < totalDuration desc then
        send desc env writes (sendStep desc total endTime)
      else .ok (false, endTime) := rfl

/-- One pass of the downlink's loop. -/
theorem receive_cons (read : Chunk 5000 × SampleClock) (reads : List (Chunk 5000 × SampleClock))
    (st : Receiving) : receive J desc env (read :: reads) st =
      if receiveStop desc env (receiveStep J desc env st read) read then
        .ok (true, receiveStep J desc env st read)
      else receive J desc env reads (receiveStep J desc env st read) := rfl

/-- Behind a write the loop goes on while the cap and the time allow it. -/
theorem sendStop_eq_false {total endTime : ℤ} : sendStop desc env total endTime = false ↔
    ¬ (dataLimitOn env ∧ dataLimitByteUp desc ≤ total) ∧
      elapsed env endTime < totalDuration desc := by
  unfold sendStop
  rw [decide_eq_false_iff_not, not_or, not_le]

/-- The loop of writes stops behind one of them. -/
theorem send_of_stops {writes : List ℤ} {total endTime : ℤ} {k : ℕ}
    (hk : writes[k]? = some endTime)
    (hstop : sendStop desc env (stateAfter (sendStep desc) total writes (k + 1)) endTime)
    (hgoes : GoesOn (sendStep desc) (sendStop desc env) total writes k) :
    send desc env writes total =
      .ok (dataLimitOn env ∧
        dataLimitByteUp desc ≤ stateAfter (sendStep desc) total writes (k + 1), endTime) := by
  induction writes generalizing total k with
  | nil => cases hk
  | cons t writes ih =>
      rw [send_cons]
      cases k with
      | zero =>
          cases hk
          have hover := of_decide_eq_true hstop
          rw [stateAfter_succ_cons, stateAfter_zero] at hover ⊢
          by_cases hlimit : dataLimitOn env ∧ dataLimitByteUp desc ≤ sendStep desc total endTime
          · rw [if_pos hlimit, decide_eq_true hlimit]
          · have htime := not_lt.mpr (hover.resolve_left hlimit)
            rw [if_neg hlimit, if_neg htime, decide_eq_false hlimit]
      | succ k =>
          obtain ⟨hfirst, hrest⟩ := goesOn_cons.mp hgoes
          obtain ⟨hlimit, htime⟩ := sendStop_eq_false.mp hfirst
          rw [if_neg hlimit, if_pos htime, stateAfter_succ_cons]
          exact ih hk hstop hrest

/-- It runs out of writes that go through. -/
theorem send_of_goesOn {writes : List ℤ} {total : ℤ}
    (h : GoesOn (sendStep desc) (sendStop desc env) total writes writes.length) :
    send desc env writes total = .error (.io env.uplink.failure) := by
  induction writes generalizing total with
  | nil => rfl
  | cons t writes ih =>
      obtain ⟨hfirst, hrest⟩ := goesOn_cons.mp h
      obtain ⟨hlimit, htime⟩ := sendStop_eq_false.mp hfirst
      rw [send_cons, if_neg hlimit, if_pos htime]
      exact ih hrest

/-- The loop of reads stops behind one of them. -/
theorem receive_of_stops {reads : List (Chunk 5000 × SampleClock)} {st : Receiving}
    {read : Chunk 5000 × SampleClock} {k : ℕ} (hk : reads[k]? = some read)
    (hstop : receiveStop desc env (stateAfter (receiveStep J desc env) st reads (k + 1)) read)
    (hgoes : GoesOn (receiveStep J desc env) (receiveStop desc env) st reads k) :
    receive J desc env reads st =
      .ok (true, stateAfter (receiveStep J desc env) st reads (k + 1)) := by
  induction reads generalizing st k with
  | nil => cases hk
  | cons r reads ih =>
      rw [receive_cons]
      cases k with
      | zero => exact if_pos hstop
      | succ k =>
          obtain ⟨hfirst, hrest⟩ := goesOn_cons.mp hgoes
          rw [if_neg (Bool.eq_false_iff.mp hfirst), stateAfter_succ_cons]
          exact ih hk hstop hrest

/-- It comes to the end of the stream, or to a failure. -/
theorem receive_of_goesOn {reads : List (Chunk 5000 × SampleClock)} {st : Receiving}
    (h : GoesOn (receiveStep J desc env) (receiveStop desc env) st reads reads.length) :
    receive J desc env reads st =
      receive J desc env [] (stateAfter (receiveStep J desc env) st reads reads.length) := by
  induction reads generalizing st with
  | nil => rfl
  | cons r reads ih =>
      obtain ⟨hfirst, hrest⟩ := goesOn_cons.mp h
      rw [receive_cons, if_neg (Bool.eq_false_iff.mp hfirst), List.length_cons,
        stateAfter_succ_cons]
      exact ih hrest

end Loops

/-! ## Counting bytes -/

section Counting

/-- A sum of few bytes that is taken as an `int`. A limit is reached by the `int`
as soon as by the sum: `c k` is the sum behind `k` transfers. -/
theorem counted_iff {c : ℕ → ℤ} (limit : ℤ) (h0 : c 0 < limit) (hlo : 0 ≤ c 0)
    (hmono : ∀ k, c k ≤ c (k + 1)) (hstep : ∀ k, c (k + 1) ≤ c k + 5000)
    (hlimit : limit ≤ 2 ^ 30) (k : ℕ) :
    (∀ j < k, toInt (c (j + 1)) < limit) ↔ c k < limit := by
  have hpos : ∀ k, 0 ≤ c k := by
    intro k
    induction k with
    | zero => exact hlo
    | succ k ih => exact ih.trans (hmono k)
  induction k with
  | zero => exact iff_of_true (fun j hj => absurd hj (Nat.not_lt_zero j)) h0
  | succ k ih =>
      have hexact : c k < limit → toInt (c (k + 1)) = c (k + 1) := by
        intro hk
        have hle := hstep k
        have hnonneg := hpos (k + 1)
        exact toInt_eq (by omega) (by omega)
      constructor
      · intro h
        have hk := ih.mp fun j hj => h j (Nat.lt_succ_of_lt hj)
        rw [← hexact hk]
        exact h k (Nat.lt_succ_self k)
      · intro h j hj
        have hk : c k < limit := (hmono k).trans_lt h
        rcases Nat.lt_succ_iff_lt_or_eq.mp hj with hj | rfl
        · exact ih.mpr hk j hj
        · rw [hexact hk]
          exact h

/-- The limit of the uplink is positive, and is no more than 2^30. -/
theorem dataLimitByteUp_mem (desc : TCPThroughputDesc) :
    0 < dataLimitByteUp desc ∧ dataLimitByteUp desc ≤ 2 ^ 30 := by
  have hmb := desc.data_limit_mb_up_mem
  unfold dataLimitByteUp kbyte
  omega

/-- So is that of the downlink. -/
theorem dataLimitByteDown_mem (desc : TCPThroughputDesc) :
    0 < dataLimitByteDown desc ∧ dataLimitByteDown desc ≤ 2 ^ 30 := by
  have hmb := desc.data_limit_mb_down_mem
  unfold dataLimitByteDown kbyte
  omega

/-- The counter counts whole messages. -/
theorem stateAfter_sendStep (writes : List ℤ) (c k : ℕ) (hk : k ≤ writes.length) :
    stateAfter (sendStep desc) (toInt (c * desc.pkt_size_up_bytes)) writes k =
      toInt ((c + k : ℕ) * desc.pkt_size_up_bytes) := by
  induction writes generalizing c k with
  | nil =>
      rw [Nat.le_zero.mp hk]
      rfl
  | cons t writes ih =>
      cases k with
      | zero => rfl
      | succ k =>
          have hsize : sendStep desc (toInt (c * desc.pkt_size_up_bytes)) t =
              toInt ((c + 1 : ℕ) * desc.pkt_size_up_bytes) := by
            unfold sendStep
            rw [toInt, toInt, Int.bmod_add_bmod, Nat.cast_succ, add_mul, one_mul]
            rfl
          rw [stateAfter_succ_cons, hsize, ih (c + 1) k (Nat.le_of_succ_le_succ hk)]
          congr 3
          omega

/-- It does so from the first. -/
theorem totalSendSize_stateAfter {writes : List ℤ} {k : ℕ} (hk : k ≤ writes.length) :
    stateAfter (sendStep desc) 0 writes k = toInt (k * desc.pkt_size_up_bytes) := by
  have hstart : toInt ((0 : ℕ) * desc.pkt_size_up_bytes) = 0 := by
    rw [Nat.cast_zero, zero_mul]
    rfl
  rw [← hstart, stateAfter_sendStep writes 0 k hk, zero_add]

/-- The bytes of some reads. -/
def bytesOf (reads : List (Chunk 5000 × SampleClock)) : ℤ :=
  (reads.map fun read => (read.1.val.length : ℤ)).sum

/-- Bytes are counted from 0. -/
theorem bytesOf_nonneg (reads : List (Chunk 5000 × SampleClock)) : 0 ≤ bytesOf reads := by
  refine List.sum_nonneg fun n hn => ?_
  obtain ⟨read, -, rfl⟩ := List.mem_map.mp hn
  exact Int.natCast_nonneg _

/-- A read adds its bytes to the counter. -/
theorem totalRevSize_receiveStep (st : Receiving) (read : Chunk 5000 × SampleClock) :
    (receiveStep J desc env st read).totalRevSize = toInt (st.totalRevSize + read.1.val.length) :=
  rfl

theorem totalRevSize_stateAfter (reads : List (Chunk 5000 × SampleClock)) {st : Receiving}
    (total : ℤ) (hst : st.totalRevSize = toInt total) (k : ℕ) :
    (stateAfter (receiveStep J desc env) st reads k).totalRevSize =
      toInt (total + bytesOf (reads.take k)) := by
  induction reads generalizing st total k with
  | nil => simpa [stateAfter, bytesOf] using hst
  | cons read reads ih =>
      cases k with
      | zero => simpa [bytesOf] using hst
      | succ k =>
          have hstep : (receiveStep J desc env st read).totalRevSize =
              toInt (total + read.1.val.length) := by
            rw [totalRevSize_receiveStep, hst]
            exact Int.bmod_add_bmod
          rw [stateAfter_succ_cons, ih _ hstep k, List.take_succ_cons]
          simp [bytesOf, add_assoc]

/-- A read has no more bytes than the buffer. -/
theorem bytesOf_take_succ (reads : List (Chunk 5000 × SampleClock)) (k : ℕ) :
    bytesOf (reads.take k) ≤ bytesOf (reads.take (k + 1)) ∧
      bytesOf (reads.take (k + 1)) ≤ bytesOf (reads.take k) + 5000 := by
  unfold bytesOf
  rw [List.take_add_one, List.map_append, List.sum_append]
  cases reads[k]? with
  | none => simp
  | some read =>
      have hsize := read.1.property.2
      simp only [Option.toList_some, List.map_cons, List.map_nil, List.sum_cons, List.sum_nil]
      omega

/-- The loop of writes has gone on while the cap and the time allowed it. -/
theorem goesOn_send_iff {writes : List ℤ} {k : ℕ} (hk : k ≤ writes.length) :
    GoesOn (sendStep desc) (sendStop desc env) 0 writes k ↔
      (dataLimitOn env → k * desc.pkt_size_up_bytes < dataLimitByteUp desc) ∧
        ∀ j < k, ∀ t, writes[j]? = some t → elapsed env t < totalDuration desc := by
  have hpkt := desc.pkt_size_up_bytes_mem
  have hlimit := dataLimitByteUp_mem desc
  have hcounted := counted_iff (c := fun j => j * desc.pkt_size_up_bytes)
    (dataLimitByteUp desc) (by simpa using hlimit.1) (by simp)
    (fun j => by push_cast; linarith) (fun j => by push_cast; linarith) hlimit.2 k
  rw [← hcounted]
  unfold GoesOn
  simp only [sendStop_eq_false]
  constructor
  · intro h
    refine ⟨fun hon j hj => ?_, fun j hj t ht => (h j hj t ht).2⟩
    have hget : writes[j]? = some writes[j] := List.getElem?_eq_getElem (by omega)
    have hfree := (h j hj _ hget).1
    rw [totalSendSize_stateAfter (by omega)] at hfree
    exact not_le.mp fun hle => hfree ⟨hon, hle⟩
  · rintro ⟨hcap, htime⟩ j hj t ht
    refine ⟨?_, htime j hj t ht⟩
    rintro ⟨hon, hle⟩
    rw [totalSendSize_stateAfter (by omega)] at hle
    exact absurd hle (not_le.mpr (hcap hon j hj))

/-- What the task has when the loop of reads starts. -/
def noneReceived : Receiving := ⟨0, 0, [], 0⟩

/-- The counter of the downlink is that of the bytes read. -/
theorem totalRevSize_received (J : Platform) (desc : TCPThroughputDesc) (env : TCPThroughputEnv)
    (reads : List (Chunk 5000 × SampleClock)) (k : ℕ) :
    (stateAfter (receiveStep J desc env) noneReceived reads k).totalRevSize =
      toInt (bytesOf (reads.take k)) := by
  rw [totalRevSize_stateAfter reads 0 rfl, zero_add]

/-- The loop of reads has gone on while the cap allowed it. -/
theorem goesOn_receive_iff {reads : List (Chunk 5000 × SampleClock)} {k : ℕ}
    (hk : k ≤ reads.length) :
    GoesOn (receiveStep J desc env) (receiveStop desc env) noneReceived reads k ↔
      (dataLimitOn env → bytesOf (reads.take k) < dataLimitByteDown desc) := by
  have hlimit := dataLimitByteDown_mem desc
  have hcounted := counted_iff (c := fun j => bytesOf (reads.take j))
    (dataLimitByteDown desc) (by simpa [bytesOf] using hlimit.1) (by simp [bytesOf])
    (fun j => (bytesOf_take_succ reads j).1) (fun j => (bytesOf_take_succ reads j).2) hlimit.2 k
  rw [← hcounted]
  unfold GoesOn receiveStop exceeds
  simp only [decide_eq_false_iff_not, not_and, not_le, totalRevSize_received]
  constructor
  · intro h hon j hj
    exact h j hj _ (List.getElem?_eq_getElem (by omega)) hon
  · intro h j hj read hread hon
    exact h hon j hj

end Counting

/-! ## The data cap -/

section Cap

/-- A value of type `int`. -/
def Fits (x : ℤ) : Prop := -2 ^ 31 ≤ x ∧ x < 2 ^ 31

/-- The writes of the loop that go through. -/
def writesMade (desc : TCPThroughputDesc) (env : TCPThroughputEnv) : List ℤ :=
  taken (sendStep desc) (sendStop desc env) 0 env.uplink.writes

def bytesSent (desc : TCPThroughputDesc) (env : TCPThroughputEnv) : ℤ :=
  (writesMade desc env).length * desc.pkt_size_up_bytes

/-- The reads of the loop that find bytes. -/
def readsMade (J : Platform) (desc : TCPThroughputDesc) (env : TCPThroughputEnv) :
    List (Chunk 5000 × SampleClock) :=
  taken (receiveStep J desc env) (receiveStop desc env) noneReceived env.downlink.reads

def bytesReceived (J : Platform) (desc : TCPThroughputDesc) (env : TCPThroughputEnv) : ℤ :=
  bytesOf (readsMade J desc env)

/-- The sums one read of `delta` bytes makes, before they are taken as an `int`. -/
def SumsFit (clock : SampleClock) (delta : ℤ) (st : Receiving) : Prop :=
  Fits (st.totalRevSize + delta) ∧ Fits ((startSample clock st).accumulativeSize + delta)

/-- The cap on what is sent holds: whether the loop stops behind a write or a
write fails. -/
structure UplinkCapped (desc : TCPThroughputDesc) (env : TCPThroughputEnv) : Prop where
  payload : bytesSent desc env < dataLimitByteUp desc + desc.pkt_size_up_bytes
  limit_fits : Fits (dataLimitByteUp desc)
  sums_fit : ∀ k < (writesMade desc env).length,
    Fits (stateAfter (sendStep desc) 0 env.uplink.writes k + desc.pkt_size_up_bytes)
  exceeded_iff : ∀ exceeded endTime, send desc env env.uplink.writes 0 = .ok (exceeded, endTime) →
    (exceeded = true ↔ dataLimitByteUp desc ≤ bytesSent desc env)
  failed : ∀ e, send desc env env.uplink.writes 0 = .error e →
    bytesSent desc env < dataLimitByteUp desc

/-- The cap on what is received holds, whatever ends the loop. -/
structure DownlinkCapped (J : Platform) (desc : TCPThroughputDesc) (env : TCPThroughputEnv) :
    Prop where
  payload : bytesReceived J desc env < dataLimitByteDown desc + bufferSize
  limit_fits : Fits (dataLimitByteDown desc)
  sums_fit : ∀ k read, (readsMade J desc env)[k]? = some read →
    SumsFit read.2 read.1.val.length
      (stateAfter (receiveStep J desc env) noneReceived env.downlink.reads k)
  end_fits : ∀ clock, SumsFit clock (-1)
    (stateAfter (receiveStep J desc env) noneReceived env.downlink.reads
      (readsMade J desc env).length)
  exceeded_iff : ∀ exceeded st,
    receive J desc env env.downlink.reads noneReceived = .ok (exceeded, st) →
      (exceeded = true ↔ dataLimitByteDown desc ≤ bytesReceived J desc env)
  failed : ∀ e, receive J desc env env.downlink.reads noneReceived = .error e →
    bytesReceived J desc env < dataLimitByteDown desc

/-- The cap on what is sent holds in every run of the uplink. -/
theorem uplinkCapped (hon : dataLimitOn env) : UplinkCapped desc env := by
  have hpkt := desc.pkt_size_up_bytes_mem
  have hlimit := dataLimitByteUp_mem desc
  have hsums : ∀ k < (writesMade desc env).length,
      Fits (stateAfter (sendStep desc) 0 env.uplink.writes k + desc.pkt_size_up_bytes) := by
    intro k hk
    have hle : k ≤ env.uplink.writes.length := hk.le.trans length_taken_le
    have hbelow := ((goesOn_send_iff hle).mp (goesOn_of_lt_taken hk)).1 hon
    have hnonneg : 0 ≤ (k : ℤ) * desc.pkt_size_up_bytes :=
      mul_nonneg (Int.natCast_nonneg k) (by omega)
    rw [totalSendSize_stateAfter hle, toInt_eq (by omega) (by omega)]
    exact ⟨by omega, by omega⟩
  rcases goesOn_or_stops (sendStep desc) (sendStop desc env) 0 env.uplink.writes with
    hgoes | ⟨k, endTime, hk, hstop, hgoes⟩
  · -- a write fails
    have hsent : bytesSent desc env = env.uplink.writes.length * desc.pkt_size_up_bytes := by
      unfold bytesSent writesMade
      rw [taken_of_goesOn hgoes]
    have hbelow := ((goesOn_send_iff (le_refl _)).mp hgoes).1 hon
    rw [← hsent] at hbelow
    refine ⟨by omega, ⟨by omega, by omega⟩, hsums, ?_, fun _ _ => hbelow⟩
    intro exceeded endTime hsend
    rw [send_of_goesOn hgoes] at hsend
    cases hsend
  · have hlt : k < env.uplink.writes.length := (List.getElem?_eq_some_iff.mp hk).1
    have hsent : bytesSent desc env = (k + 1 : ℕ) * desc.pkt_size_up_bytes := by
      unfold bytesSent writesMade
      rw [taken_of_stops hk hstop hgoes, List.length_take]
      congr 2
      omega
    have hbelow := ((goesOn_send_iff hlt.le).mp hgoes).1 hon
    have hnext : bytesSent desc env = k * desc.pkt_size_up_bytes + desc.pkt_size_up_bytes := by
      rw [hsent]
      push_cast
      ring
    have hnonneg : 0 ≤ (k : ℤ) * desc.pkt_size_up_bytes :=
      mul_nonneg (Int.natCast_nonneg k) (by omega)
    have hexact : stateAfter (sendStep desc) 0 env.uplink.writes (k + 1) = bytesSent desc env := by
      rw [totalSendSize_stateAfter hlt, ← hsent]
      exact toInt_eq (by omega) (by omega)
    refine ⟨by omega, ⟨by omega, by omega⟩, hsums, ?_, ?_⟩
    · intro exceeded t hsend
      rw [send_of_stops hk hstop hgoes, hexact] at hsend
      cases hsend
      rw [decide_eq_true_eq]
      exact and_iff_right hon
    · intro e hsend
      rw [send_of_stops hk hstop hgoes] at hsend
      cases hsend

/-- To open a sample forgets the bytes counted so far. -/
theorem accumulativeSize_startSample (clock : SampleClock) {st : Receiving}
    (h0 : 0 ≤ st.accumulativeSize) :
    0 ≤ (startSample clock st).accumulativeSize ∧
      (startSample clock st).accumulativeSize ≤ st.accumulativeSize := by
  unfold startSample
  split
  · exact ⟨le_refl 0, h0⟩
  · exact ⟨h0, le_refl _⟩

/-- The bytes of a sample are among those received. -/
theorem accumulativeSize_updateSize (clock : SampleClock) {st : Receiving} {delta n : ℤ}
    (h0 : 0 ≤ st.accumulativeSize) (hle : st.accumulativeSize ≤ n) (hdelta : 0 ≤ delta)
    (hn : n + delta < 2 ^ 31) :
    0 ≤ (updateSize J desc env clock delta st).accumulativeSize ∧
      (updateSize J desc env clock delta st).accumulativeSize ≤ n + delta := by
  have hstart := accumulativeSize_startSample clock h0
  have hexact : toInt ((startSample clock st).accumulativeSize + delta) =
      (startSample clock st).accumulativeSize + delta := toInt_eq (by omega) (by omega)
  simp only [updateSize, hexact]
  split
  · exact ⟨h0, by omega⟩
  · split
    · exact ⟨by simp only; omega, by simp only; omega⟩
    · exact ⟨le_refl 0, by simp only; omega⟩

/-- The bytes of a sample are among those that were counted. -/
theorem accumulativeSize_stateAfter {reads : List (Chunk 5000 × SampleClock)} {k : ℕ}
    (hk : k ≤ reads.length) (hbytes : bytesOf (reads.take k) < 2 ^ 31) :
    0 ≤ (stateAfter (receiveStep J desc env) noneReceived reads k).accumulativeSize ∧
      (stateAfter (receiveStep J desc env) noneReceived reads k).accumulativeSize ≤
        bytesOf (reads.take k) := by
  induction k with
  | zero => exact ⟨le_refl 0, le_refl 0⟩
  | succ k ih =>
      have hread : reads[k]? = some reads[k] := List.getElem?_eq_getElem hk
      have hsum : bytesOf (reads.take (k + 1)) =
          bytesOf (reads.take k) + reads[k].1.val.length := by
        unfold bytesOf
        rw [List.take_add_one, hread, List.map_append, List.sum_append]
        simp
      rw [hsum] at hbytes ⊢
      have hprev := ih (Nat.le_of_succ_le hk) (by omega)
      rw [stateAfter_succ hread]
      exact accumulativeSize_updateSize reads[k].2 hprev.1 hprev.2 (Int.natCast_nonneg _) hbytes

/-- One more read of at most a buffer fits. -/
theorem sumsFit_stateAfter {k : ℕ} (hk : k ≤ env.downlink.reads.length)
    (hbytes : bytesOf (env.downlink.reads.take k) ≤ 2 ^ 30 + 5000) {delta : ℤ} (hlo : -1 ≤ delta)
    (hhi : delta ≤ 5000) (clock : SampleClock) :
    SumsFit clock delta
      (stateAfter (receiveStep J desc env) noneReceived env.downlink.reads k) := by
  have hnonneg := bytesOf_nonneg (env.downlink.reads.take k)
  obtain ⟨hacc0, hacc⟩ : 0 ≤ (stateAfter (receiveStep J desc env) noneReceived env.downlink.reads
      k).accumulativeSize ∧ _ := accumulativeSize_stateAfter hk (by omega)
  have hopened := accumulativeSize_startSample clock hacc0
  unfold SumsFit Fits
  rw [totalRevSize_received, toInt_eq (by omega) (by omega)]
  omega

/-- The sums of every read that finds bytes fit: in front of it the cap was not
reached. -/
theorem sumsFit_of_readsMade (hon : dataLimitOn env) {k : ℕ} {read : Chunk 5000 × SampleClock}
    (hread : (readsMade J desc env)[k]? = some read) :
    SumsFit read.2 read.1.val.length
      (stateAfter (receiveStep J desc env) noneReceived env.downlink.reads k) := by
  have hlimit := dataLimitByteDown_mem desc
  have hlt := (List.getElem?_eq_some_iff.mp hread).1
  have hsize := read.1.property.2
  have hle := hlt.le.trans length_taken_le
  have hbelow := (goesOn_receive_iff hle).mp (goesOn_of_lt_taken hlt) hon
  exact sumsFit_stateAfter hle (by omega) (by omega) (by omega) read.2

/-- The stream ends, or fails, before the cap is reached. -/
theorem downlinkCapped_of_goesOn (hon : dataLimitOn env)
    (hgoes : GoesOn (receiveStep J desc env) (receiveStop desc env) noneReceived
      env.downlink.reads env.downlink.reads.length) : DownlinkCapped J desc env := by
  have hlimit := dataLimitByteDown_mem desc
  have hbuffer : bufferSize = 5000 := rfl
  have hmade : readsMade J desc env = env.downlink.reads := taken_of_goesOn hgoes
  have hbelow := (goesOn_receive_iff (le_refl _)).mp hgoes hon
  rw [List.take_length] at hbelow
  have hreceived : bytesReceived J desc env = bytesOf env.downlink.reads := by
    unfold bytesReceived
    rw [hmade]
  refine ⟨by omega, ⟨by omega, by omega⟩, fun _ _ hread => sumsFit_of_readsMade hon hread, ?_, ?_,
    fun _ _ => hreceived ▸ hbelow⟩
  · intro clock
    rw [hmade]
    refine sumsFit_stateAfter (le_refl _) ?_ (le_refl _) (by omega) clock
    rw [List.take_length]
    omega
  · intro exceeded st hreceive
    rw [receive_of_goesOn hgoes, receive] at hreceive
    obtain ⟨clock, -, hst⟩ := except_bind_eq_ok.mp hreceive
    cases hst
    have hnonneg := bytesOf_nonneg env.downlink.reads
    -- the end of the stream is counted as a read of -1 bytes
    have hend : (count J desc env clock (-1) (stateAfter (receiveStep J desc env) noneReceived
        env.downlink.reads env.downlink.reads.length)).totalRevSize =
          bytesOf env.downlink.reads - 1 := by
      show toInt (_ + -1) = _
      rw [totalRevSize_received, List.take_length, toInt_eq (x := bytesOf _) (by omega) (by omega)]
      exact toInt_eq (by omega) (by omega)
    rw [exceeds, hend, decide_eq_true_eq]
    exact iff_of_false (fun h => by omega) (by omega)

/-- A read reaches the cap. -/
theorem downlinkCapped_of_stops (hon : dataLimitOn env) {k : ℕ} {read : Chunk 5000 × SampleClock}
    (hk : env.downlink.reads[k]? = some read)
    (hstop : receiveStop desc env
      (stateAfter (receiveStep J desc env) noneReceived env.downlink.reads (k + 1)) read)
    (hgoes : GoesOn (receiveStep J desc env) (receiveStop desc env) noneReceived
      env.downlink.reads k) : DownlinkCapped J desc env := by
  have hlimit := dataLimitByteDown_mem desc
  have hbuffer : bufferSize = 5000 := rfl
  have hlt : k < env.downlink.reads.length := (List.getElem?_eq_some_iff.mp hk).1
  have hmade : readsMade J desc env = env.downlink.reads.take (k + 1) :=
    taken_of_stops hk hstop hgoes
  have hreceived : bytesReceived J desc env = bytesOf (env.downlink.reads.take (k + 1)) := by
    unfold bytesReceived
    rw [hmade]
  have hbelow := (goesOn_receive_iff hlt.le).mp hgoes hon
  have hstep := bytesOf_take_succ env.downlink.reads k
  -- with less the loop would have gone on
  have hreached : dataLimitByteDown desc ≤ bytesOf (env.downlink.reads.take (k + 1)) :=
    not_lt.mp fun hlow => not_goesOn_of_stops hk hstop ((goesOn_receive_iff hlt).mpr fun _ => hlow)
  refine ⟨by omega, ⟨by omega, by omega⟩, fun _ _ hread => sumsFit_of_readsMade hon hread, ?_, ?_,
    ?_⟩
  · -- a buffer more than the limit does not overflow the counter
    intro clock
    have hlength : (readsMade J desc env).length = k + 1 := by
      rw [hmade, List.length_take]
      omega
    rw [hlength]
    exact sumsFit_stateAfter (k := k + 1) hlt (by omega) (le_refl _) (by omega) clock
  · intro exceeded st hreceive
    rw [receive_of_stops hk hstop hgoes] at hreceive
    cases hreceive
    exact iff_of_true rfl (hreceived ▸ hreached)
  · intro e hreceive
    rw [receive_of_stops hk hstop hgoes] at hreceive
    cases hreceive

/-- The cap on what is received holds in every run of the downlink. -/
theorem downlinkCapped (hon : dataLimitOn env) : DownlinkCapped J desc env := by
  rcases goesOn_or_stops (receiveStep J desc env) (receiveStop desc env) noneReceived
      env.downlink.reads with hgoes | ⟨k, read, hk, hstop, hgoes⟩
  · exact downlinkCapped_of_goesOn hon hgoes
  · exact downlinkCapped_of_stops hon hk hstop hgoes

/-- Over a cellular network the cap holds in both directions. -/
theorem cap_holds (J : Platform) (desc : TCPThroughputDesc) (env : TCPThroughputEnv)
    (hwifi : env.wifi = false) : UplinkCapped desc env ∧ DownlinkCapped J desc env := by
  have hon : dataLimitOn env := by
    unfold dataLimitOn
    rw [hwifi]
    rfl
  exact ⟨uplinkCapped hon, downlinkCapped hon⟩

/-- The default parameters. -/
def defaults : TCPThroughputDesc where
  target := "m-lab.example"
  dir_up := false
  data_limit_mb_up := 5
  data_limit_mb_down := 10
  duration_period_sec := 15
  pkt_size_up_bytes := 1357
  sample_period_sec := 1
  slow_start_period_sec := 5
  tcp_timeout_sec := 30
  data_limit_mb_up_mem := by decide
  data_limit_mb_down_mem := by decide
  duration_period_sec_mem := by decide
  pkt_size_up_bytes_mem := by decide
  sample_period_sec_mem := by decide
  slow_start_period_sec_mem := by decide
  tcp_timeout_sec_le := by decide

/-- A server that is connected at once, over a cellular network, and answers
nothing but what it reads and sends. -/
def cellular (writes : List ℤ) (reads : List (Chunk 5000 × SampleClock))
    (last : Except IoFailure SampleClock) : TCPThroughputEnv where
  wifi := false
  config := ⟨.ok (), .ok none, .ok ()⟩
  uplink := ⟨.ok (), writes, ⟨none, none⟩, .ok (), .ok none, .ok ()⟩
  downlink := ⟨.ok (), reads, last, 0, .ok ()⟩
  startTime := 1000
  device := ⟨0, some []⟩

@[simp] theorem cellular_reads (writes : List ℤ) (reads : List (Chunk 5000 × SampleClock))
    (last : Except IoFailure SampleClock) : (cellular writes reads last).downlink.reads = reads :=
  rfl

/-- Bytes sent in time that reach the cap end the loop of writes. -/
theorem exists_send_of_reached (hon : dataLimitOn env)
    (htime : ∀ t ∈ env.uplink.writes, elapsed env t < totalDuration desc)
    (hreached : dataLimitByteUp desc ≤ env.uplink.writes.length * desc.pkt_size_up_bytes) :
    ∃ endTime, send desc env env.uplink.writes 0 = .ok (true, endTime) := by
  rcases goesOn_or_stops (sendStep desc) (sendStop desc env) 0 env.uplink.writes with
    hgoes | ⟨k, endTime, hk, hstop, hgoes⟩
  · exact absurd (((goesOn_send_iff (le_refl _)).mp hgoes).1 hon) (not_lt.mpr hreached)
  · -- the time is not over, so it is the cap that stops the loop
    have hintime := not_le.mpr (htime endTime (List.mem_of_getElem? hk))
    have hlimit := (of_decide_eq_true hstop).resolve_right hintime
    refine ⟨endTime, ?_⟩
    rw [send_of_stops hk hstop hgoes, decide_eq_true hlimit]

/-- Bytes received that reach the cap end the loop of reads. -/
theorem exists_receive_of_reached (J : Platform) (hon : dataLimitOn env)
    (hreached : dataLimitByteDown desc ≤ bytesOf env.downlink.reads) :
    ∃ st, receive J desc env env.downlink.reads noneReceived = .ok (true, st) := by
  rcases goesOn_or_stops (receiveStep J desc env) (receiveStop desc env) noneReceived
      env.downlink.reads with hgoes | ⟨k, read, hk, hstop, hgoes⟩
  · have hbelow := (goesOn_receive_iff (le_refl _)).mp hgoes hon
    rw [List.take_length] at hbelow
    omega
  · exact ⟨_, receive_of_stops hk hstop hgoes⟩

def fullBuffer : Chunk 5000 :=
  ⟨List.replicate 5000 0, List.ne_nil_of_length_pos (by rw [List.length_replicate]; decide),
    List.length_replicate.le⟩

/-- The clock stands still while a read is dealt with. -/
def tick (time : ℤ) : SampleClock := ⟨time, time, time, time, time⟩

/-- The buffer is filled once a second, from two seconds behind the slow start
on. -/
def fullReads (n : ℕ) : List (Chunk 5000 × SampleClock) :=
  (List.range n).map fun i : ℕ => (fullBuffer, tick (8000 + 1000 * (i : ℤ)))

/-- Full reads have whole buffers. -/
theorem bytesOf_fullReads (n : ℕ) : bytesOf (fullReads n) = n * 5000 := by
  have hsize : fullBuffer.val.length = 5000 := List.length_replicate
  unfold bytesOf fullReads
  simp only [List.map_map, Function.comp_def, hsize]
  rw [List.map_const', List.sum_replicate, List.length_range, nsmul_eq_mul]
  rfl

/-- Five megabytes and a bit more are sent within a second, and ten megabytes
and a bit more come in: both loops are ended by the cap. -/
def bothCaps : TCPThroughputEnv :=
  cellular (List.replicate 3864 2000) (fullReads 2098) (.ok (tick 2106000))

theorem cap_holds_bothCaps :
    (∃ endTime, send defaults bothCaps bothCaps.uplink.writes 0 = .ok (true, endTime)) ∧
      (∃ st, receive Platform.latin defaults bothCaps bothCaps.downlink.reads noneReceived =
        .ok (true, st)) ∧
      UplinkCapped defaults bothCaps ∧ DownlinkCapped Platform.latin defaults bothCaps := by
  refine ⟨exists_send_of_reached rfl ?_ ?_, exists_receive_of_reached Platform.latin rfl ?_,
    cap_holds Platform.latin defaults bothCaps rfl⟩
  · intro t ht
    rw [List.eq_of_mem_replicate ht]
    decide
  · have hlength : bothCaps.uplink.writes.length = 3864 := List.length_replicate
    rw [hlength]
    decide
  · unfold bothCaps
    rw [cellular_reads, bytesOf_fullReads]
    decide

end Cap

/-! ## The time window -/

section Window

/-- The milliseconds a test is allowed: the duration and the slow start. -/
def window (desc : TCPThroughputDesc) : ℤ :=
  1000 * (desc.duration_period_sec + desc.slow_start_period_sec)

/-- No write is started once the window is over, and a test that is not ended by
the cap or a failure has used it. -/
structure UplinkRespects (desc : TCPThroughputDesc) (env : TCPThroughputEnv) : Prop where
  starts : ∀ time ∈ continued (sendStep desc) (sendStop desc env) 0 env.uplink.writes,
    elapsed env time < window desc
  keeps : ∀ endTime, send desc env env.uplink.writes 0 = .ok (false, endTime) →
    window desc ≤ elapsed env endTime

/-- No read is started once the window is over, by the clock that is read last in
front of it; nothing ends the loop but the cap, the end of the stream or a
failure. -/
def DownlinkRespects (J : Platform) (desc : TCPThroughputDesc) (env : TCPThroughputEnv) : Prop :=
  ∀ read ∈ continued (receiveStep J desc env) (receiveStop desc env) noneReceived
    env.downlink.reads, elapsed env read.2.progress < window desc

/-- Write `k` is the first one behind which the time the loop asks for is over,
and the cap is not reached by then. -/
def TimedOut (desc : TCPThroughputDesc) (env : TCPThroughputEnv) (k : ℕ) (endTime : ℤ) : Prop :=
  env.uplink.writes[k]? = some endTime ∧
    (dataLimitOn env → (k + 1 : ℕ) * desc.pkt_size_up_bytes < dataLimitByteUp desc) ∧
    (∀ j < k, ∀ t, env.uplink.writes[j]? = some t → elapsed env t < totalDuration desc) ∧
    totalDuration desc ≤ elapsed env endTime

/-- The time the loop asks for is shorter than the window. -/
theorem totalDuration_lt_window (desc : TCPThroughputDesc) : totalDuration desc < window desc := by
  have hslow := desc.slow_start_period_sec_mem
  unfold totalDuration window ksec
  omega

/-- Where the cap was not reached before a write, its test is one of the bytes
sent. -/
theorem reached_iff {writes : List ℤ} {k : ℕ} (hk : k < writes.length)
    (hbelow : dataLimitOn env → k * desc.pkt_size_up_bytes < dataLimitByteUp desc) :
    (dataLimitOn env ∧ dataLimitByteUp desc ≤ stateAfter (sendStep desc) 0 writes (k + 1)) ↔
      ¬ (dataLimitOn env → (k + 1 : ℕ) * desc.pkt_size_up_bytes < dataLimitByteUp desc) := by
  have hpkt := desc.pkt_size_up_bytes_mem
  have hlimit := dataLimitByteUp_mem desc
  rw [Classical.not_imp, not_lt]
  refine and_congr_right fun hon => ?_
  have hnonneg : 0 ≤ (k : ℤ) * desc.pkt_size_up_bytes :=
    mul_nonneg (Int.natCast_nonneg k) (by omega)
  have hnext : ((k + 1 : ℕ) : ℤ) * desc.pkt_size_up_bytes =
      k * desc.pkt_size_up_bytes + desc.pkt_size_up_bytes := by
    push_cast
    ring
  have hlt := hbelow hon
  rw [totalSendSize_stateAfter hk, hnext, toInt_eq (by omega) (by omega)]

/-- The time ends the loop of writes. -/
theorem send_eq_false_iff {endTime : ℤ} : send desc env env.uplink.writes 0 = .ok (false, endTime) ↔
    ∃ k, TimedOut desc env k endTime := by
  constructor
  · intro hsend
    -- the loop is left by a write or goes on to the end of the writes
    rcases goesOn_or_stops (sendStep desc) (sendStop desc env) 0 env.uplink.writes with
      hgoes | ⟨k, t, hk, hstop, hgoes⟩
    · rw [send_of_goesOn hgoes] at hsend
      cases hsend
    · rw [send_of_stops hk hstop hgoes] at hsend
      have hsent := Prod.mk.inj (Except.ok.inj hsend)
      have hfree := of_decide_eq_false hsent.1
      have ht : t = endTime := hsent.2
      -- it was left with the limit not reached, so it was left for the time
      subst ht
      have hlt := (List.getElem?_eq_some_iff.mp hk).1
      obtain ⟨hbelow, htimes⟩ := (goesOn_send_iff hlt.le).mp hgoes
      refine ⟨k, hk, ?_, htimes, ?_⟩
      · rw [reached_iff hlt hbelow, not_not] at hfree
        exact hfree
      · exact (of_decide_eq_true hstop).resolve_left hfree
  · rintro ⟨k, hk, hbelow, htimes, hover⟩
    have hlt := (List.getElem?_eq_some_iff.mp hk).1
    have hpkt := desc.pkt_size_up_bytes_mem
    -- each packet is one of `pkt_size_up_bytes`, so the writes before reached less
    have hbelow' : dataLimitOn env → k * desc.pkt_size_up_bytes < dataLimitByteUp desc := by
      intro hon
      refine lt_of_le_of_lt ?_ (hbelow hon)
      push_cast
      linarith
    have hgoes := (goesOn_send_iff hlt.le).mpr ⟨hbelow', htimes⟩
    have hstop : sendStop desc env
        (stateAfter (sendStep desc) 0 env.uplink.writes (k + 1)) endTime :=
      decide_eq_true (Or.inr hover)
    have hfree := mt (reached_iff hlt hbelow').mp (not_not_intro hbelow)
    rw [send_of_stops hk hstop hgoes, decide_eq_false hfree]

/-- The uplink respects the window exactly when no write is ended by the time in
front of its end. -/
theorem uplinkRespects_iff : UplinkRespects desc env ↔
    ∀ k endTime, TimedOut desc env k endTime → window desc ≤ elapsed env endTime := by
  constructor
  · intro h k endTime htimedOut
    exact h.keeps endTime (send_eq_false_iff.mpr ⟨k, htimedOut⟩)
  · intro h
    refine ⟨fun time htime => ?_, fun endTime hsend => ?_⟩
    · -- the time the loop asks for is over before the window is
      obtain ⟨k, hk, hgoes⟩ := mem_continued.mp htime
      have hgoesOn := sendStop_eq_false.mp (hgoes k (Nat.lt_succ_self k) time hk)
      exact hgoesOn.2.trans (totalDuration_lt_window desc)
    · obtain ⟨k, htimedOut⟩ := send_eq_false_iff.mp hsend
      exact h k endTime htimedOut

/-- The downlink respects it exactly when each read that is followed by another is
dealt with before its end. -/
theorem downlinkRespects_iff : DownlinkRespects J desc env ↔
    ∀ k read, env.downlink.reads[k]? = some read →
      (dataLimitOn env → bytesOf (env.downlink.reads.take (k + 1)) < dataLimitByteDown desc) →
        elapsed env read.2.progress < window desc := by
  unfold DownlinkRespects
  simp only [mem_continued]
  constructor
  · intro h k read hk hbelow
    have hlt := (List.getElem?_eq_some_iff.mp hk).1
    exact h read ⟨k, hk, (goesOn_receive_iff hlt).mpr hbelow⟩
  · rintro h read ⟨k, hk, hgoes⟩
    have hlt := (List.getElem?_eq_some_iff.mp hk).1
    exact h k read hk ((goesOn_receive_iff hlt).mp hgoes)

/-- Both directions respect the window when no write that is ended by the time
ends in front of it, and every read behind which the loop reads again has been
dealt with by then. -/
theorem respectsWindow_iff (J : Platform) (desc : TCPThroughputDesc) (env : TCPThroughputEnv) :
    (UplinkRespects desc env ∧ DownlinkRespects J desc env) ↔
      (∀ k endTime, TimedOut desc env k endTime → window desc ≤ elapsed env endTime) ∧
        ∀ k read, env.downlink.reads[k]? = some read →
          (dataLimitOn env → bytesOf (env.downlink.reads.take (k + 1)) < dataLimitByteDown desc) →
            elapsed env read.2.progress < window desc := by
  rw [uplinkRespects_iff, downlinkRespects_iff]

/-- Fifteen seconds and ten milliseconds behind the start, a default upload of
twenty seconds is over; a download reads on when the twenty seconds are. -/
theorem window_missed :
    ¬ UplinkRespects defaults (cellular [16010] [] (.error ⟨none, none⟩)) ∧
      ¬ DownlinkRespects Platform.latin defaults
        (cellular [] [(⟨[0], by decide⟩, tick 21000)] (.error ⟨none, none⟩)) := by
  constructor
  · intro h
    have hsend : send defaults (cellular [16010] [] (.error ⟨none, none⟩)) [16010] 0 =
        .ok (false, 16010) := by
      decide
    exact absurd (h.keeps 16010 hsend) (by decide)
  · intro h
    have hlate := downlinkRespects_iff.mp h 0 _ rfl fun _ => by decide
    exact absurd hlate (by decide)

end Window

end TCPThroughputTask

end MobiPerf.Measurements
