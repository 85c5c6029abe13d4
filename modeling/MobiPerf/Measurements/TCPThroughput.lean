import MobiPerf.Measurements.Result

/-!
# Measurements.TCPThroughput — the throughput test

The server's version is read over one socket; then bytes are sent over a second
one and the server's samples read, or bytes are received over it and sampled by
the clock. Every socket is closed behind the body it was opened for.

* `TCPThroughputTask.contained_iff`: no other exception leaves the call when the
  timeout is not negative, what the server writes is as long in letters as in
  bytes, its samples are finite numbers, a failure to connect has a cause where the
  cause is logged, and a test that completes finds a list of the cells around the
  phone;
* `TCPThroughputTask.shown`: every result can be shown.
-/

namespace MobiPerf.Measurements

open Lib Scheduler

/-! ## The environment -/

/-- A socket the client only reads from once: no bytes are read at the end of the
stream. -/
structure ConfigSocket where
  connect : Except IoFailure Unit
  read : Except IoFailure (Option (Chunk 5000))
  close : Except IoFailure Unit

/-- The writes that go through, by the clock after each; the next one fails. The
clock goes on, so that a test makes finitely many of them. `finish` is what
writing the last message comes to. -/
structure UplinkSocket where
  connect : Except IoFailure Unit
  writes : List ℤ
  failure : IoFailure
  finish : Except IoFailure Unit
  read : Except IoFailure (Option (Chunk 5000))
  close : Except IoFailure Unit

/-- The clock, as it is read behind one read of the socket: up to four times by
`updateSize`, and last for the progress, before the loop reads again. -/
structure SampleClock where
  arrival : ℤ
  sampleStart : ℤ
  sampleEnd : ℤ
  restart : ℤ
  progress : ℤ

/-- `last` is the end of the stream, or a failure. -/
structure DownlinkSocket where
  connect : Except IoFailure Unit
  reads : List (Chunk 5000 × SampleClock)
  last : Except IoFailure SampleClock
  endTime : ℤ
  close : Except IoFailure Unit

structure TCPThroughputEnv where
  wifi : Bool
  config : ConfigSocket
  uplink : UplinkSocket
  downlink : DownlinkSocket
  startTime : ℤ
  device : Device

namespace TCPThroughputTask

def portDownlink : ℕ := 6001

def portUplink : ℕ := 6002

def portConfig : ℕ := 6003

def bufferSize : ℕ := 5000

def ksec : ℤ := 1000

def kbyte : ℤ := 1024

/-! ## Sockets and messages -/

def thrown {α : Type} : Except IoFailure α → Except JavaException α
  | .ok a => .ok a
  | .error failure => .error (.io failure)

def timeoutMillis (desc : TCPThroughputDesc) : ℤ := toInt (desc.tcp_timeout_sec * ksec)

/-- The timeout is checked before anything is connected. -/
def buildUpSocket (desc : TCPThroughputDesc) (connect : Except IoFailure Unit) :
    Except JavaException Unit :=
  if timeoutMillis desc < 0 then .error (.illegalArgument "timeout < 0") else thrown connect

/-- The length of a letter in a string: two where it is written as a pair. -/
def units (c : Char) : ℕ := if c.toNat < 2 ^ 16 then 1 else 2

/-- `s.substring(0, n)`. Half of a pair is no letter; the replacement character
stands for it. -/
def substring : ℕ → List Char → Option (List Char)
  | 0, _ => some []
  | _ + 1, [] => none
  | n + 1, c :: s =>
    if units c = 1 then (substring n s).map (c :: ·)
    else
      match n with
      | 0 => some [Char.ofNat 0xFFFD]
      | n + 1 => (substring n s).map (c :: ·)

/-- The buffer behind the bytes read is zero. -/
def buffer (bytes : Chunk 5000) : List UInt8 :=
  bytes.val ++ List.replicate (bufferSize - bytes.val.length) 0

/-- As many letters of the buffer's text as bytes were read. -/
def message (J : Platform) (bytes : Chunk 5000) : Except JavaException String :=
  match substring bytes.val.length (J.newString (buffer bytes)).toList with
  | some s => .ok (String.ofList s)
  | none => .error .stringIndexOutOfBounds

def portError (what : String) (desc : TCPThroughputDesc) (port : ℕ) : String :=
  what ++ " at " ++ desc.target ++ " with port " ++ toString port

def acquireServerConfig (J : Platform) (desc : TCPThroughputDesc) (env : TCPThroughputEnv) :
    Except JavaException (Option String) := do
  catchIo (fun _ =>
    .error (.measurementError (portError "Error open uplink socket" desc portConfig)))
    (buildUpSocket desc env.config.connect)
  tryFinally
    (catchIo (fun _ => .error
        (.measurementError ("Error to acquire configuration from " ++ desc.target))) (do
      match ← thrown env.config.read with
      | none => .ok none
      | some bytes => do
        let serverVersion ← message J bytes
        .ok (some serverVersion)))
    (thrown env.config.close)

/-! ## Samples -/

/-- What a transfer leaves in the task. -/
structure Transfer where
  samplingResults : List Value
  dataLimitExceeded : Bool
  taskDuration : Value

/-- Behind the values that are not larger. -/
def insertWithOrder : List Value → Value → List Value
  | [], item => [item]
  | x :: array, item => if item.lt x then item :: x :: array else x :: insertWithOrder array item

def dataLimitOn (env : TCPThroughputEnv) : Bool := !env.wifi

/-- Only the first summand is taken in milliseconds. -/
def totalDuration (desc : TCPThroughputDesc) : ℤ :=
  ksec * desc.duration_period_sec + desc.slow_start_period_sec

/-! ## Uplink -/

def dataLimitByteUp (desc : TCPThroughputDesc) : ℤ := desc.data_limit_mb_up * kbyte * kbyte

/-- The loop of writes, with `totalSendSize` bytes sent so far: whether the limit
ended it, and the clock then. -/
def send (desc : TCPThroughputDesc) (env : TCPThroughputEnv) :
    List ℤ → ℤ → Except JavaException (Bool × ℤ)
  | [], _ => .error (.io env.uplink.failure)
  | endTime :: writes, totalSendSize =>
    let totalSendSize := toInt (totalSendSize + desc.pkt_size_up_bytes)
    if dataLimitOn env ∧ dataLimitByteUp desc ≤ totalSendSize then .ok (true, endTime)
    else if toLong (endTime - env.startTime) < totalDuration desc then
      send desc env writes totalSendSize
    else .ok (false, endTime)

def readSample (J : Platform) (samplingResults : List Value) (sample : String) :
    Except JavaException (List Value) := do
  let sampleResult ← J.parseDouble sample
  .ok (insertWithOrder samplingResults sampleResult)

/-- The samples of the server's reply. -/
def readSamples (J : Platform) : Option (Chunk 5000) → Except JavaException (List Value)
  | none => .ok []
  | some bytes => do
    let resultMsgStr ← message J bytes
    (split '#' resultMsgStr).foldlM (readSample J) []

def upload (J : Platform) (desc : TCPThroughputDesc) (env : TCPThroughputEnv) :
    Except JavaException Transfer := do
  let (dataLimitExceeded, endTime) ← send desc env env.uplink.writes 0
  thrown env.uplink.finish
  let reply ← thrown env.uplink.read
  let samplingResults ← readSamples J reply
  .ok {
    samplingResults, dataLimitExceeded
    taskDuration :=
      J.double.div (J.double.ofInt (toLong (endTime - env.startTime))) (J.double.ofInt 1000) }

def uplink (J : Platform) (desc : TCPThroughputDesc) (env : TCPThroughputEnv) :
    Except JavaException Transfer := do
  catchIo (fun _ =>
    .error (.measurementError (portError "Error open uplink socket" desc portUplink)))
    (buildUpSocket desc env.uplink.connect)
  tryFinally
    (catchIo (fun _ => .error
        (.measurementError ("Error to send/receive data to " ++ desc.target)))
      (upload J desc env))
    (thrown env.uplink.close)

/-! ## Downlink -/

/-- What the loop of reads keeps. -/
structure Receiving where
  accumulativeSize : ℤ
  startSampleTime : ℤ
  samplingResults : List Value
  totalRevSize : ℤ

def dataLimitByteDown (desc : TCPThroughputDesc) : ℤ := kbyte * kbyte * desc.data_limit_mb_down

/-- The first bytes behind the slow start open a sample. -/
def startSample (clock : SampleClock) (st : Receiving) : Receiving :=
  if st.startSampleTime = 0 then
    { st with startSampleTime := clock.sampleStart, accumulativeSize := 0 }
  else st

/-- A sample is taken once its period is over, and none while TCP starts. -/
def updateSize (J : Platform) (desc : TCPThroughputDesc) (env : TCPThroughputEnv)
    (clock : SampleClock) (delta : ℤ) (st : Receiving) : Receiving :=
  let gtime := J.double.ofInt (toLong (clock.arrival - env.startTime))
  if gtime.lt (.finite (desc.slow_start_period_sec * ksec)) then st
  else
    let st := startSample clock st
    let accumulativeSize := toInt (st.accumulativeSize + delta)
    let time := J.double.ofInt (toLong (clock.sampleEnd - st.startSampleTime))
    if time.lt (.finite (desc.sample_period_sec * ksec)) then { st with accumulativeSize }
    else
      let throughput :=
        J.double.div (J.double.mul (J.double.ofInt accumulativeSize) (.finite 8)) time
      { st with
        startSampleTime := clock.restart
        accumulativeSize := 0
        samplingResults := insertWithOrder st.samplingResults throughput }

/-- One read, of `readBytes` bytes or of -1 at the end. -/
def count (J : Platform) (desc : TCPThroughputDesc) (env : TCPThroughputEnv)
    (clock : SampleClock) (readBytes : ℤ) (st : Receiving) : Receiving :=
  { updateSize J desc env clock readBytes st with
    totalRevSize := toInt (st.totalRevSize + readBytes) }

def exceeds (desc : TCPThroughputDesc) (env : TCPThroughputEnv) (st : Receiving) : Bool :=
  dataLimitOn env ∧ dataLimitByteDown desc ≤ st.totalRevSize

def receive (J : Platform) (desc : TCPThroughputDesc) (env : TCPThroughputEnv) :
    List (Chunk 5000 × SampleClock) → Receiving → Except JavaException (Bool × Receiving)
  | [], st => do
    let clock ← thrown env.downlink.last
    let st := count J desc env clock (-1) st
    .ok (exceeds desc env st, st)
  | (bytes, clock) :: reads, st =>
    let st := count J desc env clock bytes.val.length st
    if exceeds desc env st then .ok (true, st) else receive J desc env reads st

def download (J : Platform) (desc : TCPThroughputDesc) (env : TCPThroughputEnv) :
    Except JavaException Transfer := do
  let (dataLimitExceeded, st) ← receive J desc env env.downlink.reads ⟨0, 0, [], 0⟩
  .ok {
    samplingResults := st.samplingResults
    dataLimitExceeded
    taskDuration :=
      J.double.div
        (J.double.sub (J.double.ofInt (toLong env.downlink.endTime))
          (J.double.ofInt (toLong env.startTime)))
        (J.double.ofInt 1000) }

/-- The log asks for the cause of the failure: one without is dereferenced. -/
def openFailed (desc : TCPThroughputDesc) (failure : IoFailure) : Except JavaException Unit :=
  match failure.cause with
  | none => .error .nullPointer
  | some _ =>
    .error (.measurementError (portError "Error to open downlink socket" desc portDownlink))

def downlink (J : Platform) (desc : TCPThroughputDesc) (env : TCPThroughputEnv) :
    Except JavaException Transfer := do
  catchIo (openFailed desc) (buildUpSocket desc env.downlink.connect)
  tryFinally
    (catchIo (fun _ => .error (.measurementError ("Error to receive data from " ++ desc.target)))
      (download J desc env))
    (thrown env.downlink.close)

/-! ## The call -/

def transfer (J : Platform) (desc : TCPThroughputDesc) (env : TCPThroughputEnv) :
    Except JavaException Transfer :=
  if desc.dir_up then uplink J desc env else downlink J desc env

def report (J : Platform) (desc : TCPThroughputDesc) (env : TCPThroughputEnv)
    (serverVersion : String) (done : Transfer) : Except JavaException MeasurementResult := do
  let result ← newResult env.device .tcpThroughput true (.tcpThroughput desc)
  let result ← result.addResult J "tcp_speed_results" (.doubles done.samplingResults)
  let result ← result.addResult J "data_limit_exceeded" (.boolean done.dataLimitExceeded)
  let result ← result.addResult J "duration" (.double done.taskDuration)
  result.addResult J "server_version" (.string (some serverVersion))

/-- The version and the transfer. -/
def run (J : Platform) (desc : TCPThroughputDesc) (env : TCPThroughputEnv) :
    Except JavaException (String × Transfer) := do
  match ← acquireServerConfig J desc env with
  | none => .error (.measurementError "Fail to acquire server configuration")
  | some serverVersion => do
    let done ← transfer J desc env
    .ok (serverVersion, done)

/-- Nothing in the body waits, so that nothing interrupts it. -/
def call (J : Platform) (desc : TCPThroughputDesc) (env : TCPThroughputEnv) :
    Except JavaException MeasurementResult := do
  let (serverVersion, done) ← catchIo
    (fun _ => .error (.measurementError "Error close the socket for tcpthroughput"))
    (run J desc env)
  report J desc env serverVersion done

/-! ## Exceptions -/

variable {J : Platform} {desc : TCPThroughputDesc} {env : TCPThroughputEnv}

/-- The length of a text in a string. -/
def textUnits (s : List Char) : ℕ := (s.map units).sum

/-- The first characters can be taken where there are that many. -/
theorem substring_isSome_iff {n : ℕ} {s : List Char} :
    (substring n s).isSome ↔ n ≤ textUnits s := by
  induction s generalizing n with
  | nil => cases n <;> simp [substring, textUnits]
  | cons c s ih =>
      -- a character above the basic plane takes two units of the length
      have hunits : units c = 1 ∨ units c = 2 := by
        unfold units
        split
        · exact Or.inl rfl
        · exact Or.inr rfl
      have hsum : textUnits (c :: s) = units c + textUnits s := by simp [textUnits]
      rw [hsum]
      cases n with
      | zero => simp [substring]
      | succ n =>
          rcases hunits with hone | htwo
          · have hcons : substring (n + 1) (c :: s) = (substring n s).map (c :: ·) := by
              cases n <;> simp [substring, hone]
            rw [hcons, Option.isSome_map, ih, hone]
            omega
          · rw [htwo]
            cases n with
            -- the cut falls inside the character
            | zero =>
                have hpair : (substring 1 (c :: s)).isSome := by simp [substring, htwo]
                exact iff_of_true hpair (by omega)
            | succ n =>
                have hcons : substring (n + 2) (c :: s) = (substring n s).map (c :: ·) := by
                  simp [substring, htwo]
                rw [hcons, Option.isSome_map, ih]
                omega

/-- The buffer's text has at least as many letters as bytes were read. -/
def Decodes (J : Platform) (bytes : Chunk 5000) : Prop :=
  bytes.val.length ≤ textUnits (J.newString (buffer bytes)).toList

/-- Bytes that decode have a text, and only they. -/
theorem exists_message_iff {bytes : Chunk 5000} :
    (∃ text, message J bytes = .ok text) ↔ Decodes J bytes := by
  rw [Decodes, ← substring_isSome_iff, Option.isSome_iff_exists]
  unfold message
  cases substring bytes.val.length (J.newString (buffer bytes)).toList with
  | none => simp
  | some s => simp

/-- Others throw what no `catch` clause expects. -/
theorem message_expected_iff {bytes : Chunk 5000} :
    FailsOnly JavaException.Expected (message J bytes) ↔ Decodes J bytes := by
  rw [← exists_message_iff]
  unfold message
  cases substring bytes.val.length (J.newString (buffer bytes)).toList with
  | none =>
      rw [failsOnly_error]
      simp [JavaException.Expected, JavaException.isMeasurementError, JavaException.isIo]
  | some s => exact iff_of_true failsOnly_ok ⟨_, rfl⟩

/-- An I/O failure is an exception that is expected. -/
theorem thrown_expected {α : Type} {x : Except IoFailure α} :
    FailsOnly JavaException.Expected (thrown x) := by
  cases x with
  | ok a => exact failsOnly_ok
  | error failure => exact failsOnly_error.mpr (Or.inr rfl)

/-- It is the only way for an operation to end without a value. -/
theorem thrown_eq_ok {α : Type} {x : Except IoFailure α} {a : α} :
    thrown x = .ok a ↔ x = .ok a := by
  cases x with
  | ok b => simp [thrown]
  | error failure => simp [thrown]

/-- A socket takes no negative timeout. -/
theorem buildUpSocket_expected_iff {connect : Except IoFailure Unit} :
    FailsOnly JavaException.Expected (buildUpSocket desc connect) ↔ 0 ≤ timeoutMillis desc := by
  unfold buildUpSocket
  split
  · rename_i hneg
    rw [failsOnly_error]
    simpa [JavaException.Expected, JavaException.isMeasurementError, JavaException.isIo] using hneg
  · rename_i hpos
    exact iff_of_true thrown_expected (not_lt.mp hpos)

/-- With a timeout it is open when it can connect. -/
theorem buildUpSocket_eq_ok (h : 0 ≤ timeoutMillis desc) {connect : Except IoFailure Unit} :
    buildUpSocket desc connect = .ok () ↔ connect = .ok () := by
  rw [buildUpSocket, if_neg (not_lt.mpr h)]
  exact thrown_eq_ok

/-! ### The configuration -/

/-- The version is read: something comes over the first socket, which opens and
closes. -/
structure Configured (env : TCPThroughputEnv) (bytes : Chunk 5000) : Prop where
  connected : env.config.connect = .ok ()
  read : env.config.read = .ok (some bytes)
  closed : env.config.close = .ok ()

/-- What is read of the configuration. -/
def readVersion (J : Platform) (env : TCPThroughputEnv) : Except JavaException (Option String) := do
  match ← thrown env.config.read with
  | none => .ok none
  | some bytes => do
    let serverVersion ← message J bytes
    .ok (some serverVersion)

/-- The server's answer, if it has one, must decode. -/
theorem readVersion_expected_iff : FailsOnly JavaException.Expected (readVersion J env) ↔
    ∀ bytes, env.config.read = .ok (some bytes) → Decodes J bytes := by
  unfold readVersion
  rw [failsOnly_bind]
  simp only [thrown_eq_ok, thrown_expected, true_and]
  constructor
  · intro h bytes hread
    exact message_expected_iff.mp (failsOnly_bind.mp (h _ hread)).1
  · intro h reply hread
    cases reply with
    | none => exact failsOnly_ok
    | some bytes =>
        exact failsOnly_bind.mpr ⟨message_expected_iff.mpr (h bytes hread), fun _ _ => failsOnly_ok⟩

/-- Its text is the version. -/
theorem readVersion_eq_ok {serverVersion : String} :
    readVersion J env = .ok (some serverVersion) ↔
      ∃ bytes, env.config.read = .ok (some bytes) ∧ message J bytes = .ok serverVersion := by
  unfold readVersion
  rw [except_bind_eq_ok]
  simp only [thrown_eq_ok]
  constructor
  · rintro ⟨reply, hread, hversion⟩
    cases reply with
    | none => cases hversion
    | some bytes =>
        obtain ⟨text, hmessage, htext⟩ := except_bind_eq_ok.mp hversion
        cases htext
        exact ⟨bytes, hread, hmessage⟩
  · rintro ⟨bytes, hread, hmessage⟩
    exact ⟨some bytes, hread, except_bind_eq_ok.mpr ⟨_, hmessage, rfl⟩⟩

/-- A body behind the opening of its socket and before its closing. -/
theorem ends_socket_iff {α : Type} {P : α → Prop} {connect close : Except IoFailure Unit}
    {failed : IoFailure → Except JavaException Unit} {message : String}
    {body : Except JavaException α} (htimeout : 0 ≤ timeoutMillis desc)
    (hfailed : ∀ failure, failed failure ≠ .ok ()) :
    Ends (do
      catchIo failed (buildUpSocket desc connect)
      tryFinally (catchIo (fun _ => .error (.measurementError message)) body) (thrown close))
        P JavaException.Expected ↔
      FailsOnly JavaException.Expected (catchIo failed (buildUpSocket desc connect)) ∧
        (connect = .ok () → close = .ok () → Ends body P JavaException.Expected) := by
  have hopen : catchIo failed (buildUpSocket desc connect) = .ok () ↔ connect = .ok () := by
    rw [catchIo_eq_ok hfailed, buildUpSocket_eq_ok htimeout]
  rw [ends_bind_iff]
  refine and_congr_right fun _ => ?_
  rw [ends_tryFinally thrown_expected, ends_catchIo, thrown_eq_ok]
  constructor
  · intro h hconnect
    exact h () (hopen.mpr hconnect)
  · intro h u hu
    exact h (hopen.mp hu)

/-- Such a body has its result when the socket opens and closes. -/
theorem exists_socket_iff {α : Type} {connect close : Except IoFailure Unit}
    {failed : IoFailure → Except JavaException Unit} {message : String}
    {body : Except JavaException α} (htimeout : 0 ≤ timeoutMillis desc)
    (hfailed : ∀ failure, failed failure ≠ .ok ()) :
    (∃ a, (do
      catchIo failed (buildUpSocket desc connect)
      tryFinally (catchIo (fun _ => .error (.measurementError message)) body) (thrown close)) =
        .ok a) ↔ connect = .ok () ∧ close = .ok () ∧ ∃ a, body = .ok a := by
  simp only [exists_bind_eq_ok, catchIo_eq_ok hfailed, buildUpSocket_eq_ok htimeout,
    tryFinally_eq_ok, thrown_eq_ok]
  constructor
  · rintro ⟨⟨⟩, hconnect, a, hclose, hbody⟩
    exact ⟨hconnect, hclose, a, (catchIo_eq_ok (by simp)).mp hbody⟩
  · rintro ⟨hconnect, hclose, a, hbody⟩
    exact ⟨(), hconnect, a, hclose, (catchIo_eq_ok (by simp)).mpr hbody⟩

/-- The handlers that only report leave no exception but for the timeout. -/
theorem open_expected {connect : Except IoFailure Unit} {message : String}
    (htimeout : 0 ≤ timeoutMillis desc) :
    FailsOnly JavaException.Expected
      (catchIo (fun _ => .error (.measurementError message)) (buildUpSocket desc connect)) := by
  rw [failsOnly_iff_ends, ends_catchIo, ← failsOnly_iff_ends]
  exact buildUpSocket_expected_iff.mpr htimeout

/-- The version is acquired or an expected exception thrown, unless the answer does
not decode. -/
theorem acquireServerConfig_expected_iff (htimeout : 0 ≤ timeoutMillis desc) :
    FailsOnly JavaException.Expected (acquireServerConfig J desc env) ↔
      ∀ bytes, Configured env bytes → Decodes J bytes := by
  rw [failsOnly_iff_ends]
  unfold acquireServerConfig
  rw [ends_socket_iff htimeout (by simp), ← failsOnly_iff_ends]
  show _ ∧ (_ → _ → FailsOnly _ (readVersion J env)) ↔ _
  rw [readVersion_expected_iff]
  constructor
  · rintro ⟨-, h⟩ bytes ⟨hconnect, hread, hclose⟩
    exact h hconnect hclose bytes hread
  · intro h
    exact ⟨open_expected htimeout, fun hconnect hclose bytes hread =>
      h bytes ⟨hconnect, hread, hclose⟩⟩

/-- It is acquired when the server answers with a text. -/
theorem acquireServerConfig_eq_ok (htimeout : 0 ≤ timeoutMillis desc) {serverVersion : String} :
    acquireServerConfig J desc env = .ok (some serverVersion) ↔
      ∃ bytes, Configured env bytes ∧ message J bytes = .ok serverVersion := by
  unfold acquireServerConfig
  rw [except_bind_eq_ok]
  show (∃ u, _ ∧ tryFinally (catchIo _ (readVersion J env)) _ = _) ↔ _
  simp only [tryFinally_eq_ok, thrown_eq_ok]
  rw [catchIo_eq_ok (by simp), readVersion_eq_ok]
  constructor
  · rintro ⟨u, hopen, hclose, bytes, hread, hmessage⟩
    have hconnect := (buildUpSocket_eq_ok htimeout).mp ((catchIo_eq_ok (by simp)).mp hopen)
    exact ⟨bytes, ⟨hconnect, hread, hclose⟩, hmessage⟩
  · rintro ⟨bytes, ⟨hconnect, hread, hclose⟩, hmessage⟩
    refine ⟨(), ?_, hclose, bytes, hread, hmessage⟩
    exact (catchIo_eq_ok (by simp)).mpr ((buildUpSocket_eq_ok htimeout).mpr hconnect)

/-! ### Samples -/

/-- A value of the clock, or the difference of two. -/
theorem within_long (n : ℤ) : (J.double.ofInt (toLong n)).Within 63 := by
  apply Rounding.within_ofInt (by decide)
  unfold toLong
  rw [abs_le, Int.bmod_def]
  split <;> omega

def Transfer.Finite (done : Transfer) : Prop :=
  (∀ x ∈ done.samplingResults, x.isFinite) ∧ done.taskDuration.isFinite

/-- An insertion adds the item and nothing else. -/
theorem mem_insertWithOrder {array : List Value} {item y : Value} :
    y ∈ insertWithOrder array item ↔ y = item ∨ y ∈ array := by
  induction array with
  | nil => simp [insertWithOrder]
  | cons x array ih =>
      unfold insertWithOrder
      split
      · exact List.mem_cons
      · rw [List.mem_cons, ih, List.mem_cons]
        exact or_left_comm

/-- A text that is read as a finite number. -/
def IsNumber (J : Platform) (sample : String) : Prop :=
  ∃ x, readDecimal sample = some x ∧ (J.double.convert x).isFinite

/-- Samples are read as finite values exactly when each of them is a number. -/
theorem ends_readSample_iff {samples : List String} {array : List Value} :
    Ends (samples.foldlM (readSample J) array) (fun xs => ∀ x ∈ xs, x.isFinite)
        JavaException.Expected ↔
      (∀ x ∈ array, x.isFinite) ∧ ∀ sample ∈ samples, IsNumber J sample := by
  induction samples generalizing array with
  | nil => simp [Ends, pure, Except.pure]
  | cons sample samples ih =>
      rw [List.foldlM_cons, ends_bind_iff, List.forall_mem_cons]
      -- a sample that is no number is an exception the caller does not expect
      cases hread : readDecimal sample with
      | none =>
          have hstep : readSample J array sample = .error (numberFormat sample) := by
            simp [readSample, Platform.parseDouble, hread, bind, Except.bind]
          rw [hstep, failsOnly_error]
          refine iff_of_false (fun h => ?_) (fun h => ?_)
          · rcases h.1 with h | h <;> cases h
          · obtain ⟨x, hx, -⟩ := h.2.1
            rw [hread] at hx
            cases hx
      | some x =>
          have hstep : readSample J array sample =
              .ok (insertWithOrder array (J.double.convert x)) := by
            simp [readSample, Platform.parseDouble, hread, bind, Except.bind]
          have hnumber : IsNumber J sample ↔ (J.double.convert x).isFinite := by
            simp [IsNumber, hread]
          rw [hstep, hnumber]
          simp only [Except.ok.injEq, forall_eq', ih, mem_insertWithOrder, forall_eq_or_imp]
          constructor
          · rintro ⟨-, ⟨hx, harray⟩, hsamples⟩
            exact ⟨harray, hx, hsamples⟩
          · rintro ⟨harray, hx, hsamples⟩
            exact ⟨failsOnly_ok, ⟨hx, harray⟩, hsamples⟩

/-- The reply is a text of numbers. -/
def Numbers (J : Platform) (bytes : Chunk 5000) : Prop :=
  Decodes J bytes ∧
    ∀ text, message J bytes = .ok text → ∀ sample ∈ split '#' text, IsNumber J sample

/-- So is a reply, when there is one. -/
theorem ends_readSamples_iff {reply : Option (Chunk 5000)} :
    Ends (readSamples J reply) (fun xs => ∀ x ∈ xs, x.isFinite) JavaException.Expected ↔
      ∀ bytes, reply = some bytes → Numbers J bytes := by
  cases reply with
  | none => exact iff_of_true (ends_ok (by simp)) (by simp)
  | some bytes =>
      show Ends (message J bytes >>= fun text => (split '#' text).foldlM (readSample J) []) _ _ ↔ _
      rw [ends_bind_iff, message_expected_iff]
      simp [ends_readSample_iff, Numbers]

/-- A text of numbers is read. -/
theorem exists_readSamples (reply : Option (Chunk 5000))
    (h : ∀ bytes, reply = some bytes → Numbers J bytes) :
    ∃ samples, readSamples J reply = .ok samples := by
  have hfold : ∀ (samples : List String) (array : List Value),
      (∀ sample ∈ samples, IsNumber J sample) →
        ∃ xs, samples.foldlM (readSample J) array = .ok xs := by
    intro samples
    induction samples with
    | nil => exact fun array _ => ⟨array, rfl⟩
    | cons sample samples ih =>
        intro array hall
        obtain ⟨⟨x, hx, -⟩, hrest⟩ := List.forall_mem_cons.mp hall
        obtain ⟨xs, hxs⟩ := ih (insertWithOrder array (J.double.convert x)) hrest
        refine ⟨xs, ?_⟩
        rw [List.foldlM_cons, readSample, Platform.parseDouble, hx]
        exact hxs
  cases reply with
  | none => exact ⟨[], rfl⟩
  | some bytes =>
      obtain ⟨hdecodes, hnumbers⟩ := h bytes rfl
      obtain ⟨text, htext⟩ := exists_message_iff.mpr hdecodes
      obtain ⟨xs, hxs⟩ := hfold (split '#' text) [] (hnumbers text htext)
      exact ⟨xs, except_bind_eq_ok.mpr ⟨text, htext, hxs⟩⟩

/-! ### Uplink -/

/-- After a write that brought the bytes sent to `totalSendSize`, the loop of
writes is over. -/
def Stops (desc : TCPThroughputDesc) (env : TCPThroughputEnv) (totalSendSize endTime : ℤ) : Prop :=
  (dataLimitOn env ∧ dataLimitByteUp desc ≤ totalSendSize) ∨
    totalDuration desc ≤ toLong (endTime - env.startTime)

/-- One of the writes that go through is the last one. -/
def Finishes (desc : TCPThroughputDesc) (env : TCPThroughputEnv) : Prop :=
  ∃ (k : ℕ) (endTime : ℤ), env.uplink.writes[k]? = some endTime ∧
    Stops desc env (toInt ((k + 1 : ℕ) * desc.pkt_size_up_bytes)) endTime

variable (desc env) in
/-- The uplink's loop ends normally at the first write behind which it stops. -/
theorem exists_send_iff (writes : List ℤ) (total : ℤ) :
    (∃ sent, send desc env writes (toInt total) = .ok sent) ↔
      ∃ k endTime, writes[k]? = some endTime ∧
        Stops desc env (toInt (total + (k + 1 : ℕ) * desc.pkt_size_up_bytes)) endTime := by
  induction writes generalizing total with
  | nil => simp [send]
  | cons endTime writes ih =>
      -- the counter wraps after each packet, as if it had wrapped once at the end
      have hsize : toInt (toInt total + desc.pkt_size_up_bytes) =
          toInt (total + desc.pkt_size_up_bytes) := Int.bmod_add_bmod
      -- either the first write ends the loop or the rest of the writes decide
      by_cases hstops : Stops desc env (toInt (total + desc.pkt_size_up_bytes)) endTime
      · refine iff_of_true ?_ ⟨0, endTime, rfl, by simpa using hstops⟩
        simp only [send, hsize]
        rcases hstops with hlimit | htime
        · exact ⟨_, if_pos hlimit⟩
        · rw [if_neg (not_lt.mpr htime)]
          split
          · exact ⟨_, rfl⟩
          · exact ⟨_, rfl⟩
      · have hrest : send desc env (endTime :: writes) (toInt total) =
            send desc env writes (toInt (total + desc.pkt_size_up_bytes)) := by
          unfold Stops at hstops
          rw [not_or, not_le] at hstops
          simp only [send, hsize]
          rw [if_neg hstops.1, if_pos hstops.2]
        rw [hrest, ih]
        constructor
        · rintro ⟨k, endTime', hk, hlast⟩
          refine ⟨k + 1, endTime', hk, ?_⟩
          convert hlast using 2
          push_cast
          ring
        · rintro ⟨k, endTime', hk, hlast⟩
          cases k with
          | zero =>
              cases hk
              exact absurd (by simpa using hlast) hstops
          | succ k =>
              refine ⟨k, endTime', hk, ?_⟩
              convert hlast using 2
              push_cast
              ring

/-- It does from its start when the writes go on that long. -/
theorem exists_sent_iff :
    (∃ sent, send desc env env.uplink.writes 0 = .ok sent) ↔ Finishes desc env := by
  have h := exists_send_iff desc env env.uplink.writes 0
  simpa [Finishes, toInt] using h

/-- Otherwise a write fails. -/
theorem send_expected {writes : List ℤ} {total : ℤ} :
    FailsOnly JavaException.Expected (send desc env writes total) := by
  induction writes generalizing total with
  | nil => exact failsOnly_error.mpr (Or.inr rfl)
  | cons endTime writes ih =>
      simp only [send]
      split
      · exact failsOnly_ok
      · split
        · exact ih
        · exact failsOnly_ok

/-- The server's reply is read: the loop of writes comes to its end, and nothing
fails behind it. -/
structure Replied (desc : TCPThroughputDesc) (env : TCPThroughputEnv) (bytes : Chunk 5000) :
    Prop where
  connected : env.uplink.connect = .ok ()
  finishes : Finishes desc env
  finished : env.uplink.finish = .ok ()
  read : env.uplink.read = .ok (some bytes)
  closed : env.uplink.close = .ok ()

/-- An upload that finishes reads the server's samples, which must be numbers. -/
theorem ends_upload_iff :
    Ends (upload J desc env) Transfer.Finite JavaException.Expected ↔
      (Finishes desc env → env.uplink.finish = .ok () →
        ∀ bytes, env.uplink.read = .ok (some bytes) → Numbers J bytes) := by
  have hduration : ∀ n, (J.double.div (J.double.ofInt (toLong n)) (J.double.ofInt 1000)).isFinite :=
    fun n => (Rounding.within_div_ofInt (l := 10) (by decide) (by decide) (within_long n)
      (by decide) (by norm_num)).isFinite
  unfold upload
  simp only [← exists_sent_iff, ends_bind_iff, send_expected, thrown_expected, thrown_eq_ok,
    true_and]
  constructor
  · rintro h ⟨sent, hsent⟩ hfinish bytes hread
    obtain ⟨hreads, hfinite⟩ := h sent hsent () hfinish (some bytes) hread
    refine ends_readSamples_iff.mp ⟨fun xs hxs => ?_, hreads⟩ bytes rfl
    exact ((hfinite xs hxs).1 _ rfl).1
  · intro h sent hsent u hfinish reply hread
    have hreads : Ends (readSamples J reply) (fun xs => ∀ x ∈ xs, x.isFinite)
        JavaException.Expected := by
      refine ends_readSamples_iff.mpr fun bytes hbytes => ?_
      exact h ⟨sent, hsent⟩ hfinish bytes (hbytes ▸ hread)
    exact ⟨hreads.2, fun xs hxs => ends_ok ⟨hreads.1 xs hxs, hduration _⟩⟩

/-- So does the uplink, once it is connected. -/
theorem ends_uplink_iff (htimeout : 0 ≤ timeoutMillis desc) :
    Ends (uplink J desc env) Transfer.Finite JavaException.Expected ↔
      ∀ bytes, Replied desc env bytes → Numbers J bytes := by
  unfold uplink
  rw [ends_socket_iff htimeout (by simp), ends_upload_iff]
  constructor
  · rintro ⟨-, h⟩ bytes ⟨hconnect, hfinishes, hfinish, hread, hclose⟩
    exact h hconnect hclose hfinishes hfinish bytes hread
  · intro h
    exact ⟨open_expected htimeout, fun hconnect hclose hfinishes hfinish bytes hread =>
      h bytes ⟨hconnect, hfinishes, hfinish, hread, hclose⟩⟩

/-- The upload comes to its end. -/
structure Uploaded (desc : TCPThroughputDesc) (env : TCPThroughputEnv) : Prop where
  connected : env.uplink.connect = .ok ()
  finishes : Finishes desc env
  finished : env.uplink.finish = .ok ()
  read : ∃ reply, env.uplink.read = .ok reply
  closed : env.uplink.close = .ok ()

/-- It has a result when it has sent all and received a reply. -/
theorem uplink_isOk_iff (htimeout : 0 ≤ timeoutMillis desc)
    (hnumbers : ∀ bytes, Replied desc env bytes → Numbers J bytes) :
    (∃ done, uplink J desc env = .ok done) ↔ Uploaded desc env := by
  unfold uplink
  rw [exists_socket_iff htimeout (by simp)]
  unfold upload
  simp only [exists_bind_eq_ok, thrown_eq_ok]
  constructor
  · rintro ⟨hconnect, hclose, sent, hsent, ⟨⟩, hfinish, reply, hread, -⟩
    exact ⟨hconnect, exists_sent_iff.mp ⟨sent, hsent⟩, hfinish, ⟨reply, hread⟩, hclose⟩
  · rintro ⟨hconnect, hfinishes, hfinish, ⟨reply, hread⟩, hclose⟩
    obtain ⟨sent, hsent⟩ := exists_sent_iff.mpr hfinishes
    obtain ⟨samples, hsamples⟩ := exists_readSamples (J := J) reply fun bytes hbytes =>
      hnumbers bytes ⟨hconnect, hfinishes, hfinish, hbytes ▸ hread, hclose⟩
    exact ⟨hconnect, hclose, sent, hsent, (), hfinish, reply, hread, samples, hsamples, _, rfl⟩

/-! ### Downlink -/

/-- One of the reads brings the bytes received to the limit. -/
def Fills (desc : TCPThroughputDesc) (env : TCPThroughputEnv) : Prop :=
  ∃ k < env.downlink.reads.length, dataLimitOn env ∧ dataLimitByteDown desc ≤
    toInt ((env.downlink.reads.take (k + 1)).map fun read => (read.1.val.length : ℤ)).sum

variable (J desc env) in
/-- The downlink's loop ends at the data limit or when the server closes. -/
theorem exists_receive_iff (reads : List (Chunk 5000 × SampleClock)) (total : ℤ) (st : Receiving)
    (hst : st.totalRevSize = toInt total) :
    (∃ done, receive J desc env reads st = .ok done) ↔
      (∃ k < reads.length, dataLimitOn env ∧ dataLimitByteDown desc ≤
        toInt (total + ((reads.take (k + 1)).map fun read => (read.1.val.length : ℤ)).sum)) ∨
      ∃ clock, env.downlink.last = .ok clock := by
  induction reads generalizing total st with
  | nil =>
      simp only [receive, exists_bind_eq_ok, thrown_eq_ok]
      simp
  | cons read reads ih =>
      have hsize : (count J desc env read.2 read.1.val.length st).totalRevSize =
          toInt (total + read.1.val.length) := by
        show toInt (st.totalRevSize + read.1.val.length) = _
        rw [hst]
        exact Int.bmod_add_bmod
      have hexceeds : exceeds desc env (count J desc env read.2 read.1.val.length st) = true ↔
          dataLimitOn env ∧
            dataLimitByteDown desc ≤ toInt (total + (read.1.val.length : ℤ)) := by
        unfold exceeds
        rw [hsize, decide_eq_true_iff]
      simp only [receive]
      split
      · -- this read reaches the limit
        rename_i hstop
        refine iff_of_true ⟨_, rfl⟩ (Or.inl ⟨0, Nat.succ_pos _, ?_⟩)
        simpa using hexceeds.mp hstop
      · rename_i hstop
        rw [ih (total + read.1.val.length) _ hsize]
        refine or_congr_left ?_
        constructor
        · rintro ⟨k, hk, hon, hlimit⟩
          refine ⟨k + 1, Nat.succ_lt_succ hk, hon, ?_⟩
          rwa [List.take_succ_cons, List.map_cons, List.sum_cons, ← add_assoc]
        · rintro ⟨k, hk, hon, hlimit⟩
          rw [List.take_succ_cons, List.map_cons, List.sum_cons, ← add_assoc] at hlimit
          cases k with
          | zero => exact absurd (hexceeds.mpr ⟨hon, by simpa using hlimit⟩) hstop
          | succ k => exact ⟨k, Nat.lt_of_succ_lt_succ hk, hon, hlimit⟩

/-- The download comes to its end: by the limit, or by that of the stream. -/
structure Downloaded (desc : TCPThroughputDesc) (env : TCPThroughputEnv) : Prop where
  connected : env.downlink.connect = .ok ()
  ends : Fills desc env ∨ ∃ clock, env.downlink.last = .ok clock
  closed : env.downlink.close = .ok ()

/-- The time between two samples is at least one millisecond. -/
theorem isFinite_throughput {size time : ℤ}
    (htime : (J.double.ofInt (toLong time)).lt (.finite (desc.sample_period_sec * ksec)) = false) :
    (J.double.div (J.double.mul (J.double.ofInt (toInt size)) (.finite 8))
      (J.double.ofInt (toLong time))).isFinite := by
  obtain ⟨q, hq, -⟩ := within_long (J := J) time
  rw [hq] at htime ⊢
  have hsize : (J.double.ofInt (toInt size)).Within 31 := by
    apply Rounding.within_ofInt (by decide)
    have hmem := toInt_mem size
    rw [abs_le]
    omega
  have hbits : (J.double.mul (J.double.ofInt (toInt size)) (.finite 8)).Within (31 + 3) :=
    Rounding.within_mul (by decide) hsize ⟨8, rfl, by norm_num⟩
  have hone : 1 ≤ |q| := by
    have hperiod : (1 : ℚ) ≤ desc.sample_period_sec := by
      exact_mod_cast desc.sample_period_sec_mem.1
    have hle : desc.sample_period_sec * ((ksec : ℤ) : ℚ) ≤ q := by
      simpa [Value.lt] using htime
    have hksec : ((ksec : ℤ) : ℚ) = 1000 := by
      unfold ksec
      norm_num
    rw [hksec] at hle
    exact le_trans (by linarith) (le_abs_self q)
  exact (Rounding.within_div (by decide) hbits hone).isFinite

/-- The start of a sample adds none. -/
theorem samplingResults_startSample (clock : SampleClock) (st : Receiving) :
    (startSample clock st).samplingResults = st.samplingResults := by
  unfold startSample
  split
  · rfl
  · rfl

/-- A sample that is added is finite. -/
theorem isFinite_count {clock : SampleClock} {readBytes : ℤ} {st : Receiving}
    (h : ∀ x ∈ st.samplingResults, x.isFinite) :
    ∀ x ∈ (count J desc env clock readBytes st).samplingResults, x.isFinite := by
  show ∀ x ∈ (updateSize J desc env clock readBytes st).samplingResults, _
  rw [← samplingResults_startSample clock] at h
  simp only [updateSize]
  split
  · rwa [samplingResults_startSample] at h
  · generalize startSample clock st = st at h
    split
    · exact h
    · rename_i htime
      rw [Bool.not_eq_true] at htime
      intro x hx
      rcases mem_insertWithOrder.mp hx with rfl | hx
      · exact isFinite_throughput htime
      · exact h x hx

/-- All samples of the downlink are finite. -/
theorem ends_receive {reads : List (Chunk 5000 × SampleClock)} {st : Receiving}
    (h : ∀ x ∈ st.samplingResults, x.isFinite) :
    Ends (receive J desc env reads st) (fun r => ∀ x ∈ r.2.samplingResults, x.isFinite)
      JavaException.Expected := by
  induction reads generalizing st with
  | nil =>
      unfold receive
      exact ends_bind_iff.mpr ⟨thrown_expected, fun clock _ => ends_ok (isFinite_count h)⟩
  | cons read reads ih =>
      simp only [receive]
      split
      · exact ends_ok (isFinite_count h)
      · exact ih (isFinite_count h)

/-- So are those of a whole download. -/
theorem ends_download : Ends (download J desc env) Transfer.Finite JavaException.Expected := by
  unfold download
  refine Ends.bind (ends_receive (by simp)) fun r _ hr => ends_ok ⟨hr, ?_⟩
  have hspan := Rounding.within_sub (R := J.double) (by decide)
    (within_long (J := J) env.downlink.endTime) (within_long (J := J) env.startTime)
  exact (Rounding.within_div_ofInt (l := 10) (by decide) (by decide) hspan (by decide)
    (by norm_num)).isFinite

/-- The message of a failed connection names its cause, which must be there. -/
theorem openFailed_expected_iff {failure : IoFailure} :
    FailsOnly JavaException.Expected (openFailed desc failure) ↔ failure.cause.isSome := by
  unfold openFailed
  cases failure.cause with
  | none =>
      rw [failsOnly_error]
      simp [JavaException.Expected, JavaException.isMeasurementError, JavaException.isIo]
  | some cause => exact iff_of_true (failsOnly_error.mpr (Or.inl rfl)) rfl

/-- A failed connection is an error. -/
theorem openFailed_ne_ok (failure : IoFailure) : openFailed desc failure ≠ .ok () := by
  unfold openFailed
  split
  · exact nofun
  · exact nofun

/-- The downlink has a result when it connects and receives. -/
theorem downlink_isOk_iff (htimeout : 0 ≤ timeoutMillis desc) :
    (∃ done, downlink J desc env = .ok done) ↔ Downloaded desc env := by
  have hreceive := exists_receive_iff J desc env env.downlink.reads 0 ⟨0, 0, [], 0⟩ rfl
  simp only [zero_add] at hreceive
  unfold downlink
  rw [exists_socket_iff htimeout openFailed_ne_ok]
  unfold download
  simp only [exists_bind_eq_ok]
  constructor
  · rintro ⟨hconnect, hclose, received, hreceived, -⟩
    exact ⟨hconnect, hreceive.mp ⟨received, hreceived⟩, hclose⟩
  · rintro ⟨hconnect, hends, hclose⟩
    obtain ⟨received, hreceived⟩ := hreceive.mpr hends
    exact ⟨hconnect, hclose, received, hreceived, _, rfl⟩

/-- It throws what is expected, unless a failure to connect has no cause. -/
theorem ends_downlink_iff (htimeout : 0 ≤ timeoutMillis desc) :
    Ends (downlink J desc env) Transfer.Finite JavaException.Expected ↔
      ∀ failure, env.downlink.connect = .error failure → failure.cause.isSome := by
  unfold downlink
  rw [ends_socket_iff htimeout openFailed_ne_ok, buildUpSocket, if_neg (not_lt.mpr htimeout)]
  cases env.downlink.connect with
  | ok u => exact iff_of_true ⟨failsOnly_ok, fun _ _ => ends_download⟩ nofun
  | error failure =>
      show FailsOnly _ (openFailed desc failure) ∧ _ ↔ _
      rw [openFailed_expected_iff]
      simp

/-! ### The call -/

/-- The report needs the neighbouring cells and finite samples. -/
theorem contained_report_iff {serverVersion : String} {done : Transfer} :
    Contained (report J desc env serverVersion done) ↔
      env.device.neighboringCellInfo.isSome ∧ done.Finite := by
  unfold report MeasurementResult.addResult Platform.toJsonString Transfer.Finite
  rw [Contained, failsOnly_newResult_iff Bool.false_ne_true]
  refine and_congr_right fun _ => ?_
  simp only [List.all_eq_true]
  by_cases hsamples : ∀ x ∈ done.samplingResults, x.isFinite
  · by_cases hduration : done.taskDuration.isFinite
    · rw [if_pos hsamples, if_pos hduration]
      exact iff_of_true failsOnly_ok ⟨hsamples, hduration⟩
    · rw [if_pos hsamples, if_neg hduration]
      refine iff_of_false (fun h => ?_) (fun h => hduration h.2)
      cases failsOnly_error.mp h
  · rw [if_neg hsamples]
    refine iff_of_false (fun h => ?_) (fun h => hsamples h.1)
    cases failsOnly_error.mp h

/-- What the test needs of its environment. -/
structure Serves (J : Platform) (desc : TCPThroughputDesc) (env : TCPThroughputEnv) : Prop where
  timeout : 0 ≤ timeoutMillis desc
  config : ∀ bytes, Configured env bytes → Decodes J bytes
  up : ∀ bytes reply, desc.dir_up → Configured env bytes → Replied desc env reply →
    Numbers J reply
  down : ∀ bytes failure, ¬ desc.dir_up → Configured env bytes →
    env.downlink.connect = .error failure → failure.cause.isSome

/-- Either direction, by the parameter `dir_up`. -/
theorem ends_transfer_iff (htimeout : 0 ≤ timeoutMillis desc) :
    Ends (transfer J desc env) Transfer.Finite JavaException.Expected ↔
      (desc.dir_up → ∀ reply, Replied desc env reply → Numbers J reply) ∧
        (¬ desc.dir_up → ∀ failure, env.downlink.connect = .error failure →
          failure.cause.isSome) := by
  unfold transfer
  split
  · rename_i hup
    simp [hup, ends_uplink_iff htimeout]
  · rename_i hdown
    simp [hdown, ends_downlink_iff htimeout]

/-- The run ends as expected exactly when the servers answer as they should. -/
theorem ends_run_iff (htimeout : 0 ≤ timeoutMillis desc) :
    Ends (run J desc env) (fun done => done.2.Finite) JavaException.Expected ↔
      Serves J desc env := by
  unfold run
  rw [ends_bind_iff, acquireServerConfig_expected_iff htimeout]
  have hrest : ∀ serverVersion : String, Ends (do
      let done ← transfer J desc env
      .ok (serverVersion, done)) (fun done => done.2.Finite) JavaException.Expected ↔
      Ends (transfer J desc env) Transfer.Finite JavaException.Expected := by
    intro serverVersion
    rw [ends_bind_iff]
    constructor
    · rintro ⟨hfails, hok⟩
      exact ⟨fun done hdone => (hok done hdone).1 _ rfl, hfails⟩
    · intro h
      exact ⟨h.2, fun done hdone => ends_ok (h.1 done hdone)⟩
  constructor
  · rintro ⟨hconfig, h⟩
    have htransfer : ∀ bytes, Configured env bytes →
        Ends (transfer J desc env) Transfer.Finite JavaException.Expected := by
      intro bytes hbytes
      obtain ⟨text, htext⟩ := exists_message_iff.mpr (hconfig bytes hbytes)
      have hversion := (acquireServerConfig_eq_ok htimeout).mpr ⟨bytes, hbytes, htext⟩
      exact (hrest text).mp (h (some text) hversion)
    refine ⟨htimeout, hconfig, ?_, ?_⟩
    · intro bytes reply hup hbytes
      exact ((ends_transfer_iff htimeout).mp (htransfer bytes hbytes)).1 hup reply
    · intro bytes failure hdown hbytes
      exact ((ends_transfer_iff htimeout).mp (htransfer bytes hbytes)).2 hdown failure
  · rintro ⟨-, hconfig, hup, hdown⟩
    refine ⟨hconfig, fun version hversion => ?_⟩
    cases version with
    -- the server has not sent its version
    | none => exact ends_error (Or.inl rfl)
    | some serverVersion =>
        obtain ⟨bytes, hbytes, -⟩ := (acquireServerConfig_eq_ok htimeout).mp hversion
        refine (hrest serverVersion).mpr ((ends_transfer_iff htimeout).mpr ⟨?_, ?_⟩)
        · exact fun h reply => hup bytes reply h hbytes
        · exact fun h failure => hdown bytes failure h hbytes

/-- A negative timeout is refused before anything is connected. -/
theorem not_ends_run (htimeout : ¬ 0 ≤ timeoutMillis desc) :
    ¬ FailsOnly JavaException.Expected (run J desc env) := by
  have hopen : ∀ connect, buildUpSocket desc connect = .error (.illegalArgument "timeout < 0") :=
    fun connect => if_pos (not_le.mp htimeout)
  have hrun : run J desc env = .error (.illegalArgument "timeout < 0") := by
    unfold run acquireServerConfig
    rw [hopen]
    rfl
  rw [hrun, failsOnly_error]
  simp [JavaException.Expected, JavaException.isMeasurementError, JavaException.isIo]

/-- The transfer comes to its end. -/
def Transferred (desc : TCPThroughputDesc) (env : TCPThroughputEnv) : Prop :=
  if desc.dir_up then Uploaded desc env else Downloaded desc env

/-- The version is read, and the transfer comes to its end. -/
def Completes (desc : TCPThroughputDesc) (env : TCPThroughputEnv) : Prop :=
  (∃ bytes, Configured env bytes) ∧ Transferred desc env

/-- The transfer has a result in its own direction. -/
theorem transfer_isOk_iff (htimeout : 0 ≤ timeoutMillis desc)
    (hnumbers : desc.dir_up → ∀ reply, Replied desc env reply → Numbers J reply) :
    (∃ done, transfer J desc env = .ok done) ↔ Transferred desc env := by
  unfold transfer Transferred
  split
  · rename_i hup
    exact uplink_isOk_iff htimeout (hnumbers hup)
  · exact downlink_isOk_iff htimeout

/-- A test that meets what it needs gives a result when it completes. -/
theorem run_isOk_iff (h : Serves J desc env) :
    (∃ done, run J desc env = .ok done) ↔ Completes desc env := by
  have htransfer : ∀ bytes, Configured env bytes →
      ((∃ done, transfer J desc env = .ok done) ↔ Transferred desc env) := fun bytes hbytes =>
    transfer_isOk_iff h.timeout fun hup reply => h.up bytes reply hup hbytes
  unfold run
  simp only [exists_bind_eq_ok]
  constructor
  · rintro ⟨version, hversion, done, hdone⟩
    cases version with
    | none => cases hdone
    | some serverVersion =>
        obtain ⟨bytes, hbytes, -⟩ := (acquireServerConfig_eq_ok h.timeout).mp hversion
        obtain ⟨transfer, hok, -⟩ := except_bind_eq_ok.mp hdone
        exact ⟨⟨bytes, hbytes⟩, (htransfer bytes hbytes).mp ⟨transfer, hok⟩⟩
  · rintro ⟨⟨bytes, hbytes⟩, htransferred⟩
    obtain ⟨text, htext⟩ := exists_message_iff.mpr (h.config bytes hbytes)
    obtain ⟨done, hdone⟩ := (htransfer bytes hbytes).mpr htransferred
    refine ⟨some text, (acquireServerConfig_eq_ok h.timeout).mpr ⟨bytes, hbytes, htext⟩,
      (text, done), ?_⟩
    exact except_bind_eq_ok.mpr ⟨done, hdone, rfl⟩

/-- The call throws nothing else exactly when the servers answer as they should and
the cells are known. -/
theorem contained_iff : Contained (call J desc env) ↔
    Serves J desc env ∧ (Completes desc env → env.device.neighboringCellInfo.isSome) := by
  have hcaught : ∀ done, catchIo
      (fun _ => .error (.measurementError "Error close the socket for tcpthroughput"))
      (run J desc env) = .ok done ↔ run J desc env = .ok done := fun _ => catchIo_eq_ok nofun
  unfold call Contained
  rw [failsOnly_bind, failsOnly_catchIo]
  simp only [hcaught]
  by_cases htimeout : 0 ≤ timeoutMillis desc
  · constructor
    · rintro ⟨hfails, hok⟩
      have hserves : Serves J desc env := (ends_run_iff htimeout).mp
        ⟨fun done hdone => (contained_report_iff.mp (hok done hdone)).2, hfails⟩
      refine ⟨hserves, fun hcompletes => ?_⟩
      obtain ⟨done, hdone⟩ := (run_isOk_iff hserves).mpr hcompletes
      exact (contained_report_iff.mp (hok done hdone)).1
    · rintro ⟨hserves, hcells⟩
      obtain ⟨hfinite, hfails⟩ := (ends_run_iff htimeout).mpr hserves
      refine ⟨hfails, fun done hdone => contained_report_iff.mpr ⟨?_, hfinite done hdone⟩⟩
      exact hcells ((run_isOk_iff hserves).mp ⟨done, hdone⟩)
  · exact iff_of_false (fun h => not_ends_run htimeout h.1) (fun h => htimeout h.1.timeout)

/-! ## Showing the result -/

/-- The text of a sample that was written. -/
theorem exists_of_mem_doubleTexts {xs : List Value} (hxs : ∀ x ∈ xs, x.isFinite) {t : String}
    (ht : t ∈ xs.map J.doubleText) : ∃ q, Value.finite q ∈ xs ∧ t = J.doubleText (.finite q) := by
  obtain ⟨x, hx, rfl⟩ := List.mem_map.mp ht
  cases x with
  | finite q => exact ⟨q, hx, rfl⟩
  | _ => cases hxs _ hx

/-- The texts of the samples, taken out of the text of their list. -/
theorem split_doublesText {xs : List Value} (hne : xs ≠ []) (hxs : ∀ x ∈ xs, x.isFinite) :
    split ',' (String.ofList (J.doublesText xs).toList.tail.dropLast) = xs.map J.doubleText := by
  have hinner : (J.doublesText xs).toList.tail.dropLast =
      List.intercalate [','] ((xs.map J.doubleText).map String.toList) := by
    simp [Platform.doublesText, Function.comp_def]
  rw [hinner]
  apply split_intercalate (by simpa using hne)
  · intro t ht
    obtain ⟨q, -, rfl⟩ := exists_of_mem_doubleTexts hxs ht
    exact J.comma_notMem_doubleText q
  · intro t ht
    obtain ⟨q, -, rfl⟩ := exists_of_mem_doubleTexts hxs ht
    exact J.doubleText_ne_empty q

/-- The median of samples that were written is found. -/
theorem exists_median {xs : List Value} (hxs : ∀ x ∈ xs, x.isFinite) :
    ∃ tp, calMedianSpeedFromTCPThroughputOutput J (some (J.doublesText xs)) = .ok tp := by
  rcases xs.eq_nil_or_concat with rfl | hlast
  · -- no sample: the text of a failure
    have hempty : J.doublesText [] = "[]" := rfl
    refine ⟨.finite (-1), ?_⟩
    rw [hempty]
    unfold calMedianSpeedFromTCPThroughputOutput
    exact if_pos (Or.inr (Or.inl rfl))
  · have hne : xs ≠ [] := by
      rcases hlast with ⟨front, x, rfl⟩
      simp
    have htexts := split_doublesText (J := J) hne hxs
    have hparse : ∀ i < (xs.map J.doubleText).length,
        ∃ x, J.parseDouble ((xs.map J.doubleText).getD i "") = .ok x := by
      intro i hi
      rw [List.getD_eq_getElem?_getD, List.getElem?_eq_getElem hi, Option.getD_some]
      obtain ⟨q, -, hq⟩ := exists_of_mem_doubleTexts hxs (List.getElem_mem hi)
      obtain ⟨x, hx⟩ := Option.isSome_iff_exists.mp (J.readDecimal_doubleText q)
      rw [hq]
      exact ⟨J.double.convert x, by rw [Platform.parseDouble, hx]⟩
    have hpos : 0 < (xs.map J.doubleText).length := by
      rw [List.length_map]
      exact List.length_pos_iff.mpr hne
    unfold calMedianSpeedFromTCPThroughputOutput
    simp only [htexts]
    split
    · exact ⟨_, rfl⟩
    · split
      · exact ⟨_, rfl⟩
      · split
        · -- an even number of samples
          rw [exists_bind_eq_ok]
          obtain ⟨upper, hupper⟩ := hparse ((xs.map J.doubleText).length / 2) (by omega)
          obtain ⟨lower, hlower⟩ := hparse ((xs.map J.doubleText).length / 2 - 1) (by omega)
          refine ⟨upper, hupper, ?_⟩
          rw [exists_bind_eq_ok]
          exact ⟨lower, hlower, _, rfl⟩
        · exact hparse (((xs.map J.doubleText).length - 1) / 2) (by omega)

/-- What a test with finite samples reports. -/
def resultOf (J : Platform) (desc : TCPThroughputDesc) (env : TCPThroughputEnv)
    (serverVersion : String) (done : Transfer) : MeasurementResult where
  type := .tcpThroughput
  timestamp := env.device.timestamp
  success := true
  parameters := .tcpThroughput desc
  values := [
    ("server_version", J.quote serverVersion),
    ("duration", J.doubleText done.taskDuration),
    ("data_limit_exceeded", if done.dataLimitExceeded then "true" else "false"),
    ("tcp_speed_results", J.doublesText done.samplingResults)]

/-- What is reported of a finite transfer. -/
theorem report_eq {serverVersion : String} {done : Transfer}
    (hcells : env.device.neighboringCellInfo.isSome) (h : done.Finite) :
    report J desc env serverVersion done = .ok (resultOf J desc env serverVersion done) := by
  unfold report MeasurementResult.addResult Platform.toJsonString
  rw [newResult_of_cells hcells]
  simp only [List.all_eq_true]
  rw [if_pos h.1, if_pos h.2]
  rfl

/-- A report can be shown. -/
theorem shown_report {serverVersion : String} {done : Transfer} :
    Shown J (report J desc env serverVersion done) := by
  by_cases hreports : env.device.neighboringCellInfo.isSome ∧ done.Finite
  · obtain ⟨hcells, hfinite⟩ := hreports
    rw [report_eq hcells hfinite, shown_ok_iff]
    intro _
    obtain ⟨tp, htp⟩ := exists_median (J := J) hfinite.1
    have hsamples : (resultOf J desc env serverVersion done).values.get "tcp_speed_results" =
        some (J.doublesText done.samplingResults) := by
      simp [resultOf, Values.get_cons]
    have hexceeded : (resultOf J desc env serverVersion done).values.get "data_limit_exceeded" =
        some (if done.dataLimitExceeded then "true" else "false") := by
      simp [resultOf, Values.get_cons]
    show ∃ lines, getTCPThroughputResult J desc (resultOf J desc env serverVersion done) = .ok lines
    have hsuccess : (resultOf J desc env serverVersion done).success = true := rfl
    simp only [getTCPThroughputResult, if_pos hsuccess, hsamples, hexceeded, htp]
    exact ⟨_, rfl⟩
  · intro r hr
    have hcontained : Contained (report J desc env serverVersion done) := hr ▸ failsOnly_ok
    exact absurd (contained_report_iff.mp hcontained) hreports

/-- Whatever the call returns can be shown. -/
theorem shown : Shown J (call J desc env) := by
  unfold call
  rw [shown_bind]
  exact fun _ _ => shown_report

end TCPThroughputTask

end MobiPerf.Measurements
