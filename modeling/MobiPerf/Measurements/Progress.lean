import MobiPerf.Measurements.Tasks
import MobiPerf.Scheduler.Consoles

/-!
# Measurements.Progress — what a measurement tells of its progress

A running measurement passes numbers to `broadcastProgressForUser`, which are to
lie between 0 and the end of the progress bar; the number behind that end says
that the measurement is over. Each type computes its numbers in its own way, and
holds them below the end of the bar, but not above 0.

* `Measurement.progress_in_range_iff`: every number lies in the range, unless a
  ping command prints so many lines, or a route is followed over so many hops,
  that a hundred times their count is no `int`;
* `Measurement.progress_ne_end`: none is taken for the end of the measurement.
-/

namespace MobiPerf.Measurements

open Lib Scheduler

/-- What is read for the progress alone: the length a response announces, which
is not positive when it is unknown. -/
structure ProgressEnv where
  contentLength : ℤ

/-- `Math.min(Config.MAX_PROGRESS_BAR_VALUE, progress)`. -/
def onBar (progress : ℤ) : ℤ := min maxProgressBarValue progress

/-- The numbers are on the progress bar. -/
def InRange (progress : List ℤ) : Prop := ∀ v ∈ progress, 0 ≤ v ∧ v ≤ maxProgressBarValue

/-! ## Ping -/

namespace PingTask

/-- `100 * lineCnt / 10`, held below the end of the bar. -/
def lineProgress (lineCnt : ℤ) : ℤ :=
  onBar ((toInt (100 * lineCnt)).tdiv pingCount)

/-- The lines of the output, with `lineCnt` of them read so far: a line is counted
behind its reading. -/
def lineBroadcasts (J : Platform) : List String → ℤ → Reading → List ℤ
  | [], _, _ => []
  | line :: lines, lineCnt, st =>
    match readInfo J st line with
    | .error _ => []
    | .ok st =>
      let lineCnt := toInt (lineCnt + 1)
      lineProgress lineCnt :: lineBroadcasts J lines lineCnt (readLoss J st line)

def commandBroadcasts (J : Platform) (env : PingEnv) (addr : InetAddress) : List ℤ :=
  match pingExecutableBasedOnIPType addr.version env.path, env.command with
  | .ok (some _), .started output =>
    lineBroadcasts J output.items 0 ⟨[], [], minValue, pingCount⟩
  | _, _ => []

/-- `100 * i / 10`. -/
def requestProgress (i : ℕ) : ℤ := (toInt (100 * i)).tdiv pingCount

/-- The requests up to the first that fails. -/
def requestBroadcasts {α : Type} (request : ℕ → Except IoFailure α) : List ℤ :=
  ((List.range pingCount).takeWhile fun i => (request i).isOk).map requestProgress

def headBroadcasts (env : PingEnv) : List ℤ :=
  match env.url with
  | .error _ => []
  | .ok () => requestBroadcasts env.head

/-- Behind a way to ping that fails the next one broadcasts. -/
def fallbackBroadcasts (J : Platform) (desc : PingDesc) (env : PingEnv) (addr : InetAddress) :
    List ℤ :=
  match executePingCmdTask J desc env addr with
  | .error (.measurementError _) =>
    requestBroadcasts env.reachable ++
      match executeJavaPingTask J desc env addr.hostAddress with
      | .error (.measurementError _) => headBroadcasts env
      | _ => []
  | _ => []

def broadcasts (J : Platform) (desc : PingDesc) (env : PingEnv) : List ℤ :=
  match env.getByName with
  | none => []
  | some addr => commandBroadcasts J env addr ++ fallbackBroadcasts J desc env addr

end PingTask

/-! ## Http -/

namespace HttpTask

def expectedResponseLen (originalBodyLen : ℤ) : ℤ :=
  if 0 < originalBodyLen then originalBodyLen else maxHttpResponseSize

def bodyProgress (originalBodyLen totalBodyLen : ℤ) : ℤ :=
  onBar (toInt ((toInt (100 * totalBodyLen)).tdiv (expectedResponseLen originalBodyLen)))

/-- The reads of `readBody`. -/
def bodyBroadcasts (originalBodyLen : ℤ) : List (Chunk 1024) → Download → List ℤ
  | [], _ => []
  | chunk :: rest, st =>
    if st.totalBodyLen ≤ maxHttpResponseSize then
      bodyProgress originalBodyLen (st.add chunk.val).totalBodyLen ::
        bodyBroadcasts originalBodyLen rest (st.add chunk.val)
    else []

/-- The body of the response, where there is one. -/
def contentOf (desc : HttpDesc) (env : HttpEnv) : Option (Input (Chunk 1024)) := do
  let request ← (prepare desc env).toOption
  let response ← (env.execute request).toOption
  let entity ← response.entity
  entity.getContent.toOption

def broadcasts (desc : HttpDesc) (env : HttpEnv) (progress : ProgressEnv) : List ℤ :=
  match contentOf desc env with
  | none => []
  | some input => bodyBroadcasts progress.contentLength input.items ⟨0, []⟩

end HttpTask

/-! ## Traceroute -/

namespace TracerouteTask

def expectedHopCnt : ℤ := 20

/-- The product is an `int`, the quotient a `double`. -/
def hopProgress (J : Platform) (ttl : ℤ) : ℤ :=
  onBar
    (castInt (J.double.div (J.double.ofInt (toInt (100 * ttl))) (J.double.ofInt expectedHopCnt)))

/-- The rounds of `rounds`: the distance is counted up behind a round that is not
the last. -/
def roundBroadcasts (J : Platform) (desc : TracerouteDesc) (hostIp : String)
    (env : TracerouteEnv) : ℕ → ℕ → List HopInfo → List ℤ
  | 0, _, _ => []
  | left + 1, n, hopHosts =>
    if env.stopRequested n then []
    else
      match round J desc hostIp env n hopHosts with
      | .ok (hopHosts, none) =>
        hopProgress J (ttlOf (n + 1)) :: roundBroadcasts J desc hostIp env left (n + 1) hopHosts
      | _ => []

def broadcasts (J : Platform) (desc : TracerouteDesc) (env : TracerouteEnv) : List ℤ :=
  match resolve desc env with
  | .error _ => []
  | .ok hostIp => roundBroadcasts J desc hostIp env (desc.maxHopCount.val.toNat + 1) 0 []

end TracerouteTask

/-! ## Throughput -/

namespace TCPThroughputTask

/-- `(int) (MAXPROGRESS * (endTime - startTime) / totalDuration)`. -/
def timeProgress (desc : TCPThroughputDesc) (startTime endTime : ℤ) : ℤ :=
  onBar (toInt ((toLong (maxProgressBarValue * toLong (endTime - startTime))).tdiv
    (totalDuration desc)))

/-- The progress at which the next quarter is over. -/
def nextQuarter (progUpdateCount : ℤ) : ℤ := toInt (toInt (progUpdateCount + 1) * 25)

/-- Every quarter is propagated, and what comes behind it. -/
def propagate (progress progUpdateCount : ℤ) (rest : ℤ → List ℤ) : List ℤ :=
  if nextQuarter progUpdateCount ≤ progress then progress :: rest (toInt (progUpdateCount + 1))
  else rest progUpdateCount

/-- The writes of `send`. -/
def sendBroadcasts (desc : TCPThroughputDesc) (env : TCPThroughputEnv) :
    List ℤ → ℤ → ℤ → List ℤ
  | [], _, _ => []
  | endTime :: writes, totalSendSize, progUpdateCount =>
    let totalSendSize := toInt (totalSendSize + desc.pkt_size_up_bytes)
    if dataLimitOn env ∧ dataLimitByteUp desc ≤ totalSendSize then []
    else
      propagate (timeProgress desc env.startTime endTime) progUpdateCount fun progUpdateCount =>
        if toLong (endTime - env.startTime) < totalDuration desc then
          sendBroadcasts desc env writes totalSendSize progUpdateCount
        else []

/-- The reads of `receive`; the end of the stream is one. -/
def receiveBroadcasts (J : Platform) (desc : TCPThroughputDesc) (env : TCPThroughputEnv) :
    List (Chunk 5000 × SampleClock) → Receiving → ℤ → List ℤ
  | [], st, progUpdateCount =>
    match env.downlink.last with
    | .error _ => []
    | .ok clock =>
      if exceeds desc env (count J desc env clock (-1) st) then []
      else
        propagate (timeProgress desc env.startTime clock.progress) progUpdateCount fun _ => []
  | (bytes, clock) :: reads, st, progUpdateCount =>
    let st := count J desc env clock bytes.val.length st
    if exceeds desc env st then []
    else
      propagate (timeProgress desc env.startTime clock.progress) progUpdateCount
        (receiveBroadcasts J desc env reads st)

def uplinkBroadcasts (desc : TCPThroughputDesc) (env : TCPThroughputEnv) : List ℤ :=
  match buildUpSocket desc env.uplink.connect with
  | .error _ => []
  | .ok () => sendBroadcasts desc env env.uplink.writes 0 0

def downlinkBroadcasts (J : Platform) (desc : TCPThroughputDesc) (env : TCPThroughputEnv) :
    List ℤ :=
  match buildUpSocket desc env.downlink.connect with
  | .error _ => []
  | .ok () => receiveBroadcasts J desc env env.downlink.reads ⟨0, 0, [], 0⟩ 0

def broadcasts (J : Platform) (desc : TCPThroughputDesc) (env : TCPThroughputEnv) : List ℤ :=
  match acquireServerConfig J desc env with
  | .ok (some _) =>
    if desc.dir_up then uplinkBroadcasts desc env else downlinkBroadcasts J desc env
  | _ => []

end TCPThroughputTask

/-! ## A measurement -/

/-- What the call passes to `broadcastProgressForUser`; two types tell nothing. -/
def Measurement.broadcasts (J : Platform) (progress : ProgressEnv) : Measurement → List ℤ
  | ping desc env => PingTask.broadcasts J desc env
  | http desc env => HttpTask.broadcasts desc env progress
  | dnsLookup _ _ => []
  | traceroute desc env => TracerouteTask.broadcasts J desc env
  | udpBurst _ _ => []
  | tcpThroughput desc env => TCPThroughputTask.broadcasts J desc env

/-! ## The range of each type -/

/-- The bar's value is at most its maximum. -/
theorem onBar_le (progress : ℤ) : onBar progress ≤ maxProgressBarValue := min_le_left _ _

/-- Only the lower end of the bar is open. -/
theorem onBar_nonneg_iff {progress : ℤ} : 0 ≤ onBar progress ↔ 0 ≤ progress := by
  unfold onBar maxProgressBarValue
  omega

theorem inRange_nil : InRange [] := nofun

/-- Two sequences of values, one after the other. -/
theorem inRange_append {xs ys : List ℤ} : InRange (xs ++ ys) ↔ InRange xs ∧ InRange ys :=
  List.forall_mem_append

/-- A value and those behind it. -/
theorem inRange_cons {v : ℤ} {vs : List ℤ} :
    InRange (v :: vs) ↔ (0 ≤ v ∧ v ≤ maxProgressBarValue) ∧ InRange vs :=
  List.forall_mem_cons

/-- The first count of which a hundred times is no `int`. -/
def overflowCount : ℕ := 21474837

namespace PingTask

variable {J : Platform} {desc : PingDesc} {env : PingEnv}

/-- The values of the requests are on the bar. -/
theorem inRange_requestBroadcasts {α : Type} (request : ℕ → Except IoFailure α) :
    InRange (requestBroadcasts request) := by
  intro v hv
  obtain ⟨i, hi, rfl⟩ := List.mem_map.mp hv
  have hlt : i < 10 := List.mem_range.mp (List.takeWhile_subset _ hi)
  unfold requestProgress maxProgressBarValue pingCount
  rw [toInt_eq (by omega) (by omega), Int.tdiv_eq_ediv_of_nonneg (by omega)]
  push_cast
  omega

/-- So are those of the HEAD requests. -/
theorem inRange_headBroadcasts : InRange (headBroadcasts env) := by
  unfold headBroadcasts
  split
  · exact inRange_nil
  · exact inRange_requestBroadcasts env.head

/-- And those of the ways that are tried behind the command. -/
theorem inRange_fallbackBroadcasts (addr : InetAddress) :
    InRange (fallbackBroadcasts J desc env addr) := by
  unfold fallbackBroadcasts
  split
  · refine inRange_append.mpr ⟨inRange_requestBroadcasts env.reachable, ?_⟩
    split
    · exact inRange_headBroadcasts
    · exact inRange_nil
  · exact inRange_nil

/-- Only the ping command can leave the range. -/
theorem inRange_broadcasts_iff :
    InRange (broadcasts J desc env) ↔
      ∀ addr, env.getByName = some addr → InRange (commandBroadcasts J env addr) := by
  unfold broadcasts
  cases env.getByName with
  | none => exact iff_of_true inRange_nil nofun
  | some addr =>
      simp only [Option.some.injEq, forall_eq', inRange_append]
      exact and_iff_left (inRange_fallbackBroadcasts addr)

/-- The numbers of lines: each is that of a line up to which all can be read. -/
theorem mem_lineBroadcasts_iff {lines : List String} {lineCnt v : ℤ} {st : Reading} :
    v ∈ lineBroadcasts J lines lineCnt st ↔
      ∃ k < lines.length, (∀ line ∈ lines.take (k + 1), ReadsNumber line) ∧
        v = lineProgress (toInt (lineCnt + (k + 1 : ℕ))) := by
  induction lines generalizing lineCnt st with
  | nil => simp [lineBroadcasts]
  | cons line lines ih =>
      unfold lineBroadcasts
      by_cases hline : ReadsNumber line
      · rw [readInfo_of_readsNumber st hline]
        simp only [List.mem_cons, ih]
        -- the count of lines wraps after each, as if it had wrapped once
        have hcount : ∀ k : ℕ, toInt (toInt (lineCnt + 1) + (k + 1 : ℕ)) =
            toInt (lineCnt + (k + 1 + 1 : ℕ)) := by
          intro k
          rw [toInt_toInt_add]
          congr 1
          push_cast
          ring
        constructor
        · rintro (rfl | ⟨k, hk, hlines, rfl⟩)
          · exact ⟨0, Nat.zero_lt_succ _, by simpa using hline, rfl⟩
          · refine ⟨k + 1, Nat.succ_lt_succ hk, ?_, by rw [hcount]⟩
            exact List.forall_mem_cons.mpr ⟨hline, hlines⟩
        · rintro ⟨k, hk, hlines, rfl⟩
          cases k with
          | zero => exact Or.inl rfl
          | succ k =>
              refine Or.inr ⟨k, Nat.lt_of_succ_lt_succ hk, ?_, by rw [hcount]⟩
              exact (List.forall_mem_cons.mp hlines).2
      · -- a line that is not a number throws before its broadcast
        obtain ⟨message, hinfo⟩ := readInfo_of_not_readsNumber (J := J) st hline
        rw [hinfo]
        refine iff_of_false List.not_mem_nil ?_
        rintro ⟨k, -, hlines, -⟩
        exact hline (hlines line List.mem_cons_self)

/-- The ping command runs and prints `n` lines, none of them with a sequence number
that is no `int`. -/
def PrintsLines (env : PingEnv) (n : ℕ) : Prop :=
  ∃ output, env.getByName.isSome ∧ Installed env.path ∧ env.command = .started output ∧
    n ≤ output.items.length ∧ ∀ line ∈ output.items.take n, ReadsNumber line

/-- A command that prints lines prints fewer first. -/
theorem PrintsLines.mono {m n : ℕ} (h : PrintsLines env n) (hmn : m ≤ n) : PrintsLines env m := by
  obtain ⟨output, hname, hinstalled, hcommand, hlength, hlines⟩ := h
  refine ⟨output, hname, hinstalled, hcommand, hmn.trans hlength, fun line hline => ?_⟩
  exact hlines line ((List.take_prefix_take_left hmn).subset hline)

/-- The numbers of the ping command. -/
theorem mem_commandBroadcasts_iff {addr : InetAddress} (haddr : env.getByName = some addr)
    {v : ℤ} :
    v ∈ commandBroadcasts J env addr ↔
      ∃ k, PrintsLines env (k + 1) ∧ v = lineProgress (toInt (k + 1 : ℕ)) := by
  unfold commandBroadcasts PrintsLines
  rw [haddr]
  simp only [← pingExecutable_eq_some_iff addr.version]
  split
  · rename_i exe output hexe hcommand
    rw [mem_lineBroadcasts_iff, hexe, hcommand]
    simp only [zero_add]
    constructor
    · rintro ⟨k, hk, hlines, hv⟩
      exact ⟨k, ⟨output, rfl, ⟨exe, rfl⟩, rfl, hk, hlines⟩, hv⟩
    · rintro ⟨k, ⟨output', -, -, houtput, hk, hlines⟩, hv⟩
      cases houtput
      exact ⟨k, hk, hlines, hv⟩
  · rename_i hnone
    refine iff_of_false List.not_mem_nil ?_
    rintro ⟨k, ⟨output, -, ⟨exe, hexe⟩, hcommand, -⟩, -⟩
    exact hnone exe output hexe hcommand

/-- Before the overflow a line's value is not negative. -/
theorem lineProgress_nonneg {n : ℕ} (h : n < overflowCount) : 0 ≤ lineProgress (toInt n) := by
  unfold overflowCount at h
  unfold lineProgress
  rw [onBar_nonneg_iff, toInt_eq (x := n) (by omega) (by omega), toInt_eq (by omega) (by omega)]
  exact Int.tdiv_nonneg (by omega) (Int.natCast_nonneg pingCount)

/-- At the overflow it is. -/
theorem lineProgress_neg : lineProgress (toInt overflowCount) < 0 := by decide

/-- No value of a ping is beyond the bar. -/
theorem broadcasts_le : ∀ v ∈ broadcasts J desc env, v ≤ maxProgressBarValue := by
  intro v hv
  unfold broadcasts at hv
  split at hv
  · cases hv
  · rename_i addr haddr
    rcases List.mem_append.mp hv with hv | hv
    · obtain ⟨k, -, hvalue⟩ := (mem_commandBroadcasts_iff haddr).mp hv
      rw [hvalue]
      exact onBar_le _
    · exact (inRange_fallbackBroadcasts addr v hv).2

/-- The numbers are in the range unless too many lines are counted. -/
theorem progress_iff : InRange (broadcasts J desc env) ↔ ¬ PrintsLines env overflowCount := by
  rw [inRange_broadcasts_iff]
  constructor
  · intro h hprints
    obtain ⟨addr, haddr⟩ := Option.isSome_iff_exists.mp hprints.choose_spec.1
    obtain ⟨k, hk⟩ : ∃ k, overflowCount = k + 1 := ⟨21474836, by decide⟩
    have hneg := lineProgress_neg
    rw [hk] at hprints hneg
    have hmem := (mem_commandBroadcasts_iff (J := J) haddr).mpr ⟨k, hprints, rfl⟩
    exact absurd (h addr haddr _ hmem).1 (not_le.mpr hneg)
  · intro h addr haddr v hv
    obtain ⟨k, hprints, hvalue⟩ := (mem_commandBroadcasts_iff haddr).mp hv
    rw [hvalue]
    refine ⟨lineProgress_nonneg ?_, onBar_le _⟩
    by_contra hmany
    exact h (hprints.mono (not_lt.mp hmany))

end PingTask

/-! ### Http -/

namespace HttpTask

/-- A round of the loop reads at most a full buffer behind a full megabyte. -/
theorem bodyProgress_nonneg {originalBodyLen totalBodyLen : ℤ} (h0 : 0 ≤ totalBodyLen)
    (h : totalBodyLen ≤ maxHttpResponseSize + 1024) :
    0 ≤ bodyProgress originalBodyLen totalBodyLen := by
  unfold maxHttpResponseSize at h
  have hexpected : 0 < expectedResponseLen originalBodyLen := by
    unfold expectedResponseLen maxHttpResponseSize
    split
    · assumption
    · decide
  have hquotient : 0 ≤ (100 * totalBodyLen).tdiv (expectedResponseLen originalBodyLen) :=
    Int.tdiv_nonneg (by omega) hexpected.le
  have hle : (100 * totalBodyLen).tdiv (expectedResponseLen originalBodyLen) ≤
      100 * totalBodyLen := Int.tdiv_le_self _ (by omega)
  unfold bodyProgress
  rw [onBar_nonneg_iff, toInt_eq (x := 100 * totalBodyLen) (by omega) (by omega),
    toInt_eq (by omega) (by omega)]
  exact hquotient

/-- The values of a body are on the bar. -/
theorem inRange_bodyBroadcasts {originalBodyLen : ℤ} {items : List (Chunk 1024)} {st : Download}
    (h0 : 0 ≤ st.totalBodyLen) : InRange (bodyBroadcasts originalBodyLen items st) := by
  induction items generalizing st with
  | nil => exact inRange_nil
  | cons chunk rest ih =>
      unfold bodyBroadcasts
      split
      · rename_i hle
        have hlength := chunk.property.2
        have htotal : (st.add chunk.val).totalBodyLen = st.totalBodyLen + chunk.val.length := rfl
        refine inRange_cons.mpr ⟨⟨bodyProgress_nonneg ?_ ?_, onBar_le _⟩, ih ?_⟩
        · omega
        · omega
        · omega
      · exact inRange_nil

/-- So are all of the type's. -/
theorem inRange_broadcasts (desc : HttpDesc) (env : HttpEnv) (progress : ProgressEnv) :
    InRange (broadcasts desc env progress) := by
  unfold broadcasts
  split
  · exact inRange_nil
  · exact inRange_bodyBroadcasts (le_refl _)

end HttpTask

/-! ### Throughput -/

namespace TCPThroughputTask

variable {J : Platform} {desc : TCPThroughputDesc} {env : TCPThroughputEnv}

/-- A quarter is propagated once, so that at most four are. -/
theorem inRange_propagate {progress progUpdateCount : ℤ} {rest : ℤ → List ℤ}
    (hcount : 0 ≤ progUpdateCount ∧ progUpdateCount ≤ 4) (hle : progress ≤ maxProgressBarValue)
    (hrest : ∀ n, 0 ≤ n ∧ n ≤ 4 → InRange (rest n)) :
    InRange (propagate progress progUpdateCount rest) := by
  have hnext : toInt (progUpdateCount + 1) = progUpdateCount + 1 :=
    toInt_eq (by omega) (by omega)
  have hquarter : nextQuarter progUpdateCount = (progUpdateCount + 1) * 25 := by
    unfold nextQuarter
    rw [hnext, toInt_eq (by omega) (by omega)]
  unfold propagate
  rw [hquarter, hnext]
  split
  · rename_i hreached
    unfold maxProgressBarValue at hle
    exact inRange_cons.mpr ⟨⟨by omega, hle⟩, hrest _ (by omega)⟩
  · exact hrest _ hcount

/-- The values of the uplink are on the bar. -/
theorem inRange_sendBroadcasts {writes : List ℤ} {totalSendSize progUpdateCount : ℤ}
    (hcount : 0 ≤ progUpdateCount ∧ progUpdateCount ≤ 4) :
    InRange (sendBroadcasts desc env writes totalSendSize progUpdateCount) := by
  induction writes generalizing totalSendSize progUpdateCount with
  | nil => exact inRange_nil
  | cons endTime writes ih =>
      simp only [sendBroadcasts]
      split
      · exact inRange_nil
      · refine inRange_propagate hcount (onBar_le _) fun n hn => ?_
        split
        · exact ih hn
        · exact inRange_nil

/-- So are those of the downlink. -/
theorem inRange_receiveBroadcasts
    {reads : List (Chunk 5000 × SampleClock)} {st : Receiving} {progUpdateCount : ℤ}
    (hcount : 0 ≤ progUpdateCount ∧ progUpdateCount ≤ 4) :
    InRange (receiveBroadcasts J desc env reads st progUpdateCount) := by
  induction reads generalizing st progUpdateCount with
  | nil =>
      unfold receiveBroadcasts
      split
      · exact inRange_nil
      · split
        · exact inRange_nil
        · exact inRange_propagate hcount (onBar_le _) fun _ _ => inRange_nil
  | cons read reads ih =>
      simp only [receiveBroadcasts]
      split
      · exact inRange_nil
      · exact inRange_propagate hcount (onBar_le _) fun _ hn => ih hn

theorem inRange_broadcasts : InRange (broadcasts J desc env) := by
  unfold broadcasts
  split
  · split
    · unfold uplinkBroadcasts
      split
      · exact inRange_nil
      · exact inRange_sendBroadcasts (by decide)
    · unfold downlinkBroadcasts
      split
      · exact inRange_nil
      · exact inRange_receiveBroadcasts (by decide)
  · exact inRange_nil

end TCPThroughputTask

/-! ### Traceroute -/

namespace TracerouteTask

variable {J : Platform} {desc : TracerouteDesc} {env : TracerouteEnv} {hostIp : String}

variable (J desc env hostIp) in
/-- The loop comes from round `n` to round `m`, and goes on behind it. -/
def Passes (n m : ℕ) : Prop :=
  Runs J desc env hostIp n m ∧ ReadsWell J desc env m ∧ ¬ Answered J desc env hostIp m

/-- The loop goes on behind a round exactly when that reads well and the target
does not answer. -/
theorem exists_round_iff {n : ℕ} {hops : List HopInfo} :
    (∃ hops', round J desc hostIp env n hops = .ok (hops', none)) ↔
      ReadsWell J desc env n ∧ ¬ Answered J desc env hostIp n := by
  by_cases hread : ReadsWell J desc env n
  · by_cases hanswered : Answered J desc env hostIp n
    · refine iff_of_false ?_ fun h => h.2 hanswered
      rintro ⟨hops', h⟩
      rw [round_of_answered hread hanswered] at h
      obtain ⟨r, -, hr⟩ := except_bind_eq_ok.mp h
      cases hr
    · refine iff_of_true ?_ ⟨hread, hanswered⟩
      by_cases hrecorded : Recorded desc env n
      · exact ⟨_, round_of_not_answered hread hrecorded hanswered⟩
      · exact ⟨_, round_of_not_recorded hread hrecorded⟩
  · refine iff_of_false ?_ fun h => hread h.1
    rintro ⟨hops', h⟩
    obtain ⟨e, he, -⟩ := round_of_not_readsWell hostIp hops hread
    rw [he] at h
    cases h

/-- The rounds are passed one by one. -/
theorem Passes.cons_iff {n m : ℕ} (hstop : env.stopRequested n = false)
    (hpass : ReadsWell J desc env n ∧ ¬ Answered J desc env hostIp n) :
    Passes J desc env hostIp n m ↔ m = n ∨ Passes J desc env hostIp (n + 1) m := by
  unfold Passes
  constructor
  · rintro ⟨hruns, hlast⟩
    cases hruns with
    | here => exact Or.inl rfl
    | next _ _ _ hrest => exact Or.inr ⟨hrest, hlast⟩
  · rintro (rfl | ⟨hruns, hlast⟩)
    · exact ⟨.here hstop, hpass⟩
    · exact ⟨.next hstop hpass.1 hpass.2 hruns, hlast⟩

/-- A loop that goes on behind a round goes on behind those before it. -/
theorem Passes.of_le {n m k : ℕ} (h : Passes J desc env hostIp n m) (hnk : n ≤ k) (hkm : k ≤ m) :
    Passes J desc env hostIp n k := by
  obtain ⟨hruns, hlast⟩ := h
  induction hruns with
  | here hstop =>
      have hk := Nat.le_antisymm hkm hnk
      subst hk
      exact ⟨.here hstop, hlast⟩
  | next hstop hread hnot hrest ih =>
      refine (Passes.cons_iff hstop ⟨hread, hnot⟩).mpr ?_
      rcases hnk.eq_or_lt with hk | hk
      · exact Or.inl hk.symm
      · exact Or.inr (ih hk hkm hlast)

/-- The numbers are those of the rounds behind which the loop goes on. -/
theorem mem_roundBroadcasts_iff {left n : ℕ} {hops : List HopInfo} {v : ℤ} :
    v ∈ roundBroadcasts J desc hostIp env left n hops ↔
      ∃ m, Passes J desc env hostIp n m ∧ m < n + left ∧ v = hopProgress J (ttlOf (m + 1)) := by
  induction left generalizing n hops with
  | zero =>
      refine iff_of_false List.not_mem_nil ?_
      rintro ⟨m, ⟨hruns, -⟩, hm, -⟩
      have hle := hruns.le
      omega
  | succ left ih =>
      unfold roundBroadcasts
      cases hstop : env.stopRequested n with
      -- a stop leaves the loop before anything is broadcast
      | true =>
          refine iff_of_false List.not_mem_nil ?_
          rintro ⟨m, ⟨hruns, -⟩, -⟩
          rw [hruns.not_stopRequested] at hstop
          cases hstop
      | false =>
          -- a hop that was read and is not the last is broadcast, and the loop goes on
          by_cases hpass : ReadsWell J desc env n ∧ ¬ Answered J desc env hostIp n
          · obtain ⟨hops', hround⟩ := (@exists_round_iff J desc env hostIp n hops).mpr hpass
            rw [hround]
            simp only [List.mem_cons, ih, Passes.cons_iff hstop hpass, Bool.false_eq_true,
              if_false]
            constructor
            · rintro (hv | ⟨m, hm, hlt, hv⟩)
              · exact ⟨n, Or.inl rfl, by omega, hv⟩
              · exact ⟨m, Or.inr hm, by omega, hv⟩
            · rintro ⟨m, rfl | hm, hlt, hv⟩
              · exact Or.inl hv
              · exact Or.inr ⟨m, hm, by omega, hv⟩
          · simp only [Bool.false_eq_true, if_false]
            split
            · rename_i hops' hround
              exact absurd (exists_round_iff.mp ⟨hops', hround⟩) hpass
            · refine iff_of_false List.not_mem_nil ?_
              rintro ⟨m, hm, -⟩
              exact hpass (hm.of_le le_rfl hm.1.le).2

/-- A loop that nothing ends. -/
theorem runs_of_forall (h : ∀ n, env.stopRequested n = false ∧ ReadsWell J desc env n ∧
    ¬ Answered J desc env hostIp n) (n k : ℕ) : Runs J desc env hostIp n (n + k) := by
  induction k generalizing n with
  | zero => exact .here (h n).1
  | succ k ih =>
      obtain ⟨hstop, hread, hnot⟩ := h n
      have hrest := ih (n + 1)
      rw [Nat.add_right_comm] at hrest
      exact .next hstop hread hnot hrest

/-- The route is followed beyond round `n`: the target is known, the executable is
found, and the loop goes on behind that round. -/
def FollowsBeyond (J : Platform) (desc : TracerouteDesc) (env : TracerouteEnv) (n : ℕ) : Prop :=
  ∃ hostIp, Reaches J desc env hostIp n ∧ ReadsWell J desc env n ∧ ¬ Answered J desc env hostIp n

/-- A route that goes beyond a round goes beyond those before it. -/
theorem FollowsBeyond.mono {m n : ℕ} (h : FollowsBeyond J desc env n) (hmn : m ≤ n) :
    FollowsBeyond J desc env m := by
  obtain ⟨hostIp, ⟨hresolve, hruns, hn⟩, hlast⟩ := h
  obtain ⟨hruns', hlast'⟩ := Passes.of_le ⟨hruns, hlast⟩ (Nat.zero_le m) hmn
  exact ⟨hostIp, ⟨hresolve, hruns', hmn.trans hn⟩, hlast'⟩

/-- The values of a route are those of the rounds it goes beyond. -/
theorem mem_broadcasts_iff {v : ℤ} :
    v ∈ broadcasts J desc env ↔
      ∃ n, FollowsBeyond J desc env n ∧ v = hopProgress J (ttlOf (n + 1)) := by
  have hresolved : ∀ ip, (Installed env.path ∧ ∃ addr, env.getByName = some addr ∧
      addr.hostAddress = ip) ↔ resolve desc env = .ok ip := fun _ => resolve_eq_ok_iff.symm
  unfold broadcasts FollowsBeyond Reaches
  simp only [hresolved]
  cases resolve desc env with
  | error e =>
      refine iff_of_false List.not_mem_nil ?_
      rintro ⟨n, ⟨hostIp, ⟨hresolve, -⟩, -⟩, -⟩
      cases hresolve
  | ok hostIp =>
      simp only [mem_roundBroadcasts_iff, zero_add]
      constructor
      · rintro ⟨n, ⟨hruns, hlast⟩, hn, hv⟩
        exact ⟨n, ⟨hostIp, ⟨rfl, hruns, Nat.le_of_lt_succ hn⟩, hlast⟩, hv⟩
      · rintro ⟨n, ⟨hostIp', ⟨hresolve, hruns, hn⟩, hlast⟩, hv⟩
        cases hresolve
        exact ⟨n, ⟨hruns, hlast⟩, Nat.lt_succ_of_le hn, hv⟩

/-- The cast of a number that is not negative is not negative. -/
theorem castInt_nonneg {r : ℚ} (h : 0 ≤ r) : 0 ≤ castInt (.finite r) := by
  have hfloor : 0 ≤ ⌊r⌋ := Int.floor_nonneg.mpr h
  show 0 ≤ max (-2 ^ 31) (min (2 ^ 31 - 1) (if 0 ≤ r then ⌊r⌋ else -⌊-r⌋))
  rw [if_pos h]
  omega

/-- The round behind which the distance is `overflowCount`. -/
def overflowRound : ℕ := 21474835

/-- Before the overflow a round's value is not negative. -/
theorem hopProgress_nonneg {n : ℕ} (h : n < overflowRound) :
    0 ≤ hopProgress J (ttlOf (n + 1)) := by
  unfold overflowRound at h
  have httl : toInt (100 * ttlOf (n + 1)) = 100 * (n + 2) := by
    unfold ttlOf
    rw [toInt_eq (x := ((n + 1 : ℕ) : ℤ) + 1) (by omega) (by omega), toInt_eq (by omega) (by omega)]
    push_cast
    ring
  have hfits : |(100 * (n + 2) : ℤ)| ≤ 2 ^ 31 := by
    rw [abs_of_nonneg (by omega)]
    omega
  have hwithin : (J.double.ofInt (100 * (n + 2))).Within 31 :=
    Rounding.within_ofInt (by decide) hfits
  obtain ⟨a, ha, -⟩ := id hwithin
  have hpos : (0 : ℚ) ≤ ((100 * (n + 2) : ℤ) : ℚ) := by
    exact_mod_cast Nat.zero_le (100 * (n + 2))
  have ha0 : 0 ≤ a := J.double.round_nonneg hpos ha
  obtain ⟨r, hr, -⟩ := Rounding.within_div_ofInt (R := J.double) (n := expectedHopCnt) (l := 5)
    (by decide) (by decide) hwithin (by decide) (by decide)
  unfold hopProgress
  rw [onBar_nonneg_iff, httl, hr]
  rw [ha] at hr
  exact castInt_nonneg (Rounding.div_ofInt_nonneg ha0 (by decide) hr)

/-- At the overflow it is. -/
theorem hopProgress_neg (hJ : J.double = Rounding.binary64) :
    hopProgress J (ttlOf (overflowRound + 1)) < 0 := by
  unfold hopProgress
  rw [hJ]
  decide +kernel

/-- The numbers are in the range unless the route is followed too far. -/
theorem progress_iff (hJ : J.double = Rounding.binary64) :
    InRange (broadcasts J desc env) ↔ ¬ FollowsBeyond J desc env overflowRound := by
  constructor
  · intro h hbeyond
    have hmem : hopProgress J (ttlOf (overflowRound + 1)) ∈ broadcasts J desc env :=
      mem_broadcasts_iff.mpr ⟨overflowRound, hbeyond, rfl⟩
    exact absurd (h _ hmem).1 (not_le.mpr (hopProgress_neg hJ))
  · intro h v hv
    obtain ⟨n, hbeyond, hvalue⟩ := mem_broadcasts_iff.mp hv
    rw [hvalue]
    refine ⟨hopProgress_nonneg ?_, onBar_le _⟩
    by_contra hfar
    exact h (hbeyond.mono (not_lt.mp hfar))

end TracerouteTask

/-! ## The range -/

namespace Measurement

variable {J : Platform}

/-- No count gets so large that a hundred times it is no `int`. -/
def CountsFit (J : Platform) : Measurement → Prop
  | ping _ env => ¬ PingTask.PrintsLines env overflowCount
  | traceroute desc env => ¬ TracerouteTask.FollowsBeyond J desc env TracerouteTask.overflowRound
  | _ => True

theorem progress_in_range_iff (hJ : J.double = Rounding.binary64) (progress : ProgressEnv)
    (m : Measurement) : InRange (m.broadcasts J progress) ↔ m.CountsFit J := by
  cases m with
  | ping desc env => exact PingTask.progress_iff
  | http desc env => exact iff_of_true (HttpTask.inRange_broadcasts desc env progress) trivial
  | dnsLookup desc env => exact iff_of_true inRange_nil trivial
  | traceroute desc env => exact TracerouteTask.progress_iff hJ
  | udpBurst desc env => exact iff_of_true inRange_nil trivial
  | tcpThroughput desc env => exact iff_of_true (TCPThroughputTask.inRange_broadcasts) trivial

/-- No number is taken for the end of the measurement. -/
theorem progress_ne_end (J : Platform) (progress : ProgressEnv) (m : Measurement) :
    ∀ v ∈ m.broadcasts J progress, v ≠ measurementEndProgress := by
  intro v hv
  have hle : v ≤ maxProgressBarValue := by
    cases m with
    | ping desc env => exact PingTask.broadcasts_le v hv
    | http desc env => exact (HttpTask.inRange_broadcasts desc env progress v hv).2
    | dnsLookup desc env => cases hv
    | traceroute desc env =>
        obtain ⟨n, -, hvalue⟩ := TracerouteTask.mem_broadcasts_iff.mp hv
        rw [hvalue]
        exact onBar_le _
    | udpBurst desc env => cases hv
    | tcpThroughput desc env => exact (TCPThroughputTask.inRange_broadcasts v hv).2
  unfold measurementEndProgress
  omega

/-- A route of pings that are given up. -/
def silentDesc (maxHopCount : Positive) : TracerouteDesc :=
  { TracerouteDesc.defaults "localhost" with maxHopCount := maxHopCount }

def silentEnv : TracerouteEnv where
  getByName := some ⟨.v4, "127.0.0.1", "localhost"⟩
  path := [("/system/bin", .started)]
  stopRequested _ := false
  probe _ _ := .timedOut
  device := ⟨0, some []⟩

theorem progress_in_range_silent :
    InRange ((traceroute (silentDesc ⟨30, by decide⟩) silentEnv).broadcasts Platform.latin
      ⟨0⟩) :=
  (progress_in_range_iff rfl ⟨0⟩ (traceroute (silentDesc ⟨30, by decide⟩) silentEnv)).mpr
    fun ⟨_, ⟨_, _, hround⟩, _⟩ => absurd hround (by decide)

/-- A round of such pings reads nothing, and meets no host but the one that stands
for none. -/
theorem silent_goes_on (maxHopCount : Positive) (n : ℕ) : silentEnv.stopRequested n = false ∧
    TracerouteTask.ReadsWell Platform.latin (silentDesc maxHopCount) silentEnv n ∧
    ¬ TracerouteTask.Answered Platform.latin (silentDesc maxHopCount) silentEnv "127.0.0.1" n := by
  have hprobes : TracerouteTask.probes (silentDesc maxHopCount) silentEnv n =
      List.replicate 3 .timedOut := rfl
  refine ⟨rfl, ⟨?_, ?_⟩, fun h => ?_⟩
  · rw [hprobes]
    exact nofun
  · rw [hprobes]
    exact nofun
  · have hunreachable : TracerouteTask.unreachableHost (silentDesc maxHopCount) = "* * * " := by
      show String.join (List.replicate 3 "* ") = _
      decide +kernel
    have hhosts := h.2
    unfold TracerouteTask.hopOf TracerouteTask.meanRtt at hhosts
    rw [hprobes, hunreachable] at hhosts
    revert hhosts
    decide +kernel

def manyHops : Positive := ⟨30000000, by decide⟩

/-- With thirty million hops allowed, the route is followed too far. -/
theorem progress_overflows :
    ¬ ∀ (J : Platform) (progress : ProgressEnv) (m : Measurement),
      J.double = Rounding.binary64 → InRange (m.broadcasts J progress) := by
  intro hall
  have hrange :
      InRange (TracerouteTask.broadcasts Platform.latin (silentDesc manyHops) silentEnv) :=
    hall Platform.latin ⟨0⟩ (traceroute (silentDesc manyHops) silentEnv) rfl
  have hinstalled : Installed silentEnv.path := ⟨"/system/bin", rfl⟩
  have hruns := TracerouteTask.runs_of_forall (silent_goes_on manyHops) 0
    TracerouteTask.overflowRound
  rw [Nat.zero_add] at hruns
  obtain ⟨-, hread, hnot⟩ := silent_goes_on manyHops TracerouteTask.overflowRound
  exact (TracerouteTask.progress_iff rfl).mp hrange
    ⟨"127.0.0.1", ⟨⟨hinstalled, _, rfl, rfl⟩, hruns, by decide⟩, hread, hnot⟩

end Measurement

end MobiPerf.Measurements
