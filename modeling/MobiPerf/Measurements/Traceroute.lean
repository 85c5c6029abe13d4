import MobiPerf.Measurements.Result

/-!
# Measurements.Traceroute — the route to a host

One round of pings for each distance, until the target answers. A round whose
pings cannot be run, or whose output breaks off, leaves no record, but the
distance counts on: the records and the number of hops of the result then
disagree.

* `TracerouteTask.pings_of_completes`: the times and the hosts of a round whose
  pings all complete;
* `TracerouteTask.contained_iff`: no other exception leaves the call when no
  permission is refused while the executable is searched, every line read that
  starts with `From` has a second word, the log takes the messages, and the
  target's answer finds a list of the cells around the phone;
* `TracerouteTask.shown_iff`: a result can be shown when every round up to the
  last left a record, and the locale's text of each mean time is a number.
-/

namespace MobiPerf.Measurements

open Lib Scheduler

/-! ## The environment -/

/-- What one ping process comes to: it cannot be started, waiting for it is
interrupted or times out, or it ends after `duration` milliseconds. -/
inductive Probe where
  | io (failure : IoFailure)
  | security (message : Option String)
  | interrupted
  | timedOut
  | finished (duration : ℤ) (output : Input String)

/-- `path` is what starting the ping executable in each directory comes to;
`stopRequested` and `probe` are by round, and by ping within it. -/
structure TracerouteEnv where
  getByName : Option InetAddress
  path : List (String × Exec)
  stopRequested : ℕ → Bool
  probe : ℕ → ℕ → Probe
  device : Device

structure HopInfo where
  hosts : List String
  rtt : Value
deriving DecidableEq, Repr

namespace TracerouteTask

/-! ## Addresses in a line -/

def isValidIpv4Addr (ip : String) : Bool :=
  let tokens := split '.' ip
  tokens.length = 4 && tokens.all fun token => (parseInt token).any fun val => 0 ≤ val ∧ val ≤ 255

def isValidIpv6Addr (ip : String) : Bool :=
  let tokens := split ':' ip
  -- zeros might get grouped
  tokens.length ≤ 8 && tokens.all fun token =>
    token = "" || (parseHex token.toList).any fun val => 0 ≤ val ∧ val ≤ 0xFFFF

def isValidAddr (ip : String) : Bool := isValidIpv4Addr ip || isValidIpv6Addr ip

/-- In most cases the second word is the address. -/
def getHostIp (line : String) : Except JavaException (Option String) :=
  let tokens := split ' ' line
  match tokens[1]? with
  | none => .error .arrayIndexOutOfBounds
  | some tempIp =>
    if isValidAddr tempIp then .ok (some tempIp)
    else .ok ((tokens.eraseIdx 1).find? isValidAddr)

/-! ## One round of pings -/

/-- Adding to a set of hosts, kept in the order they came. -/
def addHost (hosts : List String) (host : String) : List String :=
  if host ∈ hosts then hosts else hosts ++ [host]

def processLine (hostIp : String) (hosts : List String) (line : String) :
    Except JavaException (List String) :=
  if startsWith "From" line then do
    match ← getHostIp line with
    | some ip => .ok (if ip = hostIp then hosts else addHost hosts ip)
    | none => .ok hosts
  else if contains "time=" line then .ok (addHost hosts hostIp)
  else .ok hosts

def processPingOutput (hostIp : String) (output : Input String) (hosts : List String) :
    Except JavaException (List String) :=
  output.readAll (processLine hostIp) hosts

/-- What the loop over the pings of a round keeps. -/
structure Round where
  rtt : Value
  effectiveTask : ℕ
  hosts : List String

def ping (J : Platform) (hostIp : String) (st : Round) (probe : Probe) :
    Except JavaException Round :=
  match probe with
  | .io failure => .error (.io failure)
  | .security message => .error (.security message)
  | .interrupted => .ok st
  | .timedOut => .ok st
  | .finished duration output => do
    let hosts ← processPingOutput hostIp output st.hosts
    .ok {
      rtt := J.double.add st.rtt (J.double.ofInt duration)
      effectiveTask := st.effectiveTask + 1
      hosts }

/-- The pings of round `n`. -/
def probes (desc : TracerouteDesc) (env : TracerouteEnv) (n : ℕ) : List Probe :=
  (List.range desc.pingsPerHop.val.toNat).map (env.probe n)

/-- The mean of the times; -1 when no ping ended. -/
def Round.mean (J : Platform) (st : Round) : Value :=
  if st.effectiveTask ≠ 0 then J.double.div st.rtt (J.double.ofInt st.effectiveTask)
  else .finite (-1)

def unreachableHost (desc : TracerouteDesc) : String :=
  String.join (List.replicate desc.pingsPerHop.val.toNat "* ")

def Round.hopInfo (J : Platform) (desc : TracerouteDesc) (st : Round) : HopInfo where
  hosts :=
    if (st.mean J).beq (.finite (-1)) then addHost st.hosts (unreachableHost desc) else st.hosts
  rtt := st.mean J

def hopInfo (J : Platform) (desc : TracerouteDesc) (hostIp : String) (env : TracerouteEnv) (n : ℕ) :
    Except JavaException HopInfo := do
  let st ← (probes desc env n).foldlM (ping J hostIp) ⟨.finite 0, 0, []⟩
  .ok (st.hopInfo J desc)

/-! ## The result -/

def addAddr (J : Platform) (i : ℕ) (r : MeasurementResult) (host : String × ℕ) :
    Except JavaException MeasurementResult :=
  r.addResult J (hopAddrKey i (host.2 + 1)) (.string (some host.1))

def addHop (J : Platform) (r : MeasurementResult) (hop : HopInfo × ℕ) :
    Except JavaException MeasurementResult := do
  let r ← hop.1.hosts.zipIdx.foldlM (addAddr J hop.2) r
  r.addResult J (hopRttKey hop.2) (.string (some (J.locale.format 3 hop.1.rtt)))

def report (J : Platform) (desc : TracerouteDesc) (env : TracerouteEnv) (ttl : ℤ)
    (hopHosts : List HopInfo) : Except JavaException MeasurementResult := do
  let result ← newResult env.device .traceroute true (.traceroute desc)
  let result ← result.addResult J "num_hops" (.whole ttl)
  hopHosts.zipIdx.foldlM (addHop J) result

/-! ## The rounds -/

/-- The distance of round `n`: an `int` that is counted up. -/
def ttlOf (n : ℕ) : ℤ := toInt (n + 1)

def progressStr (ttl : ℤ) (hosts : List String) : String :=
  toString ttl ++ ": " ++ String.join (hosts.map (· ++ " | "))

/-- `sb.delete(sb.length() - 3, sb.length())`. -/
def deleteSeparator (s : String) : Except JavaException String :=
  if s.length < 3 then .error .stringIndexOutOfBounds
  else .ok (String.ofList (s.toList.take (s.length - 3)))

/-- Round `n`: the records behind it, and the result when the target answered. -/
def round (J : Platform) (desc : TracerouteDesc) (hostIp : String) (env : TracerouteEnv) (n : ℕ)
    (hopHosts : List HopInfo) : Except JavaException (List HopInfo × Option MeasurementResult) :=
  match hopInfo J desc hostIp env n with
  -- the round leaves no record
  | .error (.io failure) => do
    J.logError failure.message
    .ok (hopHosts, none)
  | .error (.security _) => .ok (hopHosts, none)
  | .error e => .error e
  | .ok hop =>
    let hopHosts := hopHosts ++ [hop]
    if hostIp ∈ hop.hosts then do
      let result ← report J desc env (ttlOf n) hopHosts
      .ok (hopHosts, some result)
    else do
      let _ ← deleteSeparator (progressStr (ttlOf n) hop.hosts)
      .ok (hopHosts, none)

/-- The loop, from round `n` on. -/
def rounds (J : Platform) (desc : TracerouteDesc) (hostIp : String) (env : TracerouteEnv) :
    ℕ → ℕ → List HopInfo → Except JavaException MeasurementResult
  | 0, _, _ => .error (.measurementError ("cannot perform traceroute to " ++ desc.target))
  | left + 1, n, hopHosts =>
    if env.stopRequested n then
      .error (.measurementError ("cannot perform traceroute to " ++ desc.target))
    else do
      let (hopHosts, result) ← round J desc hostIp env n hopHosts
      match result with
      | some result => .ok result
      | none => rounds J desc hostIp env left (n + 1) hopHosts

/-! ## The call -/

/-- The target's address, once the ping executable is found. -/
def resolve (desc : TracerouteDesc) (env : TracerouteEnv) : Except JavaException String :=
  match env.getByName with
  | none => .error (.measurementError ("target " ++ desc.target ++ " cannot be resolved"))
  | some addr => do
    match ← pingExecutableBasedOnIPType addr.version env.path with
    | none => .error (.measurementError "Ping Executable not found")
    | some _ => .ok addr.hostAddress

/-- The counter of the rounds left is tested before it is counted down: there is
one round more than the hops allowed. -/
def call (J : Platform) (desc : TracerouteDesc) (env : TracerouteEnv) :
    Except JavaException MeasurementResult := do
  let hostIp ← resolve desc env
  rounds J desc hostIp env (desc.maxHopCount.val.toNat + 1) 0 []

/-! ## What a round comes to -/

section Rounds

variable {J : Platform} {desc : TracerouteDesc} {env : TracerouteEnv} {hostIp : String}

/-- A line that starts with `From` has a second word. -/
def WellFormed (line : String) : Prop := startsWith "From" line → 2 ≤ (split ' ' line).length

instance (line : String) : Decidable (WellFormed line) := inferInstanceAs (Decidable (_ → _))

/-- The ping was run, and its output read to the end, unless waiting for it was
given up. -/
def completes : Probe → Bool
  | .io _ => false
  | .security _ => false
  | .interrupted => true
  | .timedOut => true
  | .finished _ output => output.failure.isNone

/-- The lines a round reads: up to the first ping that fails. -/
def linesRead : List Probe → List String
  | [] => []
  | .io _ :: _ => []
  | .security _ :: _ => []
  | .interrupted :: ps => linesRead ps
  | .timedOut :: ps => linesRead ps
  | .finished _ output :: ps =>
    match output.failure with
    | none => output.items ++ linesRead ps
    | some _ => output.items

/-- The exception that ends a round: that of the first ping that fails. -/
def failureOf : List Probe → Option JavaException
  | [] => none
  | .io failure :: _ => some (.io failure)
  | .security message :: _ => some (.security message)
  | .interrupted :: ps => failureOf ps
  | .timedOut :: ps => failureOf ps
  | .finished _ output :: ps =>
    match output.failure with
    | none => failureOf ps
    | some failure => some (.io failure)

/-- The times of the pings that ended. -/
def times (ps : List Probe) : List ℤ :=
  ps.filterMap fun
    | .finished duration _ => some duration
    | _ => none

/-- What a line adds to the hosts. -/
def addLine (hostIp : String) (hosts : List String) (line : String) : List String :=
  ((processLine hostIp hosts line).toOption).getD hosts

/-- A line of two columns has an address, or none that is valid. -/
theorem getHostIp_of_wellFormed {line : String} (h : 2 ≤ (split ' ' line).length) :
    ∃ ip, getHostIp line = .ok ip := by
  unfold getHostIp
  have hsome : (split ' ' line)[1]? = some (split ' ' line)[1] := List.getElem?_eq_getElem h
  simp only [hsome]
  split
  · exact ⟨_, rfl⟩
  · exact ⟨_, rfl⟩

/-- Of a well-formed line the address is added, if it is that of a hop. -/
theorem processLine_of_wellFormed {hosts : List String} {line : String} (h : WellFormed line) :
    processLine hostIp hosts line = .ok (addLine hostIp hosts line) := by
  have hok : ∃ hosts', processLine hostIp hosts line = .ok hosts' := by
    unfold processLine
    split
    · obtain ⟨ip, hip⟩ := getHostIp_of_wellFormed (h ‹_›)
      rw [hip]
      cases ip with
      | none => exact ⟨_, rfl⟩
      | some ip => exact ⟨_, rfl⟩
    · split
      · exact ⟨_, rfl⟩
      · exact ⟨_, rfl⟩
  obtain ⟨hosts', hok⟩ := hok
  unfold addLine
  rw [hok]
  rfl

theorem processLine_of_not_wellFormed {hosts : List String} {line : String}
    (h : ¬ WellFormed line) :
    processLine hostIp hosts line = .error .arrayIndexOutOfBounds := by
  obtain ⟨hfrom, hshort⟩ := Classical.not_imp.mp h
  have hnone : (split ' ' line)[1]? = none := List.getElem?_eq_none (by omega)
  unfold processLine getHostIp
  rw [if_pos hfrom]
  simp only [hnone]
  rfl

/-- Well-formed lines are all read. -/
theorem processLines_of_wellFormed {lines hosts : List String}
    (h : ∀ line ∈ lines, WellFormed line) :
    lines.foldlM (processLine hostIp) hosts = .ok (lines.foldl (addLine hostIp) hosts) := by
  induction lines generalizing hosts with
  | nil => rfl
  | cons line lines ih =>
      rw [List.forall_mem_cons] at h
      rw [List.foldlM_cons, processLine_of_wellFormed h.1]
      exact ih h.2

/-- A line that is not well-formed ends the loop. -/
theorem processLines_of_not_wellFormed {lines hosts : List String} {line : String}
    (hmem : line ∈ lines) (h : ¬ WellFormed line) :
    lines.foldlM (processLine hostIp) hosts = .error .arrayIndexOutOfBounds := by
  induction lines generalizing hosts with
  | nil => cases hmem
  | cons first lines ih =>
      rw [List.foldlM_cons]
      by_cases hfirst : WellFormed first
      · rw [processLine_of_wellFormed hfirst]
        rcases List.mem_cons.mp hmem with rfl | hmem
        · exact absurd hfirst h
        · exact ih hmem
      · rw [processLine_of_not_wellFormed hfirst]
        rfl

/-- An output of well-formed lines is read up to its failure, if it has one. -/
theorem processPingOutput_eq {output : Input String} (hostIp : String) (hosts : List String)
    (h : ∀ line ∈ output.items, WellFormed line) :
    processPingOutput hostIp output hosts =
      match output.failure with
      | none => .ok (output.items.foldl (addLine hostIp) hosts)
      | some failure => .error (.io failure) := by
  unfold processPingOutput Input.readAll
  rw [processLines_of_wellFormed h]
  rfl

/-- An output with another line throws. -/
theorem processPingOutput_of_not_wellFormed {output : Input String} {hosts : List String}
    (h : ¬ ∀ line ∈ output.items, WellFormed line) :
    processPingOutput hostIp output hosts = .error .arrayIndexOutOfBounds := by
  obtain ⟨line, hline⟩ := not_forall.mp h
  obtain ⟨hmem, hbad⟩ := Classical.not_imp.mp hline
  unfold processPingOutput Input.readAll
  rw [processLines_of_not_wellFormed hmem hbad]
  rfl

/-- A line without a second word ends the call. -/
theorem pings_of_not_wellFormed {ps : List Probe} {st : Round} {line : String}
    (hmem : line ∈ linesRead ps) (h : ¬ WellFormed line) :
    ps.foldlM (ping J hostIp) st = .error .arrayIndexOutOfBounds := by
  induction ps generalizing st with
  | nil => cases hmem
  | cons p ps ih =>
      rw [List.foldlM_cons]
      cases p with
      | io failure => cases hmem
      | security message => cases hmem
      | interrupted => exact ih hmem
      | timedOut => exact ih hmem
      | finished duration output =>
          -- a line that cannot be split ends the round, unless the probe failed before it
          by_cases hitems : ∀ line ∈ output.items, WellFormed line
          · cases hfailure : output.failure with
            | none =>
                have hrest : line ∈ linesRead ps := by
                  simp only [linesRead, hfailure] at hmem
                  rcases List.mem_append.mp hmem with hmem | hmem
                  · exact absurd (hitems line hmem) h
                  · exact hmem
                have hread := processPingOutput_eq hostIp st.hosts hitems
                simp only [hfailure] at hread
                simp only [ping, hread]
                exact ih hrest
            | some failure =>
                simp only [linesRead, hfailure] at hmem
                exact absurd (hitems line hmem) h
          · simp only [ping, processPingOutput_of_not_wellFormed hitems]
            rfl

/-- Where every ping completes, the round has its times and its hosts. -/
theorem pings_of_completes {ps : List Probe} {st : Round}
    (hlines : ∀ line ∈ linesRead ps, WellFormed line) (hps : ∀ p ∈ ps, completes p) :
    ps.foldlM (ping J hostIp) st = .ok {
      rtt := (times ps).foldl (fun rtt d => J.double.add rtt (J.double.ofInt d)) st.rtt
      effectiveTask := st.effectiveTask + (times ps).length
      hosts := (linesRead ps).foldl (addLine hostIp) st.hosts } := by
  induction ps generalizing st with
  | nil => rfl
  | cons p ps ih =>
      rw [List.forall_mem_cons] at hps
      rw [List.foldlM_cons]
      cases p with
      | io failure => cases hps.1
      | security message => cases hps.1
      | interrupted => exact ih hlines hps.2
      | timedOut => exact ih hlines hps.2
      | finished duration output =>
          have hfailure : output.failure = none := Option.isNone_iff_eq_none.mp hps.1
          have hread : linesRead (.finished duration output :: ps) =
              output.items ++ linesRead ps := by
            simp only [linesRead, hfailure]
          rw [hread] at hlines ⊢
          rw [List.forall_mem_append] at hlines
          have houtput := processPingOutput_eq hostIp st.hosts hlines.1
          simp only [hfailure] at houtput
          simp only [ping, houtput]
          refine (ih hlines.2 hps.2).trans ?_
          rw [List.foldl_append]
          simp [times, Nat.add_comm, Nat.add_assoc]

/-- Pings that complete do not fail. -/
theorem failureOf_of_completes {ps : List Probe} (h : ∀ p ∈ ps, completes p) :
    failureOf ps = none := by
  induction ps with
  | nil => rfl
  | cons p ps ih =>
      rw [List.forall_mem_cons] at h
      cases p with
      | io failure => cases h.1
      | security message => cases h.1
      | interrupted => exact ih h.2
      | timedOut => exact ih h.2
      | finished duration output =>
          have hfailure : output.failure = none := Option.isNone_iff_eq_none.mp h.1
          simp only [failureOf, hfailure]
          exact ih h.2

/-- Where one does not, its exception ends the round. -/
theorem pings_of_not_completes (hostIp : String) (st : Round) {ps : List Probe}
    (hlines : ∀ line ∈ linesRead ps, WellFormed line) (hps : ¬ ∀ p ∈ ps, completes p) :
    ∃ e, failureOf ps = some e ∧ ps.foldlM (ping J hostIp) st = .error e := by
  induction ps generalizing st with
  | nil => exact absurd (fun p hp => absurd hp List.not_mem_nil) hps
  | cons p ps ih =>
      rw [List.forall_mem_cons] at hps
      rw [List.foldlM_cons]
      cases p with
      | io failure => exact ⟨_, rfl, rfl⟩
      | security message => exact ⟨_, rfl, rfl⟩
      | interrupted => exact ih st hlines fun h => hps ⟨rfl, h⟩
      | timedOut => exact ih st hlines fun h => hps ⟨rfl, h⟩
      | finished duration output =>
          cases hfailure : output.failure with
          | none =>
              simp only [linesRead, hfailure] at hlines
              rw [List.forall_mem_append] at hlines
              have houtput := processPingOutput_eq hostIp st.hosts hlines.1
              simp only [hfailure] at houtput
              simp only [ping, houtput, failureOf, hfailure]
              refine ih _ hlines.2 fun h => hps ⟨?_, h⟩
              simp [completes, hfailure]
          | some failure =>
              simp only [linesRead, hfailure] at hlines
              have houtput := processPingOutput_eq hostIp st.hosts hlines
              simp only [hfailure] at houtput
              simp only [ping, houtput, failureOf, hfailure]
              exact ⟨_, rfl, rfl⟩

/-- Such an exception does not end the call. -/
theorem failureOf_isSkipped {ps : List Probe} {e : JavaException} (h : failureOf ps = some e) :
    (∃ failure, e = .io failure) ∨ ∃ message, e = .security message := by
  induction ps with
  | nil => cases h
  | cons p ps ih =>
      cases p with
      | io failure => exact Or.inl ⟨failure, (Option.some.inj h).symm⟩
      | security message => exact Or.inr ⟨message, (Option.some.inj h).symm⟩
      | interrupted => exact ih h
      | timedOut => exact ih h
      | finished duration output =>
          cases hfailure : output.failure with
          | none =>
              simp only [failureOf, hfailure] at h
              exact ih h
          | some failure =>
              simp only [failureOf, hfailure] at h
              exact Or.inl ⟨failure, (Option.some.inj h).symm⟩

variable (J desc env hostIp) in
/-- The mean of the times of round `n`. -/
def meanRtt (n : ℕ) : Value :=
  Round.mean J {
    rtt := (times (probes desc env n)).foldl (fun rtt d => J.double.add rtt (J.double.ofInt d))
      (.finite 0)
    effectiveTask := (times (probes desc env n)).length
    hosts := [] }

variable (J desc env hostIp) in
/-- The record of a round whose pings all complete. -/
def hopOf (n : ℕ) : HopInfo :=
  let hosts := (linesRead (probes desc env n)).foldl (addLine hostIp) []
  { hosts :=
      if (meanRtt J desc env n).beq (.finite (-1)) then addHost hosts (unreachableHost desc)
      else hosts
    rtt := meanRtt J desc env n }

variable (J desc env) in
/-- The lines round `n` reads are as `getHostIp` expects them, and the log takes
the message of the failure that ends it. -/
structure ReadsWell (n : ℕ) : Prop where
  lines : ∀ line ∈ linesRead (probes desc env n), WellFormed line
  logs : ∀ failure, failureOf (probes desc env n) = some (.io failure) → J.Logs failure.message

variable (desc env) in
/-- Every ping of round `n` completes: the round leaves a record. -/
def Recorded (n : ℕ) : Prop := ∀ p ∈ probes desc env n, completes p

instance (n : ℕ) : Decidable (Recorded desc env n) := by
  unfold Recorded
  infer_instance

variable (J desc env hostIp) in
/-- The target is among the hosts of round `n`. -/
def Answered (n : ℕ) : Prop := Recorded desc env n ∧ hostIp ∈ (hopOf J desc env hostIp n).hosts

/-- A round that is recorded has its hop. -/
theorem hopInfo_of_recorded {n : ℕ} (hlines : ReadsWell J desc env n) (h : Recorded desc env n) :
    hopInfo J desc hostIp env n = .ok (hopOf J desc env hostIp n) := by
  unfold hopInfo
  rw [pings_of_completes hlines.lines h, Nat.zero_add]
  rfl

/-- The separator is there: a distance has a digit, and a colon and a blank
follow it. -/
theorem deleteSeparator_isOk (ttl : ℤ) (hosts : List String) :
    ∃ s, deleteSeparator (progressStr ttl hosts) = .ok s := by
  have hdigit : 0 < (toString ttl).length := by
    rcases ttl with n | n
    · exact Nat.length_repr_pos
    · show 0 < ("-" ++ Nat.repr (n + 1)).length
      rw [String.length_append]
      have hminus : "-".length = 1 := by decide
      omega
  have hlength : ¬ (progressStr ttl hosts).length < 3 := by
    unfold progressStr
    rw [String.length_append, String.length_append]
    have hcolon : ": ".length = 2 := by decide
    omega
  unfold deleteSeparator
  rw [if_neg hlength]
  exact ⟨_, rfl⟩

section Round

variable {n : ℕ} {hopHosts : List HopInfo}

/-- A round that does not read well ends the call. -/
theorem round_of_not_readsWell (hostIp : String) (hopHosts : List HopInfo)
    (h : ¬ ReadsWell J desc env n) :
    ∃ e, round J desc hostIp env n hopHosts = .error e ∧ e.isMeasurementError = false := by
  by_cases hlines : ∀ line ∈ linesRead (probes desc env n), WellFormed line
  · have hlogs : ¬ ∀ failure, failureOf (probes desc env n) = some (.io failure) →
        J.Logs failure.message := fun hlogs => h ⟨hlines, hlogs⟩
    obtain ⟨failure, hfailure⟩ := not_forall.mp hlogs
    obtain ⟨hsome, hnot⟩ := Classical.not_imp.mp hfailure
    have hrecorded : ¬ ∀ p ∈ probes desc env n, completes p := by
      intro hall
      rw [failureOf_of_completes hall] at hsome
      cases hsome
    obtain ⟨e, he, hfold⟩ :=
      pings_of_not_completes (J := J) hostIp ⟨.finite 0, 0, []⟩ hlines hrecorded
    rw [hsome] at he
    cases he
    refine ⟨.nullPointer, ?_, rfl⟩
    unfold round hopInfo
    rw [hfold]
    show (do J.logError failure.message; .ok (hopHosts, none)) = _
    unfold Platform.logError
    rw [if_neg hnot]
    rfl
  · obtain ⟨line, hline⟩ := not_forall.mp hlines
    obtain ⟨hmem, hbad⟩ := Classical.not_imp.mp hline
    refine ⟨.arrayIndexOutOfBounds, ?_, rfl⟩
    unfold round hopInfo
    rw [pings_of_not_wellFormed hmem hbad]
    rfl

/-- Without a record the round goes on to the next. -/
theorem round_of_not_recorded (hread : ReadsWell J desc env n) (h : ¬ Recorded desc env n) :
    round J desc hostIp env n hopHosts = .ok (hopHosts, none) := by
  obtain ⟨e, he, hfold⟩ :=
    pings_of_not_completes (J := J) hostIp ⟨.finite 0, 0, []⟩ hread.lines h
  unfold round hopInfo
  rw [hfold]
  rcases failureOf_isSkipped he with ⟨failure, rfl⟩ | ⟨message, rfl⟩
  · show (do J.logError failure.message; .ok (hopHosts, none)) = _
    unfold Platform.logError
    rw [if_pos (hread.logs failure he)]
    rfl
  · rfl

/-- With one, and no answer of the target, it goes on with the record. -/
theorem round_of_not_answered (hlines : ReadsWell J desc env n) (h : Recorded desc env n)
    (hhost : ¬ Answered J desc env hostIp n) :
    round J desc hostIp env n hopHosts =
      .ok (hopHosts ++ [hopOf J desc env hostIp n], none) := by
  have hnot : hostIp ∉ (hopOf J desc env hostIp n).hosts := fun hmem => hhost ⟨h, hmem⟩
  obtain ⟨s, hs⟩ := deleteSeparator_isOk (ttlOf n) (hopOf J desc env hostIp n).hosts
  unfold round
  simp only [hopInfo_of_recorded hlines h, hnot, if_false, hs]
  rfl

/-- At the target's answer the result is reported. -/
theorem round_of_answered (hlines : ReadsWell J desc env n) (h : Answered J desc env hostIp n) :
    round J desc hostIp env n hopHosts = (do
      let hopHosts := hopHosts ++ [hopOf J desc env hostIp n]
      let result ← report J desc env (ttlOf n) hopHosts
      .ok (hopHosts, some result)) := by
  unfold round
  simp only [hopInfo_of_recorded hlines h.1, h.2, if_true]

end Round

/-! ## The result's values -/

/-- The numbers of a result: its hops and the time of each. -/
def SameNumbers (values values' : Values) : Prop :=
  values'.get "num_hops" = values.get "num_hops" ∧
    ∀ i, values'.get (hopRttKey i) = values.get (hopRttKey i)

/-- The addresses of a hop leave the numbers of the others. -/
theorem addAddrs_eq (i : ℕ) (hosts : List (String × ℕ)) (r : MeasurementResult) :
    ∃ values, hosts.foldlM (addAddr J i) r = .ok { r with values } ∧
      SameNumbers r.values values := by
  induction hosts generalizing r with
  | nil => exact ⟨r.values, rfl, rfl, fun _ => rfl⟩
  | cons host hosts ih =>
      obtain ⟨values, hfold, hsame⟩ := ih {
        r with values := (hopAddrKey i (host.2 + 1), J.quote host.1) :: r.values }
      refine ⟨values, hfold, ?_, fun k => ?_⟩
      · rw [hsame.1, Values.get_cons, if_neg (num_hops_ne_hopAddrKey _ _)]
      · rw [hsame.2, Values.get_cons, if_neg (hopRttKey_ne_hopAddrKey _ _ _)]

/-- The text of a mean time. -/
def rttText (J : Platform) (hop : HopInfo) : String := J.quote (J.locale.format 3 hop.rtt)

/-- The hops write their numbers, each under its own key. -/
theorem addHops_eq (hops : List HopInfo) (k : ℕ) (r : MeasurementResult) :
    ∃ values, (hops.zipIdx k).foldlM (addHop J) r = .ok { r with values } ∧
      values.get "num_hops" = r.values.get "num_hops" ∧
      ∀ i, values.get (hopRttKey i) =
        if k ≤ i ∧ i < k + hops.length then (hops[i - k]?).map (rttText J)
        else r.values.get (hopRttKey i) := by
  induction hops generalizing k r with
  | nil =>
      refine ⟨r.values, rfl, rfl, fun i => ?_⟩
      rw [if_neg (by simp only [List.length_nil]; omega)]
  | cons hop hops ih =>
      -- the addresses of a hop are other keys than its time
      obtain ⟨addrs, haddrs, hsame⟩ := addAddrs_eq (J := J) k hop.hosts.zipIdx r
      obtain ⟨values, hfold, hnum, hrtt⟩ := ih (k + 1) {
        r with values := (hopRttKey k, rttText J hop) :: addrs }
      have hhop : addHop J r (hop, k) =
          .ok { r with values := (hopRttKey k, rttText J hop) :: addrs } := by
        unfold addHop
        rw [haddrs]
        rfl
      refine ⟨values, ?_, ?_, fun i => ?_⟩
      · rw [List.zipIdx_cons, List.foldlM_cons, hhop]
        exact hfold
      · rw [hnum, Values.get_cons, if_neg (num_hops_ne_hopRttKey k)]
        exact hsame.1
      · rw [hrtt i, List.length_cons]
        -- a later hop, this one, or none of them
        by_cases hlater : k + 1 ≤ i ∧ i < k + 1 + hops.length
        · rw [if_pos hlater, if_pos (by omega)]
          have hi : i - k = i - (k + 1) + 1 := by omega
          rw [hi, List.getElem?_cons_succ]
        · rw [if_neg hlater, Values.get_cons]
          by_cases hik : i = k
          · subst hik
            rw [if_pos rfl, if_pos (by omega), Nat.sub_self]
            rfl
          · have hkey : hopRttKey i ≠ hopRttKey k := fun h => hik (hopRttKey_injective h)
            rw [if_neg hkey, if_neg (by omega)]
            exact hsame.2 i

/-- The result holds the distance, and for each hop its record's time. -/
theorem report_eq (J : Platform) (desc : TracerouteDesc)
    (hcells : env.device.neighboringCellInfo.isSome) (ttl : ℤ) (hops : List HopInfo) :
    ∃ values, report J desc env ttl hops = .ok {
        type := .traceroute
        timestamp := env.device.timestamp
        success := true
        parameters := .traceroute desc
        values } ∧
      values.get "num_hops" = some (toString ttl) ∧
      ∀ i, values.get (hopRttKey i) = (hops[i]?).map (rttText J) := by
  obtain ⟨values, hfold, hnum, hrtt⟩ := addHops_eq (J := J) hops 0 {
    type := .traceroute
    timestamp := env.device.timestamp
    success := true
    parameters := .traceroute desc
    values := [("num_hops", toString ttl)] }
  have hreport := newResult_of_cells hcells .traceroute true (.traceroute desc)
  refine ⟨values, by rw [report, hreport]; exact hfold, hnum, fun i => ?_⟩
  rw [hrtt i]
  by_cases hi : i < hops.length
  · rw [if_pos (by omega), Nat.sub_zero]
  · rw [if_neg (by omega), List.getElem?_eq_none (by omega), Values.get_cons,
      if_neg (num_hops_ne_hopRttKey i).symm]
    rfl

/-- Without the neighbouring cells there is no result. -/
theorem report_of_no_cells (hcells : ¬ env.device.neighboringCellInfo.isSome) (ttl : ℤ)
    (hops : List HopInfo) : report J desc env ttl hops = .error .nullPointer := by
  unfold report
  rw [newResult_of_no_cells hcells]
  rfl

/-- The report throws nothing else exactly when they are known. -/
theorem contained_report_iff {ttl : ℤ} {hops : List HopInfo} :
    Contained (report J desc env ttl hops) ↔ env.device.neighboringCellInfo.isSome := by
  by_cases hcells : env.device.neighboringCellInfo.isSome
  · obtain ⟨values, hreport, -⟩ := report_eq J desc hcells ttl hops
    rw [hreport]
    exact iff_of_true failsOnly_ok hcells
  · rw [report_of_no_cells hcells]
    refine iff_of_false (fun h => ?_) hcells
    cases failsOnly_error.mp h

/-! ## Exceptions -/

variable (J desc env hostIp) in
/-- From round `n` the loop comes to round `m`. -/
inductive Runs : ℕ → ℕ → Prop where
  | here {n : ℕ} (hstop : env.stopRequested n = false) : Runs n n
  | next {n m : ℕ} (hstop : env.stopRequested n = false) (hread : ReadsWell J desc env n)
      (hnot : ¬ Answered J desc env hostIp n) (hrest : Runs (n + 1) m) : Runs n m

theorem Runs.le {n m : ℕ} (h : Runs J desc env hostIp n m) : n ≤ m := by
  induction h with
  | here hstop => exact Nat.le_refl _
  | next hstop hread hnot hrest ih => exact Nat.le_of_succ_le ih

/-- A round that is run was not asked to stop. -/
theorem Runs.not_stopRequested {n m : ℕ} (h : Runs J desc env hostIp n m) :
    env.stopRequested n = false := by
  cases h with
  | here hstop => exact hstop
  | next hstop hread hnot hrest => exact hstop

variable (J desc env hostIp) in
/-- What round `n` adds to the records. -/
def recordOf (n : ℕ) : Option HopInfo :=
  if Recorded desc env n then some (hopOf J desc env hostIp n) else none

/-- A round that reads well and is not answered leaves its record, if it has one,
and the loop goes on. -/
theorem rounds_of_not_answered {left n : ℕ} {hops : List HopInfo}
    (hstop : env.stopRequested n = false) (hread : ReadsWell J desc env n)
    (hnot : ¬ Answered J desc env hostIp n) :
    rounds J desc hostIp env (left + 1) n hops =
      rounds J desc hostIp env left (n + 1)
        (hops ++ (recordOf J desc env hostIp n).toList) := by
  rw [rounds, hstop]
  unfold recordOf
  by_cases hrecorded : Recorded desc env n
  · rw [round_of_not_answered hread hrecorded hnot, if_pos hrecorded]
    rfl
  · rw [round_of_not_recorded hread hrecorded, if_neg hrecorded]
    simp [bind, Except.bind]

/-- The target's answer ends the loop. -/
theorem rounds_of_answered {left n : ℕ} {hops : List HopInfo}
    (hstop : env.stopRequested n = false) (hread : ReadsWell J desc env n)
    (h : Answered J desc env hostIp n) :
    rounds J desc hostIp env (left + 1) n hops =
      report J desc env (ttlOf n) (hops ++ [hopOf J desc env hostIp n]) := by
  rw [rounds, hstop, round_of_answered hread h]
  cases hreport : report J desc env (ttlOf n) (hops ++ [hopOf J desc env hostIp n]) with
  | ok result =>
      simp only [hreport]
      rfl
  | error e =>
      simp only [hreport]
      rfl

/-- The rounds throw nothing else exactly when every one that is run can be read,
and the one that reaches the target has the cells. -/
theorem contained_rounds_iff {left n : ℕ} {hops : List HopInfo} :
    Contained (rounds J desc hostIp env left n hops) ↔
      ∀ m, Runs J desc env hostIp n m → m < n + left → ReadsWell J desc env m ∧
        (Answered J desc env hostIp m → env.device.neighboringCellInfo.isSome) := by
  induction left generalizing n hops with
  | zero =>
      refine iff_of_true (failsOnly_error.mpr rfl) fun m hruns hm => ?_
      have hle := hruns.le
      omega
  | succ left ih =>
      cases hstop : env.stopRequested n with
      | true =>
          -- a task that is stopped fails with a measurement error
          rw [rounds, hstop]
          refine iff_of_true (failsOnly_error.mpr rfl) fun m hruns _ => ?_
          rw [hruns.not_stopRequested] at hstop
          cases hstop
      | false =>
          by_cases hread : ReadsWell J desc env n
          · by_cases hans : Answered J desc env hostIp n
            · -- the last round
              rw [rounds_of_answered hstop hread hans, contained_report_iff]
              constructor
              · intro hcells m hruns _
                cases hruns with
                | here => exact ⟨hread, fun _ => hcells⟩
                | next _ _ hnot _ => exact absurd hans hnot
              · intro h
                exact (h n (.here hstop) (by omega)).2 hans
            · rw [rounds_of_not_answered hstop hread hans, ih]
              constructor
              · intro h m hruns hm
                cases hruns with
                | here => exact ⟨hread, fun h => absurd h hans⟩
                | next _ _ _ hrest => exact h m hrest (by omega)
              · intro h m hruns hm
                exact h m (.next hstop hread hans hruns) (by omega)
          · -- the round itself throws what is none
            obtain ⟨e, he, hnot⟩ := round_of_not_readsWell hostIp hops hread
            rw [rounds, hstop, he]
            refine iff_of_false (fun h => ?_) fun h =>
              hread (h n (.here hstop) (by omega)).1
            have hmeasurement := failsOnly_error.mp h
            rw [hnot] at hmeasurement
            cases hmeasurement

/-- Before the first round only the path may throw something else. -/
theorem resolve_failsOnly_iff : FailsOnly (fun e => e.isMeasurementError) (resolve desc env) ↔
    (env.getByName.isSome → Permitted env.path) := by
  unfold resolve
  cases env.getByName with
  | none => exact iff_of_true (failsOnly_error.mpr rfl) (by simp)
  | some addr =>
      simp only [failsOnly_bind, pingExecutable_failsOnly_iff, Option.isSome_some, true_imp_iff]
      refine and_iff_left fun exe _ => ?_
      cases exe with
      | none => exact failsOnly_error.mpr rfl
      | some exe => exact failsOnly_ok

/-- The target has an address when ping is installed and the name is known. -/
theorem resolve_eq_ok_iff {ip : String} : resolve desc env = .ok ip ↔
    Installed env.path ∧ ∃ addr, env.getByName = some addr ∧ addr.hostAddress = ip := by
  unfold resolve
  cases env.getByName with
  | none => simp
  | some addr =>
      simp only [except_bind_eq_ok, Option.some.injEq, exists_eq_left',
        ← pingExecutable_eq_some_iff addr.version]
      constructor
      · rintro ⟨exe, hexe, h⟩
        cases exe with
        | none => cases h
        | some exe => exact ⟨⟨exe, hexe⟩, Except.ok.inj h⟩
      · rintro ⟨⟨exe, hexe⟩, rfl⟩
        exact ⟨some exe, hexe, rfl⟩

variable (J desc env) in
/-- A measurement of the route comes to round `m`: the target is known, the
executable is found, and no round before it is the last. -/
def Reaches (hostIp : String) (m : ℕ) : Prop :=
  (Installed env.path ∧ ∃ addr, env.getByName = some addr ∧ addr.hostAddress = hostIp) ∧
    Runs J desc env hostIp 0 m ∧ m ≤ desc.maxHopCount.val.toNat

/-- The call throws nothing else exactly when no round that is reached does. -/
theorem contained_iff : Contained (call J desc env) ↔
    (env.getByName.isSome → Permitted env.path) ∧
      ∀ hostIp m, Reaches J desc env hostIp m → ReadsWell J desc env m ∧
        (Answered J desc env hostIp m → env.device.neighboringCellInfo.isSome) := by
  unfold call Reaches
  rw [Contained, failsOnly_bind, resolve_failsOnly_iff]
  refine and_congr_right fun _ => ?_
  constructor
  · rintro h hostIp m ⟨hresolve, hruns, hm⟩
    exact contained_rounds_iff.mp (h hostIp (resolve_eq_ok_iff.mpr hresolve)) m hruns (by omega)
  · intro h hostIp hresolve
    refine contained_rounds_iff.mpr fun m hruns hm => ?_
    exact h hostIp m ⟨resolve_eq_ok_iff.mp hresolve, hruns, by omega⟩

/-! ## Showing the result -/

variable (J) in
/-- The text of a mean time is a number. -/
def TimeReads (hop : HopInfo) : Prop :=
  (readDecimal (String.ofList ((rttText J hop).toList.filter (· ≠ '"')))).isSome

/-- A line is shown when there is a time and it is a number: a missing one is
shown as unknown, which is none. -/
theorem exists_hopLine_iff {values : Values} {width i : ℕ} :
    (∃ line, hopLine J values width i = .ok line) ↔
      ∃ text, values.get (hopRttKey i) = some text ∧
        (readDecimal (String.ofList (text.toList.filter (· ≠ '"')))).isSome := by
  unfold hopLine
  simp only [exists_bind_eq_ok]
  cases hget : values.get (hopRttKey i) with
  | none =>
      have hunknown : J.parseFloat (some "Unknown") = .error (numberFormat "Unknown") := by
        have hnone : readDecimal "Unknown" = none := by decide +kernel
        simp only [Platform.parseFloat, hnone]
      simp [removeQuotes, hunknown]
  | some text =>
      simp only [removeQuotes, Option.map_some, Option.getD_some, Platform.parseFloat,
        Option.some.injEq, exists_eq_left']
      cases readDecimal (String.ofList (text.toList.filter (· ≠ '"'))) with
      | none => simp
      | some x => simp

/-- The result can be shown exactly when the time of each of its hops can be read. -/
theorem exists_getTracerouteResult_iff {r : MeasurementResult} {hops : ℤ}
    (hsuccess : r.success = true) (hnum : r.values.get "num_hops" = some (toString hops))
    (hlo : -2 ^ 31 ≤ hops) (hhi : hops < 2 ^ 31) :
    (∃ lines, getTracerouteResult J desc r = .ok lines) ↔
      ∀ i < hops.toNat, ∃ text, r.values.get (hopRttKey i) = some text ∧
        (readDecimal (String.ofList (text.toList.filter (· ≠ '"')))).isSome := by
  unfold getTracerouteResult
  rw [if_pos hsuccess, hnum]
  simp only [exists_bind_eq_ok, intValue_toString_eq_ok]
  constructor
  · rintro ⟨_, ⟨rfl, -⟩, lines, hlines, -⟩ i hi
    exact exists_hopLine_iff.mp (exists_mapM_eq_ok.mp ⟨lines, hlines⟩ i (List.mem_range.mpr hi))
  · intro h
    have hlines : ∃ lines, (List.range hops.toNat).mapM
        (hopLine J r.values (toString (toInt (hops + 1))).length) = .ok lines :=
      exists_mapM_eq_ok.mpr fun i hi => exists_hopLine_iff.mpr (h i (List.mem_range.mp hi))
    obtain ⟨lines, hlines⟩ := hlines
    exact ⟨hops, ⟨rfl, hlo, hhi⟩, lines, hlines, _, rfl⟩

/-- A distance is an `int`. -/
theorem ttlOf_mem (n : ℕ) : -2 ^ 31 ≤ ttlOf n ∧ ttlOf n < 2 ^ 31 := by
  have hlo := Int.le_bmod (x := (n : ℤ) + 1) (m := 2 ^ 32) (by decide)
  have hhi := Int.bmod_lt (x := (n : ℤ) + 1) (m := 2 ^ 32) (by decide)
  unfold ttlOf toInt
  omega

/-- So can a report, of the hops it counts. -/
theorem shown_report_iff {n : ℕ} {hops : List HopInfo} :
    Shown J (report J desc env (ttlOf n) hops) ↔ (env.device.neighboringCellInfo.isSome →
      ∀ i < (ttlOf n).toNat, ∃ hop, hops[i]? = some hop ∧ TimeReads J hop) := by
  by_cases hcells : env.device.neighboringCellInfo.isSome
  swap
  · rw [report_of_no_cells hcells]
    exact iff_of_true shown_error fun h => absurd h hcells
  rw [imp_iff_right hcells]
  obtain ⟨values, hreport, hnum, hrtt⟩ := report_eq J desc hcells (ttlOf n) hops
  obtain ⟨hlo, hhi⟩ := ttlOf_mem n
  rw [hreport, shown_ok_iff]
  let r : MeasurementResult := {
    type := .traceroute
    timestamp := env.device.timestamp
    success := true
    parameters := .traceroute desc
    values }
  show (true = true → ∃ lines, getTracerouteResult J desc r = .ok lines) ↔ _
  rw [forall_prop_of_true rfl, exists_getTracerouteResult_iff rfl hnum hlo hhi]
  refine forall₂_congr fun i _ => ?_
  show (∃ text, values.get (hopRttKey i) = some text ∧ _) ↔ _
  rw [hrtt i]
  constructor
  · rintro ⟨text, htext, hreads⟩
    obtain ⟨hop, hhop, rfl⟩ := Option.map_eq_some_iff.mp htext
    exact ⟨hop, hhop, hreads⟩
  · rintro ⟨hop, hhop, hreads⟩
    exact ⟨rttText J hop, Option.map_eq_some_iff.mpr ⟨hop, hhop, rfl⟩, hreads⟩

variable (J desc env hostIp) in
/-- The records of the rounds from `n` to `m`. -/
def recordsOf (n m : ℕ) : List HopInfo :=
  (List.range' n (m + 1 - n)).filterMap (recordOf J desc env hostIp)

/-- The records of a route, the first one first. -/
theorem recordsOf_of_lt {n m : ℕ} (h : n < m) : recordsOf J desc env hostIp n m =
    (recordOf J desc env hostIp n).toList ++ recordsOf J desc env hostIp (n + 1) m := by
  have hlen : m + 1 - n = m + 1 - (n + 1) + 1 := by omega
  unfold recordsOf
  rw [hlen, List.range'_succ, List.filterMap_cons]
  cases recordOf J desc env hostIp n with
  | none => rfl
  | some hop => rfl

/-- The record of one round. -/
theorem recordsOf_self {n : ℕ} (h : Recorded desc env n) :
    recordsOf J desc env hostIp n n = [hopOf J desc env hostIp n] := by
  unfold recordsOf
  simp [recordOf, h]

/-- A result is the report of the round that is answered. -/
theorem rounds_eq_ok_iff {left n : ℕ} {hops : List HopInfo} {r : MeasurementResult} :
    rounds J desc hostIp env left n hops = .ok r ↔
      ∃ m, Runs J desc env hostIp n m ∧ m < n + left ∧ ReadsWell J desc env m ∧
        Answered J desc env hostIp m ∧
          report J desc env (ttlOf m) (hops ++ recordsOf J desc env hostIp n m) = .ok r := by
  induction left generalizing n hops with
  | zero =>
      refine iff_of_false nofun ?_
      rintro ⟨m, hruns, hm, -⟩
      have hle := hruns.le
      omega
  | succ left ih =>
      cases hstop : env.stopRequested n with
      | true =>
          -- no round is run
          rw [rounds, hstop]
          refine iff_of_false nofun ?_
          rintro ⟨m, hruns, -⟩
          rw [hruns.not_stopRequested] at hstop
          cases hstop
      | false =>
          by_cases hread : ReadsWell J desc env n
          · by_cases hans : Answered J desc env hostIp n
            · -- the report of this round is the result
              rw [rounds_of_answered hstop hread hans, ← recordsOf_self hans.1]
              constructor
              · intro h
                exact ⟨n, .here hstop, by omega, hread, hans, h⟩
              · rintro ⟨m, hruns, -, -, -, h⟩
                cases hruns with
                | here => exact h
                | next _ _ hnot _ => exact absurd hans hnot
            · -- the records so far go to the next round, with that of this one
              rw [rounds_of_not_answered hstop hread hans, ih]
              constructor
              · rintro ⟨m, hruns, hm, hreadm, hansm, h⟩
                rw [List.append_assoc, ← recordsOf_of_lt hruns.le] at h
                exact ⟨m, .next hstop hread hans hruns, by omega, hreadm, hansm, h⟩
              · rintro ⟨m, hruns, hm, hreadm, hansm, h⟩
                cases hruns with
                | here => exact absurd hansm hans
                | next _ _ _ hrest =>
                    rw [recordsOf_of_lt hrest.le, ← List.append_assoc] at h
                    exact ⟨m, hrest, by omega, hreadm, hansm, h⟩
          · obtain ⟨e, he, -⟩ := round_of_not_readsWell hostIp hops hread
            rw [rounds, hstop, he]
            refine iff_of_false nofun ?_
            rintro ⟨m, hruns, -, hreadm, -⟩
            cases hruns with
            | here => exact hread hreadm
            | next _ hreadn _ _ => exact hread hreadn

/-- The call returns the report of the round that reaches the target. -/
theorem call_eq_ok_iff {r : MeasurementResult} : call J desc env = .ok r ↔
    ∃ hostIp m, Reaches J desc env hostIp m ∧ ReadsWell J desc env m ∧
      Answered J desc env hostIp m ∧
        report J desc env (ttlOf m) (recordsOf J desc env hostIp 0 m) = .ok r := by
  unfold call Reaches
  rw [except_bind_eq_ok]
  refine exists_congr fun hostIp => ?_
  rw [resolve_eq_ok_iff, rounds_eq_ok_iff]
  constructor
  · rintro ⟨hresolve, m, hruns, hm, hread, hans, h⟩
    exact ⟨m, ⟨hresolve, hruns, by omega⟩, hread, hans, h⟩
  · rintro ⟨m, ⟨hresolve, hruns, hm⟩, hread, hans, h⟩
    exact ⟨hresolve, m, hruns, by omega, hread, hans, h⟩

/-- The records are those of the rounds up to the last. -/
theorem recordsOf_zero (m : ℕ) : recordsOf J desc env hostIp 0 m =
    (List.range (m + 1)).filterMap (recordOf J desc env hostIp) := by
  unfold recordsOf
  rw [Nat.sub_zero, List.range_eq_range']

/-- The records of rounds of which none is missing. -/
theorem recordsOf_eq_map {m : ℕ} (h : ∀ j ≤ m, Recorded desc env j) :
    recordsOf J desc env hostIp 0 m = (List.range (m + 1)).map (hopOf J desc env hostIp) := by
  rw [recordsOf_zero, ← List.filterMap_eq_map]
  refine List.filterMap_congr fun j hj => ?_
  have hlt := List.mem_range.mp hj
  rw [recordOf, if_pos (h j (by omega))]
  rfl

/-- When there are as many records as rounds, none is missing. -/
theorem recorded_of_length {m : ℕ} (h : m < (recordsOf J desc env hostIp 0 m).length) :
    ∀ j ≤ m, Recorded desc env j := by
  rw [recordsOf_zero] at h
  have hle := List.length_filterMap_le (recordOf J desc env hostIp) (List.range (m + 1))
  rw [List.length_range] at hle
  have hlength : ((List.range (m + 1)).filterMap (recordOf J desc env hostIp)).length =
      (List.range (m + 1)).length := by
    rw [List.length_range]
    omega
  intro j hj
  by_contra hnot
  have hsome := List.filterMap_length_eq_length.mp hlength j (List.mem_range.mpr (by omega))
  unfold recordOf at hsome
  rw [if_neg hnot] at hsome
  cases hsome

/-- The records cover the rounds when none is missing. -/
theorem forall_recordsOf_iff {m : ℕ} {P : HopInfo → Prop} :
    (∀ i < m + 1, ∃ hop, (recordsOf J desc env hostIp 0 m)[i]? = some hop ∧ P hop) ↔
      ∀ j ≤ m, Recorded desc env j ∧ P (hopOf J desc env hostIp j) := by
  have hget : (∀ j ≤ m, Recorded desc env j) → ∀ i < m + 1,
      (recordsOf J desc env hostIp 0 m)[i]? = some (hopOf J desc env hostIp i) := by
    intro h i hi
    rw [recordsOf_eq_map h, List.getElem?_map, List.getElem?_range hi]
    rfl
  constructor
  · intro h
    obtain ⟨last, hlast, -⟩ := h m (Nat.lt_succ_self m)
    have hrecorded := recorded_of_length (List.getElem?_eq_some_iff.mp hlast).1
    intro j hj
    obtain ⟨hop, hhop, hP⟩ := h j (by omega)
    rw [hget hrecorded j (by omega)] at hhop
    cases hhop
    exact ⟨hrecorded j hj, hP⟩
  · intro h i hi
    exact ⟨_, hget (fun j hj => (h j hj).1) i hi, (h i (by omega)).2⟩

/-- The rounds of a route that reaches its target each leave a record whose time
can be read. Beyond the last `int` no hop is shown. -/
def Showable (J : Platform) (desc : TracerouteDesc) (env : TracerouteEnv) : Prop :=
  ∀ hostIp m, Reaches J desc env hostIp m → ReadsWell J desc env m →
    Answered J desc env hostIp m → env.device.neighboringCellInfo.isSome → m + 1 < 2 ^ 31 →
      ∀ j ≤ m, Recorded desc env j ∧ TimeReads J (hopOf J desc env hostIp j)

/-- A route can be shown exactly when each of its rounds left a record that can be
read. -/
theorem shown_iff : Shown J (call J desc env) ↔ Showable J desc env := by
  have hreport : ∀ hostIp m, m ≤ desc.maxHopCount.val.toNat →
      (Shown J (report J desc env (ttlOf m) (recordsOf J desc env hostIp 0 m)) ↔
        (env.device.neighboringCellInfo.isSome → m + 1 < 2 ^ 31 →
          ∀ j ≤ m, Recorded desc env j ∧ TimeReads J (hopOf J desc env hostIp j))) := by
    intro hostIp m hm
    have hmax := desc.maxHopCount.property.2
    rw [shown_report_iff]
    refine imp_congr_right fun _ => ?_
    -- the time to live is an `int`: at the greatest hop count it wraps, and no hop is reported
    by_cases hlt : m + 1 < 2 ^ 31
    · have httl : (ttlOf m).toNat = m + 1 := by
        unfold ttlOf
        rw [toInt_eq (by omega) (by omega)]
        omega
      rw [httl, forall_recordsOf_iff]
      simp only [hlt, true_imp_iff]
    · have httl : (ttlOf m).toNat = 0 := by
        have hm' : (m : ℤ) + 1 = 2 ^ 31 := by omega
        unfold ttlOf
        rw [hm']
        decide
      rw [httl]
      exact iff_of_true (fun i hi => absurd hi (Nat.not_lt_zero i)) fun h => absurd h hlt
  -- what the call returns is a report
  constructor
  · intro h hostIp m hreaches hread hans
    refine (hreport hostIp m hreaches.2.2).mp fun r hr hsuccess => ?_
    exact h r (call_eq_ok_iff.mpr ⟨hostIp, m, hreaches, hread, hans, hr⟩) hsuccess
  · intro h r hr hsuccess
    obtain ⟨hostIp, m, hreaches, hread, hans, hr⟩ := call_eq_ok_iff.mp hr
    exact (hreport hostIp m hreaches.2.2).mpr (h hostIp m hreaches hread hans) r hr hsuccess

end Rounds

end TracerouteTask

end MobiPerf.Measurements
