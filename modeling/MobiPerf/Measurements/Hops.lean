import MobiPerf.Measurements.Traceroute

/-!
# Measurements.Hops — what a route's result says of each distance

A result holds the records in the order they were made, and takes the distance
of the target for their number. Both agree as long as every round leaves a
record.

* `TracerouteTask.aligned_iff`: each record is that of its distance exactly when
  no round up to the target is given up, the times of a round do not come to a
  mean of -1, and the target is nearer than the `int`s go.
-/

namespace MobiPerf.Measurements

open Lib Scheduler

/-! ## Keys -/

theorem hopAddrKey_injective {i j k l : ℕ} (h : hopAddrKey i j = hopAddrKey k l) :
    i = k ∧ j = l := by
  have hkey : ∀ i j : ℕ, (hopAddrKey i j).toList =
      "hop_".toList ++ (Nat.toDigits 10 i ++ '_' :: ("addr_".toList ++ Nat.toDigits 10 j)) := by
    intro i j
    have hrest : "_addr_" ++ toString j =
        String.ofList ('_' :: ("addr_".toList ++ Nat.toDigits 10 j)) := by
      rw [← String.toList_inj]
      simp
    exact toList_hopKey i ("addr_".toList ++ Nat.toDigits 10 j) (hopAddrKey i j) (by
      rw [hopAddrKey, String.append_assoc, hrest])
  have htail := hkey i j
  rw [h, hkey k l] at htail
  have hsplit := append_sep_inj Nat.underscore_not_in_toDigits Nat.underscore_not_in_toDigits
    (List.append_cancel_left htail)
  have haddr := List.append_cancel_left hsplit.2
  exact ⟨(toDigits_injective hsplit.1).symm, (toDigits_injective haddr).symm⟩

namespace TracerouteTask

variable {J : Platform} {desc : TracerouteDesc} {env : TracerouteEnv} {hostIp : String}

/-! ## The hosts in a result -/

section Hosts

/-- The addresses of one record, from place `k` on. -/
theorem get_addAddrs {i k : ℕ} {hosts : List String} {r r' : MeasurementResult}
    (h : (hosts.zipIdx k).foldlM (addAddr J i) r = .ok r') (n j : ℕ) :
    r'.values.get (hopAddrKey n (j + 1)) =
      if n = i ∧ k ≤ j ∧ j < k + hosts.length then (hosts[j - k]?).map J.quote
      else r.values.get (hopAddrKey n (j + 1)) := by
  induction hosts generalizing k r with
  | nil =>
      cases h
      rw [if_neg (by simp only [List.length_nil]; omega)]
  | cons host hosts ih =>
      rw [ih h, List.length_cons]
      by_cases hlater : n = i ∧ k + 1 ≤ j ∧ j < k + 1 + hosts.length
      · have hj : j - k = j - (k + 1) + 1 := by omega
        rw [if_pos hlater, if_pos (by omega), hj, List.getElem?_cons_succ]
      · rw [if_neg hlater, Values.get_cons]
        by_cases hhere : n = i ∧ j = k
        · obtain ⟨rfl, rfl⟩ := hhere
          rw [if_pos rfl, if_pos (by omega), Nat.sub_self]
          rfl
        · have hkey : hopAddrKey n (j + 1) ≠ hopAddrKey i (k + 1) := fun heq =>
            hhere ⟨(hopAddrKey_injective heq).1, Nat.succ_injective (hopAddrKey_injective heq).2⟩
          rw [if_neg hkey, if_neg (by omega)]

theorem get_addHop {k : ℕ} {hop : HopInfo} {r r' : MeasurementResult}
    (h : addHop J r (hop, k) = .ok r') (n j : ℕ) :
    r'.values.get (hopAddrKey n (j + 1)) =
      if n = k ∧ j < hop.hosts.length then (hop.hosts[j]?).map J.quote
      else r.values.get (hopAddrKey n (j + 1)) := by
  obtain ⟨addrs, haddrs, hrtt⟩ := except_bind_eq_ok.mp h
  cases hrtt
  have haddr := get_addAddrs haddrs n j
  rw [Values.get_cons, if_neg (hopRttKey_ne_hopAddrKey k n (j + 1)).symm, haddr]
  simp

/-- The addresses of the records, the first of which is record `k`. -/
theorem get_addHops {k : ℕ} {hops : List HopInfo} {r r' : MeasurementResult}
    (h : (hops.zipIdx k).foldlM (addHop J) r = .ok r')
    (hnone : ∀ n, k ≤ n → ∀ j, r.values.get (hopAddrKey n (j + 1)) = none) (n j : ℕ) :
    r'.values.get (hopAddrKey n (j + 1)) =
      if k ≤ n then ((hops[n - k]?).bind fun hop => hop.hosts[j]?).map J.quote
      else r.values.get (hopAddrKey n (j + 1)) := by
  induction hops generalizing k r with
  | nil =>
      cases h
      split
      · exact hnone n ‹_› j
      · rfl
  | cons hop hops ih =>
      obtain ⟨next, hhop, hrest⟩ := except_bind_eq_ok.mp h
      have hadded := get_addHop hhop
      rw [ih hrest fun m hm j => by rw [hadded, if_neg (by omega), hnone m (by omega)]]
      by_cases hlater : k + 1 ≤ n
      · have hn : n - k = n - (k + 1) + 1 := by omega
        rw [if_pos hlater, if_pos (by omega), hn, List.getElem?_cons_succ]
      · rw [if_neg hlater, hadded]
        by_cases hhere : n = k
        · subst hhere
          rw [if_pos (Nat.le_refl n), Nat.sub_self, List.getElem?_cons_zero, Option.bind_some]
          split
          · rfl
          · rw [hnone n (Nat.le_refl n), List.getElem?_eq_none (by omega)]
            rfl
        · rw [if_neg (by omega), if_neg (by omega)]

/-- The result holds the hosts of each record. -/
theorem get_report {ttl : ℤ} {hops : List HopInfo} {r : MeasurementResult}
    (h : report J desc env ttl hops = .ok r) (n j : ℕ) :
    r.values.get (hopAddrKey n (j + 1)) =
      ((hops[n]?).bind fun hop => hop.hosts[j]?).map J.quote := by
  obtain ⟨-, hvalues⟩ := newResult_bind_eq_ok.mp h
  obtain ⟨first, hfirst, hrest⟩ := except_bind_eq_ok.mp hvalues
  cases hfirst
  have hnone : ∀ n j, Values.get [("num_hops", toString ttl)] (hopAddrKey n (j + 1)) = none := by
    intro n j
    rw [Values.get_cons, if_neg (num_hops_ne_hopAddrKey n (j + 1)).symm]
    rfl
  rw [get_addHops hrest (fun n _ j => hnone n j), if_pos (Nat.zero_le n), Nat.sub_zero]

end Hosts

/-! ## Records and distances -/

section Records

variable (desc env hostIp) in
/-- The hosts that the lines of round `n` name. -/
def hostsNamed (n : ℕ) : List String := (linesRead (probes desc env n)).foldl (addLine hostIp) []

variable (desc env hostIp) in
/-- What the pings of round `n` tell of the hosts at its distance: nothing, where
none of them ends. -/
def hostsObtained (n : ℕ) : List String :=
  if times (probes desc env n) = [] then [unreachableHost desc] else hostsNamed desc env hostIp n

variable (J desc env hostIp) in
/-- Record `i` holds what the pings of its distance obtained: the hosts, in any
order, and the mean of the times. -/
structure Holds (values : Values) (i : ℕ) : Prop where
  hosts : ∃ hosts : List String, hosts.Perm (hostsObtained desc env hostIp i) ∧
    ∀ k : ℕ, values.get (hopAddrKey i (k + 1)) = (hosts[k]?).map J.quote
  time : values.get (hopRttKey i) = some (J.quote (J.locale.format 3 (meanRtt J desc env i)))

variable (J desc env hostIp) in
/-- The values of a target that answers in round `m`: its distance, and a record
for each distance up to it and for no other. -/
structure Aligned (m : ℕ) (values : Values) : Prop where
  num_hops : values.get "num_hops" = some (toString (ttlOf m))
  records : ∀ i : ℕ, i < ttlOf m → Holds J desc env hostIp values i
  beyond : ∀ i : ℕ, ttlOf m ≤ i →
    values.get (hopRttKey i) = none ∧ ∀ k, values.get (hopAddrKey i (k + 1)) = none

variable (J desc env hostIp) in
/-- Times that come to a mean of -1 are taken for none at all. -/
def MeanTells (n : ℕ) : Prop :=
  (meanRtt J desc env n).beq (.finite (-1)) →
    times (probes desc env n) = [] ∨ unreachableHost desc ∈ hostsNamed desc env hostIp n

theorem linesRead_of_times {ps : List Probe} (h : times ps = []) : linesRead ps = [] := by
  induction ps with
  | nil => rfl
  | cons p ps ih =>
      cases p with
      | io failure => rfl
      | security message => rfl
      | interrupted => exact ih h
      | timedOut => exact ih h
      | finished duration output => cases h

/-- The hosts of a record are those obtained, or one more. -/
theorem hosts_hopOf (n : ℕ) : (hopOf J desc env hostIp n).hosts =
    if times (probes desc env n) = [] then hostsObtained desc env hostIp n
    else if (meanRtt J desc env n).beq (.finite (-1)) then
      addHost (hostsObtained desc env hostIp n) (unreachableHost desc)
    else hostsObtained desc env hostIp n := by
  unfold hostsObtained
  by_cases htimes : times (probes desc env n) = []
  · have hmean : meanRtt J desc env n = .finite (-1) := by
      unfold meanRtt Round.mean
      simp [htimes]
    unfold hopOf
    simp only [hmean, linesRead_of_times htimes, if_pos htimes]
    rfl
  · simp only [if_neg htimes]
    rfl

theorem mem_of_length_addHost {hosts : List String} {host : String}
    (h : (addHost hosts host).length = hosts.length) : host ∈ hosts := by
  unfold addHost at h
  split at h
  · assumption
  · simp at h

/-- The hosts of a record are those obtained, unless the mean time of some pings is
taken for that of none: then the unreachable host is added to them. -/
theorem perm_hosts_iff (n : ℕ) :
    (∃ hosts : List String, hosts.Perm (hostsObtained desc env hostIp n) ∧
      ∀ k : ℕ, ((hopOf J desc env hostIp n).hosts[k]?).map J.quote = (hosts[k]?).map J.quote) ↔
        MeanTells J desc env hostIp n := by
  unfold MeanTells
  rw [hosts_hopOf]
  by_cases htimes : times (probes desc env n) = []
  · rw [if_pos htimes]
    exact iff_of_true ⟨_, List.Perm.refl _, fun _ => rfl⟩ fun _ => Or.inl htimes
  · have hnamed : hostsObtained desc env hostIp n = hostsNamed desc env hostIp n := if_neg htimes
    rw [if_neg htimes, hnamed]
    by_cases hmean : (meanRtt J desc env n).beq (.finite (-1))
    · simp only [hmean, if_true, true_imp_iff, htimes, false_or]
      constructor
      · -- a host that is added makes the record longer
        rintro ⟨hosts, hperm, hsame⟩
        have hmap : (addHost (hostsNamed desc env hostIp n) (unreachableHost desc)).map J.quote =
            hosts.map J.quote := by
          refine List.ext_getElem? fun k => ?_
          rw [List.getElem?_map, List.getElem?_map]
          exact hsame k
        have hlength := congrArg List.length hmap
        rw [List.length_map, List.length_map, hperm.length_eq] at hlength
        exact mem_of_length_addHost hlength
      · intro hmem
        have hsame : addHost (hostsNamed desc env hostIp n) (unreachableHost desc) =
            hostsNamed desc env hostIp n := if_pos hmem
        exact ⟨_, List.Perm.refl _, fun k => by rw [hsame]⟩
    · rw [if_neg hmean]
      exact iff_of_true ⟨_, List.Perm.refl _, fun _ => rfl⟩ fun h => absurd h hmean

/-- Values with the record of a round hold what was obtained when its mean time
tells. -/
theorem holds_iff {values : Values} {j : ℕ}
    (hhosts : ∀ k : ℕ, values.get (hopAddrKey j (k + 1)) =
      ((hopOf J desc env hostIp j).hosts[k]?).map J.quote)
    (htime : values.get (hopRttKey j) =
      some (J.quote (J.locale.format 3 (meanRtt J desc env j)))) :
    Holds J desc env hostIp values j ↔ MeanTells J desc env hostIp j := by
  rw [← perm_hosts_iff]
  constructor
  · rintro ⟨⟨hosts, hperm, hsame⟩, -⟩
    exact ⟨hosts, hperm, fun k => by rw [← hsame k, hhosts]⟩
  · rintro ⟨hosts, hperm, hsame⟩
    exact ⟨⟨hosts, hperm, fun k => by rw [← hsame k, hhosts]⟩, htime⟩

/-- A target answers once. -/
theorem Runs.unique {n m m' : ℕ} (h : Runs J desc env hostIp n m) (h' : Runs J desc env hostIp n m')
    (hans : Answered J desc env hostIp m) (hans' : Answered J desc env hostIp m') : m = m' := by
  induction h with
  | here hstop =>
      cases h' with
      | here => rfl
      | next _ _ hnot _ => exact absurd hans hnot
  | next hstop hread hnot hrest ih =>
      cases h' with
      | here => exact absurd hans' hnot
      | next _ _ _ hrest' => exact ih hrest' hans

theorem Reaches.unique {ip : String} {m m' : ℕ} (h : Reaches J desc env hostIp m)
    (h' : Reaches J desc env ip m') (hans : Answered J desc env hostIp m)
    (hans' : Answered J desc env ip m') : hostIp = ip ∧ m = m' := by
  obtain ⟨⟨-, addr, haddr, rfl⟩, hruns, -⟩ := h
  obtain ⟨⟨-, addr', haddr', rfl⟩, hruns', -⟩ := h'
  rw [haddr] at haddr'
  cases haddr'
  exact ⟨rfl, hruns.unique hruns' hans hans'⟩

/-- A report that is made needs a list of the cells around the phone. -/
theorem cells_of_report {ttl : ℤ} {hops : List HopInfo} {r : MeasurementResult}
    (h : report J desc env ttl hops = .ok r) : env.device.neighboringCellInfo.isSome :=
  (newResult_bind_eq_ok.mp h).1

/-- The records of a report are those of its distances when none is missing and
the mean times tell. -/
theorem aligned_report_iff {m : ℕ} {r : MeasurementResult} (hm : m + 1 < 2 ^ 31)
    (hreport : report J desc env (ttlOf m) (recordsOf J desc env hostIp 0 m) = .ok r) :
    Aligned J desc env hostIp m r.values ↔
      ∀ j ≤ m, Recorded desc env j ∧ MeanTells J desc env hostIp j := by
  have httl : ttlOf m = m + 1 := toInt_eq (by omega) (by omega)
  have haddr := get_report hreport
  obtain ⟨values, hvalues, hnum, hrtt⟩ :=
    report_eq J desc (cells_of_report hreport) (ttlOf m) (recordsOf J desc env hostIp 0 m)
  rw [hvalues] at hreport
  cases hreport
  have hrecord : (∀ j ≤ m, Recorded desc env j) → ∀ j ≤ m,
      (recordsOf J desc env hostIp 0 m)[j]? = some (hopOf J desc env hostIp j) := by
    intro h j hj
    rw [recordsOf_eq_map h, List.getElem?_map, List.getElem?_range (by omega)]
    rfl
  have hholds : (∀ j ≤ m, Recorded desc env j) → ∀ j ≤ m,
      (Holds J desc env hostIp values j ↔ MeanTells J desc env hostIp j) := by
    intro h j hj
    refine holds_iff (fun k => ?_) ?_
    · rw [haddr, hrecord h j hj]
      rfl
    · rw [hrtt, hrecord h j hj]
      rfl
  constructor
  · intro h
    -- the last record has a time, so no round before it is missing
    have hlength : m < (recordsOf J desc env hostIp 0 m).length := by
      have htime := (h.records m (by omega)).time
      rw [hrtt] at htime
      obtain ⟨hop, hhop, -⟩ := Option.map_eq_some_iff.mp htime
      exact (List.getElem?_eq_some_iff.mp hhop).1
    have hrecorded := recorded_of_length hlength
    intro j hj
    exact ⟨hrecorded j hj, (hholds hrecorded j hj).mp (h.records j (by omega))⟩
  · intro h
    have hrecorded : ∀ j ≤ m, Recorded desc env j := fun j hj => (h j hj).1
    refine ⟨hnum, fun i hi => ?_, fun i hi => ?_⟩
    · exact (hholds hrecorded i (by omega)).mpr (h i (by omega)).2
    · have hlength : (recordsOf J desc env hostIp 0 m).length = m + 1 := by
        rw [recordsOf_eq_map hrecorded, List.length_map, List.length_range]
      have hnone : (recordsOf J desc env hostIp 0 m)[i]? = none :=
        List.getElem?_eq_none (by omega)
      refine ⟨by rw [hrtt, hnone]; rfl, fun k => by rw [haddr, hnone]; rfl⟩

/-- Beyond the last `int` a record is there for which there is no distance. -/
theorem not_aligned_of_last {m : ℕ} {r : MeasurementResult} (hm : (m : ℤ) + 1 = 2 ^ 31)
    (hans : Answered J desc env hostIp m)
    (hreport : report J desc env (ttlOf m) (recordsOf J desc env hostIp 0 m) = .ok r) :
    ¬ Aligned J desc env hostIp m r.values := by
  intro h
  obtain ⟨values, hvalues, -, hrtt⟩ :=
    report_eq J desc (cells_of_report hreport) (ttlOf m) (recordsOf J desc env hostIp 0 m)
  rw [hvalues] at hreport
  cases hreport
  have httl : ttlOf m = -2 ^ 31 := by
    unfold ttlOf
    rw [hm]
    decide
  have hmem : hopOf J desc env hostIp m ∈ recordsOf J desc env hostIp 0 m := by
    rw [recordsOf_zero, List.mem_filterMap]
    exact ⟨m, List.mem_range.mpr (Nat.lt_succ_self m), if_pos hans.1⟩
  obtain ⟨i, hi⟩ := List.mem_iff_getElem?.mp hmem
  have hnone := (h.beyond i (by omega)).1
  rw [hrtt, hi] at hnone
  cases hnone

/-- Each record of a result is that of its distance when every round up to the
target has left one. -/
theorem aligned_iff (J : Platform) (desc : TracerouteDesc) (env : TracerouteEnv) :
    (∀ r, call J desc env = .ok r → ∃ hostIp m, Reaches J desc env hostIp m ∧
      Answered J desc env hostIp m ∧ Aligned J desc env hostIp m r.values) ↔
        ∀ hostIp m, Reaches J desc env hostIp m → ReadsWell J desc env m →
          Answered J desc env hostIp m → env.device.neighboringCellInfo.isSome →
            m + 1 < 2 ^ 31 ∧ ∀ j ≤ m, Recorded desc env j ∧ MeanTells J desc env hostIp j := by
  constructor
  · intro h hostIp m hreaches hread hans hcells
    obtain ⟨values, hreport, -⟩ :=
      report_eq J desc hcells (ttlOf m) (recordsOf J desc env hostIp 0 m)
    obtain ⟨ip, m', hreaches', hans', haligned⟩ :=
      h _ (call_eq_ok_iff.mpr ⟨hostIp, m, hreaches, hread, hans, hreport⟩)
    obtain ⟨rfl, rfl⟩ := hreaches.unique hreaches' hans hans'
    have hmax := desc.maxHopCount.property.2
    have hle := hreaches.2.2
    by_cases hm : m + 1 < 2 ^ 31
    · exact ⟨hm, (aligned_report_iff hm hreport).mp haligned⟩
    · exact absurd haligned (not_aligned_of_last (by omega) hans hreport)
  · intro h r hr
    obtain ⟨hostIp, m, hreaches, hread, hans, hreport⟩ := call_eq_ok_iff.mp hr
    obtain ⟨hm, hall⟩ := h hostIp m hreaches hread hans (cells_of_report hreport)
    exact ⟨hostIp, m, hreaches, hans, (aligned_report_iff hm hreport).mpr hall⟩

/-- A target two hops away, with one ping for each hop. -/
def twoHops : TracerouteDesc :=
  { TracerouteDesc.defaults "two.example" with pingsPerHop := Positive.one }

/-- The first ping cannot be started, the second one is answered by the target. -/
def firstPingLost : TracerouteEnv where
  getByName := some ⟨.v4, "10.0.0.2", "two.example"⟩
  path := [("/system/bin/", .started)]
  stopRequested := fun _ => false
  probe := fun n _ =>
    if n = 0 then .io ⟨some "Too many open files", none⟩
    else .finished 20 ⟨["64 bytes from 10.0.0.2: icmp_seq=1 ttl=63 time=20.1 ms"], none⟩
  device := ⟨0, some []⟩

/-- There is one record for two hops. -/
theorem record_of_first_ping_lost :
    ¬ ∀ r, call Platform.latin twoHops firstPingLost = .ok r →
      ∃ hostIp m, Reaches Platform.latin twoHops firstPingLost hostIp m ∧
        Answered Platform.latin twoHops firstPingLost hostIp m ∧
          Aligned Platform.latin twoHops firstPingLost hostIp m r.values := by
  intro h
  have hlost : ¬ Recorded twoHops firstPingLost 0 := by decide
  have hfirst : ReadsWell Platform.latin twoHops firstPingLost 0 :=
    ⟨nofun, fun failure hfailure => by cases hfailure; exact Or.inl rfl⟩
  have hsecond : ReadsWell Platform.latin twoHops firstPingLost 1 :=
    ⟨by decide +kernel, nofun⟩
  have hans : Answered Platform.latin twoHops firstPingLost "10.0.0.2" 1 :=
    ⟨by decide, by decide +kernel⟩
  have hreaches : Reaches Platform.latin twoHops firstPingLost "10.0.0.2" 1 :=
    ⟨⟨⟨_, rfl⟩, _, rfl, rfl⟩, .next rfl hfirst (fun h => hlost h.1) (.here rfl), by decide⟩
  have hcells : firstPingLost.device.neighboringCellInfo.isSome := rfl
  obtain ⟨values, hreport, -⟩ := report_eq Platform.latin twoHops hcells (ttlOf 1)
    (recordsOf Platform.latin twoHops firstPingLost "10.0.0.2" 0 1)
  obtain ⟨ip, m, hreaches', hans', haligned⟩ :=
    h _ (call_eq_ok_iff.mpr ⟨_, 1, hreaches, hsecond, hans, hreport⟩)
  obtain ⟨rfl, rfl⟩ := hreaches.unique hreaches' hans hans'
  exact hlost ((aligned_report_iff (by decide) hreport).mp haligned 0 (by decide)).1

end Records

end TracerouteTask

end MobiPerf.Measurements
