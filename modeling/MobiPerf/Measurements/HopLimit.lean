import MobiPerf.Measurements.Traceroute

/-!
# Measurements.HopLimit — the pings of a route

Which pings a call runs, each with its TTL. A round runs them one after the
other up to the first that ends the round, and the loop goes on to the next
round unless the target answers or an exception leaves the call.

* `TracerouteTask.exists_pingsOf`: the pings are those of the rounds the loop
  comes to;
* `TracerouteTask.bounded_iff`: the hop limit holds exactly when the loop does
  not come to the round behind it, the last distance before the `int`s are used
  up apart.
-/

namespace MobiPerf.Measurements

open Lib Scheduler

namespace TracerouteTask

/-! ## Pings -/

/-- The process is started. -/
def started : Probe → Bool
  | .io _ => false
  | .security _ => false
  | .interrupted => true
  | .timedOut => true
  | .finished _ _ => true

/-- The pings of a round: up to the first that ends it. -/
def pingsRun (J : Platform) (hostIp : String) : Round → List Probe → List Probe
  | _, [] => []
  | st, probe :: probes =>
    probe ::
      match ping J hostIp st probe with
      | .ok st => pingsRun J hostIp st probes
      | .error _ => []

/-- The pings of round `n`. -/
def pingsIn (J : Platform) (desc : TracerouteDesc) (hostIp : String) (env : TracerouteEnv) (n : ℕ) :
    List (ℤ × Probe) :=
  (pingsRun J hostIp ⟨.finite 0, 0, []⟩ (probes desc env n)).map fun probe => (ttlOf n, probe)

/-- The pings of the loop, from round `n` on. -/
def pingsOf (J : Platform) (desc : TracerouteDesc) (hostIp : String) (env : TracerouteEnv) :
    ℕ → ℕ → List HopInfo → List (ℤ × Probe)
  | 0, _, _ => []
  | left + 1, n, hopHosts =>
    if env.stopRequested n then []
    else
      pingsIn J desc hostIp env n ++
        match round J desc hostIp env n hopHosts with
        | .ok (hopHosts, none) => pingsOf J desc hostIp env left (n + 1) hopHosts
        | .ok (_, some _) => []
        | .error _ => []

def callPings (J : Platform) (desc : TracerouteDesc) (env : TracerouteEnv) : List (ℤ × Probe) :=
  match resolve desc env with
  | .ok hostIp => pingsOf J desc hostIp env (desc.maxHopCount.val.toNat + 1) 0 []
  | .error _ => []

/-! ## Rounds -/

section Rounds

variable {J : Platform} {desc : TracerouteDesc} {env : TracerouteEnv} {hostIp : String}

/-- A round that ends the loop is the last to run. -/
theorem runs_iff_of_last {n : ℕ} (hstop : env.stopRequested n = false)
    (hlast : ∀ m, Runs J desc env hostIp n m → m = n) (left m : ℕ) :
    Runs J desc env hostIp n m ∧ m < n + (left + 1) ↔ n ≤ m ∧ m < n + 1 := by
  constructor
  · rintro ⟨hruns, -⟩
    have hm := hlast m hruns
    omega
  · rintro ⟨hle, hm⟩
    have hm' : m = n := by omega
    subst hm'
    exact ⟨.here hstop, by omega⟩

/-- Behind a round that does not end the loop run those of the rest. -/
theorem runs_iff_of_next {n left k : ℕ} (hstop : env.stopRequested n = false)
    (hread : ReadsWell J desc env n) (hans : ¬ Answered J desc env hostIp n)
    (hrest : ∀ m, Runs J desc env hostIp (n + 1) m ∧ m < n + 1 + left ↔
      n + 1 ≤ m ∧ m < n + 1 + k) (m : ℕ) :
    Runs J desc env hostIp n m ∧ m < n + (left + 1) ↔ n ≤ m ∧ m < n + (k + 1) := by
  constructor
  · rintro ⟨hruns, hm⟩
    cases hruns with
    | here => omega
    | next _ _ _ hruns =>
        have hin := (hrest m).mp ⟨hruns, by omega⟩
        omega
  · rintro ⟨hle, hm⟩
    by_cases hm' : m = n
    · subst hm'
      exact ⟨.here hstop, by omega⟩
    · have hin := (hrest m).mpr (by omega)
      exact ⟨.next hstop hread hans hin.1, by omega⟩

theorem exists_round_eq_none {n : ℕ} (hops : List HopInfo) (hread : ReadsWell J desc env n)
    (hans : ¬ Answered J desc env hostIp n) :
    ∃ hops', round J desc hostIp env n hops = .ok (hops', none) := by
  by_cases hrecorded : Recorded desc env n
  · exact ⟨_, round_of_not_answered hread hrecorded hans⟩
  · exact ⟨_, round_of_not_recorded hread hrecorded⟩

variable (J desc env hostIp) in
/-- The pings of a loop are those of its rounds, and its rounds are the first. -/
theorem exists_pingsOf (left n : ℕ) (hops : List HopInfo) : ∃ k ≤ left,
    pingsOf J desc hostIp env left n hops =
      (List.range' n k).flatMap (pingsIn J desc hostIp env) ∧
        ∀ m, Runs J desc env hostIp n m ∧ m < n + left ↔ n ≤ m ∧ m < n + k := by
  induction left generalizing n hops with
  | zero =>
      refine ⟨0, Nat.le_refl 0, rfl, fun m => ?_⟩
      constructor
      · rintro ⟨hruns, hm⟩
        exact ⟨hruns.le, hm⟩
      · rintro ⟨hle, hm⟩
        omega
  | succ left ih =>
      cases hstop : env.stopRequested n with
      | true =>
          -- the task is stopped in front of the round
          refine ⟨0, Nat.zero_le _, by rw [pingsOf, if_pos hstop]; rfl, fun m => ?_⟩
          constructor
          · rintro ⟨hruns, -⟩
            rw [hruns.not_stopRequested] at hstop
            cases hstop
          · rintro ⟨hle, hm⟩
            omega
      | false =>
          rw [pingsOf, hstop]
          by_cases hread : ReadsWell J desc env n
          · by_cases hans : Answered J desc env hostIp n
            · -- the target answers: whether the report goes through or not
              have hround : round J desc hostIp env n hops = _ := round_of_answered hread hans
              refine ⟨1, by omega, ?_, runs_iff_of_last hstop (fun m hruns => ?_) left⟩
              · rw [hround]
                cases hreport :
                  report J desc env (ttlOf n) (hops ++ [hopOf J desc env hostIp n]) with
                | ok result => simp [hreport, bind, Except.bind]
                | error e => simp [hreport, bind, Except.bind]
              · cases hruns with
                | here => rfl
                | next _ _ hnot _ => exact absurd hans hnot
            · -- the next round runs
              obtain ⟨hops', hround⟩ := exists_round_eq_none hops hread hans
              obtain ⟨k, hk, hpings, hruns⟩ := ih (n + 1) hops'
              refine ⟨k + 1, by omega, ?_, runs_iff_of_next hstop hread hans hruns⟩
              rw [hround, List.range'_succ, List.flatMap_cons, ← hpings]
              rfl
          · -- an exception leaves the call
            obtain ⟨e, hround, -⟩ := round_of_not_readsWell hostIp hops hread
            refine ⟨1, by omega, ?_, runs_iff_of_last hstop (fun m hruns => ?_) left⟩
            · rw [hround]
              simp
            · cases hruns with
              | here => rfl
              | next _ hread' _ _ => exact absurd hread' hread

end Rounds

/-! ## The limit -/

section Limit

variable {J : Platform} {desc : TracerouteDesc} {env : TracerouteEnv} {hostIp : String}

/-- The processes among some pings. -/
def processes (pings : List (ℤ × Probe)) : ℕ := pings.countP fun ping => started ping.2

/-- The call keeps to its parameters: no TTL beyond the limit, and no more
processes than there are pings for the hops allowed. -/
structure Bounded (J : Platform) (desc : TracerouteDesc) (env : TracerouteEnv) : Prop where
  ttl : ∀ ping ∈ callPings J desc env, ping.1 ≤ desc.maxHopCount.val
  processes : processes (callPings J desc env) ≤ desc.maxHopCount.val * desc.pingsPerHop.val

theorem length_pingsRun_le (st : Round) (ps : List Probe) :
    (pingsRun J hostIp st ps).length ≤ ps.length := by
  induction ps generalizing st with
  | nil => exact Nat.le_refl _
  | cons p ps ih =>
      unfold pingsRun
      rw [List.length_cons, List.length_cons]
      cases ping J hostIp st p with
      | ok st => exact Nat.succ_le_succ (ih st)
      | error e => exact Nat.succ_le_succ (Nat.zero_le _)

theorem processes_pingsIn_le (n : ℕ) :
    processes (pingsIn J desc hostIp env n) ≤ desc.pingsPerHop.val.toNat := by
  calc processes (pingsIn J desc hostIp env n)
      ≤ (pingsIn J desc hostIp env n).length := List.countP_le_length
    _ ≤ (probes desc env n).length := by
        unfold pingsIn
        rw [List.length_map]
        exact length_pingsRun_le _ _
    _ = desc.pingsPerHop.val.toNat := by
        unfold probes
        rw [List.length_map, List.length_range]

variable (J desc env hostIp) in
/-- Each round runs a ping. -/
theorem exists_mem_pingsIn (n : ℕ) : ∃ probe, (ttlOf n, probe) ∈ pingsIn J desc hostIp env n := by
  have hpings := desc.pingsPerHop.property.1
  have hlength : (probes desc env n).length = desc.pingsPerHop.val.toNat := by
    unfold probes
    rw [List.length_map, List.length_range]
  unfold pingsIn
  cases hprobes : probes desc env n with
  | nil =>
      rw [hprobes, List.length_nil] at hlength
      omega
  | cons probe rest =>
      exact ⟨probe, List.mem_map.mpr ⟨probe, List.mem_cons_self, rfl⟩⟩

theorem ttl_eq_of_mem_pingsIn {n : ℕ} {ping : ℤ × Probe} (h : ping ∈ pingsIn J desc hostIp env n) :
    ping.1 = ttlOf n := by
  obtain ⟨probe, -, hping⟩ := List.mem_map.mp h
  rw [← hping]

variable (J desc env hostIp) in
theorem processes_flatMap (rounds : List ℕ) :
    processes (rounds.flatMap (pingsIn J desc hostIp env)) =
      (rounds.map fun n => processes (pingsIn J desc hostIp env n)).sum := by
  unfold processes
  rw [List.countP_flatMap]
  rfl

variable (J desc env hostIp) in
/-- The first rounds run at most their pings. -/
theorem sum_processes_le (k : ℕ) :
    ((List.range k).map fun n => processes (pingsIn J desc hostIp env n)).sum ≤
      k * desc.pingsPerHop.val.toNat := by
  induction k with
  | zero => exact Nat.zero_le _
  | succ k ih =>
      rw [List.range_succ, List.map_append, List.sum_append, Nat.succ_mul, List.map_singleton,
        List.sum_singleton]
      exact Nat.add_le_add ih (processes_pingsIn_le k)

/-- The pings of a call whose target is known are those of its first rounds. -/
theorem exists_callPings (hresolve : resolve desc env = .ok hostIp) :
    ∃ k ≤ desc.maxHopCount.val.toNat + 1,
      callPings J desc env = (List.range k).flatMap (pingsIn J desc hostIp env) ∧
        (Reaches J desc env hostIp desc.maxHopCount.val.toNat ↔
          k = desc.maxHopCount.val.toNat + 1) := by
  obtain ⟨k, hk, hpings, hruns⟩ :=
    exists_pingsOf J desc env hostIp (desc.maxHopCount.val.toNat + 1) 0 []
  refine ⟨k, hk, ?_, ?_⟩
  · unfold callPings
    rw [hresolve, List.range_eq_range']
    exact hpings
  · have hlast := hruns desc.maxHopCount.val.toNat
    unfold Reaches
    rw [← resolve_eq_ok_iff]
    constructor
    · rintro ⟨-, hreaches, -⟩
      have hin := hlast.mp ⟨hreaches, by omega⟩
      omega
    · rintro rfl
      exact ⟨hresolve, (hlast.mpr (by omega)).1, Nat.le_refl _⟩

/-- Every TTL of a call is that of one of its rounds. -/
theorem exists_ttlOf_of_mem {k : ℕ}
    (hcall : callPings J desc env = (List.range k).flatMap (pingsIn J desc hostIp env))
    {ping : ℤ × Probe} (hping : ping ∈ callPings J desc env) : ∃ n < k, ping.1 = ttlOf n := by
  rw [hcall, List.mem_flatMap] at hping
  obtain ⟨n, hn, hping⟩ := hping
  exact ⟨n, List.mem_range.mp hn, ttl_eq_of_mem_pingsIn hping⟩

theorem ttlOf_maxHopCount (desc : TracerouteDesc) :
    ttlOf desc.maxHopCount.val.toNat = toInt (desc.maxHopCount.val + 1) := by
  have hmax := desc.maxHopCount.property
  unfold ttlOf
  rw [Int.toNat_of_nonneg hmax.1.le]

theorem bounded_of_not_resolved {e : JavaException} (h : resolve desc env = .error e) :
    Bounded J desc env := by
  have hmax := desc.maxHopCount.property
  have hpings := desc.pingsPerHop.property
  have hnone : callPings J desc env = [] := by
    unfold callPings
    rw [h]
  refine ⟨fun ping hping => ?_, ?_⟩
  · rw [hnone] at hping
    cases hping
  · rw [hnone]
    exact mul_nonneg (by omega) (by omega)

/-- The limit holds of a call that ends with the rounds of the hops allowed. -/
theorem bounded_of_rounds {k : ℕ} (hk : k ≤ desc.maxHopCount.val.toNat)
    (hcall : callPings J desc env = (List.range k).flatMap (pingsIn J desc hostIp env)) :
    Bounded J desc env := by
  have hmax := desc.maxHopCount.property
  have hpings := desc.pingsPerHop.property
  refine ⟨fun ping hping => ?_, ?_⟩
  · obtain ⟨n, hn, httl⟩ := exists_ttlOf_of_mem hcall hping
    rw [httl]
    unfold ttlOf
    rw [toInt_eq (by omega) (by omega)]
    omega
  · have hsum := sum_processes_le J desc env hostIp k
    have hle := Nat.mul_le_mul_right desc.pingsPerHop.val.toNat hk
    rw [hcall, processes_flatMap]
    calc (((List.range k).map fun n => processes (pingsIn J desc hostIp env n)).sum : ℤ)
        ≤ (desc.maxHopCount.val.toNat * desc.pingsPerHop.val.toNat : ℕ) := by
          exact_mod_cast hsum.trans hle
      _ = desc.maxHopCount.val * desc.pingsPerHop.val := by
          rw [Nat.cast_mul, Int.toNat_of_nonneg hmax.1.le, Int.toNat_of_nonneg hpings.1.le]

/-- A limit that holds of the round behind its last hop is the last `int`. -/
theorem Bounded.maxHopCount_of_rounds (h : Bounded J desc env)
    (hcall : callPings J desc env = (List.range (desc.maxHopCount.val.toNat + 1)).flatMap
      (pingsIn J desc hostIp env)) : desc.maxHopCount.val + 1 = 2 ^ 31 := by
  have hmax := desc.maxHopCount.property
  obtain ⟨probe, hprobe⟩ := exists_mem_pingsIn J desc env hostIp desc.maxHopCount.val.toNat
  have hmem : (ttlOf desc.maxHopCount.val.toNat, probe) ∈ callPings J desc env := by
    rw [hcall, List.mem_flatMap]
    exact ⟨_, List.mem_range.mpr (Nat.lt_succ_self _), hprobe⟩
  have hle := h.ttl _ hmem
  rw [ttlOf_maxHopCount] at hle
  by_contra hne
  rw [toInt_eq (by omega) (by omega)] at hle
  omega

/-- The limit holds when the loop ends in front of the round behind the last hop
allowed. That round has a TTL within the limit only where it is beyond the
`int`s, and then some pings must not have been started. -/
theorem bounded_iff (J : Platform) (desc : TracerouteDesc) (env : TracerouteEnv) :
    Bounded J desc env ↔
      ∀ hostIp, Reaches J desc env hostIp desc.maxHopCount.val.toNat →
        desc.maxHopCount.val + 1 = 2 ^ 31 ∧
          ((List.range (desc.maxHopCount.val.toNat + 1)).map fun n =>
            processes (pingsIn J desc hostIp env n)).sum ≤
              desc.maxHopCount.val * desc.pingsPerHop.val := by
  cases hresolve : resolve desc env with
  | error e =>
      refine iff_of_true (bounded_of_not_resolved hresolve) fun hostIp hreaches => ?_
      rw [resolve_eq_ok_iff.mpr hreaches.1] at hresolve
      cases hresolve
  | ok hostIp =>
      obtain ⟨k, hk, hcall, hreaches⟩ := exists_callPings (J := J) hresolve
      constructor
      · intro h ip hip
        have hsame : resolve desc env = .ok ip := resolve_eq_ok_iff.mpr hip.1
        rw [hresolve] at hsame
        cases hsame
        have hfull := hreaches.mp hip
        subst hfull
        have hprocesses := h.processes
        rw [hcall, processes_flatMap] at hprocesses
        exact ⟨h.maxHopCount_of_rounds hcall, hprocesses⟩
      · intro h
        by_cases hfull : k = desc.maxHopCount.val.toNat + 1
        · -- the `int`s are used up
          obtain ⟨hlimit, hsum⟩ := h hostIp (hreaches.mpr hfull)
          refine ⟨fun ping hping => ?_, ?_⟩
          · obtain ⟨n, -, hn⟩ := exists_ttlOf_of_mem hcall hping
            rw [hn, ← Int.lt_add_one_iff, hlimit]
            exact (ttlOf_mem n).2
          · rw [hcall, processes_flatMap, hfull]
            exact hsum
        · exact bounded_of_rounds (by omega) hcall

/-- One ping to a target that is one hop away at most. -/
def oneHop : TracerouteDesc :=
  { TracerouteDesc.defaults "one.example" with
    pingsPerHop := Positive.one
    maxHopCount := Positive.one }

/-- No ping is answered. -/
def silent : TracerouteEnv where
  getByName := some ⟨.v4, "10.0.0.1", "one.example"⟩
  path := [("/system/bin/", .started)]
  stopRequested := fun _ => false
  probe := fun _ _ => .timedOut
  device := ⟨0, some []⟩

/-- A second ping is run, with a TTL of 2. -/
theorem second_hop_of_silent : ¬ Bounded Platform.latin oneHop silent := by
  intro h
  have hpings : callPings Platform.latin oneHop silent = [(1, .timedOut), (2, .timedOut)] := by
    rfl
  have httl := h.ttl (2, .timedOut) (hpings ▸ List.mem_cons_of_mem _ List.mem_cons_self)
  exact absurd httl (by decide)

end Limit

end TracerouteTask

end MobiPerf.Measurements
