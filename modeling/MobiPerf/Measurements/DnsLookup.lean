import MobiPerf.Measurements.Result

/-!
# Measurements.DnsLookup — the name lookup

* `DnsLookupTask.contained_iff`: an unknown host is a measurement error, and the
  result of a known one takes a list of the cells around the phone;
* `DnsLookupTask.shown_iff`: the result can be shown when the mean time is an
  `int`.
-/

namespace MobiPerf.Measurements

open Lib Scheduler

/-- What looking a name up comes to, with the clock read before and after. -/
inductive Lookup where
  | unknownHost
  | found (inet : Option InetAddress) (t1 t2 : ℤ)
deriving DecidableEq, Repr

structure DnsLookupEnv where
  getByName : ℕ → Lookup
  device : Device

/-- What the loop keeps. -/
structure DnsLookups where
  totalTime : ℤ
  resultInet : Option InetAddress
  successCnt : ℤ

namespace DnsLookupTask

def countPerMeasurement : ℕ := 1

def lookup (env : DnsLookupEnv) (st : DnsLookups) (i : ℕ) : Except JavaException DnsLookups :=
  match env.getByName i with
  | .unknownHost => .error (.measurementError "Cannot resovle domain name")
  | .found none _ _ => .ok st
  | .found (some inet) t1 t2 =>
    .ok {
      totalTime := toLong (st.totalTime + toLong (t2 - t1))
      resultInet := some inet
      successCnt := st.successCnt + 1 }

/-- The result of a lookup that took `time` in the mean. -/
def report (J : Platform) (desc : DnsLookupDesc) (env : DnsLookupEnv) (inet : InetAddress)
    (time : ℤ) : Except JavaException MeasurementResult := do
  let result ← newResult env.device .dnsLookup true (.dnsLookup desc)
  let result ← result.addResult J "address" (.string (some inet.hostAddress))
  let result ← result.addResult J "real_hostname" (.string (some inet.canonicalHostName))
  result.addResult J "time_ms" (.whole time)

def call (J : Platform) (desc : DnsLookupDesc) (env : DnsLookupEnv) :
    Except JavaException MeasurementResult := do
  let st ← (List.range countPerMeasurement).foldlM (lookup env) ⟨0, none, 0⟩
  match st.resultInet with
  | none => .error (.measurementError "Cannot resovle domain name")
  | some inet => report J desc env inet (st.totalTime.tdiv st.successCnt)

variable {J : Platform} {desc : DnsLookupDesc} {env : DnsLookupEnv}

theorem lookups_eq : (List.range countPerMeasurement).foldlM (lookup env) ⟨0, none, 0⟩ =
    lookup env ⟨0, none, 0⟩ 0 := by
  show (lookup env ⟨0, none, 0⟩ 0 >>= pure) = _
  exact bind_pure _

variable (env) in
/-- The name is found, with an address. -/
def Resolves : Prop := ∃ inet t1 t2, env.getByName 0 = .found (some inet) t1 t2

theorem contained_report_iff {inet : InetAddress} {time : ℤ} :
    Contained (report J desc env inet time) ↔ env.device.neighboringCellInfo.isSome := by
  unfold report
  rw [Contained, failsOnly_newResult_iff Bool.false_ne_true]
  exact and_iff_left failsOnly_ok

theorem contained_iff :
    Contained (call J desc env) ↔ (Resolves env → env.device.neighboringCellInfo.isSome) := by
  unfold call Resolves
  rw [lookups_eq]
  unfold lookup
  rcases env.getByName 0 with _ | ⟨inet, t1, t2⟩
  · exact iff_of_true (failsOnly_error.mpr rfl) (by simp)
  · rcases inet with _ | inet
    · exact iff_of_true (failsOnly_error.mpr rfl) (by simp)
    · show Contained (report J desc env inet _) ↔ _
      rw [contained_report_iff]
      simp

/-- What the result has to be shown: a time that is an `int`. -/
def Showable (env : DnsLookupEnv) : Prop :=
  env.device.neighboringCellInfo.isSome →
    ∀ inet t1 t2, env.getByName 0 = .found (some inet) t1 t2 →
      -2 ^ 31 ≤ toLong (t2 - t1) ∧ toLong (t2 - t1) < 2 ^ 31

theorem shown_report_iff {inet : InetAddress} {time : ℤ} :
    Shown J (report J desc env inet time) ↔
      (env.device.neighboringCellInfo.isSome → -2 ^ 31 ≤ time ∧ time < 2 ^ 31) := by
  unfold report
  rw [shown_newResult_iff]
  refine imp_congr_right fun _ => ?_
  show Shown J (.ok _) ↔ _
  rw [shown_ok_iff, ← exists_intValue_iff]
  show (true = true → ∃ lines, (intValue (some (toString time)) >>= fun _ => _) = .ok lines) ↔ _
  rw [exists_bind_eq_ok]
  simp

theorem shown_iff : Shown J (call J desc env) ↔ Showable env := by
  unfold call Showable
  rw [lookups_eq]
  unfold lookup
  rcases env.getByName 0 with _ | ⟨inet, t1, t2⟩
  · simp [shown_error, bind, Except.bind]
  · rcases inet with _ | inet
    · simp [shown_error, bind, Except.bind]
    · have htime : (toLong (0 + toLong (t2 - t1))).tdiv (0 + 1) = toLong (t2 - t1) := by
        simp [toLong]
      show Shown J (report J desc env inet _) ↔ _
      rw [shown_report_iff, htime]
      simp

end DnsLookupTask

end MobiPerf.Measurements
