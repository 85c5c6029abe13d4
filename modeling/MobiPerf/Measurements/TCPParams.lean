import MobiPerf.Measurements.TCPThroughput

/-!
# Measurements.TCPParams — the parameters of the throughput test

Seven numeric fields, each with a default and bounds. What the constructor makes
of a parameters map is compared with what the map asks for: a positive number
that is given counts, held within the bounds of its field, and else the default.

* `TCPThroughputDesc.construct_eq_ok_iff`: when the map is accepted, and the
  fields of the description then;
* `TCPThroughputDesc.honours_iff`: every field is honoured but the timeout. That
  is multiplied by 1000 before it is held to its bound in seconds, so it is
  right only from the bound on, and there only when the product, an `int`, does
  not fall below the bound.
-/

namespace MobiPerf.Measurements

open Lib Scheduler

/-! ## Fields -/

/-- The positive number a map gives for a field. -/
def givenParam (ps : Params) (name : String) : Option ℤ :=
  ((ps.get name).bind parseInt).filter (0 < ·)

theorem givenParam_pos {ps : Params} {name : String} {v : ℤ} (h : givenParam ps name = some v) :
    0 < v :=
  of_decide_eq_true (Option.filter_eq_some_iff.mp h).2

theorem givenParam_lt {ps : Params} {name : String} {v : ℤ} (h : givenParam ps name = some v) :
    v < 2 ^ 31 := by
  obtain ⟨val, -, hparse⟩ := Option.bind_eq_some_iff.mp (Option.filter_eq_some_iff.mp h).1
  exact (parseInt_bounds hparse).2

section Params

variable {error name : String} {ps : Params} {default n : Positive}

/-- A numeric field is what is given, or the default. -/
theorem numberParam_eq_ok_iff : numberParam error ps name default = .ok n ↔
    badNumber ps name = false ∧ n.val = (givenParam ps name).getD default.val := by
  have hdefault : ∀ m : Positive, Except.ok (ε := JavaException) m = .ok n ↔ n.val = m.val := by
    intro m
    rw [Except.ok.injEq, Subtype.ext_iff]
    exact eq_comm
  unfold numberParam badNumber givenParam
  cases hget : ps.get name with
  | none => simp [hdefault]
  | some val =>
      by_cases hempty : val = ""
      · have hnone : parseInt "" = none := by decide
        simp [hempty, hnone, hdefault]
      · simp only [hempty, if_false, Option.bind_some]
        split
        · rename_i hparse
          simp [hparse, hempty]
        · rename_i v hparse
          by_cases hpos : 0 < v
          · simp [hparse, hpos, hdefault, Option.filter_some_pos]
          · simp [hparse, hpos, hdefault, Option.filter_some_neg]

/-- It is positive in either case. -/
theorem exists_paramValue (ps : Params) (name : String) (default : Positive) :
    ∃ n : Positive, n.val = (givenParam ps name).getD default.val := by
  cases hgiven : givenParam ps name with
  | none => exact ⟨default, rfl⟩
  | some v => exact ⟨⟨v, givenParam_pos hgiven, givenParam_lt hgiven⟩, rfl⟩

theorem exists_numberParam (h : badNumber ps name = false) :
    ∃ n, numberParam error ps name default = .ok n := by
  obtain ⟨n, hn⟩ := exists_paramValue ps name default
  exact ⟨n, numberParam_eq_ok_iff.mpr ⟨h, hn⟩⟩

theorem numberParam_failsOnly :
    FailsOnly (fun e => e = .invalidParameter error) (numberParam error ps name default) := by
  unfold numberParam
  split
  · exact failsOnly_ok
  · split
    · exact failsOnly_ok
    · split
      · exact failsOnly_error.mpr rfl
      · split
        · exact failsOnly_ok
        · exact failsOnly_ok

theorem decimalParam_eq_ok_iff : decimalParam error ps name default = .ok n ↔
    badNumber ps name = false ∧ badDecimal ps name = false ∧
      n.val = (givenParam ps name).getD default.val := by
  unfold decimalParam
  simp only [except_bind_eq_ok, numberParam_eq_ok_iff]
  constructor
  · rintro ⟨m, ⟨hnumber, hm⟩, hdecimal⟩
    split at hdecimal
    · cases hdecimal
    · rename_i hnot
      cases hdecimal
      exact ⟨hnumber, Bool.eq_false_iff.mpr hnot, hm⟩
  · rintro ⟨hnumber, hdecimal, hn⟩
    exact ⟨n, ⟨hnumber, hn⟩, by rw [hdecimal]; rfl⟩

theorem exists_decimalParam (hnumber : badNumber ps name = false)
    (hdecimal : badDecimal ps name = false) :
    ∃ n, decimalParam error ps name default = .ok n := by
  obtain ⟨n, hn⟩ := exists_paramValue ps name default
  exact ⟨n, decimalParam_eq_ok_iff.mpr ⟨hnumber, hdecimal, hn⟩⟩

theorem decimalParam_failsOnly :
    FailsOnly (fun e => e = .invalidParameter error) (decimalParam error ps name default) := by
  unfold decimalParam
  refine failsOnly_bind.mpr ⟨numberParam_failsOnly, fun m _ => ?_⟩
  split
  · exact failsOnly_error.mpr rfl
  · exact failsOnly_ok

theorem requiredParam_eq_ok_iff {target : String} : requiredParam error ps name = .ok target ↔
    ps.get name = some target ∧ target ≠ "" := by
  unfold requiredParam
  cases ps.get name with
  | none => simp
  | some val =>
      by_cases hempty : val = ""
      · simp only [hempty, if_true, Option.some.injEq]
        refine iff_of_false nofun ?_
        rintro ⟨rfl, hne⟩
        exact hne rfl
      · simp only [hempty, if_false, Except.ok.injEq, Option.some.injEq]
        constructor
        · rintro rfl
          exact ⟨rfl, hempty⟩
        · rintro ⟨rfl, -⟩
          rfl

theorem requiredParam_failsOnly :
    FailsOnly (fun e => e = .invalidParameter error) (requiredParam error ps name) := by
  unfold requiredParam
  split
  · exact failsOnly_error.mpr rfl
  · split
    · exact failsOnly_error.mpr rfl
    · exact failsOnly_ok

end Params

namespace TCPThroughputDesc

variable {ps : Params} {desc : TCPThroughputDesc}

/-! ## The constructor -/

/-- No field is given what its parser refuses, and there is a target. -/
def Accepts (ps : Params) : Prop :=
  (∀ field ∈ tcpThroughputDesc.numeric, badNumber ps field = false) ∧
    (∀ field ∈ tcpThroughputDesc.decimal, badDecimal ps field = false) ∧
      ∃ target, ps.get "target" = some target ∧ target ≠ ""

/-- The timeout field, as the constructor computes it. -/
def timeoutGiven (ps : Params) : ℤ :=
  (givenParam ps "tcp_timeout_sec").elim 30 fun v => min (toInt (v * 1000)) 30

/-- The fields the map asks for, but for the timeout. -/
structure Fields (ps : Params) (desc : TCPThroughputDesc) : Prop where
  data_limit_mb_up : desc.data_limit_mb_up = (givenParam ps "data_limit_mb_up").elim 5 (min · 5)
  data_limit_mb_down :
    desc.data_limit_mb_down = (givenParam ps "data_limit_mb_down").elim 10 (min · 10)
  duration_period_sec :
    desc.duration_period_sec = (givenParam ps "duration_period_sec").elim 15 (min · 15)
  pkt_size_up_bytes : desc.pkt_size_up_bytes =
    (givenParam ps "pkt_size_up_bytes").elim 1357 fun v => max 700 (min v 1357)
  sample_period_sec : desc.sample_period_sec = (givenParam ps "sample_period_sec").elim 1 (min · 7)
  slow_start_period_sec :
    desc.slow_start_period_sec = (givenParam ps "slow_start_period_sec").elim 5 (min · 7)

/-- The constructor throws nothing but an `InvalidParameterException`. -/
theorem construct_failsOnly (params : Option Params) :
    FailsOnly (fun e => ∃ message, e = .invalidParameter message) (construct params) := by
  have hmessage : ∀ {α : Type} {error : String} {x : Except JavaException α},
      FailsOnly (fun e => e = .invalidParameter error) x →
        FailsOnly (fun e => ∃ message, e = .invalidParameter message) x :=
    fun h e he => ⟨_, h e he⟩
  unfold construct
  cases params with
  | none => exact failsOnly_error.mpr ⟨_, rfl⟩
  | some ps =>
      refine failsOnly_bind.mpr ⟨hmessage decimalParam_failsOnly, fun _ _ => ?_⟩
      refine failsOnly_bind.mpr ⟨hmessage decimalParam_failsOnly, fun _ _ => ?_⟩
      refine failsOnly_bind.mpr ⟨hmessage decimalParam_failsOnly, fun _ _ => ?_⟩
      refine failsOnly_bind.mpr ⟨hmessage numberParam_failsOnly, fun _ _ => ?_⟩
      refine failsOnly_bind.mpr ⟨hmessage decimalParam_failsOnly, fun _ _ => ?_⟩
      refine failsOnly_bind.mpr ⟨hmessage decimalParam_failsOnly, fun _ _ => ?_⟩
      refine failsOnly_bind.mpr ⟨hmessage numberParam_failsOnly, fun _ _ => ?_⟩
      refine failsOnly_bind.mpr ⟨hmessage requiredParam_failsOnly, fun _ _ => failsOnly_ok⟩

theorem exists_construct (h : Accepts ps) : ∃ desc, construct (some ps) = .ok desc := by
  obtain ⟨hnumeric, hdecimal, target, htarget⟩ := h
  unfold tcpThroughputDesc at hnumeric hdecimal
  simp only [List.forall_mem_cons] at hnumeric hdecimal
  obtain ⟨hdown, hup, hduration, hsize, hsample, hslow, htimeout, -⟩ := hnumeric
  obtain ⟨hdown', hup', hduration', hsample', hslow', -⟩ := hdecimal
  unfold construct
  simp only [exists_bind_eq_ok]
  obtain ⟨down, hdown⟩ := exists_decimalParam hdown hdown'
  obtain ⟨up, hup⟩ := exists_decimalParam hup hup'
  obtain ⟨duration, hduration⟩ := exists_decimalParam hduration hduration'
  obtain ⟨size, hsize⟩ := exists_numberParam hsize
  obtain ⟨sample, hsample⟩ := exists_decimalParam hsample hsample'
  obtain ⟨slow, hslow⟩ := exists_decimalParam hslow hslow'
  obtain ⟨timeout, htimeout⟩ := exists_numberParam htimeout
  exact ⟨down, hdown, up, hup, duration, hduration, size, hsize, sample, hsample, slow, hslow,
    timeout, htimeout, target, requiredParam_eq_ok_iff.mpr htarget, _, rfl⟩

/-- A value held within bounds, when the default is within them. -/
theorem clamp_eq_elim {given : Option ℤ} {n default : ℤ} (clamp : ℤ → ℤ)
    (hn : n = given.getD default) (h : clamp default = default) :
    clamp n = given.elim default clamp := by
  subst hn
  cases given with
  | none => exact h
  | some v => rfl

/-- What is accepted has the fields the map asks for. -/
theorem construct_eq_ok (h : construct (some ps) = .ok desc) :
    Accepts ps ∧ Fields ps desc ∧ desc.tcp_timeout_sec = timeoutGiven ps := by
  unfold construct at h
  simp only [except_bind_eq_ok, decimalParam_eq_ok_iff, numberParam_eq_ok_iff,
    requiredParam_eq_ok_iff] at h
  obtain ⟨down, ⟨hdown, hdown', hdownv⟩, up, ⟨hup, hup', hupv⟩,
    duration, ⟨hduration, hduration', hdurationv⟩, size, ⟨hsize, hsizev⟩,
    sample, ⟨hsample, hsample', hsamplev⟩, slow, ⟨hslow, hslow', hslowv⟩,
    timeout, ⟨htimeout, htimeoutv⟩, target, htarget, hdesc⟩ := h
  cases hdesc
  refine ⟨⟨?_, ?_, target, htarget⟩, ⟨?_, ?_, ?_, ?_, ?_, ?_⟩, ?_⟩
  · unfold tcpThroughputDesc
    simp only [List.forall_mem_cons]
    exact ⟨hdown, hup, hduration, hsize, hsample, hslow, htimeout, nofun⟩
  · unfold tcpThroughputDesc
    simp only [List.forall_mem_cons]
    exact ⟨hdown', hup', hduration', hsample', hslow', nofun⟩
  · -- each limit is the accepted value, cut to what the code allows
    exact clamp_eq_elim (min · 5) hupv rfl
  · exact clamp_eq_elim (min · 10) hdownv rfl
  · exact clamp_eq_elim (min · 15) hdurationv rfl
  · exact (max_comm _ _).trans (clamp_eq_elim (fun v => max 700 (min v 1357)) hsizev rfl)
  · exact clamp_eq_elim (min · 7) hsamplev rfl
  · exact clamp_eq_elim (min · 7) hslowv rfl
  · -- the time-out counts as given when its text is a positive number
    have hgiven : ((ps.get "tcp_timeout_sec").any fun val => (parseInt val).any (0 < ·)) =
        (givenParam ps "tcp_timeout_sec").isSome := by
      unfold givenParam
      cases ps.get "tcp_timeout_sec" with
      | none => rfl
      | some val =>
          cases hparse : parseInt val with
          | none => simp [hparse]
          | some v => by_cases hpos : 0 < v <;> simp [hparse, hpos]
    show TCPThroughputDesc.timeout (Option.any _ (ps.get "tcp_timeout_sec")) _ = _
    rw [hgiven, htimeoutv]
    unfold TCPThroughputDesc.timeout timeoutGiven
    cases givenParam ps "tcp_timeout_sec" with
    | none => rfl
    | some v => rfl

/-! ## What is asked for -/

/-- A description in which the map is honoured: a positive number that is given
for a field is its value, held within its bounds in its unit; a field without one
has its default; and a socket waits for as many milliseconds as the timeout has
seconds, and for some time. -/
structure Honoured (ps : Params) (desc : TCPThroughputDesc) : Prop where
  fields : Fields ps desc
  tcp_timeout_sec : desc.tcp_timeout_sec = (givenParam ps "tcp_timeout_sec").elim 30 (min · 30)
  socketTimeout_pos : 0 < TCPThroughputTask.timeoutMillis desc
  socketTimeout : TCPThroughputTask.timeoutMillis desc = desc.tcp_timeout_sec * 1000

/-- A map is refused as such, or honoured. -/
def Honours (params : Option Params) : Prop :=
  match construct params with
  | .error e => ∃ message, e = .invalidParameter message
  | .ok desc => ∃ ps, params = some ps ∧ Honoured ps desc

theorem honoured_iff (h : construct (some ps) = .ok desc) : Honoured ps desc ↔
    ∀ v, givenParam ps "tcp_timeout_sec" = some v → 30 ≤ v ∧ 30 ≤ toInt (v * 1000) := by
  obtain ⟨-, hfields, htimeout⟩ := construct_eq_ok h
  have hthirty : desc.tcp_timeout_sec = 30 → TCPThroughputTask.timeoutMillis desc = 30000 := by
    intro h30
    unfold TCPThroughputTask.timeoutMillis
    rw [h30]
    decide
  constructor
  · rintro ⟨-, hgiven, -, -⟩ v hv
    have hpos := givenParam_pos hv
    have hlt := givenParam_lt hv
    rw [htimeout, timeoutGiven, hv] at hgiven
    change min (toInt (v * 1000)) 30 = min v 30 at hgiven
    by_cases hle : 30 ≤ v
    · exact ⟨hle, by omega⟩
    · -- below the bound the product is right, and above the bound
      have hproduct : toInt (v * 1000) = v * 1000 := toInt_eq (by omega) (by omega)
      omega
  · intro hgiven
    have h30 : desc.tcp_timeout_sec = 30 := by
      rw [htimeout]
      unfold timeoutGiven
      cases hv : givenParam ps "tcp_timeout_sec" with
      | none => rfl
      | some v => exact min_eq_right (hgiven v hv).2
    refine ⟨hfields, ?_, ?_, ?_⟩
    · rw [h30]
      cases hv : givenParam ps "tcp_timeout_sec" with
      | none => rfl
      | some v => exact (min_eq_right (hgiven v hv).1).symm
    · rw [hthirty h30]
      decide
    · rw [hthirty h30, h30]
      rfl

/-- Every map the constructor accepts is honoured but for its timeout. -/
theorem honours_iff (params : Option Params) : Honours params ↔
    ∀ ps, params = some ps → Accepts ps →
      ∀ v, givenParam ps "tcp_timeout_sec" = some v → 30 ≤ v ∧ 30 ≤ toInt (v * 1000) := by
  unfold Honours
  cases hconstruct : construct params with
  | error e =>
      refine iff_of_true (construct_failsOnly params e hconstruct) ?_
      rintro ps rfl haccepts
      obtain ⟨desc, hdesc⟩ := exists_construct haccepts
      rw [hdesc] at hconstruct
      cases hconstruct
  | ok desc =>
      cases params with
      | none => cases hconstruct
      | some ps =>
          simp only [Option.some.injEq, exists_eq_left', forall_eq']
          rw [honoured_iff hconstruct]
          have haccepts := (construct_eq_ok hconstruct).1
          exact ⟨fun h _ => h, fun h => h haccepts⟩

/-- Five seconds become thirty. -/
theorem timeout_of_five_seconds :
    ¬ Honours (some [("target", "m-lab.example"), ("tcp_timeout_sec", "5")]) := by
  intro h
  obtain ⟨desc, hdesc, hother⟩ : ∃ desc,
      construct (some [("target", "m-lab.example"), ("tcp_timeout_sec", "5")]) = .ok desc ∧
        desc.tcp_timeout_sec = 30 := by
    refine ⟨_, rfl, ?_⟩
    decide
  unfold Honours at h
  rw [hdesc] at h
  obtain ⟨ps, hps, hhonoured⟩ := h
  cases hps
  have hfive := hhonoured.tcp_timeout_sec
  rw [hother] at hfive
  exact absurd hfive (by decide)

end TCPThroughputDesc

end MobiPerf.Measurements
