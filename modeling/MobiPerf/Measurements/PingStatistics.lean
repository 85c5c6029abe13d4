import MobiPerf.Lib.Mean
import MobiPerf.Measurements.Ping

/-!
# Measurements.PingStatistics — what the statistics of a ping say

The statistics in exact arithmetic. The maximum starts with the least positive
value, and the filter leaves out what is below that value: both take it for the
least value there is.

* `PingTask.consistent_iff`: minimum, maximum, mean and filtered mean agree exactly
  when no time is 0.
-/

namespace MobiPerf.Measurements

open Lib Scheduler

/-- The platform, with arithmetic that does not round. -/
def Platform.exact (J : Platform) : Platform := { J with double := Rounding.exact 1023 }

namespace PingTask

variable {J : Platform}

/-! ## Exact statistics -/

section Exact

/-- Round-trip times: they are not negative, those that are not 0 are above the
least positive value, and all of them are below the largest. -/
structure RoundTrips (times : List ℚ) : Prop where
  nonempty : times ≠ []
  nonneg : ∀ t ∈ times, 0 ≤ t
  above : ∀ t ∈ times, t ≠ 0 → minValue.lt (.finite t)
  below : ∀ t ∈ times, (Value.finite t).lt maxValue

def samples (times : List ℚ) : List Value := times.map .finite

variable {times : List ℚ}

/-- Without rounding the average is the mean. -/
theorem avg_exact (hne : times ≠ []) : avg J.exact (samples times) = .finite (mean times) := by
  have hlength : (times.length : ℚ) ≠ 0 := (cast_length_pos hne).ne'
  have hsum : J.exact.double.sum (samples times) = .finite times.sum :=
    Rounding.exact_sum 1023 times
  have hcount : J.exact.double.ofInt (samples times).length = .finite times.length := by
    unfold samples
    rw [List.length_map]
    rfl
  unfold avg
  rw [hsum, hcount]
  exact Rounding.exact_div hlength

/-- Numbers are compared as numbers. -/
theorem lt_finite {a b : ℚ} : (Value.finite a).lt (.finite b) ↔ a < b := decide_eq_true_iff

theorem le_finite {a b : ℚ} : (Value.finite a).le (.finite b) ↔ a ≤ b := by
  unfold Value.le Value.beq
  rw [Bool.or_eq_true, lt_finite, le_iff_lt_or_eq]
  simp

/-- The minimum starts above every time. -/
theorem min_samples (h : RoundTrips times) :
    min (samples times) = .finite (times.min h.nonempty) := by
  have hfold : ∀ a, (samples times).foldl (fun min rrt => if rrt.lt min then rrt else min)
      (.finite a) = .finite (times.foldl Min.min a) := by
    unfold samples
    clear h
    induction times with
    | nil => exact fun a => rfl
    | cons t times ih =>
        intro a
        rw [List.map_cons, List.foldl_cons, List.foldl_cons, min_comm, min_def_lt]
        by_cases hlt : t < a
        · rw [if_pos (lt_finite.mpr hlt), if_pos hlt]
          exact ih t
        · rw [if_neg (mt lt_finite.mp hlt), if_neg hlt]
          exact ih a
  unfold min maxValue
  rw [hfold, List.foldl_min_eq_min h.nonempty, min_eq_right]
  exact (lt_finite.mp (h.below _ (List.min_mem h.nonempty))).le

/-- The maximum of the times is their maximum. -/
theorem foldl_max_samples (a : ℚ) :
    (samples times).foldl (fun max rrt => if max.lt rrt then rrt else max) (.finite a) =
      .finite (times.foldl Max.max a) := by
  unfold samples
  induction times generalizing a with
  | nil => rfl
  | cons t times ih =>
      rw [List.map_cons, List.foldl_cons, List.foldl_cons, max_def_lt]
      by_cases hlt : a < t
      · rw [if_pos (lt_finite.mpr hlt), if_pos hlt]
        exact ih t
      · rw [if_neg (mt lt_finite.mp hlt), if_neg hlt]
        exact ih a

/-- So does the maximum start below every time that is not 0. -/
theorem max_samples (h : RoundTrips times) (hpos : 0 ∉ times) :
    max (samples times) = .finite (times.max h.nonempty) := by
  have hmem := List.max_mem h.nonempty
  have hne : times.max h.nonempty ≠ 0 := fun h0 => hpos (h0 ▸ hmem)
  unfold max minValue
  rw [foldl_max_samples, List.foldl_max_eq_max h.nonempty, max_eq_right]
  exact (lt_finite.mp (h.above _ hmem hne)).le

/-- The threshold of the filter. -/
def threshold (times : List ℚ) : ℚ := mean times * (11744051 / 2 ^ 23)

/-- What the filter leaves. -/
def kept (times : List ℚ) : List ℚ :=
  times.filter fun t => t ≤ threshold times ∧ 1 / 2 ^ 1074 ≤ t

/-- The band filter keeps the times that are kept. -/
theorem applyInnerBandFilter_samples :
    applyInnerBandFilter (samples times) minValue (.finite (threshold times)) =
      samples (kept times) := by
  unfold applyInnerBandFilter samples kept minValue
  rw [List.filter_map]
  refine congrArg _ (List.filter_congr fun t _ => ?_)
  rw [Bool.eq_iff_iff]
  simp only [Function.comp_apply, Bool.and_eq_true, le_finite, decide_eq_true_eq]

/-- The threshold is a multiple of the mean. -/
theorem mul_pingFilterThres (hne : times ≠ []) :
    J.exact.double.mul (avg J.exact (samples times)) pingFilterThres =
      .finite (threshold times) := by
  rw [avg_exact hne]
  rfl

/-- What is reported as filtered is the mean of what is kept, or of all. -/
theorem filterPingResults_exact (hne : times ≠ []) :
    filterPingResults J.exact (samples times) (avg J.exact (samples times)) =
      .finite (if kept times ≠ [] then mean (kept times) else mean times) := by
  have hsamples : samples (kept times) ≠ [] ↔ kept times ≠ [] := List.map_eq_nil_iff.not
  unfold filterPingResults
  rw [mul_pingFilterThres hne, applyInnerBandFilter_samples]
  by_cases hkept : kept times ≠ []
  · rw [if_pos hkept]
    exact (if_pos (hsamples.mpr hkept)).trans (avg_exact hkept)
  · rw [if_neg hkept]
    exact (if_neg (mt hsamples.mp hkept)).trans (avg_exact hne)

/-- Without rounding all statistics are finite. -/
theorem representable_exact (hne : times ≠ []) : Representable J.exact (samples times) := by
  have hdeviations : ∀ a : ℚ, (samples times).map (squaredDeviation J.exact (.finite a)) =
      (times.map fun t => (t + -a) * (t + -a)).map .finite := by
    intro a
    unfold samples
    rw [List.map_map, List.map_map]
    rfl
  refine ⟨?_, ?_, ?_⟩
  · rw [avg_exact hne]
    rfl
  · -- over exact numbers the sum of squares is what it says
    have hcount : J.exact.double.ofInt (samples times).length = .finite times.length := by
      unfold samples
      rw [List.length_map]
      rfl
    have htotal := Rounding.exact_sum 1023
      (times.map fun t => (t + -mean times) * (t + -mean times))
    unfold getStandardDeviation
    rw [avg_exact hne, hdeviations, hcount]
    unfold Platform.exact
    simp only [htotal]
    -- the root is only taken of a positive sum
    split
    · rename_i hpos
      have hdiv : ¬ (times.map fun t => (t + -mean times) * (t + -mean times)).sum /
          (times.length : ℚ) < 0 :=
        not_lt.mpr (div_nonneg (lt_finite.mp hpos).le (Nat.cast_nonneg _))
      rw [Rounding.exact_div (cast_length_pos hne).ne', Rounding.sqrt, if_neg hdiv]
      rfl
    · rfl
  · rw [filterPingResults_exact hne]
    rfl

end Exact

/-! ## Agreement -/

section Agreement

variable {times : List ℚ}

/-- The statistics of some times agree with them and with each other. -/
structure Consistent (J : Platform) (rrts : List Value) : Prop where
  min_mem : min rrts ∈ rrts
  min_le : ∀ rrt ∈ rrts, (min rrts).le rrt
  max_mem : max rrts ∈ rrts
  le_max : ∀ rrt ∈ rrts, rrt.le (max rrts)
  min_le_avg : (min rrts).le (avg J rrts)
  avg_le_max : (avg J rrts).le (max rrts)
  drops : ∀ rrt ∈ rrts,
    rrt ∉ applyInnerBandFilter rrts minValue (J.double.mul (avg J rrts) pingFilterThres) →
      (J.double.mul (avg J rrts) pingFilterThres).lt rrt
  filtered_le : (filterPingResults J rrts (avg J rrts)).le (avg J rrts)

/-- A result holds the texts of the statistics; a filtered mean that is the mean
is left out. -/
structure Reports (J : Platform) (rrts : List Value) (r : MeasurementResult) : Prop where
  min : r.values.get "min_rtt_ms" = some (J.doubleText (PingTask.min rrts))
  max : r.values.get "max_rtt_ms" = some (J.doubleText (PingTask.max rrts))
  avg : r.values.get "mean_rtt_ms" = some (J.doubleText (PingTask.avg J rrts))
  filteredAvg : r.values.get "filtered_mean_rtt_ms" =
    if (filterPingResults J rrts (PingTask.avg J rrts)).beq (PingTask.avg J rrts) then none
    else some (J.doubleText (filterPingResults J rrts (PingTask.avg J rrts)))

/-- The result reports its statistics. -/
theorem reports_resultOf (J : Platform) (desc : PingDesc) (env : PingEnv)
    (targetIp pingMethod : String) (rrts : List Value) (packetLoss : Value) (packetsSent : ℤ) :
    Reports J rrts (resultOf J desc env targetIp pingMethod rrts packetLoss packetsSent) := by
  unfold resultOf
  by_cases hbeq : (filterPingResults J rrts (avg J rrts)).beq (avg J rrts)
  · simp only [hbeq, if_true, List.append_nil]
    exact ⟨rfl, rfl, rfl, by rw [if_pos hbeq]; rfl⟩
  · simp only [hbeq]
    exact ⟨rfl, rfl, rfl, by rw [if_neg hbeq]; rfl⟩

/-- The threshold is not below the mean. -/
theorem threshold_ge (h : RoundTrips times) : mean times ≤ threshold times := by
  have hmean := le_mean h.nonempty h.nonneg
  unfold threshold
  linarith

/-- A time that is not 0 is dropped only above the threshold. -/
theorem threshold_lt_of_notMem (h : RoundTrips times) {t : ℚ} (ht : t ∈ times) (hne : t ≠ 0)
    (hout : t ∉ kept times) : threshold times < t := by
  refine not_le.mp fun hle => hout (List.mem_filter.mpr ⟨ht, ?_⟩)
  exact decide_eq_true ⟨hle, (lt_finite.mp (h.above t ht hne)).le⟩

/-- The least time is kept: it is not above the mean. -/
theorem kept_ne_nil (h : RoundTrips times) (hpos : 0 ∉ times) : kept times ≠ [] := by
  have hleast := List.min_mem h.nonempty
  have hne : times.min h.nonempty ≠ 0 := fun h0 => hpos (h0 ▸ hleast)
  have hmin : ∀ t ∈ times, times.min h.nonempty ≤ t := fun t ht => List.min_le_of_mem ht
  have hle := (le_mean h.nonempty hmin).trans (threshold_ge h)
  by_contra hnone
  exact absurd hle (not_le.mpr (threshold_lt_of_notMem h hleast hne (hnone ▸ List.not_mem_nil)))

/-- Dropping large times does not raise the mean. -/
theorem mean_kept_le (h : RoundTrips times) (hpos : 0 ∉ times) :
    mean (kept times) ≤ mean times := by
  refine mean_filter_le (kept_ne_nil h hpos) fun t ht hout => ?_
  have hne : t ≠ 0 := fun h0 => hpos (h0 ▸ ht)
  have hover := threshold_lt_of_notMem h ht hne fun hin => by
    rw [(List.mem_filter.mp hin).2] at hout
    cases hout
  exact (threshold_ge h).trans hover.le

/-- A time that is left out is above the threshold, where none is 0. -/
theorem consistent_of_pos (h : RoundTrips times) (hpos : 0 ∉ times) :
    Consistent J.exact (samples times) := by
  have hmem : ∀ t ∈ times, .finite t ∈ samples times := fun t ht => List.mem_map_of_mem ht
  have hmin : ∀ t ∈ times, times.min h.nonempty ≤ t := fun t ht => List.min_le_of_mem ht
  have hmax : ∀ t ∈ times, t ≤ times.max h.nonempty := fun t ht => List.le_max_of_mem ht
  -- minimum, maximum, mean, and what the filter drops
  constructor
  · rw [min_samples h]
    exact hmem _ (List.min_mem h.nonempty)
  · intro rrt hrrt
    obtain ⟨t, ht, rfl⟩ := List.mem_map.mp hrrt
    rw [min_samples h]
    exact le_finite.mpr (hmin t ht)
  · rw [max_samples h hpos]
    exact hmem _ (List.max_mem h.nonempty)
  · intro rrt hrrt
    obtain ⟨t, ht, rfl⟩ := List.mem_map.mp hrrt
    rw [max_samples h hpos]
    exact le_finite.mpr (hmax t ht)
  · rw [min_samples h, avg_exact h.nonempty]
    exact le_finite.mpr (le_mean h.nonempty hmin)
  · rw [max_samples h hpos, avg_exact h.nonempty]
    exact le_finite.mpr (mean_le h.nonempty hmax)
  · -- a time that was dropped is above the threshold, as none is 0
    intro rrt hrrt hout
    obtain ⟨t, ht, rfl⟩ := List.mem_map.mp hrrt
    rw [mul_pingFilterThres h.nonempty, applyInnerBandFilter_samples] at hout
    rw [mul_pingFilterThres h.nonempty]
    have hne : t ≠ 0 := fun h0 => hpos (h0 ▸ ht)
    exact lt_finite.mpr
      (threshold_lt_of_notMem h ht hne fun hin => hout (List.mem_map_of_mem hin))
  · rw [filterPingResults_exact h.nonempty, avg_exact h.nonempty, if_pos (kept_ne_nil h hpos)]
    exact le_finite.mpr (mean_kept_le h hpos)

/-- A time of 0 is left out, which is not above the threshold. -/
theorem not_consistent_of_zero (h : RoundTrips times) (hzero : 0 ∈ times) :
    ¬ Consistent J.exact (samples times) := by
  intro hconsistent
  have hout : (Value.finite 0) ∉ samples (kept times) := by
    intro hin
    obtain ⟨t, ht, heq⟩ := List.mem_map.mp hin
    cases heq
    have hbounds := of_decide_eq_true (List.mem_filter.mp ht).2
    have hpos : (0 : ℚ) < 1 / 2 ^ 1074 := by positivity
    exact not_lt.mpr hbounds.2 hpos
  have hdrops := hconsistent.drops (.finite 0) (List.mem_map_of_mem hzero)
  rw [mul_pingFilterThres h.nonempty, applyInnerBandFilter_samples] at hdrops
  have hlt := lt_finite.mp (hdrops hout)
  have hge := (le_mean h.nonempty h.nonneg).trans (threshold_ge h)
  linarith

/-- The statistics reported agree when no time is 0. -/
theorem consistent_iff (J : Platform) (times : List ℚ) (h : RoundTrips times) :
    ((∀ desc env targetIp packetLoss packetsSent pingMethod, packetLoss.isFinite →
        env.device.neighboringCellInfo.isSome →
          ∃ r, constructResult J.exact desc env targetIp (samples times) packetLoss packetsSent
            pingMethod = .ok (some r) ∧ Reports J.exact (samples times) r) ∧
      Consistent J.exact (samples times)) ↔ 0 ∉ times := by
  constructor
  · rintro ⟨-, hconsistent⟩ hzero
    exact not_consistent_of_zero h hzero hconsistent
  · intro hpos
    refine ⟨fun desc env targetIp packetLoss packetsSent pingMethod hloss hcells => ?_,
      consistent_of_pos h hpos⟩
    have hne : samples times ≠ [] := fun hnil => h.nonempty (List.map_eq_nil_iff.mp hnil)
    exact ⟨_, constructResult_of_finite hcells hne (representable_exact h.nonempty) hloss,
      reports_resultOf J.exact desc env targetIp pingMethod (samples times) packetLoss packetsSent⟩

/-- Times of a round trip are 0 or a millisecond at least. -/
theorem roundTrips_of_bounds {times : List ℚ} (hne : times ≠ [])
    (h : ∀ t ∈ times, t = 0 ∨ 1 ≤ t ∧ t ≤ 2 ^ 20) : RoundTrips times := by
  have hsmall : (1 : ℚ) / 2 ^ 1074 < 1 := by
    rw [div_lt_one (by positivity)]
    exact one_lt_pow₀ one_lt_two (by omega)
  have hlarge : (2 : ℚ) ^ 20 < (2 - 1 / 2 ^ 52) * 2 ^ 1023 := by
    calc (2 : ℚ) ^ 20 < 2 ^ 1023 := pow_lt_pow_right₀ one_lt_two (by omega)
      _ ≤ (2 - 1 / 2 ^ 52) * 2 ^ 1023 := le_mul_of_one_le_left (by positivity) (by norm_num)
  refine ⟨hne, fun t ht => ?_, fun t ht ht0 => ?_, fun t ht => ?_⟩
  · rcases h t ht with rfl | ht
    · exact le_refl 0
    · exact zero_le_one.trans ht.1
  · have hbounds := (h t ht).resolve_left ht0
    exact lt_finite.mpr (hsmall.trans_le hbounds.1)
  · refine lt_finite.mpr (lt_of_le_of_lt ?_ hlarge)
    rcases h t ht with rfl | ht
    · positivity
    · exact ht.2

theorem consistent_iff_two_times :
    ((∀ desc env targetIp packetLoss packetsSent pingMethod, packetLoss.isFinite →
        env.device.neighboringCellInfo.isSome →
          ∃ r, constructResult Platform.latin.exact desc env targetIp (samples [10, 20]) packetLoss
            packetsSent pingMethod = .ok (some r) ∧
              Reports Platform.latin.exact (samples [10, 20]) r) ∧
      Consistent Platform.latin.exact (samples [10, 20])) ↔ (0 : ℚ) ∉ [10, 20] :=
  consistent_iff Platform.latin [10, 20] (roundTrips_of_bounds (by decide) (by decide +kernel))

/-- Three times of 10 and one of 0: the time of 0 is left out of the filtered
mean, which is above the mean then. -/
theorem filtered_mean_of_zero : RoundTrips [0, 10, 10, 10] ∧
    (avg Platform.latin.exact (samples [0, 10, 10, 10])).lt
      (filterPingResults Platform.latin.exact (samples [0, 10, 10, 10])
        (avg Platform.latin.exact (samples [0, 10, 10, 10]))) ∧
      ¬ Consistent Platform.latin.exact (samples [0, 10, 10, 10]) := by
  have h : RoundTrips [0, 10, 10, 10] := roundTrips_of_bounds (by decide) (by decide +kernel)
  exact ⟨h, by decide +kernel, not_consistent_of_zero h (by decide)⟩

end Agreement

end PingTask

end MobiPerf.Measurements
