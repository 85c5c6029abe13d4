import MobiPerf.Lib.Rounding

/-!
# Lib.Ratio — counts divided in a binary format

A count is divided by the number of things counted over, as floating-point numbers. The
quotient is rounded, and so may be both numbers, so it is not clear at once what it still
says of them.

* `binaryRound_mono`: rounding keeps the order;
* `binaryRound_error`: it moves a number by half a unit of the last place at most;
* `Rounding.ratio_mem`: the quotient is in the unit interval when the count is;
* `Rounding.ratio_injective`: over less than `2 ^ 24` it tells the count;
* `Rounding.ratio_unit_iff`: that of another number is not, unless the number is the same
  value as that of the things counted over.
-/

namespace MobiPerf.Lib

open Value

/-! ## The nearest integer -/

theorem nearest_mono {x y : ℚ} (h : x ≤ y) : nearest x ≤ nearest y := by
  have hfloor : ⌊x⌋ ≤ ⌊y⌋ := Int.floor_le_floor h
  rcases hfloor.lt_or_eq with hlt | heq
  · have hx : nearest x ≤ ⌊x⌋ + 1 := nearest_le (by
      push_cast
      exact (Int.lt_floor_add_one x).le)
    have hy : ⌊y⌋ ≤ nearest y := le_nearest (Int.floor_le y)
    omega
  · unfold nearest
    rw [heq]
    grind

theorem abs_nearest_sub_le (x : ℚ) : |(nearest x : ℚ) - x| ≤ 1 / 2 := by
  have hlo := Int.floor_le x
  have hhi := Int.lt_floor_add_one x
  rw [abs_le]
  unfold nearest
  dsimp only
  split
  · constructor <;> linarith
  · split
    · push_cast
      constructor <;> linarith
    · have hhalf : x - ⌊x⌋ = 1 / 2 := by linarith
      split
      · constructor <;> linarith
      · push_cast
        constructor <;> linarith

/-! ## Rounding -/

section Round

variable {precision : ℕ} {emin : ℤ} {emax : ℕ} {q q' r r' : ℚ} {e : ℤ}

theorem binaryRound_of_nonneg (hq : 0 ≤ q) (hr : binaryRound precision emin emax q = finite r) :
    r = nearest (q / 2 ^ lastPlace precision emin (Int.log 2 q)) *
      2 ^ lastPlace precision emin (Int.log 2 q) := by
  have hneg : ¬ q < 0 := not_lt.mpr hq
  simp only [binaryRound, pack, hneg, decide_false, abs_of_nonneg hq] at hr
  split at hr
  · cases hr
  · cases hr
    simp

/-- Half a unit of the last place, and that of a larger number. -/
theorem binaryRound_error (he : emin ≤ e) (hq : 0 ≤ q) (hlt : q < 2 ^ (e + 1))
    (hr : binaryRound precision emin emax q = finite r) : |r - q| ≤ 2 ^ (e - precision) := by
  rcases hq.lt_or_eq with hpos | hzero
  · have hlog : Int.log 2 q ≤ e := by
      have hlt' := (Int.lt_zpow_iff_log_lt one_lt_two hpos).mp hlt
      omega
    have hplace : lastPlace precision emin (Int.log 2 q) ≤ e - (precision - 1) := by
      unfold lastPlace
      omega
    have hunits := binaryRound_of_nonneg hq hr
    generalize lastPlace precision emin (Int.log 2 q) = place at hplace hunits
    have hunit : (0 : ℚ) < 2 ^ place := by positivity
    have hsub : r - q = (nearest (q / 2 ^ place) - q / 2 ^ place) * 2 ^ place := by
      rw [hunits, sub_mul, div_mul_cancel₀ _ hunit.ne']
    calc |r - q| = |(nearest (q / 2 ^ place) : ℚ) - q / 2 ^ place| * 2 ^ place := by
          rw [hsub, abs_mul, abs_of_pos hunit]
      _ ≤ 1 / 2 * 2 ^ place := mul_le_mul_of_nonneg_right (abs_nearest_sub_le _) hunit.le
      _ = 2 ^ (place - 1) := by rw [zpow_sub_one₀ two_ne_zero]; ring
      _ ≤ 2 ^ (e - precision) := zpow_le_zpow_right₀ one_le_two (by omega)
  · rw [← hzero, binaryRound_zero] at hr
    cases hr
    rw [← hzero, sub_zero, abs_zero]
    positivity

/-- A power of two that is a whole number of units bounds what is rounded to them. -/
theorem binaryRound_le_zpow (hq : 0 ≤ q) (hplace : lastPlace precision emin (Int.log 2 q) ≤ e)
    (hle : q ≤ 2 ^ e) (hr : binaryRound precision emin emax q = finite r) : r ≤ 2 ^ e := by
  rw [binaryRound_of_nonneg hq hr]
  generalize lastPlace precision emin (Int.log 2 q) = place at hplace
  have hunit : (0 : ℚ) < 2 ^ place := by positivity
  rw [zpow_eq_units hplace] at hle ⊢
  apply mul_le_mul_of_nonneg_right _ hunit.le
  exact_mod_cast nearest_le ((div_le_iff₀ hunit).mpr hle)

theorem zpow_le_binaryRound (hq : 0 ≤ q) (hplace : lastPlace precision emin (Int.log 2 q) ≤ e)
    (hle : 2 ^ e ≤ q) (hr : binaryRound precision emin emax q = finite r) : 2 ^ e ≤ r := by
  rw [binaryRound_of_nonneg hq hr]
  generalize lastPlace precision emin (Int.log 2 q) = place at hplace
  have hunit : (0 : ℚ) < 2 ^ place := by positivity
  rw [zpow_eq_units hplace] at hle ⊢
  apply mul_le_mul_of_nonneg_right _ hunit.le
  exact_mod_cast le_nearest ((le_div_iff₀ hunit).mpr hle)

theorem binaryRound_mono (hp : 1 ≤ precision) (hq : 0 ≤ q) (hle : q ≤ q')
    (hr : binaryRound precision emin emax q = finite r)
    (hr' : binaryRound precision emin emax q' = finite r') : r ≤ r' := by
  rcases hq.lt_or_eq with hpos | hzero
  · have hpos' : 0 < q' := hpos.trans_le hle
    have hlog : Int.log 2 q ≤ Int.log 2 q' := Int.log_mono_right hpos hle
    have hlo : (2 : ℚ) ^ Int.log 2 q' ≤ q' := Int.zpow_log_le_self one_lt_two hpos'
    have hhi : q < 2 ^ (Int.log 2 q + 1) := Int.lt_zpow_succ_log_self one_lt_two q
    by_cases hsame : lastPlace precision emin (Int.log 2 q) =
        lastPlace precision emin (Int.log 2 q')
    · rw [binaryRound_of_nonneg hq hr, binaryRound_of_nonneg hpos'.le hr', hsame]
      generalize lastPlace precision emin (Int.log 2 q') = place
      have hunit : (0 : ℚ) < 2 ^ place := by positivity
      apply mul_le_mul_of_nonneg_right _ hunit.le
      exact_mod_cast nearest_mono (div_le_div_of_nonneg_right hle hunit.le)
    · -- the power of two below the larger number is between the two
      have hplaces : lastPlace precision emin (Int.log 2 q) ≤ Int.log 2 q' ∧
          lastPlace precision emin (Int.log 2 q') ≤ Int.log 2 q' ∧
          Int.log 2 q + 1 ≤ Int.log 2 q' := by
        unfold lastPlace at hsame ⊢
        omega
      have hpower : q ≤ 2 ^ Int.log 2 q' :=
        hhi.le.trans (zpow_le_zpow_right₀ one_le_two hplaces.2.2)
      exact (binaryRound_le_zpow hq hplaces.1 hpower hr).trans
        (zpow_le_binaryRound hpos'.le hplaces.2.1 hlo hr')
  · rw [← hzero, binaryRound_zero] at hr
    cases hr
    exact binaryRound_nonneg (hq.trans hle) hr'

/-- The sign is set aside. -/
theorem binaryRound_of_neg (hq : q < 0) (hr : binaryRound precision emin emax q = finite r) :
    binaryRound precision emin emax (-q) = finite (-r) := by
  have hpos : ¬ -q < 0 := by linarith
  simp only [binaryRound, pack, hq, decide_true, if_true] at hr
  simp only [binaryRound, pack, hpos, decide_false, abs_neg, Bool.false_eq_true, if_false]
  split at hr
  · cases hr
  · rename_i hfits
    cases hr
    rw [if_neg hfits, neg_neg]

end Round

/-! ## Ratios -/

namespace Rounding

/-- `n / (float) count`. -/
def ratio (n count : ℤ) : Value := binary32.div (binary32.ofInt n) (binary32.ofInt count)

theorem binary32_ofInt {n : ℤ} (hn : |n| < 2 ^ 24) : binary32.ofInt n = finite n :=
  binaryRound_intCast (by decide) (by decide) hn

variable {n m count : ℤ}

/-- A number of things is a positive value. -/
theorem exists_ofInt_count (hcount : 0 < count) (hmax : count ≤ 2 ^ 31) :
    ∃ b : ℚ, binary32.ofInt count = finite b ∧ 1 ≤ b ∧ b ≤ 2 ^ 31 := by
  obtain ⟨b, hb, hle⟩ := within_ofInt (R := binary32) (k := 31) (n := count) (by decide)
    (by rw [abs_of_pos hcount]; exact hmax)
  have hcast : (0 : ℚ) ≤ count := by exact_mod_cast hcount.le
  have hone : (2 : ℚ) ^ 0 ≤ |(count : ℚ)| := by
    rw [pow_zero, abs_of_nonneg hcast]
    exact_mod_cast hcount
  have h0 : 0 ≤ b := binary32.round_nonneg hcast hb
  have h1 : (2 : ℚ) ^ 0 ≤ |b| := binary32.le_round hone hb
  rw [abs_of_nonneg h0] at hle h1
  exact ⟨b, hb, by simpa using h1, hle⟩

theorem ofInt_mono {a b : ℚ} (h0 : 0 ≤ n) (hle : n ≤ m) (ha : binary32.ofInt n = finite a)
    (hb : binary32.ofInt m = finite b) : a ≤ b :=
  binaryRound_mono (by decide) (by exact_mod_cast h0) (by exact_mod_cast hle) ha hb

/-- The quotient of a count. -/
theorem ratio_mem (h0 : 0 ≤ n) (hle : n ≤ count) (hcount : 0 < count) (hmax : count ≤ 2 ^ 31) :
    ∃ q, ratio n count = finite q ∧ 0 ≤ q ∧ q ≤ 1 := by
  obtain ⟨b, hb, hone, -⟩ := exists_ofInt_count hcount hmax
  obtain ⟨a, ha, -⟩ := within_ofInt (R := binary32) (k := 31) (n := n) (by decide)
    (by rw [abs_of_nonneg h0]; exact hle.trans hmax)
  have ha0 : 0 ≤ a := binary32.round_nonneg (by exact_mod_cast h0) ha
  have hab : a ≤ b := ofInt_mono h0 hle ha hb
  have hb0 : 0 < b := one_pos.trans_le hone
  have hq0 : 0 ≤ a / b := div_nonneg ha0 hb0.le
  have hq1 : |a / b| ≤ 2 ^ 0 := by
    rw [abs_of_nonneg hq0, pow_zero]
    exact (div_le_one hb0).mpr hab
  obtain ⟨q, hq, hq2⟩ := binary32.round_within (Nat.zero_le 127) hq1
  have hqnonneg := binary32.round_nonneg hq0 hq
  unfold ratio
  rw [ha, hb, div_finite hb0.ne', hq]
  rw [abs_of_nonneg hqnonneg, pow_zero] at hq2
  exact ⟨q, rfl, hqnonneg, hq2⟩

theorem binary32_error {e : ℤ} {q r : ℚ} (he : -126 ≤ e) (h0 : 0 ≤ q) (hlt : q < 2 ^ (e + 1))
    (hr : binary32.round q = finite r) : |r - q| ≤ 2 ^ (e - 24) := by
  have hround : binaryRound 24 (-126) 127 q = finite r := hr
  have herror := binaryRound_error he h0 hlt hround
  exact_mod_cast herror

/-- In the unit interval half a unit of the last place is `2 ^ (-25)` at most. -/
theorem round_error_unit {q r : ℚ} (h0 : 0 ≤ q) (h1 : q ≤ 1) (hr : binary32.round q = finite r) :
    |r - q| ≤ 2 ^ (-25 : ℤ) := by
  rcases h1.lt_or_eq with hlt | heq
  · have hlt' : q < 2 ^ ((-1 : ℤ) + 1) := by simpa using hlt
    have herror := binary32_error (by decide) h0 hlt' hr
    norm_num at herror ⊢
    exact herror
  · have hone := binary32.round_two_pow (Nat.zero_le 127)
    rw [pow_zero] at hone
    rw [heq] at hr
    rw [Value.finite.inj (hr.symm.trans hone), heq, sub_self, abs_zero]
    positivity

/-- Over less than `2 ^ 24`, two quotients that are rounded to one value would be nearer
to each other than their denominator allows. -/
theorem ratio_injective (hn0 : 0 ≤ n) (hn : n ≤ count) (hm0 : 0 ≤ m) (hm : m ≤ count)
    (hcount : 0 < count) (hmax : count < 2 ^ 24) (h : ratio n count = ratio m count) : n = m := by
  have hcast : (0 : ℚ) < count := by exact_mod_cast hcount
  have hround : ∀ k : ℤ, 0 ≤ k → k ≤ count → ratio k count = binary32.round (k / count) ∧
      (0 : ℚ) ≤ k / count ∧ (k : ℚ) / count ≤ 1 := by
    intro k hk0 hk
    unfold ratio
    rw [binary32_ofInt (by rw [abs_of_nonneg hk0]; omega),
      binary32_ofInt (by rw [abs_of_pos hcount]; exact hmax), div_finite hcast.ne']
    refine ⟨rfl, div_nonneg (by exact_mod_cast hk0) hcast.le, (div_le_one hcast).mpr ?_⟩
    exact_mod_cast hk
  obtain ⟨hrn, hn0', hn1⟩ := hround n hn0 hn
  obtain ⟨hrm, hm0', hm1⟩ := hround m hm0 hm
  obtain ⟨r, hr, -⟩ := ratio_mem hn0 hn hcount (hmax.le.trans (by decide))
  have hnear := round_error_unit hn0' hn1 (hrn.symm.trans hr)
  have hnear' := round_error_unit hm0' hm1 (hrm.symm.trans (h.symm.trans hr))
  have hdist : |(n : ℚ) / count - m / count| ≤ 2 ^ (-24 : ℤ) := by
    calc |(n : ℚ) / count - m / count| = |(r - m / count) - (r - n / count)| := by ring_nf
      _ ≤ |r - m / count| + |r - n / count| := abs_sub _ _
      _ ≤ 2 ^ (-25 : ℤ) + 2 ^ (-25 : ℤ) := add_le_add hnear' hnear
      _ = 2 ^ (-24 : ℤ) := by norm_num
  by_contra hne
  have hone : (1 : ℚ) ≤ |(n : ℚ) - m| := by exact_mod_cast Int.one_le_abs (sub_ne_zero.mpr hne)
  rw [← sub_div, abs_div, abs_of_pos hcast, div_le_iff₀ hcast] at hdist
  have hsmall : (2 : ℚ) ^ (-24 : ℤ) * count < 1 := by
    have hcount24 : (count : ℚ) < 2 ^ 24 := by exact_mod_cast hmax
    norm_num at hcount24 ⊢
    linarith
  linarith

/-! ### Numbers that are no counts -/

/-- The quotient of an `int` and a number of things. -/
theorem exists_ratio (hn : |n| ≤ 2 ^ 31) (hcount : 0 < count) (hmax : count ≤ 2 ^ 31) :
    ∃ a b q : ℚ, binary32.ofInt n = finite a ∧ binary32.ofInt count = finite b ∧ 1 ≤ b ∧
      b ≤ 2 ^ 31 ∧ ratio n count = finite q ∧ binary32.round (a / b) = finite q := by
  obtain ⟨b, hb, hone, hb31⟩ := exists_ofInt_count hcount hmax
  obtain ⟨a, ha, hale⟩ := within_ofInt (R := binary32) (k := 31) (n := n) (by decide) hn
  have hb0 : 0 < b := one_pos.trans_le hone
  have hquotient : |a / b| ≤ 2 ^ 31 := by
    rw [abs_div, abs_of_pos hb0]
    exact (div_le_self (abs_nonneg a) hone).trans hale
  obtain ⟨q, hq, -⟩ := binary32.round_within (by decide) hquotient
  refine ⟨a, b, q, ha, hb, hone, hb31, ?_, hq⟩
  unfold ratio
  rw [ha, hb, div_finite hb0.ne', hq]

/-- A negative number has a negative quotient: it is not rounded to zero. -/
theorem ratio_neg {q : ℚ} (h0 : n < 0) (hn : |n| ≤ 2 ^ 31) (hcount : 0 < count)
    (hmax : count ≤ 2 ^ 31) (hq : ratio n count = finite q) : q < 0 := by
  obtain ⟨a, b, q', ha, -, hone, hb31, hq', hround⟩ := exists_ratio hn hcount hmax
  have hb0 : 0 < b := one_pos.trans_le hone
  have hcast : (n : ℚ) < 0 := by exact_mod_cast h0
  have ha' : binary32.round (-(n : ℚ)) = finite (-a) := binaryRound_of_neg hcast ha
  have hnone : (2 : ℚ) ^ 0 ≤ |-(n : ℚ)| := by
    have hle : n ≤ -1 := by omega
    have hle' : (n : ℚ) ≤ -1 := by exact_mod_cast hle
    rw [pow_zero, abs_of_pos (by linarith)]
    linarith
  have hanonneg : 0 ≤ -a := binary32.round_nonneg (by linarith) ha'
  have haone : (2 : ℚ) ^ 0 ≤ |-a| := binary32.le_round hnone ha'
  rw [abs_of_nonneg hanonneg, pow_zero] at haone
  have hquotient : a / b < 0 := div_neg_of_neg_of_pos (by linarith) hb0
  -- its magnitude is that of a number the format holds without losing bits
  have hlarge : (2 : ℚ) ^ (-31 : ℤ) ≤ -(a / b) := by
    rw [← neg_div, le_div_iff₀ hb0]
    calc (2 : ℚ) ^ (-31 : ℤ) * b ≤ 2 ^ (-31 : ℤ) * 2 ^ 31 :=
          mul_le_mul_of_nonneg_left hb31 (by positivity)
      _ = 1 := by norm_num
      _ ≤ -a := haone
  have hnegated : binaryRound 24 (-126) 127 (-(a / b)) = finite (-q') :=
    binaryRound_of_neg hquotient hround
  have hlog : -31 ≤ Int.log 2 (-(a / b)) :=
    (Int.zpow_le_iff_le_log one_lt_two (neg_pos.mpr hquotient)).mp hlarge
  have hplace : lastPlace 24 (-126) (Int.log 2 (-(a / b))) ≤ Int.log 2 (-(a / b)) := by
    unfold lastPlace
    omega
  have hpos : (0 : ℚ) < -q' := lt_of_lt_of_le (by positivity)
    (zpow_le_binaryRound (neg_pos.mpr hquotient).le hplace
      (Int.zpow_log_le_self one_lt_two (neg_pos.mpr hquotient)) hnegated)
  have hsame : q = q' := Value.finite.inj (hq.symm.trans hq')
  linarith

/-- Whole numbers of units are a unit apart. -/
theorem add_unit_le {x y : ℚ} {k l place : ℤ} (hx : x = k * 2 ^ place) (hy : y = l * 2 ^ place)
    (hxy : x < y) : x + 2 ^ place ≤ y := by
  have hunit : (0 : ℚ) < 2 ^ place := by positivity
  rw [hx, hy] at hxy ⊢
  have hkl : k + 1 ≤ l := by exact_mod_cast lt_of_mul_lt_mul_right hxy hunit.le
  have hkl' : (k : ℚ) + 1 ≤ l := by exact_mod_cast hkl
  calc (k : ℚ) * 2 ^ place + 2 ^ place = (k + 1) * 2 ^ place := by ring
    _ ≤ l * 2 ^ place := mul_le_mul_of_nonneg_right hkl' hunit.le

theorem binary32_units {e : ℤ} {q r : ℚ} (hq : 2 ^ e ≤ |q|) (hr : binary32.round q = finite r) :
    ∃ m : ℤ, r = m * 2 ^ (e - 23) := by
  obtain ⟨m, hm⟩ := binaryRound_units hq hr
  exact ⟨m, by simpa using hm⟩

/-- The share of a value that its last unit is at least. -/
theorem mul_lt_unit {b : ℚ} {e : ℤ} (hb : b < 2 ^ (e + 1)) :
    b * 2 ^ (-24 : ℤ) < 2 ^ (e - 23) := by
  have hpow : (2 : ℚ) ^ (e + 1) * 2 ^ (-24 : ℤ) = 2 ^ (e - 23) := by
    rw [← zpow_add₀ two_ne_zero]
    congr 1
    omega
  rw [← hpow]
  exact mul_lt_mul_of_pos_right hb (by positivity)

/-- Two values of which one is larger are apart by a unit of the smaller one's last
place. -/
theorem gap_of_lt {a b : ℚ} (hcount : 0 < count) (hlt : count < n)
    (hb : binary32.ofInt count = finite b) (ha : binary32.ofInt n = finite a) (hab : b < a) :
    b + b * 2 ^ (-24 : ℤ) < a := by
  have hc0 : (0 : ℚ) < count := by exact_mod_cast hcount
  have hn0 : (0 : ℚ) < n := hc0.trans (by exact_mod_cast hlt)
  have hlo : (2 : ℚ) ^ Int.log 2 (count : ℚ) ≤ count := Int.zpow_log_le_self one_lt_two hc0
  have hhi : (count : ℚ) < 2 ^ (Int.log 2 (count : ℚ) + 1) :=
    Int.lt_zpow_succ_log_self one_lt_two _
  have hnonneg : 0 ≤ Int.log 2 (count : ℚ) := by
    rw [← Int.log_one_right (R := ℚ) 2]
    exact Int.log_mono_right one_pos (by exact_mod_cast hcount)
  have hplace : ∀ {e' : ℤ}, e' ≤ Int.log 2 (count : ℚ) + 1 →
      lastPlace 24 (-126) e' ≤ Int.log 2 (count : ℚ) + 1 := by
    intro e' he'
    unfold lastPlace
    omega
  have hble : b ≤ 2 ^ (Int.log 2 (count : ℚ) + 1) :=
    binaryRound_le_zpow hc0.le (hplace (by omega)) hhi.le hb
  generalize Int.log 2 (count : ℚ) = e at hlo hhi hplace hble hnonneg
  rcases hble.lt_or_eq with hsmall | hpower
  · obtain ⟨k, hk⟩ := binary32_units (by rw [abs_of_pos hc0]; exact hlo) hb
    obtain ⟨l, hl⟩ := binary32_units (q := n) (e := e)
      (by rw [abs_of_pos hn0]; exact hlo.trans (by exact_mod_cast hlt.le)) ha
    have hgap := add_unit_le hk hl hab
    have hshare := mul_lt_unit hsmall
    linarith
  · -- rounded up to a power of two: the larger value has larger units
    have hnlarge : (2 : ℚ) ^ (e + 1) ≤ n := by
      by_contra hnot
      have hnlt : (n : ℚ) < 2 ^ (e + 1) := not_le.mp hnot
      have hlog := (Int.lt_zpow_iff_log_lt one_lt_two hn0).mp hnlt
      have hale : a ≤ 2 ^ (e + 1) := binaryRound_le_zpow hn0.le (hplace hlog.le) hnlt.le ha
      linarith
    obtain ⟨l, hl⟩ := binary32_units (q := n) (e := e + 1)
      (by rw [abs_of_pos hn0]; exact hnlarge) ha
    have hk : b = (2 ^ 23 : ℤ) * 2 ^ (e + 1 - 23) := by
      have hbits : (e + 1 - (e + 1 - 23)).toNat = 23 := by omega
      have hplaces : e + 1 - 23 ≤ e + 1 := by omega
      rw [hpower, zpow_eq_units hplaces, hbits]
    have hgap := add_unit_le hk hl hab
    have hshare : b * 2 ^ (-24 : ℤ) < 2 ^ (e + 1 - 23) := by
      apply mul_lt_unit
      rw [hpower]
      exact zpow_lt_zpow_right₀ one_lt_two (lt_add_one _)
    linarith

/-- More than the number of things is seen in the quotient, unless both are one value. -/
theorem ratio_le_one_iff {q : ℚ} (h0 : 0 ≤ n) (hn : n ≤ 2 ^ 31) (hcount : 0 < count)
    (hmax : count ≤ 2 ^ 31) (hq : ratio n count = finite q) :
    q ≤ 1 ↔ n ≤ count ∨ binary32.ofInt n = binary32.ofInt count := by
  obtain ⟨a, b, q', ha, hb, hone, -, hq', hround⟩ :=
    exists_ratio (by rw [abs_of_nonneg h0]; exact hn) hcount hmax
  have hb0 : 0 < b := one_pos.trans_le hone
  have hsame : q = q' := Value.finite.inj (hq.symm.trans hq')
  have hvalues : binary32.ofInt n = binary32.ofInt count ↔ a = b := by
    rw [ha, hb]
    exact ⟨fun h => Value.finite.inj h, fun h => by rw [h]⟩
  rw [hsame, hvalues]
  constructor
  · -- two distinct floats differ by too much for the quotient to round to 1
    intro hle
    by_contra hnot
    obtain ⟨hlt, hne⟩ := not_or.mp hnot
    rw [not_le] at hlt
    have hab : b < a := lt_of_le_of_ne (ofInt_mono hcount.le hlt.le hb ha) (Ne.symm hne)
    have hgap := gap_of_lt hcount hlt hb ha hab
    have hquotient : 1 + 2 ^ (-24 : ℤ) < a / b := by
      rw [lt_div_iff₀ hb0]
      linarith
    have hq0 : 0 ≤ a / b := div_nonneg (hb0.trans hab).le hb0.le
    -- below 2 the rounding is off by less than the gap; from 2 on the quotient is not below 2
    rcases lt_or_ge (a / b) 2 with htwo | htwo
    · have herror := binary32_error (e := 0) (by decide) hq0 (by simpa using htwo) hround
      rw [zero_sub] at herror
      have hlow := (abs_le.mp herror).1
      linarith
    · have hlarge : (2 : ℚ) ^ 1 ≤ |q'| := binary32.le_round (by
        rw [pow_one, abs_of_nonneg hq0]
        exact htwo) hround
      rw [abs_of_nonneg (binary32.round_nonneg hq0 hround), pow_one] at hlarge
      linarith
  · rintro (hle | hab)
    · -- a count not above the total
      obtain ⟨r, hr, -, hr1⟩ := ratio_mem h0 hle hcount hmax
      rwa [Value.finite.inj (hq'.symm.trans hr)]
    · -- two numbers that round to one float have the quotient 1
      rw [hab, div_self hb0.ne'] at hround
      have hexact := binary32.round_two_pow (Nat.zero_le 127)
      rw [pow_zero] at hexact
      exact (Value.finite.inj (hround.symm.trans hexact)).le

/-- The quotients in the unit interval. -/
theorem ratio_unit_iff {q : ℚ} (hlo : -2 ^ 31 ≤ n) (hhi : n ≤ 2 ^ 31) (hcount : 0 < count)
    (hmax : count ≤ 2 ^ 31) (hq : ratio n count = finite q) :
    0 ≤ q ∧ q ≤ 1 ↔ 0 ≤ n ∧ (n ≤ count ∨ binary32.ofInt n = binary32.ofInt count) := by
  have habs : |n| ≤ 2 ^ 31 := abs_le.mpr ⟨hlo, hhi⟩
  rcases lt_or_ge n 0 with hneg | h0
  · have hqneg := ratio_neg hneg habs hcount hmax hq
    exact iff_of_false (fun hmem => absurd hmem.1 (not_le.mpr hqneg))
      fun hmem => absurd hmem.1 (not_le.mpr hneg)
  · obtain ⟨a, b, q', ha, hb, hone, -, hq', hround⟩ := exists_ratio habs hcount hmax
    have ha0 : 0 ≤ a := binary32.round_nonneg (by exact_mod_cast h0) ha
    have hq0 : 0 ≤ q' := binary32.round_nonneg (div_nonneg ha0 (one_pos.trans_le hone).le) hround
    rw [← ratio_le_one_iff h0 hhi hcount hmax hq]
    have hsame : q = q' := Value.finite.inj (hq.symm.trans hq')
    rw [hsame]
    exact and_congr_left fun _ => iff_of_true hq0 h0

end Rounding

end MobiPerf.Lib
