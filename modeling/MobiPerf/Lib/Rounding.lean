import Mathlib.Algebra.Order.Field.Power
import Mathlib.Data.Int.Log
import Mathlib.Data.Rat.Floor
import Mathlib.Tactic.Linarith
import Mathlib.Tactic.Positivity

/-!
# Lib.Rounding — floating-point values and their rounding

A floating-point value is a rational, an infinity or not a number; there is one
zero. An arithmetic of such values is a `Rounding`: every operation is exact and
its result is rounded once. A rounding keeps a magnitude between the powers of
two it lies between, and this is all that is asked of one. So it carries bounds
(`Within`) through a computation: `within_add`, `within_mul`, `within_div` and
`within_sqrt` are the rules.

`Rounding.binary` is the rounding of an IEEE 754 binary format, to the nearest
value and to even when there are two.
-/

namespace MobiPerf.Lib

/-! ## Values -/

inductive Value where
  | nan
  | infinite (negative : Bool)
  | finite (q : ℚ)
deriving DecidableEq, Repr

namespace Value

def isFinite : Value → Bool
  | finite _ => true
  | _ => false

/-- `x < y`: false when one of them is not a number. -/
def lt : Value → Value → Bool
  | finite a, finite b => a < b
  | infinite true, finite _ => true
  | infinite true, infinite false => true
  | finite _, infinite false => true
  | _, _ => false

/-- The order of values is transitive. -/
theorem lt_of_lt_of_lt {x y z : Value} (hzx : z.lt x) (hxy : x.lt y) : z.lt y := by
  unfold lt at *
  grind

theorem not_lt_of_lt {x y : Value} (h : x.lt y) : ¬ y.lt x := by
  unfold lt at *
  grind

/-- `x == y`: false when one of them is not a number. -/
def beq (x y : Value) : Bool := x ≠ nan && x = y

/-- `x <= y`. -/
def le (x y : Value) : Bool := x.lt y || x.beq y

def neg : Value → Value
  | nan => nan
  | infinite negative => infinite (!negative)
  | finite q => finite (-q)

/-- A sign does not matter for being finite. -/
theorem isFinite_neg (x : Value) : x.neg.isFinite = x.isFinite := by
  cases x with
  | nan => rfl
  | infinite negative => rfl
  | finite q => rfl

/-- Finite, and of a magnitude of at most `2 ^ k`. -/
def Within (k : ℕ) (x : Value) : Prop := ∃ q, x = finite q ∧ |q| ≤ 2 ^ k

/-- What has a bound is finite. -/
theorem Within.isFinite {k : ℕ} {x : Value} (h : x.Within k) : x.isFinite := by
  rcases h with ⟨q, rfl, -⟩
  rfl

/-- A bound may be raised. -/
theorem Within.mono {k l : ℕ} {x : Value} (h : x.Within k) (hkl : k ≤ l) : x.Within l := by
  rcases h with ⟨q, hx, hq⟩
  exact ⟨q, hx, hq.trans (pow_le_pow_right₀ one_le_two hkl)⟩

/-- The negated value has the same bound. -/
theorem Within.neg {k : ℕ} {x : Value} (h : x.Within k) : x.neg.Within k := by
  rcases h with ⟨q, rfl, hq⟩
  exact ⟨-q, rfl, by rwa [abs_neg]⟩

end Value

open Value

/-! ## Roundings -/

/-- How results are rounded, and square roots taken, in a format whose largest
exponent is `emax`. -/
structure Rounding (emax : ℕ) where
  round : ℚ → Value
  sqrtRound : ℚ → Value
  round_zero : round 0 = finite 0
  round_within : ∀ {k : ℕ} {q : ℚ}, k ≤ emax → |q| ≤ 2 ^ k → (round q).Within k
  round_nonneg : ∀ {q r : ℚ}, 0 ≤ q → round q = finite r → 0 ≤ r
  le_round : ∀ {k : ℕ} {q r : ℚ}, 2 ^ k ≤ |q| → round q = finite r → 2 ^ k ≤ |r|
  sqrt_within : ∀ {k : ℕ} {q : ℚ}, k ≤ emax → 0 ≤ q → q ≤ 4 ^ k → (sqrtRound q).Within k

namespace Rounding

variable {emax : ℕ} (R : Rounding emax)

/-- The value of an integer. -/
def ofInt (n : ℤ) : Value := R.round n

def add : Value → Value → Value
  | finite a, finite b => R.round (a + b)
  | infinite s, infinite t => if s = t then infinite s else nan
  | infinite s, finite _ => infinite s
  | finite _, infinite t => infinite t
  | _, _ => nan

def sub (x y : Value) : Value := R.add x y.neg

def mul : Value → Value → Value
  | finite a, finite b => R.round (a * b)
  | infinite s, infinite t => infinite (s ^^ t)
  | infinite s, finite b => if b = 0 then nan else infinite (s ^^ decide (b < 0))
  | finite a, infinite t => if a = 0 then nan else infinite (t ^^ decide (a < 0))
  | _, _ => nan

def div : Value → Value → Value
  | finite a, finite b =>
    if b = 0 then if a = 0 then nan else infinite (decide (a < 0)) else R.round (a / b)
  | infinite s, finite b => infinite (s ^^ decide (b < 0))
  | finite _, infinite _ => finite 0
  | _, _ => nan

def sqrt : Value → Value
  | finite q => if q < 0 then nan else R.sqrtRound q
  | infinite false => infinite false
  | _ => nan

/-- The conversion of a value of another format. -/
def convert : Value → Value
  | finite q => R.round q
  | x => x

variable {R} {k l : ℕ} {x y : Value}

/-- An integer is rounded within its bound. -/
theorem within_ofInt {n : ℤ} (hk : k ≤ emax) (hn : |n| ≤ 2 ^ k) : (R.ofInt n).Within k := by
  refine R.round_within hk ?_
  exact_mod_cast hn

/-- A sum needs one bit more. -/
theorem within_add (hk : k + 1 ≤ emax) (hx : x.Within k) (hy : y.Within k) :
    (R.add x y).Within (k + 1) := by
  rcases hx with ⟨a, rfl, ha⟩
  rcases hy with ⟨b, rfl, hb⟩
  refine R.round_within hk ?_
  calc |a + b| ≤ |a| + |b| := abs_add_le a b
    _ ≤ 2 ^ k + 2 ^ k := add_le_add ha hb
    _ = 2 ^ (k + 1) := by rw [pow_succ]; linarith

theorem within_sub (hk : k + 1 ≤ emax) (hx : x.Within k) (hy : y.Within k) :
    (R.sub x y).Within (k + 1) :=
  within_add hk hx hy.neg

/-- A product has the sum of the bounds. -/
theorem within_mul (hkl : k + l ≤ emax) (hx : x.Within k) (hy : y.Within l) :
    (R.mul x y).Within (k + l) := by
  rcases hx with ⟨a, rfl, ha⟩
  rcases hy with ⟨b, rfl, hb⟩
  refine R.round_within hkl ?_
  rw [abs_mul, pow_add]
  exact mul_le_mul ha hb (abs_nonneg b) (by positivity)

/-- A quotient of numbers is rounded once. -/
theorem div_finite {a b : ℚ} (hb : b ≠ 0) : R.div (finite a) (finite b) = R.round (a / b) := by
  show (if b = 0 then if a = 0 then nan else infinite (decide (a < 0)) else R.round (a / b)) = _
  exact if_neg hb

/-- Dividing by a value of at least one. -/
theorem within_div {b : ℚ} (hk : k ≤ emax) (hx : x.Within k) (hb : 1 ≤ |b|) :
    (R.div x (finite b)).Within k := by
  rcases hx with ⟨a, rfl, ha⟩
  have hne : b ≠ 0 := by
    rintro rfl
    norm_num at hb
  rw [div_finite hne]
  refine R.round_within hk ?_
  rw [abs_div]
  exact (div_le_self (abs_nonneg a) hb).trans ha

/-- Dividing by a whole number that is not zero. -/
theorem within_div_ofInt {n : ℤ} (hk : k ≤ emax) (hl : l ≤ emax) (hx : x.Within k)
    (hn : n ≠ 0) (hnl : |n| ≤ 2 ^ l) : (R.div x (R.ofInt n)).Within k := by
  obtain ⟨r, hr, -⟩ := within_ofInt (R := R) hl hnl
  have hone : (1 : ℚ) ≤ |(n : ℚ)| := by exact_mod_cast Int.one_le_abs hn
  have hle : (2 : ℚ) ^ 0 ≤ |r| := R.le_round (by simpa using hone) hr
  rw [hr]
  exact within_div hk hx (by simpa using hle)

/-- A square root halves the bound. -/
theorem within_sqrt {q : ℚ} (hk : k ≤ emax) (h0 : 0 ≤ q) (hq : (finite q).Within (2 * k)) :
    (R.sqrt (finite q)).Within k := by
  rcases hq with ⟨_, hr, hle⟩
  cases hr
  have h4 : (4 : ℚ) ^ k = 2 ^ (2 * k) := by
    rw [pow_mul]
    norm_num
  show (if q < 0 then nan else R.sqrtRound q).Within k
  rw [if_neg (not_lt.mpr h0)]
  refine R.sqrt_within hk h0 ?_
  rw [h4]
  exact (le_abs_self q).trans hle

/-- What is finite was computed of what is finite. -/
theorem isFinite_of_add (h : (R.add x y).isFinite) : x.isFinite ∧ y.isFinite := by
  rcases x with _ | s | a
  · cases h
  · rcases y with _ | t | b
    · cases h
    · simp only [add] at h
      split at h
      · cases h
      · cases h
    · cases h
  · rcases y with _ | t | b
    · cases h
    · cases h
    · exact ⟨rfl, rfl⟩

/-- Only finite values have a finite quotient. -/
theorem isFinite_of_div (h : (R.div x y).isFinite) : x.isFinite := by
  rcases x with _ | s | a
  · cases h
  · rcases y with _ | t | b
    · cases h
    · cases h
    · cases h
  · rfl

/-- Nothing finite comes of a division by zero. -/
theorem not_isFinite_div_zero : ¬ (R.div x (R.ofInt 0)).isFinite := by
  have hzero : R.ofInt 0 = finite 0 := by
    unfold ofInt
    rw [Int.cast_zero, R.round_zero]
  rw [hzero]
  rcases x with _ | s | a
  · simp [div, isFinite]
  · simp [div, isFinite]
  · by_cases ha : a = 0
    · simp [div, ha, isFinite]
    · simp [div, ha, isFinite]

/-- A power of two is a value of the format. -/
theorem round_two_pow (hk : k ≤ emax) : R.round (2 ^ k) = finite (2 ^ k) := by
  have hpos : (0 : ℚ) ≤ 2 ^ k := by positivity
  have habs : |(2 : ℚ) ^ k| = 2 ^ k := abs_of_nonneg hpos
  obtain ⟨r, hr, hle⟩ := R.round_within hk habs.le
  have hr0 : 0 ≤ r := R.round_nonneg hpos hr
  have hge : 2 ^ k ≤ |r| := R.le_round habs.ge hr
  rw [abs_of_nonneg hr0] at hle hge
  rw [hr, le_antisymm hle hge]

/-- The quotient of a positive value and a positive number. -/
theorem div_ofInt_nonneg {n : ℤ} {a r : ℚ} (ha : 0 ≤ a) (hn : 0 ≤ n)
    (hr : R.div (finite a) (R.ofInt n) = finite r) : 0 ≤ r := by
  cases hb : R.ofInt n with
  | nan =>
      rw [hb] at hr
      cases hr
  | infinite s =>
      rw [hb] at hr
      cases hr
      exact le_refl _
  | finite b =>
      have hb0 : 0 ≤ b := R.round_nonneg (by exact_mod_cast hn) hb
      rw [hb] at hr
      change (if b = 0 then if a = 0 then nan else infinite (decide (a < 0))
        else R.round (a / b)) = finite r at hr
      by_cases hzero : b = 0
      · by_cases ha0 : a = 0
        · simp [hzero, ha0] at hr
        · simp [hzero, ha0] at hr
      · rw [if_neg hzero] at hr
        exact R.round_nonneg (div_nonneg ha hb0) hr

/-! ## Sums -/

/-- The sum of some values, from the left. -/
def sum (R : Rounding emax) (xs : List Value) : Value := xs.foldl R.add (finite 0)

/-- Each summand may cost one bit. -/
theorem within_foldl_add {xs : List Value} (hx : x.Within l) (hkl : k ≤ l)
    (hxs : ∀ y ∈ xs, y.Within k) (hl : l + xs.length ≤ emax) :
    (xs.foldl R.add x).Within (l + xs.length) := by
  induction xs generalizing x l with
  | nil => exact hx
  | cons y ys ih =>
      rw [List.forall_mem_cons] at hxs
      rw [List.length_cons] at hl ⊢
      have hadd := within_add (R := R) (by omega) hx (hxs.1.mono hkl)
      have hrec := ih hadd (by omega) hxs.2 (by omega)
      rwa [show l + (ys.length + 1) = l + 1 + ys.length by omega]

/-- So a sum is bounded by its length. -/
theorem within_sum {xs : List Value} (hxs : ∀ y ∈ xs, y.Within k) (hk : k + xs.length ≤ emax) :
    (R.sum xs).Within (k + xs.length) :=
  within_foldl_add ⟨0, rfl, by simp⟩ (le_refl k) hxs hk

/-- A finite sum has finite terms. -/
theorem isFinite_of_sum {xs : List Value} (h : (R.sum xs).isFinite) : ∀ y ∈ xs, y.isFinite := by
  unfold sum at h
  generalize finite 0 = x at h
  have hfold : x.isFinite ∧ ∀ y ∈ xs, y.isFinite := by
    induction xs generalizing x with
    | nil => exact ⟨h, fun y hy => absurd hy List.not_mem_nil⟩
    | cons y ys ih =>
        have hrec := ih (R.add x y) h
        have hparts := isFinite_of_add hrec.1
        exact ⟨hparts.1, List.forall_mem_cons.mpr ⟨hparts.2, hrec.2⟩⟩
  exact hfold.2

end Rounding

/-! ## Binary formats -/

section Binary

/-- The nearest integer, the even one when there are two. -/
def nearest (x : ℚ) : ℤ :=
  let n := ⌊x⌋
  if x - n < 1 / 2 then n
  else if 1 / 2 < x - n then n + 1
  else if n % 2 = 0 then n else n + 1

/-- Rounding to the nearest integer does not pass an integer from below. -/
theorem nearest_le {x : ℚ} {m : ℤ} (h : x ≤ m) : nearest x ≤ m := by
  have hfloor : ⌊x⌋ ≤ m := by
    have := Int.floor_le x
    exact_mod_cast this.trans h
  rcases hfloor.lt_or_eq with hlt | heq
  · unfold nearest
    grind
  · -- `x` is that integer
    have hx : x - ⌊x⌋ < 1 / 2 := by
      rw [heq]
      linarith
    rw [nearest, if_pos hx]
    exact hfloor

theorem le_nearest {x : ℚ} {m : ℤ} (h : (m : ℚ) ≤ x) : m ≤ nearest x := by
  have hfloor : m ≤ ⌊x⌋ := Int.le_floor.mpr h
  unfold nearest
  grind

/-- The nearest integer to a square root. -/
def nearestSqrt (s : ℚ) : ℕ :=
  let n := Nat.sqrt ⌊s⌋₊
  if s < (n + 1 / 2) ^ 2 then n
  else if (n + 1 / 2 : ℚ) ^ 2 < s then n + 1
  else if n % 2 = 0 then n else n + 1

/-- The nearest square root does not pass an integer either. -/
theorem nearestSqrt_le {s : ℚ} {m : ℕ} (h : s ≤ m ^ 2) : nearestSqrt s ≤ m := by
  have hfloor : ⌊s⌋₊ ≤ m ^ 2 := by
    have := Nat.floor_le_floor h
    rwa [← Nat.cast_pow, Nat.floor_natCast] at this
  have hle : Nat.sqrt ⌊s⌋₊ ≤ m := by
    calc Nat.sqrt ⌊s⌋₊ ≤ Nat.sqrt (m ^ 2) := Nat.sqrt_le_sqrt hfloor
      _ = m := Nat.sqrt_eq' m
  rcases hle.lt_or_eq with hlt | heq
  · unfold nearestSqrt
    grind
  · have hs : s < ((Nat.sqrt ⌊s⌋₊ : ℚ) + 1 / 2) ^ 2 := by
      rw [heq]
      have hm : (0 : ℚ) ≤ m := m.cast_nonneg
      linarith [h, show ((m : ℚ) + 1 / 2) ^ 2 = m ^ 2 + m + 1 / 4 by ring]
    rw [nearestSqrt, if_pos hs]
    exact hle

/-- The exponent of the last place of a number whose leading bit is worth
`2 ^ e`, with `precision` bits in all. -/
def lastPlace (precision : ℕ) (emin e : ℤ) : ℤ := max e emin - (precision - 1)

/-- `m` units of the last place, unless that is beyond the format. -/
def pack (emax : ℕ) (negative : Bool) (m : ℤ) (place : ℤ) : Value :=
  if 2 ^ (emax + 1) ≤ (m : ℚ) * 2 ^ place then infinite negative
  else finite (if negative then -(m * 2 ^ place) else m * 2 ^ place)

/-- A power of two is a whole number of units of a smaller one. -/
theorem zpow_eq_units {place k : ℤ} (h : place ≤ k) :
    (2 : ℚ) ^ k = ((2 ^ (k - place).toNat : ℤ) : ℚ) * 2 ^ place := by
  have hk : k = ((k - place).toNat : ℤ) + place := by omega
  calc (2 : ℚ) ^ k = 2 ^ (((k - place).toNat : ℤ) + place) := by rw [← hk]
    _ = 2 ^ ((k - place).toNat : ℤ) * 2 ^ place := zpow_add₀ two_ne_zero _ _
    _ = ((2 ^ (k - place).toNat : ℤ) : ℚ) * 2 ^ place := by push_cast; rw [zpow_natCast]

/-- What is packed keeps a bound that is a power of two. -/
theorem pack_within {emax k : ℕ} {negative : Bool} {m place : ℤ} (hk : k ≤ emax)
    (h0 : 0 ≤ m) (hm : (m : ℚ) * 2 ^ place ≤ 2 ^ k) : (pack emax negative m place).Within k := by
  have hnonneg : (0 : ℚ) ≤ m * 2 ^ place := by
    have : (0 : ℚ) ≤ m := by exact_mod_cast h0
    positivity
  have hlt : (m : ℚ) * 2 ^ place < 2 ^ (emax + 1) :=
    hm.trans_lt (pow_lt_pow_right₀ one_lt_two (by omega))
  refine ⟨_, if_neg (not_le.mpr hlt), ?_⟩
  split
  · rwa [abs_neg, abs_of_nonneg hnonneg]
  · rwa [abs_of_nonneg hnonneg]

/-- A magnitude of at most `2 ^ k` has its last place at or below `k`. -/
theorem lastPlace_le {precision k : ℕ} {emin : ℤ} {e : ℤ} (hp : 1 ≤ precision)
    (hmin : emin ≤ 0) (he : e ≤ k) : lastPlace precision emin e ≤ k := by
  unfold lastPlace
  omega

/-- The exponent of a number that has a bound. -/
theorem log_le_of_le {k : ℕ} {q : ℚ} (h : |q| ≤ 2 ^ k) : Int.log 2 |q| ≤ k := by
  rcases (abs_nonneg q).lt_or_eq with hpos | hzero
  · calc Int.log 2 |q| ≤ Int.log 2 ((2 : ℚ) ^ (k : ℤ)) :=
          Int.log_mono_right hpos (by rwa [zpow_natCast])
      _ = k := by exact_mod_cast Int.log_zpow (R := ℚ) one_lt_two k
  · rw [← hzero, Int.log_zero_right]
    exact Int.natCast_nonneg k

variable {precision : ℕ} {emin : ℤ} {emax k : ℕ} {q r : ℚ}

/-- Rounding to `precision` bits, with exponents from `emin` to `emax`. -/
def binaryRound (precision : ℕ) (emin : ℤ) (emax : ℕ) (q : ℚ) : Value :=
  let place := lastPlace precision emin (Int.log 2 |q|)
  pack emax (decide (q < 0)) (nearest (|q| / 2 ^ place)) place

def binarySqrt (precision : ℕ) (emin : ℤ) (emax : ℕ) (q : ℚ) : Value :=
  let place := lastPlace precision emin (Int.log 2 q / 2)
  pack emax false (nearestSqrt (q / (2 ^ place) ^ 2)) place

/-- Rounding to a binary format keeps a bound that is a power of two. -/
theorem binaryRound_within (hp : 1 ≤ precision) (hmin : emin ≤ 0) (hk : k ≤ emax)
    (hq : |q| ≤ 2 ^ k) : (binaryRound precision emin emax q).Within k := by
  unfold binaryRound
  have hplace := lastPlace_le hp hmin (log_le_of_le hq)
  generalize lastPlace precision emin (Int.log 2 |q|) = place at *
  have hunit : (0 : ℚ) < 2 ^ place := by positivity
  apply pack_within hk
  · exact le_nearest (by positivity)
  · have hle : nearest (|q| / 2 ^ place) ≤ 2 ^ ((k : ℤ) - place).toNat := by
      apply nearest_le
      rw [div_le_iff₀ hunit, ← zpow_eq_units hplace, zpow_natCast]
      exact hq
    calc (nearest (|q| / 2 ^ place) : ℚ) * 2 ^ place
        ≤ ((2 ^ ((k : ℤ) - place).toNat : ℤ) : ℚ) * 2 ^ place := by
          apply mul_le_mul_of_nonneg_right _ hunit.le
          exact_mod_cast hle
      _ = 2 ^ k := by rw [← zpow_eq_units hplace, zpow_natCast]

/-- Zero is rounded to zero. -/
theorem binaryRound_zero : binaryRound precision emin emax 0 = finite 0 := by
  have hnearest : nearest 0 = 0 := by decide +kernel
  have hpos : ¬ (2 : ℚ) ^ (emax + 1) ≤ 0 := not_le.mpr (by positivity)
  simp [binaryRound, pack, hnearest, hpos]

theorem binaryRound_nonneg (hq : 0 ≤ q) (hr : binaryRound precision emin emax q = finite r) :
    0 ≤ r := by
  have hneg : ¬ q < 0 := not_lt.mpr hq
  simp only [binaryRound, pack, hneg, decide_false] at hr
  split at hr
  · cases hr
  · cases hr
    have : (0 : ℚ) ≤ nearest (|q| / 2 ^ lastPlace precision emin (Int.log 2 |q|)) := by
      exact_mod_cast le_nearest (m := 0) (by push_cast; positivity)
    simp only [Bool.false_eq_true, if_false]
    positivity

/-- A number that is a power of two at least stays so. -/
theorem le_binaryRound (hp : 1 ≤ precision) (hmin : emin ≤ 0) (hq : 2 ^ k ≤ |q|)
    (hr : binaryRound precision emin emax q = finite r) : 2 ^ k ≤ |r| := by
  unfold binaryRound at hr
  have hpos : 0 < |q| := lt_of_lt_of_le (by positivity) hq
  have hlog : (2 : ℚ) ^ Int.log 2 |q| ≤ |q| := Int.zpow_log_le_self one_lt_two hpos
  have hk : (k : ℤ) ≤ Int.log 2 |q| := by
    have hmono := Int.log_mono_right (b := 2) (by positivity) hq
    have hpow := Int.log_zpow (R := ℚ) one_lt_two (k : ℤ)
    rw [zpow_natCast] at hpow
    rwa [← hpow]
  -- the leading bit stays where it is
  have hplace : lastPlace precision emin (Int.log 2 |q|) ≤ Int.log 2 |q| := by
    unfold lastPlace
    omega
  generalize Int.log 2 |q| = e at *
  generalize lastPlace precision emin e = place at *
  have hunit : (0 : ℚ) < 2 ^ place := by positivity
  have hle : 2 ^ (e - place).toNat ≤ nearest (|q| / 2 ^ place) := by
    apply le_nearest
    rw [le_div_iff₀ hunit, ← zpow_eq_units hplace]
    exact hlog
  have hr' : |r| = nearest (|q| / 2 ^ place) * 2 ^ place := by
    have hnonneg : (0 : ℚ) ≤ nearest (|q| / 2 ^ place) * 2 ^ place := by
      have : (0 : ℚ) ≤ nearest (|q| / 2 ^ place) := by
        exact_mod_cast le_trans (by positivity) hle
      positivity
    simp only [pack] at hr
    split at hr
    · cases hr
    · cases hr
      split
      · rw [abs_neg, abs_of_nonneg hnonneg]
      · rw [abs_of_nonneg hnonneg]
  calc (2 : ℚ) ^ k = 2 ^ (k : ℤ) := (zpow_natCast 2 k).symm
    _ ≤ 2 ^ e := zpow_le_zpow_right₀ one_le_two hk
    _ = ((2 ^ (e - place).toNat : ℤ) : ℚ) * 2 ^ place := zpow_eq_units hplace
    _ ≤ nearest (|q| / 2 ^ place) * 2 ^ place := by
      apply mul_le_mul_of_nonneg_right _ hunit.le
      exact_mod_cast hle
    _ = |r| := hr'.symm

/-- The rounded square root has half the bound. -/
theorem binarySqrt_within (hp : 1 ≤ precision) (hmin : emin ≤ 0) (hk : k ≤ emax) (h0 : 0 ≤ q)
    (hq : q ≤ 4 ^ k) : (binarySqrt precision emin emax q).Within k := by
  unfold binarySqrt
  have h4 : |q| ≤ 2 ^ (2 * k) := by
    rw [abs_of_nonneg h0, pow_mul]
    norm_num
    exact hq
  have hlog : Int.log 2 q / 2 ≤ k := by
    have := log_le_of_le h4
    rw [abs_of_nonneg h0] at this
    omega
  have hplace := lastPlace_le hp hmin hlog
  generalize lastPlace precision emin (Int.log 2 q / 2) = place at *
  have hunit : (0 : ℚ) < 2 ^ place := by positivity
  apply pack_within hk
  · exact Int.natCast_nonneg _
  · have hle : nearestSqrt (q / (2 ^ place) ^ 2) ≤ 2 ^ ((k : ℤ) - place).toNat := by
      apply nearestSqrt_le
      rw [div_le_iff₀ (by positivity), ← mul_pow]
      have hunits := zpow_eq_units hplace
      push_cast at hunits ⊢
      rw [← hunits, zpow_natCast, ← pow_mul, mul_comm k 2, pow_mul]
      norm_num
      exact hq
    calc (((nearestSqrt (q / (2 ^ place) ^ 2) : ℕ) : ℤ) : ℚ) * 2 ^ place
        ≤ ((2 ^ ((k : ℤ) - place).toNat : ℤ) : ℚ) * 2 ^ place := by
          apply mul_le_mul_of_nonneg_right _ hunit.le
          exact_mod_cast hle
      _ = 2 ^ k := by rw [← zpow_eq_units hplace, zpow_natCast]

/-- No rounding: every rational is a value. A square root is taken to the nearest
natural number. -/
def Rounding.exact (emax : ℕ) : Rounding emax where
  round q := finite q
  sqrtRound q := finite (nearestSqrt q)
  round_zero := rfl
  round_within _ hq := ⟨_, rfl, hq⟩
  round_nonneg hq hr := by
    cases hr
    exact hq
  le_round hq hr := by
    cases hr
    exact hq
  sqrt_within := by
    intro k q _ _ hq
    have hle : nearestSqrt q ≤ 2 ^ k := nearestSqrt_le (by
      push_cast
      rw [← pow_mul, mul_comm, pow_mul]
      norm_num
      exact hq)
    refine ⟨_, rfl, ?_⟩
    rw [abs_of_nonneg (by positivity)]
    exact_mod_cast hle

/-- The rounding of an IEEE 754 binary format. -/
def Rounding.binary (precision : ℕ) (emin : ℤ) (emax : ℕ) (hp : 1 ≤ precision)
    (hmin : emin ≤ 0) : Rounding emax where
  round := binaryRound precision emin emax
  sqrtRound := binarySqrt precision emin emax
  round_zero := binaryRound_zero
  round_within := binaryRound_within hp hmin
  round_nonneg := binaryRound_nonneg
  le_round := le_binaryRound hp hmin
  sqrt_within := binarySqrt_within hp hmin

/-- A whole number of units of the last place is a value of the format. -/
theorem binaryRound_of_units {m : ℤ}
    (hq : |q| = m * 2 ^ lastPlace precision emin (Int.log 2 |q|)) (hlt : |q| < 2 ^ (emax + 1)) :
    binaryRound precision emin emax q = finite q := by
  unfold binaryRound
  generalize lastPlace precision emin (Int.log 2 |q|) = place at *
  have hunit : (2 : ℚ) ^ place ≠ 0 := by positivity
  have hnearest : nearest (|q| / 2 ^ place) = m := by
    rw [hq, mul_div_cancel_right₀ _ hunit]
    exact le_antisymm (nearest_le (le_refl _)) (le_nearest (le_refl _))
  have hfits : ¬ (2 : ℚ) ^ (emax + 1) ≤ m * 2 ^ place := by
    rw [← hq]
    exact not_le.mpr hlt
  show pack emax (decide (q < 0)) (nearest (|q| / 2 ^ place)) place = finite q
  rw [hnearest]
  unfold pack
  rw [if_neg hfits, ← hq]
  by_cases hneg : q < 0
  · simp [hneg, abs_of_neg]
  · simp [hneg, abs_of_nonneg (not_lt.mp hneg)]

/-- A number is rounded to a whole number of units, those of the last place of any
number that is not larger. -/
theorem binaryRound_units {e : ℤ} (hq : 2 ^ e ≤ |q|)
    (hr : binaryRound precision emin emax q = finite r) :
    ∃ m : ℤ, r = m * 2 ^ (e - (precision - 1)) := by
  have hpos : 0 < |q| := lt_of_lt_of_le (by positivity) hq
  have hlog : e ≤ Int.log 2 |q| := (Int.zpow_le_iff_le_log one_lt_two hpos).mp hq
  have hplace : e - (precision - 1) ≤ lastPlace precision emin (Int.log 2 |q|) := by
    unfold lastPlace
    omega
  unfold binaryRound at hr
  generalize lastPlace precision emin (Int.log 2 |q|) = place at hr hplace
  simp only [pack] at hr
  generalize nearest (|q| / 2 ^ place) = n at hr
  split at hr
  · cases hr
  · cases hr
    have hunits : (n : ℚ) * 2 ^ place =
        (n * 2 ^ (place - (e - (precision - 1))).toNat : ℤ) * 2 ^ (e - (precision - 1)) := by
      rw [zpow_eq_units hplace]
      push_cast
      ring
    split
    · exact ⟨-(n * 2 ^ (place - (e - (precision - 1))).toNat), by
        rw [hunits, Int.cast_neg, neg_mul]⟩
    · exact ⟨_, hunits⟩

/-- An integer with fewer bits than the format has is a value of it. -/
theorem binaryRound_intCast {n : ℤ} (hmin : emin ≤ 0) (hmax : precision ≤ emax + 1)
    (hn : |n| < 2 ^ precision) : binaryRound precision emin emax n = finite n := by
  by_cases hzero : n = 0
  · rw [hzero, Int.cast_zero]
    exact binaryRound_zero
  · have hone : (1 : ℚ) ≤ |(n : ℚ)| := by exact_mod_cast Int.one_le_abs hzero
    have hlt : |(n : ℚ)| < 2 ^ precision := by exact_mod_cast hn
    have hpos : 0 < |(n : ℚ)| := lt_of_lt_of_le one_pos hone
    have hlog0 : 0 ≤ Int.log 2 |(n : ℚ)| := by
      rw [← Int.log_one_right (R := ℚ) 2]
      exact Int.log_mono_right one_pos hone
    have hlog : Int.log 2 |(n : ℚ)| < precision := by
      rw [← Int.lt_zpow_iff_log_lt one_lt_two hpos, zpow_natCast]
      exact hlt
    -- the last place is no larger than one
    have hplace : lastPlace precision emin (Int.log 2 |(n : ℚ)|) ≤ 0 := by
      unfold lastPlace
      omega
    apply binaryRound_of_units (m := |n| * 2 ^ (0 - lastPlace precision emin
      (Int.log 2 |(n : ℚ)|)).toNat)
    · have hunits := zpow_eq_units hplace
      rw [zpow_zero] at hunits
      push_cast at hunits ⊢
      rw [mul_assoc, ← hunits, mul_one]
    · exact hlt.trans_le (pow_le_pow_right₀ one_le_two hmax)

/-- The rounding of `float`. -/
def Rounding.binary32 : Rounding 127 := Rounding.binary 24 (-126) 127 (by decide) (by decide)

/-- The rounding of `double`. -/
def Rounding.binary64 : Rounding 1023 := Rounding.binary 53 (-1022) 1023 (by decide) (by decide)

namespace Rounding

/-- Integers of 53 bits are doubles. -/
theorem binary64_ofInt {n : ℤ} (hn : |n| < 2 ^ 53) : binary64.ofInt n = finite n :=
  binaryRound_intCast (by decide) (by decide) hn

/-- A double has 53 significant bits. -/
theorem binary64_units {e : ℤ} {q r : ℚ} (hq : 2 ^ e ≤ |q|) (hr : binary64.round q = finite r) :
    ∃ m : ℤ, r = m * 2 ^ (e - 52) := by
  obtain ⟨m, hm⟩ := binaryRound_units hq hr
  exact ⟨m, by simpa using hm⟩

/-- A whole number of units that is not zero is a unit at least. -/
theorem unit_le_abs {k m : ℤ} (hm : m ≠ 0) : (2 : ℚ) ^ k ≤ |(m : ℚ) * 2 ^ k| := by
  have hone : (1 : ℚ) ≤ |(m : ℚ)| := by exact_mod_cast Int.one_le_abs hm
  rw [abs_mul, abs_of_pos (by positivity : (0 : ℚ) < 2 ^ k)]
  exact le_mul_of_one_le_left (by positivity) hone

/-- So it is its last bit's place at least, unless it is zero. -/
theorem binary64_unit_le {e : ℤ} {q r : ℚ} (hq : 2 ^ e ≤ |q|) (hr : binary64.round q = finite r)
    (hne : r ≠ 0) : 2 ^ (e - 52) ≤ |r| := by
  obtain ⟨m, rfl⟩ := binary64_units hq hr
  refine unit_le_abs ?_
  rintro rfl
  exact hne (by simp)

/-- A natural number is compared with a small one as a `double` as it is as an
integer. -/
theorem binary64_ofInt_lt {n bound : ℤ} (h0 : 0 ≤ n) (hn : n ≤ 2 ^ 63) (hbound : bound ≤ 2 ^ 52) :
    (binary64.ofInt n).lt (finite bound) = decide (n < bound) := by
  by_cases hsmall : n < 2 ^ 53
  · rw [binary64_ofInt (by rw [abs_of_nonneg h0]; exact hsmall)]
    show decide ((n : ℚ) < bound) = _
    simp
  · have habs : |(n : ℚ)| = n := abs_of_nonneg (by exact_mod_cast h0)
    obtain ⟨r, hr, -⟩ := within_ofInt (R := binary64) (k := 63) (by decide)
      (by rw [abs_of_nonneg h0]; exact hn)
    have hr0 : 0 ≤ r := binary64.round_nonneg (by exact_mod_cast h0) hr
    have hlarge : (2 : ℚ) ^ 53 ≤ |r| := by
      refine binary64.le_round ?_ hr
      rw [habs]
      exact_mod_cast not_lt.mp hsmall
    rw [abs_of_nonneg hr0] at hlarge
    have hbound' : (bound : ℚ) ≤ 2 ^ 52 := by exact_mod_cast hbound
    have hnot : ¬ r < bound :=
      not_lt.mpr (hbound'.trans ((by norm_num : (2 : ℚ) ^ 52 ≤ 2 ^ 53).trans hlarge))
    have hnot' : ¬ n < bound := by omega
    rw [hr, decide_eq_false hnot']
    exact decide_eq_false hnot

/-! ## Without rounding -/

section Exact

variable {emax : ℕ}

/-- Without rounding a sum is the sum. -/
theorem exact_add (a b : ℚ) : (exact emax).add (finite a) (finite b) = finite (a + b) := rfl

/-- A quotient is the quotient. -/
theorem exact_div {a b : ℚ} (hb : b ≠ 0) :
    (exact emax).div (finite a) (finite b) = finite (a / b) :=
  div_finite hb

/-- A sum of many is their sum. -/
theorem exact_sum (emax : ℕ) (qs : List ℚ) : (exact emax).sum (qs.map finite) = finite qs.sum := by
  have hfold : ∀ a, (qs.map finite).foldl (exact emax).add (finite a) = finite (a + qs.sum) := by
    induction qs with
    | nil =>
        intro a
        rw [List.sum_nil, add_zero]
        rfl
    | cons q qs ih =>
        intro a
        rw [List.map_cons, List.foldl_cons, exact_add, ih, List.sum_cons, add_assoc]
  rw [sum, hfold, zero_add]

end Exact

end Rounding

end Binary

end MobiPerf.Lib
