import QuantumResources.Synthesis
import QuantumResources.Proofs.Number.Decimals

/-! How many T gates a rotation is said to need.

The exact count is the least integer that is not below four times the binary logarithm of the inverse
tolerance. The computed one is the ceiling of a quotient that four roundings have moved by some units
in the hundredth digit. So the two are equal unless the exact quotient is that near to an integer. For
doubles this happens at the powers of two only, and there some counts are one too large. -/

namespace QuantumResources

open Decimal (roundoff roundoff_le InRange RoundsTo greatestPower leastPower precision)

namespace Synthesis

/-! ## Errors of the quotient -/

/-- The number of gates before the ceiling is taken. -/
noncomputable def exactCount (x : ℝ) : ℝ := (4 : Nat) * Real.logb (2 : Nat) (1 / x)

/-- How far the roundings can move the quotient. -/
noncomputable def slack (x : ℝ) : ℝ := (1 + |exactCount x|) / (10 ^ 98 : Nat)

theorem exactCount_def (x : ℝ) : exactCount x = 4 * Real.logb 2 (1 / x) := by
  rw [exactCount, Nat.cast_ofNat, Nat.cast_ofNat]

theorem slack_def (x : ℝ) : slack x = (1 + |exactCount x|) / 10 ^ 98 := by
  rw [slack, Nat.cast_pow, Nat.cast_ofNat]

theorem abs_mul_sub_one_le {f g a b : ℝ} (first : |f - 1| ≤ a) (second : |g - 1| ≤ b) :
    |f * g - 1| ≤ a + b + a * b := by
  have split' : f * g - 1 = (f - 1) + (g - 1) + (f - 1) * (g - 1) := by ring
  have nonneg : 0 ≤ a := (abs_nonneg _).trans first
  calc |f * g - 1|
    _ ≤ |f - 1| + |g - 1| + |f - 1| * |g - 1| := by
      rw [split', ← abs_mul]
      exact abs_add_three _ _ _
    _ ≤ a + b + a * b := by gcongr

theorem abs_inv_sub_one_le {f a : ℝ} (near : |f - 1| ≤ a) (small : a ≤ 1 / 100) :
    |f⁻¹ - 1| ≤ 102 / 100 * a := by
  have bounds := abs_le.mp near
  have positive : 0 < f := by linarith
  have nonneg : 0 ≤ a := (abs_nonneg _).trans near
  rw [show f⁻¹ - 1 = (1 - f) / f by field_simp, abs_div, abs_of_pos positive, abs_sub_comm,
    div_le_iff₀ positive]
  nlinarith

theorem abs_log_le {f a : ℝ} (near : |f - 1| ≤ a) (small : a ≤ 1 / 100) :
    |Real.log f| ≤ 102 / 100 * a := by
  have bounds := abs_le.mp near
  have inverse := abs_le.mp (abs_inv_sub_one_le near small)
  have positive : 0 < f := by linarith
  have nonneg : 0 ≤ a := (abs_nonneg _).trans near
  have above := Real.log_le_sub_one_of_pos positive
  have below := Real.one_sub_inv_le_log_of_pos positive
  exact abs_le.mpr ⟨by linarith, by linarith⟩

/-- The error of the quotient of two logarithms of which every part is rounded: `a` for the exact
dividend, `b` for the exact divisor. -/
theorem quotient_error {a a' b f g h k : ℝ} {unit : ℝ} (small : unit ≤ 1 / 100)
    (divisor : 3 / 10 ≤ b) (moved : |a' - a| ≤ unit / 2) (first : |f - 1| ≤ unit)
    (second : |g - 1| ≤ unit) (third : |h - 1| ≤ unit) (fourth : |k - 1| ≤ unit) :
    |4 * a / b - 4 * (a' * f) * g / (b * h) * k| ≤ 10 * unit * (1 + |4 * a / b|) := by
  have nonneg : 0 ≤ unit := (abs_nonneg _).trans first
  have factors : |f * g * k * h⁻¹ - 1| ≤ 5 * unit := by
    have two := abs_mul_sub_one_le first second
    have three := abs_mul_sub_one_le two fourth
    refine (abs_mul_sub_one_le three (abs_inv_sub_one_le third small)).trans ?_
    nlinarith [mul_nonneg nonneg nonneg, mul_nonneg nonneg (mul_nonneg nonneg nonneg)]
  have computed : 4 * (a' * f) * g / (b * h) * k = 4 * a' / b * (f * g * k * h⁻¹) := by
    rw [div_eq_mul_inv, mul_inv, div_eq_mul_inv]
    ring
  have dividend : |4 * a / b - 4 * a' / b| ≤ 20 / 3 * unit := by
    rw [← sub_div, ← mul_sub, abs_div, abs_mul, abs_sub_comm, abs_of_pos (by linarith : 0 < b),
      abs_of_pos (by norm_num : (0 : ℝ) < 4), div_le_iff₀ (by linarith)]
    nlinarith
  rw [computed]
  generalize f * g * k * h⁻¹ = factor at factors ⊢
  have size : |factor| ≤ 105 / 100 := by
    have := abs_le.mp factors
    exact abs_le.mpr ⟨by linarith, by linarith⟩
  calc |4 * a / b - 4 * a' / b * factor|
    _ = |(4 * a / b - 4 * a' / b) * factor - 4 * a / b * (factor - 1)| := by
      congr 1
      ring
    _ ≤ |4 * a / b - 4 * a' / b| * |factor| + |4 * a / b| * |factor - 1| := by
      rw [← abs_mul, ← abs_mul]
      exact abs_sub _ _
    _ ≤ 20 / 3 * unit * (105 / 100) + |4 * a / b| * (5 * unit) := by gcongr
    _ ≤ 10 * unit * (1 + |4 * a / b|) := by nlinarith [mul_nonneg nonneg (abs_nonneg (4 * a / b))]

/-! ## The computed count -/

theorem logb_ten_two : 3 / 10 ≤ Real.logb 10 2 ∧ Real.logb 10 2 ≤ 1 := by
  have ten : 0 < Real.log 10 := Real.log_pos (by norm_num)
  rw [Real.logb, le_div_iff₀ ten, div_le_one ten]
  refine ⟨?_, Real.log_le_log (by norm_num) (by norm_num)⟩
  have powers : Real.log (10 ^ 3) ≤ Real.log (2 ^ 10) := Real.log_le_log (by norm_num) (by norm_num)
  rw [Real.log_pow, Real.log_pow] at powers
  push_cast at powers
  linarith

theorem log_ten_ge : 204 / 100 ≤ Real.log 10 := by
  have powers : Real.log (2 ^ 3) ≤ Real.log 10 := Real.log_le_log (by norm_num) (by norm_num)
  rw [Real.log_pow] at powers
  push_cast at powers
  linarith [Real.log_two_gt_d9]

theorem exactCount_eq {x : ℝ} : exactCount x = 4 * Real.logb 10 (1 / x) / Real.logb 10 2 := by
  have two : Real.log 2 ≠ 0 := (Real.log_pos (by norm_num)).ne'
  have ten : Real.log 10 ≠ 0 := (Real.log_pos (by norm_num)).ne'
  rw [exactCount_def, Real.logb, Real.logb, Real.logb]
  field_simp

theorem abs_mul_factor {f : ℝ} (near : |f - 1| ≤ 1 / 100) (x : ℝ) :
    99 / 100 * |x| ≤ |x * f| ∧ |x * f| ≤ 101 / 100 * |x| := by
  have bounds := abs_le.mp near
  rw [abs_mul, abs_of_pos (by linarith : 0 < f)]
  constructor <;> nlinarith [abs_nonneg x]

theorem abs_logb_le {x : ℝ} {bound : Int} (low : 10 ^ (-bound) ≤ x) (high : x ≤ 10 ^ bound) :
    |Real.logb 10 x| ≤ bound := by
  have positive : 0 < x := (zpow_pos (by norm_num) _).trans_le low
  have ten : 0 < Real.log 10 := Real.log_pos (by norm_num)
  have below := Real.log_le_log (zpow_pos (by norm_num) _) low
  have above := Real.log_le_log positive high
  rw [Real.log_zpow] at below above
  rw [Real.logb, abs_le, le_div_iff₀ ten, div_le_iff₀ ten]
  push_cast at below
  exact ⟨below, above⟩

theorem inverse_bounds {x : ℝ} (low : 10 ^ leastPower ≤ x) (high : x ≤ 10 ^ greatestPower) :
    10 ^ leastPower ≤ 1 / x ∧ 1 / x ≤ 10 ^ greatestPower := by
  have positive : 0 < x := (zpow_pos (by norm_num) _).trans_le low
  constructor
  · rw [le_div_iff₀ positive, ← le_div_iff₀' (zpow_pos (by norm_num) _), one_div, ← zpow_neg]
    exact high
  · rw [div_le_iff₀ positive, ← div_le_iff₀' (zpow_pos (by norm_num) _), one_div, ← zpow_neg]
    exact low

/-- An inverse whose exponent is too large once it is rounded has no decimal. -/
theorem tGatesWith_of_large {tolerance : Decimal} {x y : ℝ} (denotes : tolerance.Denotes x)
    (positive : 0 < x) (rounds : RoundsTo (1 / x) y) (large : 10 ^ (greatestPower + 1) ≤ y) :
    tGatesWith Decimal.log10 tolerance = .error (.decimal .overflow) := by
  have divided := (Decimal.gives_div Decimal.one_denotes denotes positive.ne' rounds).overflow (by
    rw [Nat.cast_ofNat]
    exact large.trans (le_abs_self _))
  rw [tGatesWith, divided]
  rfl

/-- The inverse of a tolerance below all normal exponents overflows. -/
theorem tGatesWith_overflow {tolerance : Decimal} {x : ℝ} (denotes : tolerance.Denotes x)
    (positive : 0 < x) (tiny : x ≤ 10 ^ (leastPower - 1)) :
    tGatesWith Decimal.log10 tolerance = .error (.decimal .overflow) := by
  obtain ⟨inverse, rounds⟩ := RoundsTo.exists_of (1 / x)
  refine tGatesWith_of_large denotes positive rounds ((RoundsTo.of_pow (by decide)).le rounds ?_)
  rw [le_div_iff₀ positive, ← le_div_iff₀' (zpow_pos (by norm_num) _), one_div, ← zpow_neg]
  exact tiny

theorem abs_logb_mul_sub_le {y f unit : ℝ} (positive : 0 < y) (near : |f - 1| ≤ unit)
    (small : unit ≤ 1 / 100) : |Real.logb 10 (y * f) - Real.logb 10 y| ≤ unit / 2 := by
  have factor : f ≠ 0 := by
    rintro rfl
    rw [zero_sub, abs_neg, abs_one] at near
    linarith
  have ten := log_ten_ge
  rw [Real.logb_mul positive.ne' factor, add_sub_cancel_left, Real.logb, abs_div,
    abs_of_pos (by linarith : 0 < Real.log 10), div_le_iff₀ (by linarith)]
  have := abs_log_le near small
  nlinarith [abs_nonneg (f - 1)]

/-- The logarithm of a rounded number leaves room on both sides for small factors. -/
theorem inRange_of_logb {x y z : ℝ} (rounds : RoundsTo x y) (positive : 0 < y)
    (small : |Real.logb 10 y| ≤ 10 ^ 7) (above : |Real.logb 10 y| ≤ |z|)
    (below : |z| ≤ 100 * |Real.logb 10 y|) : InRange z := by
  obtain ⟨coefficient, power, short, isShort⟩ := rounds.exists_short
  rw [abs_of_pos positive] at isShort
  by_cases one : y = 1
  · rw [one, Real.logb_one, abs_zero, mul_zero] at below
    exact .inl (abs_nonpos_iff.mp below)
  · have some : 0 < coefficient := by
      refine Nat.pos_of_ne_zero fun none => positive.ne' ?_
      rw [isShort, none, Nat.cast_zero, zero_mul]
    have least := Decimal.le_abs_logb some short power (isShort ▸ one)
    rw [← isShort] at least
    refine .inr ⟨?_, ?_⟩
    · calc (10 : ℝ) ^ leastPower
        _ ≤ 10 ^ (-(2 + precision : Nat) : Int) := zpow_le_zpow_right₀ (by norm_num) (by decide)
        _ = 1 / (100 * 10 ^ precision) := by
          rw [zpow_neg, zpow_natCast, pow_add, one_div]
          norm_num
        _ ≤ |z| := least.trans above
    · calc |z|
        _ ≤ 100 * 10 ^ 7 := below.trans (by gcongr)
        _ ≤ 10 ^ (9 : Int) := by norm_num
        _ ≤ 10 ^ greatestPower := zpow_le_zpow_right₀ (by norm_num) (by decide)

/-- The logarithm of the rounded inverse: that of the exact inverse, slightly moved, times a factor. -/
theorem inverse_log10 {tolerance : Decimal} {x : ℝ} (denotes : tolerance.Denotes x)
    (low : 10 ^ leastPower ≤ x) (high : x ≤ 10 ^ greatestPower) :
    ∃ inverse logarithm a f, Decimal.one.div tolerance = .ok inverse ∧
      inverse.log10 = .ok logarithm ∧ logarithm.Denotes (a * f) ∧ |f - 1| ≤ 2 * roundoff ∧
      |a - Real.logb 10 (1 / x)| ≤ 2 * roundoff / 2 ∧
      ∀ z, |a| ≤ |z| → |z| ≤ 100 * |a| → InRange z := by
  have positive : 0 < x := (zpow_pos (by norm_num) _).trans_le low
  have small := roundoff_le
  obtain ⟨inverseLow, inverseHigh⟩ := inverse_bounds low high
  have inversePos : 0 < 1 / x := one_div_pos.mpr positive
  have range : InRange (1 / x) := by
    rw [InRange, abs_of_pos inversePos, Nat.cast_ofNat]
    exact .inr ⟨inverseLow, inverseHigh⟩
  obtain ⟨y, rounds⟩ := RoundsTo.exists_of (1 / x)
  obtain ⟨inverse, divided, isInverse⟩ :=
    (Decimal.gives_div Decimal.one_denotes denotes positive.ne' rounds).value (by
      rw [Nat.cast_ofNat]
      exact range.abs_lt rounds)
  obtain ⟨e, isFactor, inverseNear⟩ := (range.near rounds).exists_factor
  have moved := abs_logb_mul_sub_le inversePos inverseNear small
  rw [← isFactor] at moved
  have yPos : 0 < y := by
    rw [isFactor]
    exact mul_pos inversePos (by linarith [(abs_le.mp inverseNear).1])
  have size : |Real.logb 10 y| ≤ 10 ^ 7 := by
    have exact' : |Real.logb 10 (1 / x)| ≤ 999999 := by
      rw [one_div, Real.logb_inv, abs_neg]
      exact_mod_cast abs_logb_le low high
    have triangle := abs_sub_abs_le_abs_sub (Real.logb 10 y) (Real.logb 10 (1 / x))
    linarith
  obtain ⟨logarithm, l, found, isLog, near⟩ := Decimal.log10_near isInverse yPos
  obtain ⟨f, rfl, factorNear⟩ := near.exists_factor
  exact ⟨_, logarithm, _, f, divided, found, isLog, factorNear, moved,
    fun z => inRange_of_logb rounds yPos size⟩

/-- The count is the ceiling of a number close to the exact quotient. -/
theorem tGatesWith_eq {tolerance : Decimal} {x : ℝ} (denotes : tolerance.Denotes x)
    (low : 10 ^ leastPower ≤ x) (high : x ≤ 10 ^ greatestPower) :
    ∃ q : ℝ, tGatesWith Decimal.log10 tolerance = .ok ⌈q⌉ ∧ |exactCount x - q| ≤ slack x := by
  have small := roundoff_le
  have fourDenotes : (Decimal.ofInt 4).Denotes 4 := by exact_mod_cast Decimal.ofInt_denotes 4
  have twoDenotes : (Decimal.ofInt 2).Denotes 2 := by exact_mod_cast Decimal.ofInt_denotes 2
  obtain ⟨inverse, logarithm, a, f, divided, logFound, isLog, fNear, moved, inRange⟩ :=
    inverse_log10 denotes low high
  have aNonneg := abs_nonneg a
  obtain ⟨fLow, fHigh⟩ := abs_mul_factor (fNear.trans small) a
  have fourTimes : |4 * (a * f)| = 4 * |a * f| := by
    rw [abs_mul, abs_of_pos (by norm_num : (0 : ℝ) < 4)]
  obtain ⟨scaled, s, scaledFound, isScaled, scaledNear⟩ :=
    Decimal.mul_near fourDenotes isLog (inRange _ (by linarith) (by linarith))
  obtain ⟨g, rfl, gNear⟩ := scaledNear.exists_factor
  obtain ⟨gLow, gHigh⟩ := abs_mul_factor (gNear.trans small) (4 * (a * f))
  obtain ⟨divisor, t, divisorFound, isDivisor, divisorNear⟩ := Decimal.log10_near twoDenotes two_pos
  obtain ⟨h, rfl, hNear⟩ := divisorNear.exists_factor
  obtain ⟨two, twoSmall⟩ := logb_ten_two
  obtain ⟨hLow, hHigh⟩ := abs_mul_factor (hNear.trans small) (Real.logb 10 2)
  rw [abs_of_pos (by linarith : 0 < Real.logb 10 2)] at hLow hHigh
  have divisorPos : 0 < |Real.logb 10 2 * h| := by linarith
  have atMost : |a| * |Real.logb 10 2 * h| ≤ |a| * 2 :=
    mul_le_mul_of_nonneg_left (by linarith) aNonneg
  have atLeast : |a| * (29 / 100) ≤ |a| * |Real.logb 10 2 * h| :=
    mul_le_mul_of_nonneg_left (by linarith) aNonneg
  obtain ⟨quotient, q, quotientFound, isQuotient, quotientNear⟩ :=
    Decimal.div_near isScaled isDivisor (abs_pos.mp divisorPos) (inRange _
      (by rw [abs_div, le_div_iff₀ divisorPos]; linarith)
      (by rw [abs_div, div_le_iff₀ divisorPos]; linarith))
  obtain ⟨k, rfl, kNear⟩ := quotientNear.exists_factor
  refine ⟨4 * (a * f) * g / (Real.logb 10 2 * h) * k, ?_, ?_⟩
  · simp only [tGatesWith, divided, logFound, scaledFound, divisorFound, quotientFound, signalled,
      Calc.ok_bind, Decimal.ceil?_eq isQuotient]
    rfl
  · have error := quotient_error small two moved fNear gNear hNear kNear
    rw [← exactCount_eq] at error
    refine error.trans_eq ?_
    rw [slack_def, Decimal.roundoff_eq, precision]
    ring

/-! ## The exact count -/

/-- The gates suffice for a tolerance if and only if they are no fewer than the exact quotient. -/
theorem one_le_iff {x : ℝ} (positive : 0 < x) (n : Int) :
    1 ≤ 2 ^ n * x ^ 4 ↔ exactCount x ≤ n := by
  have two : 0 < Real.log 2 := Real.log_pos (by norm_num)
  rw [← Real.log_nonneg_iff (by positivity), Real.log_mul (by positivity) (by positivity),
    Real.log_zpow, Real.log_pow, exactCount_def, Real.logb, one_div, Real.log_inv, ← mul_div_assoc,
    div_le_iff₀ two]
  push_cast
  constructor <;> intro <;> linarith

theorem isLeast_ceil {x : ℝ} (positive : 0 < x) :
    IsLeast {n : Int | 1 ≤ 2 ^ n * x ^ 4} ⌈exactCount x⌉ :=
  ⟨(one_le_iff positive _).mpr (Int.le_ceil _),
    fun n suffices' => Int.ceil_le.mpr ((one_le_iff positive n).mp suffices')⟩

theorem exactCount_two_zpow (k : Int) : exactCount (2 ^ k) = (-(4 * k) : Int) := by
  rw [exactCount_def, one_div, Real.logb_inv, Real.logb, Real.log_zpow,
    mul_div_cancel_right₀ _ (Real.log_pos (by norm_num)).ne']
  push_cast
  ring

theorem slack_lt_one {x : ℝ} (low : 10 ^ leastPower ≤ x) (high : x ≤ 10 ^ greatestPower) :
    slack x < 1 := by
  have two := logb_ten_two.1
  have size : |exactCount x| ≤ 10 ^ 8 := by
    rw [exactCount_eq, one_div, Real.logb_inv, abs_div, abs_mul, abs_neg,
      abs_of_pos (by linarith : 0 < Real.logb 10 2), abs_of_pos (by norm_num : (0 : ℝ) < 4),
      div_le_iff₀ (by linarith)]
    have size : |Real.logb 10 x| ≤ 999999 := by exact_mod_cast abs_logb_le low high
    linarith
  rw [slack_def, div_lt_one (by norm_num)]
  linarith

theorem abs_ceil_sub_ceil_le {v q : ℝ} (near : |v - q| < 1) : |⌈q⌉ - ⌈v⌉| ≤ 1 := by
  have close := abs_lt.mp near
  have above : ⌈q⌉ ≤ ⌈v⌉ + 1 := Int.ceil_le.mpr (by push_cast; linarith [Int.le_ceil v])
  have below : ⌈v⌉ ≤ ⌈q⌉ + 1 := Int.ceil_le.mpr (by push_cast; linarith [Int.le_ceil q])
  exact abs_le.mpr ⟨by omega, by omega⟩

/-- Where no integer is within the slack of the exact quotient, both ceilings are the same. -/
theorem ceil_eq_ceil {v q bound : ℝ} (near : |v - q| ≤ bound)
    (apart : ∀ m : Int, bound < |v - m|) : ⌈q⌉ = ⌈v⌉ := by
  have close := abs_le.mp near
  have least := Int.le_ceil v
  have less := Int.ceil_lt_add_one v
  apply le_antisymm
  · have above := apart ⌈v⌉
    rw [abs_of_nonpos (by linarith)] at above
    exact Int.ceil_le.mpr (by linarith)
  · have below := apart (⌈v⌉ - 1)
    push_cast at below
    rw [abs_of_pos (by linarith)] at below
    have reached : ⌈v⌉ - 1 < ⌈q⌉ := Int.lt_ceil.mpr (by push_cast; linarith)
    omega

/-! ## Doubles -/

/-- An integer and a power of two that is not that integer are half a unit apart. -/
theorem half_apart {n : Nat} (positive : 0 < n) {exponent : Int} (differ : (n : ℝ) ≠ 2 ^ exponent) :
    (2 : ℝ) ^ exponent ≤ n - 1 / 2 ∨ n + 1 / 2 ≤ (2 : ℝ) ^ exponent := by
  have n' : (1 : ℝ) ≤ n := by exact_mod_cast positive
  rcases lt_or_ge exponent 0 with fractional | nonneg
  · left
    calc (2 : ℝ) ^ exponent
      _ ≤ 2 ^ (-1 : Int) := zpow_le_zpow_right₀ (by norm_num) (by omega)
      _ ≤ n - 1 / 2 := by norm_num; linarith
  · obtain ⟨natural, rfl⟩ := Int.eq_ofNat_of_zero_le nonneg
    rw [zpow_natCast] at differ ⊢
    have differ' : n ≠ 2 ^ natural := by exact_mod_cast differ
    rcases lt_or_gt_of_ne differ' with less | more
    · right
      have step : (n : ℝ) + 1 ≤ 2 ^ natural := by exact_mod_cast less
      linarith
    · left
      have step : (2 : ℝ) ^ natural + 1 ≤ n := by exact_mod_cast more
      linarith

/-- The logarithms of an integer and of a power of two that is not that integer. -/
theorem le_abs_log_sub_log {n : Nat} (positive : 0 < n) {exponent : Int}
    (differ : (n : ℝ) ≠ 2 ^ exponent) :
    1 / (2 * n + 1) ≤ |Real.log (2 ^ exponent) - Real.log n| := by
  have n' : (1 : ℝ) ≤ n := by exact_mod_cast positive
  have power : (0 : ℝ) < 2 ^ exponent := zpow_pos (by norm_num) _
  have half := half_apart positive differ
  rw [← Real.log_div power.ne' (by positivity), le_abs]
  generalize (2 : ℝ) ^ exponent = m at *
  have whole : (1 : ℝ) - 1 / (2 * n + 1) = n / (n + 1 / 2) := by
    field_simp
    ring
  rcases half with less | more
  · have bound := Real.log_le_sub_one_of_pos (show 0 < m / n by positivity)
    have ratio : m / n ≤ 1 - 1 / (2 * n + 1) := by
      rw [whole, div_le_div_iff₀ (by linarith) (by linarith)]
      nlinarith
    exact .inr (by linarith)
  · have bound := Real.one_sub_inv_le_log_of_pos (show 0 < m / n by positivity)
    have ratio : (m / n)⁻¹ ≤ 1 - 1 / (2 * n + 1) := by
      rw [whole, inv_div]
      gcongr
    exact .inl (by linarith)

/-- The fourth power of a significand is no power of two if the double is none. -/
theorem pow_four_ne_two_zpow {significand : Nat} {power : Int} (positive : 0 < significand)
    (noPower : ∀ k : Int, (significand * 2 ^ power : ℝ) ≠ 2 ^ k) (exponent : Int) :
    ((significand ^ 4 : Nat) : ℝ) ≠ 2 ^ exponent := by
  intro same
  have nonneg : 0 ≤ exponent := by
    have least : (2 : ℝ) ^ (0 : Int) ≤ 2 ^ exponent := by
      rw [← same, zpow_zero]
      exact_mod_cast Nat.one_le_pow 4 _ positive
    exact (zpow_le_zpow_iff_right₀ (by norm_num)).mp least
  obtain ⟨natural, rfl⟩ := Int.eq_ofNat_of_zero_le nonneg
  rw [zpow_natCast] at same
  have same' : significand ^ 4 = 2 ^ natural := by exact_mod_cast same
  obtain ⟨root, -, isPower⟩ := (Nat.dvd_prime_pow Nat.prime_two).mp
    (same' ▸ dvd_pow_self significand (by decide : 4 ≠ 0))
  refine noPower (root + power) ?_
  rw [isPower, Nat.cast_pow, Nat.cast_ofNat, zpow_add₀ (by norm_num), zpow_natCast]

section Double

variable {significand : Nat} (positive : 0 < significand) {power : Int}

include positive

theorem exactCount_double : exactCount (significand * 2 ^ power) =
    -4 * (Real.log significand / Real.log 2 + power) := by
  have significand' : (significand : ℝ) ≠ 0 := by exact_mod_cast positive.ne'
  rw [exactCount_def, one_div, Real.logb_inv, Real.logb, Real.log_mul significand' (by positivity),
    Real.log_zpow, add_div, mul_div_cancel_right₀ _ (Real.log_pos (by norm_num)).ne']
  ring

theorem abs_exactCount_double_le (short : significand < 2 ^ 53) (powerLow : -1074 ≤ power)
    (powerHigh : power ≤ 971) : |exactCount (significand * 2 ^ power)| ≤ 4508 := by
  have two : 0 < Real.log 2 := Real.log_pos (by norm_num)
  have significand' : (0 : ℝ) < significand := by exact_mod_cast positive
  have powerLow' : (-1074 : ℝ) ≤ power := by exact_mod_cast powerLow
  have powerHigh' : (power : ℝ) ≤ 971 := by exact_mod_cast powerHigh
  have nonneg : 0 ≤ Real.log significand / Real.log 2 :=
    div_nonneg (Real.log_natCast_nonneg _) two.le
  have bits : Real.log significand / Real.log 2 ≤ 53 := by
    rw [div_le_iff₀ two]
    calc Real.log significand
      _ ≤ Real.log (2 ^ 53) := Real.log_le_log significand' (by exact_mod_cast short.le)
      _ = 53 * Real.log 2 := by rw [Real.log_pow]; norm_num
  rw [exactCount_double positive, abs_le]
  constructor <;> linarith

/-- The exact quotient of a double that is no power of two is farther from every integer than the
roundings can move it: the fourth power of the significand has at most 212 bits. -/
theorem slack_lt_of_double (short : significand < 2 ^ 53) (powerLow : -1074 ≤ power)
    (powerHigh : power ≤ 971) (noPower : ∀ k : Int, (significand * 2 ^ power : ℝ) ≠ 2 ^ k) (m : Int) :
    slack (significand * 2 ^ power) < |exactCount (significand * 2 ^ power) - m| := by
  have two : 0 < Real.log 2 := Real.log_pos (by norm_num)
  have size := abs_exactCount_double_le positive short powerLow powerHigh
  have apart := le_abs_log_sub_log (Nat.pow_pos positive)
    (pow_four_ne_two_zpow positive noPower (-(4 * power + m)))
  have distance : |exactCount (significand * 2 ^ power) - m| * Real.log 2 =
      |Real.log (2 ^ (-(4 * power + m))) - Real.log ((significand ^ 4 : Nat) : ℝ)| := by
    rw [exactCount_double positive, ← abs_of_pos two, ← abs_mul, abs_of_pos two, Nat.cast_pow,
      Real.log_pow, Real.log_zpow]
    congr 1
    push_cast
    field_simp
    ring
  have fourth : ((significand ^ 4 : Nat) : ℝ) ≤ 2 ^ 212 := by
    have : significand ^ 4 ≤ (2 ^ 53) ^ 4 := Nat.pow_le_pow_left short.le 4
    exact_mod_cast this
  have least : (1 : ℝ) / (2 * 2 ^ 212 + 1) ≤ |exactCount (significand * 2 ^ power) - m| := by
    calc (1 : ℝ) / (2 * 2 ^ 212 + 1)
      _ ≤ 1 / (2 * (significand ^ 4 : Nat) + 1) := by gcongr
      _ ≤ |exactCount (significand * 2 ^ power) - m| * Real.log 2 := distance ▸ apart
      _ ≤ |exactCount (significand * 2 ^ power) - m| * 1 := by
        gcongr
        linarith [Real.log_two_lt_d9]
      _ = |exactCount (significand * 2 ^ power) - m| := mul_one _
  refine lt_of_lt_of_le ?_ least
  calc slack (significand * 2 ^ power)
    _ ≤ (1 + 4508) / 10 ^ 98 := by
      rw [slack_def]
      gcongr
    _ < 1 / (2 * 2 ^ 212 + 1) := by norm_num

end Double

end Synthesis

/-! ## Tolerances -/

/-- The number that an integer, a finite double or a finite decimal stands for. -/
def Scalar.Denotes : Scalar → ℝ → Prop
  | .whole n, x => x = n
  | .real value, x => ∃ negative significand power,
      Binary64.parts value = .finite negative significand power ∧
        x = Decimal.signed negative (significand * ((2 : Nat) : ℝ) ^ power)
  | .decimal value, x => value.Denotes x
  | _, _ => False

theorem Scalar.Denotes.toDecimal {scalar : Scalar} {x : ℝ} (denotes : scalar.Denotes x) :
    ∃ value, scalar.toDecimal = .ok (.decimal value) ∧ value.Denotes x := by
  cases scalar with
  | whole n => exact ⟨_, rfl, denotes ▸ Decimal.ofInt_denotes n⟩
  | real value =>
    obtain ⟨negative, significand, power, parts, rfl⟩ := denotes
    exact ⟨_, rfl, Decimal.ofFloat_denotes parts⟩
  | decimal value => exact ⟨value, rfl, denotes⟩
  | flag => exact denotes.elim
  | complex => exact denotes.elim
  | text => exact denotes.elim
  | unset => exact denotes.elim

namespace Synthesis

/-! ## Counts -/

theorem signalled_eq_ok {β : Type} {result : Except DecimalSignal β} {value : β} :
    signalled result = .ok value ↔ result = .ok value := by
  cases result <;> simp [signalled]

/-- Any logarithm that is right where it has a value gives the right count. -/
theorem tGatesWith_of_agrees {log10 : Decimal → Except DecimalSignal Decimal} {tolerance : Decimal}
    {count : Int} (agrees : ∀ a logarithm, log10 a = .ok logarithm → a.log10 = .ok logarithm)
    (computed : tGatesWith log10 tolerance = .ok count) :
    tGatesWith Decimal.log10 tolerance = .ok count := by
  obtain ⟨inverse, divided, computed⟩ := Calc.bind_eq_ok.mp computed
  obtain ⟨exponent, first, computed⟩ := Calc.bind_eq_ok.mp computed
  obtain ⟨scaled, multiplied, computed⟩ := Calc.bind_eq_ok.mp computed
  obtain ⟨two, second, computed⟩ := Calc.bind_eq_ok.mp computed
  have first' := signalled_eq_ok.mpr (agrees _ _ (signalled_eq_ok.mp first))
  have second' := signalled_eq_ok.mpr (agrees _ _ (signalled_eq_ok.mp second))
  rw [tGatesWith, divided, Calc.ok_bind, first', Calc.ok_bind, multiplied, Calc.ok_bind, second',
    Calc.ok_bind]
  exact computed

theorem tGatesPerRotation_of_atOnce {value : Float} {count : Int}
    (counted : (tGatesWith Decimal.log10AtOnce (Decimal.ofFloat value)).toOption = some count) :
    tGatesPerRotation (.real value) = .ok count := by
  cases computed : tGatesWith Decimal.log10AtOnce (Decimal.ofFloat value) with
  | error failure =>
    rw [computed] at counted
    cases counted
  | ok found =>
    rw [computed] at counted
    cases counted
    exact tGatesWith_of_agrees (fun _ _ => Decimal.log10_of_atOnce) computed

/-- A positive double has a significand and a power. -/
theorem real_denotes {value : Float} {x : ℝ} (denotes : (Scalar.real value).Denotes x)
    (positive : 0 < x) : ∃ (significand : Nat) (power : Int), 0 < significand ∧
      significand < 2 ^ 53 ∧ -1074 ≤ power ∧ power ≤ 971 ∧ x = significand * 2 ^ power := by
  obtain ⟨negative, significand, power, parts, rfl⟩ := denotes
  obtain ⟨short, low, high⟩ := Binary64.parts_bounds parts
  have size : (0 : ℝ) ≤ significand * 2 ^ power := by positivity
  cases negative with
  | true => exact absurd positive (not_lt.mpr (neg_nonpos.mpr size))
  | false =>
    refine ⟨significand, power, Nat.pos_of_ne_zero fun zero => positive.ne' ?_, short, low, high, rfl⟩
    rw [zero, Nat.cast_zero, zero_mul, Decimal.signed_zero]

/-- In the range of normal exponents the count misses the least sufficient one by one gate at most.
It is the least one unless the exact quotient is within the slack of an integer; for a double, unless
the double is a power of two, and then it is not too small. Below the range there is no count. -/
theorem rotation_count_near_least (tolerance : Scalar) {x : ℝ} (isTolerance : tolerance.Denotes x)
    (positive : 0 < x) :
    (x ≤ 10 ^ (leastPower - 1) → tGatesPerRotation tolerance = .error (.decimal .overflow)) ∧
    (10 ^ leastPower ≤ x → x ≤ 10 ^ greatestPower →
      ∃ count least : Int, tGatesPerRotation tolerance = .ok count ∧
        IsLeast {n : Int | 1 ≤ 2 ^ n * x ^ 4} least ∧ |count - least| ≤ 1 ∧
        ((∀ m : Int, slack x < |exactCount x - m|) → count = least) ∧
        (∀ value, tolerance = .real value → (∀ k : Int, x ≠ 2 ^ k) → count = least) ∧
        (∀ k : Int, x = 2 ^ k → least ≤ count)) := by
  obtain ⟨converted, isConverted, denotes⟩ := isTolerance.toDecimal
  have opened : tGatesPerRotation tolerance = tGatesWith Decimal.log10 converted := by
    rw [tGatesPerRotation, isConverted]
    rfl
  rw [opened]
  refine ⟨tGatesWith_overflow denotes positive, fun low high => ?_⟩
  obtain ⟨q, computed, near⟩ := tGatesWith_eq denotes low high
  have less := slack_lt_one low high
  refine ⟨⌈q⌉, ⌈exactCount x⌉, computed, isLeast_ceil positive, abs_ceil_sub_ceil_le (near.trans_lt less),
    ceil_eq_ceil near, ?_, ?_⟩
  · rintro value rfl noPower
    obtain ⟨significand, power, some, short, powerLow, powerHigh, rfl⟩ :=
      real_denotes isTolerance positive
    exact ceil_eq_ceil near (slack_lt_of_double some short powerLow powerHigh noPower)
  · rintro k rfl
    rw [exactCount_two_zpow] at near ⊢
    rw [Int.ceil_intCast]
    have reached : -(4 * k) - 1 < ⌈q⌉ := by
      refine Int.lt_ceil.mpr ?_
      push_cast at near ⊢
      linarith [(abs_le.mp near).2]
    omega

/-- The double nearest to a thousandth is no power of two, so its count is exact. -/
theorem rotation_count_thousandth :
    let x : ℝ := (4611686018427388 : Nat) * 2 ^ (-62 : Int)
    (Scalar.real 0.001).Denotes x ∧ tGatesPerRotation (.real 0.001) = .ok 40 ∧
      IsLeast {n : Int | 1 ≤ 2 ^ n * x ^ 4} 40 := by
  intro x
  have denotes : (Scalar.real 0.001).Denotes x :=
    ⟨false, 4611686018427388, -62, by decide +kernel, rfl⟩
  have positive : 0 < x := by positivity
  have low : 10 ^ leastPower ≤ x := by
    calc (10 : ℝ) ^ leastPower
      _ ≤ 10 ^ (-4 : Int) := zpow_le_zpow_right₀ (by norm_num) (by decide)
      _ ≤ x := by norm_num [x]
  have high : x ≤ 10 ^ greatestPower := by
    calc x
      _ ≤ 10 ^ (0 : Int) := by norm_num [x]
      _ ≤ 10 ^ greatestPower := zpow_le_zpow_right₀ (by norm_num) (by decide)
  have noPower : ∀ k : Int, x ≠ 2 ^ k := by
    intro k same
    have above : (2 : ℝ) ^ (-10 : Int) < 2 ^ k := by norm_num [← same, x]
    have below : (2 : ℝ) ^ k < 2 ^ (-9 : Int) := by norm_num [← same, x]
    have := (zpow_lt_zpow_iff_right₀ (by norm_num)).mp above
    have := (zpow_lt_zpow_iff_right₀ (by norm_num)).mp below
    omega
  have exact' : IsLeast {n : Int | 1 ≤ 2 ^ n * x ^ 4} 40 := by
    constructor
    · show (1 : ℝ) ≤ 2 ^ (40 : Int) * x ^ 4
      norm_num [x]
    · intro n suffices'
      by_contra fewer
      have : (2 : ℝ) ^ n * x ^ 4 ≤ 2 ^ (39 : Int) * x ^ 4 := by
        gcongr
        · norm_num
        · omega
      have : (2 : ℝ) ^ (39 : Int) * x ^ 4 < 1 := by norm_num [x]
      have : 1 ≤ 2 ^ n * x ^ 4 := suffices'
      linarith
  obtain ⟨count, least, computed, isLeast, -, -, isExact, -⟩ :=
    (rotation_count_near_least (.real 0.001) denotes positive).2 low high
  rw [computed, isExact 0.001 rfl noPower, isLeast.unique exact']
  exact ⟨denotes, rfl, exact'⟩

/-- For the eleventh power of one half 44 gates suffice, but 45 are counted: the quotient of the
rounded logarithms exceeds the integer. -/
theorem rotation_count_exceeds_least :
    (Scalar.real 0.00048828125).Denotes (2 ^ (-11 : Int)) ∧
      IsLeast {n : Int | 1 ≤ 2 ^ n * ((2 : ℝ) ^ (-11 : Int)) ^ 4} 44 ∧
      tGatesPerRotation (.real 0.00048828125) = .ok 45 := by
  refine ⟨⟨false, 2 ^ 52, -63, by decide +kernel, ?_⟩, ?_, ?_⟩
  · norm_num [Decimal.signed]
  · have integral : exactCount (2 ^ (-11 : Int)) = (44 : Int) := by
      rw [exactCount_two_zpow]
      norm_num
    have least := isLeast_ceil (zpow_pos (two_pos : (0 : ℝ) < 2) (-11))
    rwa [integral, Int.ceil_intCast] at least
  · exact tGatesPerRotation_of_atOnce (by decide +kernel)

end Synthesis

end QuantumResources
