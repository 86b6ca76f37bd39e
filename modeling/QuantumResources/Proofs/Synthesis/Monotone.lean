import QuantumResources.Proofs.Synthesis

/-! A tighter tolerance needs no fewer T gates.

Every step of the quotient is rounded, and rounding keeps the order of numbers, whatever their sizes.
So the counts of two tolerances are in the opposite order of the tolerances, as long as the inverse of
neither leaves the range of exponents: too large an inverse overflows, and one that is rounded to zero
has an infinite logarithm. -/

namespace QuantumResources

/-! ## Ends of the range -/

namespace Decimal

/-- From here on numbers are rounded to a power of ten above the greatest exponent. -/
noncomputable def overflowBound : ℝ :=
  (((10 : Nat) : ℝ) ^ precision - 1 / (2 : Nat)) * ((10 : Nat) : ℝ) ^ (greatestPower - precision + 1)

/-- Up to here positive numbers are rounded to zero. -/
noncomputable def underflowBound : ℝ := ((10 : Nat) : ℝ) ^ lowestPower / (2 : Nat)

theorem overflowBound_def :
    overflowBound = (10 ^ precision - 1 / 2) * 10 ^ (greatestPower - precision + 1) := by
  rw [overflowBound, Nat.cast_ofNat, Nat.cast_ofNat]

theorem underflowBound_def : underflowBound = 10 ^ lowestPower / 2 := by
  rw [underflowBound, Nat.cast_ofNat, Nat.cast_ofNat]

theorem pow_greatestPower :
    (10 : ℝ) ^ (greatestPower + 1) = 10 ^ precision * 10 ^ (greatestPower - precision + 1) := by
  rw [← zpow_natCast, ← zpow_add₀ (by norm_num)]
  congr 1

theorem overflowBound_add :
    overflowBound + 10 ^ (greatestPower - precision + 1) / 2 = 10 ^ (greatestPower + 1) := by
  rw [overflowBound_def, pow_greatestPower]
  ring

theorem pow_greatestPower_lt : 10 ^ greatestPower < overflowBound := by
  have tenth : (10 : ℝ) ^ greatestPower = 10 ^ (greatestPower + 1) / 10 := by
    rw [zpow_add_one₀ (by norm_num), mul_div_cancel_right₀ _ (by norm_num)]
  have one : (1 : ℝ) ≤ 10 ^ precision := one_le_pow₀ (by norm_num)
  have unit : (0 : ℝ) < 10 ^ (greatestPower - precision + 1) := zpow_pos (by norm_num) _
  rw [tenth, pow_greatestPower, overflowBound_def]
  nlinarith

theorem lastPlace_overflowBound : lastPlace overflowBound = greatestPower - precision + 1 := by
  have positive : 0 < overflowBound := (zpow_pos (by norm_num) _).trans pow_greatestPower_lt
  have unit : (0 : ℝ) < 10 ^ (greatestPower - precision + 1) := zpow_pos (by norm_num) _
  have high : overflowBound < 10 ^ (greatestPower + 1) := by linarith [overflowBound_add]
  have leading : Int.log 10 overflowBound = greatestPower := by
    have above := (Int.zpow_le_iff_le_log (b := 10) (by norm_num) positive).mp
      (by rw [Nat.cast_ofNat]; exact pow_greatestPower_lt.le)
    have below := (Int.lt_zpow_iff_log_lt (b := 10) (by norm_num) positive).mp
      (by rwa [Nat.cast_ofNat])
    omega
  rw [lastPlace, abs_of_pos positive, leading]
  exact max_eq_left (by decide)

/-- The tie goes to the power of ten, which is even. -/
theorem overflowBound_roundsTo : RoundsTo overflowBound (10 ^ (greatestPower + 1)) := by
  rw [RoundsTo, lastPlace_overflowBound]
  have even : Even ((10 : Int) ^ precision) := (by decide : Even (10 : Int)).pow_of_ne_zero (by decide)
  refine ⟨10 ^ precision, ?_, ?_⟩
  · have nearest := Rounding.IsNearest.half_below even
    rw [overflowBound_def, Nat.cast_ofNat, mul_div_cancel_right₀ _ (zpow_pos (by norm_num) _).ne']
    push_cast at nearest
    exact nearest
  · rw [pow_greatestPower, Nat.cast_ofNat]
    push_cast
    rfl

namespace RoundsTo

variable {x z : ℝ}

theorem overflow_iff (rounds : RoundsTo x z) (positive : 0 < x) :
    10 ^ (greatestPower + 1) ≤ z ↔ overflowBound ≤ x := by
  refine ⟨fun large => ?_, overflowBound_roundsTo.le rounds⟩
  by_contra below
  have order := (not_le.mp below).le
  -- The numbers just below the bound are rounded at the same place.
  have isPower : z = 10 ^ (greatestPower + 1) :=
    le_antisymm (rounds.le overflowBound_roundsTo order) large
  have place : lastPlace x ≤ greatestPower - precision + 1 :=
    lastPlace_overflowBound ▸ lastPlace_mono positive order
  have unit : (10 : ℝ) ^ lastPlace x ≤ 10 ^ (greatestPower - precision + 1) :=
    zpow_le_zpow_right₀ (by norm_num) place
  have near := (abs_le.mp (Rounding.RoundsAt.near rounds)).1
  linarith [overflowBound_add]

theorem eq_zero_iff (rounds : RoundsTo x z) (positive : 0 < x) : z = 0 ↔ x ≤ underflowBound := by
  have zero := Rounding.RoundsAt.eq_zero_iff rounds positive.le
  rw [zero, underflowBound_def]
  have least : lowestPower ≤ lastPlace x := le_max_right _ _
  rcases least.eq_or_lt with lowest | above
  · rw [← lowest]
  · -- A number that keeps all its digits is above both halves.
    have leading : lastPlace x = Int.log 10 x - precision + 1 := by
      rw [lastPlace, abs_of_pos positive] at above ⊢
      exact max_eq_left ((lt_max_iff.mp above).resolve_right (lt_irrefl _)).le
    have low := Int.zpow_log_le_self (b := 10) (by norm_num) positive
    rw [Nat.cast_ofNat] at low
    have digits : (1 : Int) ≤ precision := by decide
    have large : (10 : ℝ) ^ lastPlace x ≤ x :=
      (zpow_le_zpow_right₀ (by norm_num) (by omega)).trans low
    have larger : (10 : ℝ) ^ lowestPower < 10 ^ lastPlace x :=
      zpow_lt_zpow_right₀ (by norm_num) above
    have unit : (0 : ℝ) < 10 ^ lowestPower := zpow_pos (by norm_num) _
    constructor <;> intro <;> linarith

theorem pow_le_of_pos (rounds : RoundsTo x z) (positive : 0 < z) : 10 ^ lowestPower ≤ z := by
  obtain ⟨n, -, rfl⟩ := rounds
  rw [Nat.cast_ofNat] at positive ⊢
  have unit : (0 : ℝ) < 10 ^ lastPlace x := zpow_pos (by norm_num) _
  have some : (0 : ℝ) < n := (pos_iff_pos_of_mul_pos positive).mpr unit
  have one : (1 : ℝ) ≤ n := by exact_mod_cast some
  calc (10 : ℝ) ^ lowestPower
    _ ≤ 10 ^ lastPlace x := zpow_le_zpow_right₀ (by norm_num) (le_max_right _ _)
    _ ≤ n * 10 ^ lastPlace x := le_mul_of_one_le_left unit.le one

end RoundsTo

theorem Gives.exists_value {result : Except DecimalSignal Decimal} {z : ℝ} (gives : Gives result z)
    {power : Int} (range : power ≤ greatestPower) (high : |z| ≤ 10 ^ power) :
    ∃ a, result = .ok a ∧ a.Denotes z := by
  refine gives.value (high.trans_lt ?_)
  rw [Nat.cast_ofNat]
  exact zpow_lt_zpow_right₀ (by norm_num) (by omega)

end Decimal

namespace Synthesis

open Decimal (RoundsTo InRange greatestPower leastPower overflowBound underflowBound)

/-! ## The rounded quotient -/

/-- The quotient of the logarithms of an inverse tolerance and of two, each step rounded. -/
def RoundedCount (inverse quotient : ℝ) : Prop :=
  ∃ logarithm scaled divisor, RoundsTo (Real.logb (10 : Nat) inverse) logarithm ∧
    RoundsTo ((4 : Nat) * logarithm) scaled ∧ RoundsTo (Real.logb (10 : Nat) (2 : Nat)) divisor ∧
    RoundsTo (scaled / divisor) quotient

theorem tenth_le_divisor {divisor : ℝ} (rounds : RoundsTo (Real.logb 10 2) divisor) :
    1 / 10 ≤ divisor := by
  have tenth : RoundsTo (10 ^ (-1 : Int)) (10 ^ (-1 : Int)) := .of_pow (by decide)
  have low := tenth.le rounds (by norm_num; linarith [logb_ten_two.1])
  norm_num at low
  linarith

/-- Every step keeps the order. -/
theorem RoundedCount.le {x y p q : ℝ} (first : RoundedCount x p) (second : RoundedCount y q)
    (positive : 0 < x) (order : x ≤ y) : p ≤ q := by
  obtain ⟨l, s, t, logarithm, scaled, divisor, quotient⟩ := first
  obtain ⟨l', s', t', logarithm', scaled', divisor', quotient'⟩ := second
  rw [Nat.cast_ofNat] at logarithm logarithm' scaled scaled' divisor
  rw [Nat.cast_ofNat] at divisor
  have logarithms : l ≤ l' :=
    logarithm.le logarithm' (Real.logb_le_logb_of_le (by norm_num) positive order)
  have products : s ≤ s' := scaled.le scaled' (by linarith)
  have low := tenth_le_divisor divisor
  refine quotient.le quotient' ?_
  rw [divisor'.unique (by exact_mod_cast divisor)]
  exact div_le_div_of_nonneg_right products (by linarith)

theorem log10_two_rounded {t : ℝ} (rounds : RoundsTo (Real.logb 10 2) t) :
    ∃ divisor, (Decimal.ofInt 2).log10 = .ok divisor ∧ divisor.Denotes t := by
  have twoDenotes : (Decimal.ofInt 2).Denotes 2 := by exact_mod_cast Decimal.ofInt_denotes 2
  obtain ⟨low, high⟩ := logb_ten_two
  have size : |Real.logb 10 2| = Real.logb 10 2 := abs_of_pos (by linarith)
  have range : InRange (Real.logb 10 2) := by
    rw [InRange, size, Nat.cast_ofNat]
    refine .inr ⟨?_, high.trans (one_le_zpow₀ (by norm_num) (by decide))⟩
    calc (10 : ℝ) ^ leastPower
      _ ≤ 10 ^ (-1 : Int) := zpow_le_zpow_right₀ (by norm_num) (by decide)
      _ ≤ Real.logb 10 2 := by norm_num; linarith
  refine Decimal.log10_roundsTo twoDenotes two_pos range ?_ rounds
  rw [size]
  exact high.trans_lt (one_lt_pow₀ (by norm_num) (by decide))

section Inverse

variable {tolerance : Decimal} {x y : ℝ} (denotes : tolerance.Denotes x) (positive : 0 < x)
  (rounds : RoundsTo (1 / x) y)

include denotes positive rounds

/-- The logarithm of an inverse in the range is rounded, and has few digits before the point. -/
theorem inverse_log10_rounded (yPos : 0 < y) (fits : y < 10 ^ (greatestPower + 1)) :
    ∃ inverse logarithm l, Decimal.one.div tolerance = .ok inverse ∧
      inverse.log10 = .ok logarithm ∧ logarithm.Denotes l ∧ RoundsTo (Real.logb 10 y) l ∧
      |l| ≤ 10 ^ (7 : Int) := by
  obtain ⟨inverse, divided, isInverse⟩ :=
    (Decimal.gives_div Decimal.one_denotes denotes positive.ne' rounds).value (by
      rwa [Nat.cast_ofNat, abs_of_pos yPos])
  have size : |Real.logb 10 y| ≤ 10 ^ 7 := by
    have bound : |Real.logb 10 y| ≤ (10 ^ 7 : Int) := by
      refine abs_logb_le ?_ ?_
      · exact (zpow_le_zpow_right₀ (by norm_num) (by decide)).trans (rounds.pow_le_of_pos yPos)
      · exact fits.le.trans (zpow_le_zpow_right₀ (by norm_num) (by decide))
    exact_mod_cast bound
  have range : InRange (Real.logb 10 y) :=
    inRange_of_logb rounds yPos size le_rfl (by linarith [abs_nonneg (Real.logb 10 y)])
  obtain ⟨l, logRounds⟩ := RoundsTo.exists_of (Real.logb 10 y)
  obtain ⟨logarithm, found, isLog⟩ := Decimal.log10_roundsTo isInverse yPos range
    (size.trans_lt (pow_lt_pow_right₀ (by norm_num) (by decide))) logRounds
  exact ⟨inverse, logarithm, l, divided, found, isLog, logRounds,
    logRounds.abs_le_pow (by decide) (by exact_mod_cast size)⟩

/-- An inverse in the range has a count, the ceiling of the rounded quotient. -/
theorem tGatesWith_rounded (yPos : 0 < y) (fits : y < 10 ^ (greatestPower + 1)) :
    ∃ q, RoundedCount y q ∧ tGatesWith Decimal.log10 tolerance = .ok ⌈q⌉ := by
  have fourDenotes : (Decimal.ofInt 4).Denotes 4 := by exact_mod_cast Decimal.ofInt_denotes 4
  obtain ⟨inverse, logarithm, l, divided, logFound, isLog, logRounds, lSize⟩ :=
    inverse_log10_rounded denotes positive rounds yPos fits
  obtain ⟨s, scaledRounds⟩ := RoundsTo.exists_of (4 * l)
  have sSize : |s| ≤ 10 ^ (8 : Int) := by
    refine scaledRounds.abs_le_pow (by decide) ?_
    rw [abs_mul, abs_of_pos (by norm_num : (0 : ℝ) < 4)]
    norm_num at lSize ⊢
    linarith
  obtain ⟨scaled, scaledFound, isScaled⟩ :=
    (Decimal.gives_mul fourDenotes isLog scaledRounds).exists_value (by decide) sSize
  obtain ⟨t, divisorRounds⟩ := RoundsTo.exists_of (Real.logb 10 2)
  obtain ⟨divisor, divisorFound, isDivisor⟩ := log10_two_rounded divisorRounds
  have tenth := tenth_le_divisor divisorRounds
  have tPos : 0 < t := by linarith
  obtain ⟨q, quotientRounds⟩ := RoundsTo.exists_of (s / t)
  have qSize : |q| ≤ 10 ^ (9 : Int) := by
    refine quotientRounds.abs_le_pow (by decide) ?_
    rw [abs_div, abs_of_pos tPos, div_le_iff₀ tPos]
    norm_num at sSize ⊢
    linarith
  obtain ⟨quotient, quotientFound, isQuotient⟩ :=
    (Decimal.gives_div isScaled isDivisor tPos.ne' quotientRounds).exists_value (by decide) qSize
  refine ⟨q, ⟨l, s, t, ?_, ?_, ?_, quotientRounds⟩, ?_⟩
  · exact_mod_cast logRounds
  · exact_mod_cast scaledRounds
  · exact_mod_cast divisorRounds
  · simp only [tGatesWith, divided, logFound, scaledFound, divisorFound, quotientFound, signalled,
      Calc.ok_bind, Decimal.ceil?_eq isQuotient]
    rfl

/-- An inverse that is rounded to zero has an infinite logarithm. -/
theorem tGatesWith_of_zero (zero : y = 0) :
    tGatesWith Decimal.log10 tolerance = .error .outOfRange := by
  subst zero
  have twoDenotes : (Decimal.ofInt 2).Denotes 2 := by exact_mod_cast Decimal.ofInt_denotes 2
  obtain ⟨inverse, divided, isInverse⟩ :=
    (Decimal.gives_div Decimal.one_denotes denotes positive.ne' rounds).exists_value (le_refl _)
      (by rw [abs_zero]; exact (zpow_pos (by norm_num) _).le)
  obtain ⟨negative, coefficient, power, rfl, isZero⟩ := isInverse.exists_finite
  have none : coefficient = 0 := by
    have size := Decimal.abs_signed negative (show (0 : ℝ) ≤ coefficient * 10 ^ power by positivity)
    rw [← isZero, abs_zero, eq_comm, mul_eq_zero] at size
    exact_mod_cast size.resolve_right (zpow_pos (by norm_num) _).ne'
  obtain ⟨divisor, t, divisorFound, isDivisor, -⟩ := Decimal.log10_near twoDenotes two_pos
  obtain ⟨divisorNegative, digits, place, rfl, -⟩ := isDivisor.exists_finite
  have logFound : (Decimal.finite negative coefficient power).log10 = .ok (.infinite true) :=
    if_pos none
  simp only [tGatesWith, divided, logFound, divisorFound, signalled, Calc.ok_bind]
  rfl

end Inverse

theorem tGatesPerRotation_eq {tolerance : Scalar} {value : Decimal}
    (converted : tolerance.toDecimal = .ok (.decimal value)) :
    tGatesPerRotation tolerance = tGatesWith Decimal.log10 value := by
  rw [tGatesPerRotation, converted]
  rfl

/-- Of two tolerances the tighter one is said to need at least as many gates, if the inverses of both
stay in the range. -/
theorem rotation_count_antitone {first second : Scalar} {x y : ℝ} (isFirst : first.Denotes x)
    (isSecond : second.Denotes y) (positive : 0 < x) (order : x ≤ y) :
    (overflowBound ≤ 1 / x → tGatesPerRotation first = .error (.decimal .overflow)) ∧
    (1 / y ≤ underflowBound → tGatesPerRotation second = .error .outOfRange) ∧
    (1 / x < overflowBound → underflowBound < 1 / y →
      ∃ more fewer : Int, tGatesPerRotation first = .ok more ∧ tGatesPerRotation second = .ok fewer ∧
        fewer ≤ more) := by
  have positive' := positive.trans_le order
  obtain ⟨a, converted, denotes⟩ := isFirst.toDecimal
  obtain ⟨b, converted', denotes'⟩ := isSecond.toDecimal
  rw [tGatesPerRotation_eq converted, tGatesPerRotation_eq converted']
  obtain ⟨z, rounds⟩ := RoundsTo.exists_of (1 / x)
  obtain ⟨w, rounds'⟩ := RoundsTo.exists_of (1 / y)
  have overflow := rounds.overflow_iff (one_div_pos.mpr positive)
  have underflow := rounds'.eq_zero_iff (one_div_pos.mpr positive')
  refine ⟨fun large => tGatesWith_of_large denotes positive rounds (overflow.mpr large),
    fun small => tGatesWith_of_zero denotes' positive' rounds' (underflow.mpr small),
    fun below above => ?_⟩
  have fits : z < 10 ^ (greatestPower + 1) := not_le.mp (mt overflow.mp (not_le.mpr below))
  have some : 0 < w := (rounds'.nonneg (one_div_pos.mpr positive').le).lt_of_ne'
    (mt underflow.mp (not_le.mpr above))
  have inverses : w ≤ z := rounds'.le rounds (one_div_le_one_div_of_le positive order)
  obtain ⟨q, quotient, counted⟩ :=
    tGatesWith_rounded denotes positive rounds (some.trans_le inverses) fits
  obtain ⟨r, quotient', counted'⟩ :=
    tGatesWith_rounded denotes' positive' rounds' some (inverses.trans_lt fits)
  exact ⟨⌈q⌉, ⌈r⌉, counted, counted', Int.ceil_mono (quotient'.le quotient some inverses)⟩

/-- The least power of ten with a normal exponent is in the range. -/
theorem rotation_count_antitone_leastPower :
    let tight := Scalar.decimal (.finite false 1 leastPower)
    tight.Denotes (10 ^ leastPower) ∧ (Scalar.whole 1).Denotes 1 ∧
      ∃ more fewer : Int, tGatesPerRotation tight = .ok more ∧
        tGatesPerRotation (.whole 1) = .ok fewer ∧ fewer ≤ more := by
  intro tight
  have positive : (0 : ℝ) < 10 ^ leastPower := zpow_pos (by norm_num) _
  have isTight : tight.Denotes (10 ^ leastPower) := by
    show (10 : ℝ) ^ leastPower = Decimal.signed false _
    simp [Decimal.signed]
  have isOne : (Scalar.whole 1).Denotes 1 := by exact (Int.cast_one).symm
  have order : (10 : ℝ) ^ leastPower ≤ 1 := zpow_le_one_of_nonpos₀ (by norm_num) (by decide)
  refine ⟨isTight, isOne, (rotation_count_antitone isTight isOne positive order).2.2 ?_ ?_⟩
  · rw [one_div, ← zpow_neg]
    exact Decimal.pow_greatestPower_lt
  · rw [Decimal.underflowBound_def, div_one]
    have small : (10 : ℝ) ^ Decimal.lowestPower ≤ 1 :=
      zpow_le_one_of_nonpos₀ (by norm_num) (by decide)
    linarith

/-- One power of ten below, there is no count. -/
theorem rotation_count_overflows :
    (Scalar.decimal (.finite false 1 (-1000000))).Denotes (10 ^ (-1000000 : Int)) ∧
      tGatesPerRotation (.decimal (.finite false 1 (-1000000))) = .error (.decimal .overflow) := by
  have denotes : (Decimal.finite false 1 (-1000000)).Denotes (10 ^ (-1000000 : Int)) := by
    show (10 : ℝ) ^ (-1000000 : Int) = Decimal.signed false _
    simp [Decimal.signed]
  have tiny : (10 : ℝ) ^ (-1000000 : Int) ≤ 10 ^ (leastPower - 1) :=
    zpow_le_zpow_right₀ (by norm_num) (by decide)
  refine ⟨denotes, ?_⟩
  rw [tGatesPerRotation_eq rfl]
  exact tGatesWith_overflow denotes (zpow_pos (by norm_num) _) tiny

end Synthesis

end QuantumResources
