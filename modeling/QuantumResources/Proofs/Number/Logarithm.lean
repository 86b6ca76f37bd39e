import QuantumResources.Proofs.Number.Enclosure

/-! Logarithms of decimals.

The sum of the odd powers, with every quotient rounded down, stays below the series of the logarithm
and falls behind it by at most two units a term. So the logarithms are enclosed, and since the
decimal logarithm of a number that is no power of ten is irrational, it is rounded correctly. -/

namespace QuantumResources.Decimal

open QuantumResources.Rounding (IsRounding)

/-! ## The series -/

/-- What remains of half the logarithm of `(1 + w) / (1 - w)` after the first terms of its
series. -/
noncomputable def logTail (w : ℝ) (terms : Nat) : ℝ :=
  Real.log ((1 + w) / (1 - w)) / (2 : Nat) -
    ∑ i ∈ Finset.range terms, w ^ (2 * i + 1) / (2 * i + 1 : Nat)

theorem logTail_eq (w : ℝ) (terms : Nat) :
    logTail w terms = 1 / 2 * Real.log ((1 + w) / (1 - w)) -
      ∑ i ∈ Finset.range terms, w ^ (2 * i + 1) / (2 * i + 1) := by
  rw [logTail, div_eq_inv_mul, one_div]
  push_cast
  rfl

theorem logTail_zero (w : ℝ) : logTail w 0 = 1 / 2 * Real.log ((1 + w) / (1 - w)) := by
  rw [logTail_eq, Finset.sum_range_zero, sub_zero]

theorem logTail_succ (w : ℝ) (terms : Nat) :
    logTail w terms = w ^ (2 * terms + 1) / (2 * terms + 1) + logTail w (terms + 1) := by
  rw [logTail_eq, logTail_eq, Finset.sum_range_succ]
  ring

theorem logTail_nonneg {w : ℝ} (nonneg : 0 ≤ w) (small : w ≤ 1 / 3) (terms : Nat) :
    0 ≤ logTail w terms := by
  rw [logTail_eq]
  exact sub_nonneg.mpr (Real.sum_range_le_log_div nonneg (by linarith) terms)

theorem logTail_le {w : ℝ} (nonneg : 0 ≤ w) (small : w ≤ 1 / 3) (terms : Nat) :
    logTail w terms ≤ 9 / 8 * w ^ (2 * terms + 1) := by
  have rest : w ^ (2 * terms + 1) / (1 - w ^ 2) ≤ 9 / 8 * w ^ (2 * terms + 1) := by
    have square : w ^ 2 ≤ 1 / 9 := by nlinarith
    rw [div_le_iff₀ (by linarith)]
    have power : 0 ≤ w ^ (2 * terms + 1) := pow_nonneg nonneg _
    nlinarith
  have series := Real.log_div_le_sum_range_add nonneg (by linarith) terms
  rw [logTail_eq]
  linarith

/-- A number up to one third, and its square rounded down on a scale. -/
structure SeriesScale (scale square : Nat) (w : ℝ) : Prop where
  positive : 0 < scale
  nonneg : 0 ≤ w
  small : w ≤ 1 / 3
  below : (square : ℝ) ≤ scale * w ^ 2
  above : scale * w ^ 2 ≤ square + 5 / 3

/-- A term of the summation against the odd power that it stands for. -/
structure IsTerm (scale : Nat) (w : ℝ) (index term : Nat) : Prop where
  below : (term : ℝ) ≤ scale * w ^ (2 * index + 1)
  above : scale * w ^ (2 * index + 1) ≤ term + 2

theorem div_bounds (num den : Nat) (positive : 0 < den) :
    ((num / den : Nat) : ℝ) ≤ num / den ∧ (num / den : ℝ) < (num / den : Nat) + 1 := by
  rw [← Nat.floor_div_eq_div (K := ℝ)]
  exact ⟨Nat.floor_le (by positivity), Nat.lt_floor_add_one _⟩

section Series

variable {scale square : Nat} {w : ℝ}

/-- The next term loses less than one unit by its own rounding and less than one by those of the
factors. -/
theorem IsTerm.next (series : SeriesScale scale square w) {index term : Nat}
    (isTerm : IsTerm scale w index term) : IsTerm scale w (index + 1) (term * square / scale) := by
  have scalePos : (0 : ℝ) < scale := by exact_mod_cast series.positive
  obtain ⟨low, high⟩ := div_bounds (term * square) scale series.positive
  rw [Nat.cast_mul] at low high
  have power : 0 ≤ w ^ (2 * index + 1) := pow_nonneg series.nonneg _
  have exact' : (scale : ℝ) * w ^ (2 * (index + 1) + 1) =
      scale * w ^ (2 * index + 1) * (scale * w ^ 2) / scale := by
    rw [eq_div_iff scalePos.ne']
    ring
  have square' : w ^ 2 ≤ 1 / 9 := by nlinarith [series.nonneg, series.small]
  have small : w ^ (2 * index + 1) ≤ 1 / 3 := by
    calc w ^ (2 * index + 1)
      _ ≤ w ^ 1 := pow_le_pow_of_le_one series.nonneg (by linarith [series.small]) (by omega)
      _ ≤ 1 / 3 := by rw [pow_one]; exact series.small
  refine ⟨low.trans ?_, ?_⟩
  · rw [exact']
    gcongr
    · exact isTerm.below
    · exact series.below
  · have lost : (scale : ℝ) * w ^ (2 * (index + 1) + 1) - term * square / scale ≤ 7 / 9 := by
      rw [exact', ← sub_div, div_le_iff₀ scalePos]
      calc (scale : ℝ) * w ^ (2 * index + 1) * (scale * w ^ 2) - term * square
        _ = (scale * w ^ (2 * index + 1) - term) * (scale * w ^ 2) +
            term * (scale * w ^ 2 - square) := by ring
        _ ≤ 2 * (scale * w ^ 2) + scale * w ^ (2 * index + 1) * (5 / 3) := by
          gcongr
          · linarith [isTerm.above]
          · linarith [series.below]
          · exact isTerm.below
          · linarith [series.above]
        _ ≤ 2 * (scale * (1 / 9)) + scale * (1 / 3) * (5 / 3) := by gcongr
        _ = 7 / 9 * scale := by ring
    linarith

theorem le_oddPowerSum (scale square fuel term odd sum : Nat) :
    sum ≤ oddPowerSum scale square fuel term odd sum := by
  induction fuel generalizing term odd sum with
  | zero => exact le_rfl
  | succ fuel ih =>
    rw [oddPowerSum]
    split
    · exact le_rfl
    · exact (Nat.le_add_right _ _).trans (ih _ _ _)

/-- The summation stays below the series. -/
theorem oddPowerSum_le (series : SeriesScale scale square w) (fuel : Nat) {index term : Nat}
    (sum : Nat) (isTerm : IsTerm scale w index term) :
    (oddPowerSum scale square fuel term (2 * index + 1) sum : ℝ) ≤
      sum + scale * logTail w index := by
  have tail (terms : Nat) : 0 ≤ scale * logTail w terms :=
    mul_nonneg scale.cast_nonneg (logTail_nonneg series.nonneg series.small terms)
  induction fuel generalizing index term sum with
  | zero => simpa [oddPowerSum] using tail index
  | succ fuel ih =>
    rw [oddPowerSum]
    split
    · simpa using tail index
    · have odd : (0 : ℝ) < 2 * index + 1 := by positivity
      have quotient := (div_bounds term (2 * index + 1) (by omega)).1
      push_cast at quotient
      have step := ih (sum + term / (2 * index + 1)) (isTerm.next series)
      calc _ ≤ _ := step
        _ ≤ sum + term / (2 * index + 1) + scale * logTail w (index + 1) := by
          push_cast
          linarith
        _ ≤ sum + scale * w ^ (2 * index + 1) / (2 * index + 1) + scale * logTail w (index + 1) := by
          gcongr
          exact isTerm.below
        _ = sum + scale * logTail w index := by
          rw [logTail_succ w index]
          ring

theorem scaled_logTail_le (series : SeriesScale scale square w) {index : Nat} {bound : ℝ}
    (small : scale * w ^ (2 * index + 1) ≤ bound) : scale * logTail w index ≤ 9 / 8 * bound := by
  calc scale * logTail w index
    _ ≤ scale * (9 / 8 * w ^ (2 * index + 1)) := by
      gcongr
      exact logTail_le series.nonneg series.small index
    _ = 9 / 8 * (scale * w ^ (2 * index + 1)) := by ring
    _ ≤ 9 / 8 * bound := by gcongr

/-- A summand falls behind its term of the series by two units at most. -/
theorem IsTerm.div_le {index term : Nat} (isTerm : IsTerm scale w index term) :
    scale * w ^ (2 * index + 1) / (2 * index + 1) ≤ (term / (2 * index + 1) : Nat) + 2 := by
  have odd : (0 : ℝ) < 2 * index + 1 := by positivity
  have floor : ((term + 1 : Nat) : ℝ) ≤ ((2 * index + 1) * (term / (2 * index + 1) + 1) : Nat) :=
    Nat.cast_le.mpr (Nat.lt_mul_div_succ term (by omega))
  push_cast at floor
  rw [div_le_iff₀ odd]
  have index' : (0 : ℝ) ≤ index := index.cast_nonneg
  linarith [isTerm.above]

/-- The summation falls behind by two units a term until the terms are below one unit. -/
theorem le_oddPowerSum_add (series : SeriesScale scale square w) (steps : Nat) {fuel index term : Nat}
    (sum : Nat) (enough : steps ≤ fuel) (isTerm : IsTerm scale w index term)
    (vanished : scale * w ^ (2 * (index + steps) + 1) ≤ 1) :
    sum + scale * logTail w index ≤
      oddPowerSum scale square fuel term (2 * index + 1) sum + (2 * steps + 9 / 4) := by
  induction steps generalizing fuel index term sum with
  | zero =>
    have atLeast : (sum : ℝ) ≤ oddPowerSum scale square fuel term (2 * index + 1) sum := by
      exact_mod_cast le_oddPowerSum scale square fuel term (2 * index + 1) sum
    have tail : scale * logTail w index ≤ 9 / 8 * 1 := scaled_logTail_le series vanished
    rw [Nat.cast_zero]
    linarith
  | succ steps ih =>
    obtain ⟨fuel, rfl⟩ : ∃ rest, fuel = rest + 1 := ⟨fuel - 1, by omega⟩
    rw [oddPowerSum]
    split
    · next done =>
      have two : scale * w ^ (2 * index + 1) ≤ 2 := by simpa [done] using isTerm.above
      have tail := scaled_logTail_le series two
      have count : (0 : ℝ) ≤ (steps + 1 : Nat) := Nat.cast_nonneg _
      linarith
    · have step := ih (sum + term / (2 * index + 1)) (Nat.le_of_succ_le_succ enough)
        (isTerm.next series) (by rwa [Nat.add_right_comm index])
      rw [Nat.mul_add_one, Nat.add_right_comm] at step
      have summand := isTerm.div_le
      calc sum + scale * logTail w index
        _ = sum + scale * w ^ (2 * index + 1) / (2 * index + 1) + scale * logTail w (index + 1) := by
          rw [logTail_succ w index]
          ring
        _ ≤ (sum + term / (2 * index + 1) : Nat) + scale * logTail w (index + 1) + 2 := by
          rw [Nat.cast_add]
          linarith
        _ ≤ _ := by
          rw [Nat.cast_add steps 1, Nat.cast_one]
          linarith [step]

/-- The first term and its square, rounded down, of a ratio up to one third. -/
theorem series_start {gap total : Nat} (scalePos : 0 < scale) (totalPos : 0 < total)
    (small : 3 * gap ≤ total) :
    let z := gap * scale / total
    SeriesScale scale (z * z / scale) (gap / total) ∧ IsTerm scale (gap / total) 0 z := by
  intro z
  have scalePos' : (0 : ℝ) < scale := by exact_mod_cast scalePos
  have totalPos' : (0 : ℝ) < total := by exact_mod_cast totalPos
  have small' : 3 * (gap : ℝ) ≤ total := by exact_mod_cast small
  have nonneg : (0 : ℝ) ≤ gap / total := by positivity
  have third : (gap / total : ℝ) ≤ 1 / 3 := by
    rw [div_le_iff₀ totalPos']
    linarith
  have product : (scale : ℝ) * (gap / total) = (gap * scale : Nat) / total := by
    push_cast
    ring
  obtain ⟨low, high⟩ := div_bounds (gap * scale) total totalPos
  rw [← product] at low high
  change (z : ℝ) ≤ _ at low
  change _ < (z : ℝ) + 1 at high
  obtain ⟨squareLow, squareHigh⟩ := div_bounds (z * z) scale scalePos
  rw [Nat.cast_mul] at squareLow squareHigh
  have zNonneg : (0 : ℝ) ≤ z := z.cast_nonneg
  generalize (gap / total : ℝ) = w at *
  refine ⟨⟨scalePos, nonneg, third, squareLow.trans ?_, ?_⟩, ?_, ?_⟩
  · rw [div_le_iff₀ scalePos']
    nlinarith
  · have lost : scale * w ^ 2 - z * z / scale ≤ 2 / 3 := by
      have split' : scale * w ^ 2 - z * z / scale = (scale * w - z) * (scale * w + z) / scale := by
        rw [eq_div_iff scalePos'.ne', sub_mul, div_mul_cancel₀ _ scalePos'.ne']
        ring
      rw [split', div_le_iff₀ scalePos']
      calc (scale * w - z) * (scale * w + z)
        _ ≤ 1 * (scale * w + scale * w) := by
          gcongr
          linarith
        _ ≤ 1 * (scale * (1 / 3) + scale * (1 / 3)) := by gcongr
        _ = 2 / 3 * scale := by ring
    linarith
  · simpa using low
  · simp only [Nat.mul_zero, Nat.zero_add, pow_one]
    linarith

end Series

/-! ## Natural logarithms -/

/-- The terms are below one unit once there are three for two places. -/
theorem vanished_of_places {w : ℝ} (nonneg : 0 ≤ w) (small : w ≤ 1 / 3) (places : Nat) :
    ((10 ^ places : Nat) : ℝ) * w ^ (2 * (0 + (3 * places / 2 + 1)) + 1) ≤ 1 := by
  generalize isSteps : 2 * (0 + (3 * places / 2 + 1)) + 1 = steps
  have many : 3 * places ≤ steps := by omega
  have power : w ^ steps ≤ (1 / 27) ^ places := by
    calc w ^ steps
      _ ≤ w ^ (3 * places) := pow_le_pow_of_le_one nonneg (by linarith) many
      _ = (w ^ 3) ^ places := pow_mul w 3 places
      _ ≤ ((1 / 3) ^ 3) ^ places := by gcongr
      _ = (1 / 27) ^ places := by norm_num
  calc ((10 ^ places : Nat) : ℝ) * w ^ steps
    _ ≤ 10 ^ places * (1 / 27) ^ places := by
      rw [Nat.cast_pow, Nat.cast_ofNat]
      gcongr
    _ = (10 / 27) ^ places := by rw [← mul_pow]; norm_num
    _ ≤ 1 := pow_le_one₀ (by norm_num) (by norm_num)

/-- The logarithm of a ratio, as a series in the difference of its parts over their sum. -/
theorem log_eq_logTail {num den : Nat} (denPos : 0 < den) (order : den ≤ num) :
    Real.log (num / den) = 2 * logTail ((num - den : Nat) / (num + den : Nat)) 0 := by
  have total : (0 : ℝ) < num + den := by positivity
  have same : (1 + ((num - den : Nat) / (num + den : Nat) : ℝ)) /
      (1 - (num - den : Nat) / (num + den : Nat)) = num / den := by
    rw [Nat.cast_sub order, Nat.cast_add, one_add_div total.ne', one_sub_div total.ne',
      div_div_div_cancel_right₀ total.ne', add_add_sub_cancel, add_sub_sub_cancel, ← two_mul, ← two_mul,
      mul_div_mul_left _ _ two_ne_zero]
  rw [logTail_zero, same]
  ring

/-- The summation for a ratio from one up to two. -/
theorem log_bounds (places : Nat) {num den : Nat} (denPos : 0 < den) (order : den ≤ num)
    (near : num ≤ 2 * den) :
    let z := (num - den) * 10 ^ places / (num + den)
    let sum := oddPowerSum (10 ^ places) (z * z / 10 ^ places) (4 * places + 4) z 1 0
    (2 * sum : ℝ) ≤ Real.log (num / den) * 10 ^ places ∧
      Real.log (num / den) * 10 ^ places ≤ 2 * (sum + 3 * places + 10) := by
  intro z sum
  have scalePos : 0 < 10 ^ places := Nat.pow_pos (by decide)
  obtain ⟨series, isTerm⟩ := series_start scalePos (show 0 < num + den by omega)
    (show 3 * (num - den) ≤ num + den by omega)
  have lower := oddPowerSum_le series (4 * places + 4) 0 isTerm
  have upper := le_oddPowerSum_add series (3 * places / 2 + 1) 0
    (show 3 * places / 2 + 1 ≤ 4 * places + 4 by omega) isTerm
    (vanished_of_places series.nonneg series.small places)
  change (sum : ℝ) ≤ _ at lower
  change _ ≤ (sum : ℝ) + _ at upper
  have steps : (2 * (3 * places / 2 + 1 : Nat) : ℝ) ≤ 3 * places + 2 := by
    exact_mod_cast (show 2 * (3 * places / 2 + 1) ≤ 3 * places + 2 by omega)
  push_cast at lower upper steps
  rw [log_eq_logTail denPos order]
  push_cast
  constructor
  · linarith
  · linarith

/-- The ends for a ratio above one, and those for its inverse with the signs exchanged. -/
theorem lnNearOne_bounds (places : Nat) {num den : Nat} (numPos : 0 < num) (denPos : 0 < den)
    (atMost : num ≤ 2 * den) (atLeast : den ≤ 2 * num) :
    ((lnNearOne places num den).low : ℝ) ≤ Real.log (num / den) * 10 ^ places ∧
      Real.log (num / den) * 10 ^ places ≤ (lnNearOne places num den).high := by
  simp only [lnNearOne, Nat.pow_eq]
  rcases lt_trichotomy num den with less | same | more
  · have bounds := log_bounds places numPos less.le atLeast
    have opposite : Real.log (num / den) = -Real.log (den / num) := by
      rw [← Real.log_inv, inv_div]
    rw [if_neg (show ¬ den ≤ num by omega), if_neg (show den - num ≠ 0 by omega), if_neg (by omega),
      opposite]
    rw [Nat.add_comm den num] at bounds
    push_cast
    exact ⟨by linarith [bounds.2], by linarith [bounds.1]⟩
  · subst same
    simp [denPos.ne']
  · have bounds := log_bounds places denPos more.le atMost
    rw [if_pos more.le, if_neg (show num - den ≠ 0 by omega), if_pos more.le]
    exact_mod_cast bounds

theorem lnNearOne_width (places num den : Nat) :
    (lnNearOne places num den).high ≤ (lnNearOne places num den).low + (6 : Nat) * places +
      (20 : Nat) := by
  simp only [lnNearOne]
  split <;> split <;> (dsimp only; omega)

theorem lnNearOne_encloses {num den : Nat} (numPos : 0 < num) (denPos : 0 < den)
    (atMost : num ≤ 2 * den) (atLeast : den ≤ 2 * num) :
    Encloses (fun places => lnNearOne places num den) (Real.log (num / den)) :=
  Encloses.of_width 6 20
    (fun places _ => (lnNearOne_bounds places numPos denPos atMost atLeast).1)
    (fun places _ => (lnNearOne_bounds places numPos denPos atMost atLeast).2)
    (fun places => lnNearOne_width places num den)

theorem lnTwo_encloses : Encloses lnTwo (Real.log 2) := by
  have encloses : Encloses lnTwo (Real.log ((2 : Nat) / (1 : Nat))) :=
    lnNearOne_encloses (by decide) (by decide) (by decide) (by decide)
  rwa [Nat.cast_one, div_one, Nat.cast_ofNat] at encloses

theorem lnTen_encloses : Encloses lnTen (Real.log 10) := by
  have near : Encloses (fun places => lnNearOne places 5 4) (Real.log ((5 : Nat) / (4 : Nat))) :=
    lnNearOne_encloses (by decide) (by decide) (by decide) (by decide)
  have total := (lnTwo_encloses.scale 3).add near
  have same : ((3 : Int) : ℝ) * Real.log 2 + Real.log ((5 : Nat) / (4 : Nat)) = Real.log 10 := by
    have power : ((3 : Int) : ℝ) * Real.log 2 = Real.log (2 ^ 3) := by
      rw [Real.log_pow]
      norm_num
    rw [power, ← Real.log_mul (by norm_num) (by norm_num)]
    norm_num
  rwa [same] at total

/-- The first summand is part of the lower end. -/
theorem le_lnNearOne_low (places : Nat) {num den : Nat} (more : den < num) :
    2 * (((num - den) * 10 ^ places / (num + den) : Nat) : Int) ≤ (lnNearOne places num den).low := by
  simp only [lnNearOne, Nat.pow_eq]
  rw [if_pos more.le, if_neg (show num - den ≠ 0 by omega), if_pos more.le]
  generalize (num - den) * 10 ^ places / (num + den) = z
  have first : z ≤ oddPowerSum (10 ^ places) (z * z / 10 ^ places) (4 * places + 4) z 1 0 := by
    rw [oddPowerSum]
    split
    · next none => exact none.le
    · simpa using le_oddPowerSum (10 ^ places) (z * z / 10 ^ places) (4 * places + 3)
        (z * (z * z / 10 ^ places) / 10 ^ places) (1 + 2) (0 + z / 1)
  dsimp only
  omega

theorem lnTen_low_pos (places : Nat) (some : 0 < places) : 0 < (lnTen places).low := by
  have two := le_lnNearOne_low places (show 1 < 2 by decide)
  have fiveFourths := le_lnNearOne_low places (show 4 < 5 by decide)
  have ten : 10 ≤ 10 ^ places := Nat.le_self_pow some.ne' 10
  have low : (lnTen places).low = 3 * (lnNearOne places 2 1).low + (lnNearOne places 5 4).low := rfl
  rw [low]
  omega

/-- The halvings of the leading part of a coefficient bring it near one. -/
theorem lnEnclosure_encloses {coefficient : Nat} (positive : 0 < coefficient) (power : Int) :
    Encloses (fun places => lnEnclosure places coefficient power)
      (Real.log (coefficient * 10 ^ power)) := by
  obtain ⟨some, low, high⟩ := Rounding.decimalLength_spec coefficient positive
  simp only [lnEnclosure, Nat.pow_eq]
  generalize Rounding.decimalLength coefficient = length at *
  have next : 10 ^ length = 10 ^ (length - 1) * 10 := by
    rw [← Nat.pow_succ, Nat.succ_eq_add_one, Nat.sub_add_cancel some]
  generalize isHalvings : (if 2 * coefficient < 3 * 10 ^ (length - 1) then 0
    else if coefficient < 3 * 10 ^ (length - 1) then 1
    else if coefficient < 6 * 10 ^ (length - 1) then 2 else 3) = halvings
  have denPos : 0 < 10 ^ (length - 1) := Nat.pow_pos (by decide)
  have near : coefficient ≤ 2 * (10 ^ (length - 1) * 2 ^ halvings) ∧
      10 ^ (length - 1) * 2 ^ halvings ≤ 2 * coefficient := by
    subst isHalvings
    split
    · omega
    · split
      · omega
      · split <;> omega
  have total := ((lnNearOne_encloses positive (Nat.mul_pos denPos (Nat.pow_pos (by decide)))
    near.1 near.2).add (lnTwo_encloses.scale halvings)).add
    (lnTen_encloses.scale (power + length - 1))
  have same : Real.log (coefficient / (10 ^ (length - 1) * 2 ^ halvings : Nat)) +
      ((halvings : Int) : ℝ) * Real.log 2 + ((power + length - 1 : Int) : ℝ) * Real.log 10 =
      Real.log (coefficient * 10 ^ power) := by
    have coefficient' : (coefficient : ℝ) ≠ 0 := by exact_mod_cast positive.ne'
    push_cast
    rw [Real.log_mul coefficient' (by positivity), Real.log_zpow,
      Real.log_div coefficient' (by positivity), Real.log_mul (by positivity) (by positivity),
      Real.log_pow, Real.log_pow, Nat.cast_pred some]
    ring
  rwa [same] at total

/-! ## Decimal logarithms -/

/-- A power of a number is a power of ten only if the number is. -/
theorem eq_pow_of_pow_eq {n exponent power : Nat} (some : 0 < exponent)
    (same : n ^ exponent = 10 ^ power) : n = 10 ^ padicValNat 2 n := by
  have ten : padicValNat 2 10 = 1 := by
    rw [show 10 = 2 * 5 by rfl, padicValNat.mul (by decide) (by decide), padicValNat.self (by decide),
      padicValNat.eq_zero_of_not_dvd (by decide)]
  have twos := congrArg (padicValNat 2) same
  rw [padicValNat.pow, padicValNat.pow, ten, Nat.mul_one] at twos
  rw [← twos, Nat.mul_comm, pow_mul] at same
  exact Nat.pow_left_injective some.ne' same

theorem irrational_logb {coefficient : Nat} (positive : 0 < coefficient)
    (noPower : ∀ root, coefficient ≠ 10 ^ root) (power : Int) :
    Irrational (Real.logb 10 (coefficient * 10 ^ power)) := by
  rintro ⟨q, isLog⟩
  have coefficient' : (1 : ℝ) ≤ coefficient := by exact_mod_cast positive
  have logTen : Real.log 10 ≠ 0 := (Real.log_pos (by norm_num)).ne'
  have exponent : ((q - power).den : ℝ) * Real.log coefficient = (q - power).num * Real.log 10 := by
    have value : Real.log coefficient = ((q - power : Rat) : ℝ) * Real.log 10 := by
      push_cast
      rw [sub_mul, isLog, Real.logb, div_mul_cancel₀ _ logTen,
        Real.log_mul (by positivity) (by positivity), Real.log_zpow]
      ring
    have den : ((q - power).den : ℝ) ≠ 0 := by exact_mod_cast (q - power).den_ne_zero
    have ratio : ((q - power : Rat) : ℝ) = (q - power).num / (q - power).den := Rat.cast_def _
    rw [value, ratio]
    field_simp
  rw [← Real.log_pow, ← Real.log_zpow] at exponent
  have same : (coefficient : ℝ) ^ (q - power).den = 10 ^ (q - power).num :=
    Real.log_injOn_pos (Set.mem_Ioi.mpr (by positivity)) (Set.mem_Ioi.mpr (by positivity)) exponent
  have nonneg : 0 ≤ (q - power).num := by
    have least : (10 : ℝ) ^ (0 : Int) ≤ 10 ^ (q - power).num := by
      rw [← same, zpow_zero]
      exact one_le_pow₀ coefficient'
    exact (zpow_le_zpow_iff_right₀ (by norm_num)).mp least
  obtain ⟨num, isNum⟩ := Int.eq_ofNat_of_zero_le nonneg
  rw [isNum, zpow_natCast] at same
  exact noPower _ (eq_pow_of_pow_eq (q - power).den_pos (by exact_mod_cast same))

theorem powerOfTen?_eq_some {coefficient : Nat} {power exponent : Int}
    (found : powerOfTen? coefficient power = some exponent) :
    (coefficient * 10 ^ power : ℝ) = 10 ^ exponent := by
  simp only [powerOfTen?, Nat.pow_eq] at found
  split at found
  · next isPower =>
    cases found
    have positive : 0 < coefficient := isPower ▸ Nat.pow_pos (by decide)
    obtain ⟨some, -, -⟩ := Rounding.decimalLength_spec coefficient positive
    generalize Rounding.decimalLength coefficient = length at *
    rw [isPower, Nat.cast_pow, Nat.cast_ofNat, ← zpow_natCast, ← zpow_add₀ (by norm_num),
      Nat.cast_pred some]
    congr 1
    omega
  · cases found

theorem powerOfTen?_eq_none {coefficient : Nat} {power : Int}
    (missing : powerOfTen? coefficient power = none) (root : Nat) : coefficient ≠ 10 ^ root := by
  rintro rfl
  obtain ⟨some, low, high⟩ := Rounding.decimalLength_spec (10 ^ root) (Nat.pow_pos (by decide))
  rw [Nat.pow_le_pow_iff_right (by decide)] at low
  rw [Nat.pow_lt_pow_iff_right (by decide)] at high
  simp only [powerOfTen?, Nat.pow_eq] at missing
  rw [if_pos (by congr 1; omega)] at missing
  cases missing

/-- The enclosures of a decimal logarithm. -/
def logEnclosure (coefficient : Nat) (power : Int) (places : Nat) : Enclosure :=
  Enclosure.quotient (Nat.pow 10 places) (lnEnclosure places coefficient power) (lnTen places)

theorem log10_eq {coefficient : Nat} (positive : 0 < coefficient) (power : Int) :
    log10 (.finite false coefficient power) =
      match powerOfTen? coefficient power with
      | some exponent => .ok (ofInt exponent)
      | none =>
        let value := refine precision (logEnclosure coefficient power) (precision + 12)
        .ok (.finite value.1 value.2.1 value.2.2) := by
  rw [log10, if_neg positive.ne', if_neg Bool.false_ne_true]
  rfl

section Irrational

variable {coefficient : Nat} (positive : 0 < coefficient) (power : Int)

include positive

theorem logEnclosure_encloses :
    Encloses (logEnclosure coefficient power) (Real.logb 10 (coefficient * 10 ^ power)) :=
  (lnEnclosure_encloses positive power).quotient lnTen_encloses (Real.log_pos (by norm_num)).ne'
    lnTen_low_pos

/-- The decimal logarithm is an integer and given exactly, or it is irrational and rounded to the
precision. -/
theorem log10_cases :
    let x := Real.logb 10 (coefficient * 10 ^ power)
    (∃ n : Int, x = n ∧ log10 (.finite false coefficient power) = .ok (ofInt n)) ∨
      ∃ value : Bool × Nat × Int,
        log10 (.finite false coefficient power) = .ok (.finite value.1 value.2.1 value.2.2) ∧
        (value.1 = true ↔ x < 0) ∧ IsRounding precision |x| value.2 := by
  intro x
  rw [log10_eq positive]
  cases found : powerOfTen? coefficient power with
  | some exponent =>
    refine .inl ⟨exponent, ?_, rfl⟩
    rw [show x = Real.logb 10 _ from rfl, powerOfTen?_eq_some found, Real.logb, Real.log_zpow,
      mul_div_cancel_right₀ _ (Real.log_pos (by norm_num)).ne']
  | none =>
    exact .inr ⟨_, rfl, (logEnclosure_encloses positive power).refine_isRounding
      (irrational_logb positive (powerOfTen?_eq_none found) power) (by decide) (by decide)⟩

end Irrational

/-- The decimal logarithm where the first enclosure settles its digits. -/
def log10AtOnce : Decimal → Except DecimalSignal Decimal
  | .finite false coefficient power =>
    if coefficient = 0 then .error .invalid
    else
      match powerOfTen? coefficient power with
      | some exponent => .ok (ofInt exponent)
      | none =>
        match (logEnclosure coefficient power (precision + 12)).settled? precision (precision + 12) with
        | some value => .ok (.finite value.1 value.2.1 value.2.2)
        | none => .error .invalid
  | _ => .error .invalid

theorem log10_of_atOnce {a logarithm : Decimal} (atOnce : log10AtOnce a = .ok logarithm) :
    log10 a = .ok logarithm := by
  cases a with
  | infinite => cases atOnce
  | nan => cases atOnce
  | finite negative coefficient power =>
  cases negative with
  | true => cases atOnce
  | false =>
  rw [log10AtOnce] at atOnce
  split at atOnce
  · cases atOnce
  · next nonzero =>
    have positive := Nat.pos_of_ne_zero nonzero
    rw [log10_eq positive]
    cases found : powerOfTen? coefficient power with
    | some exponent =>
      rw [found] at atOnce
      exact atOnce
    | none =>
      have ends := wellFounded_refines (by decide : 0 < precision)
        ((logEnclosure_encloses positive power).eventually_settled
          (irrational_logb positive (powerOfTen?_eq_none found) power) precision)
      simp only [found] at atOnce
      rw [refine_eq ends]
      cases settled : (logEnclosure coefficient power (precision + 12)).settled? precision
          (precision + 12) with
      | some value =>
        rw [settled] at atOnce
        exact atOnce
      | none =>
        rw [settled] at atOnce
        cases atOnce

end QuantumResources.Decimal
