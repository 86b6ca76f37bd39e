import QuantumResources.Number.Elementary
import QuantumResources.Proofs.Number.Significant

/-! Enclosures that narrow down on a number.

Enclosures of numbers give enclosures of their sums, multiples and quotients. An enclosure of an
irrational number settles its digits at some number of places, so that the refinement ends, and what
it ends with is the number rounded to these digits. -/

namespace QuantumResources.Decimal

open Filter Topology
open QuantumResources.Rounding (IsRounding)

/-- Ends on both sides of a number that come arbitrarily close to it as the places increase. -/
structure Encloses (enclose : Nat → Enclosure) (x : ℝ) : Prop where
  below : ∀ places, 0 < places → ((enclose places).low : ℝ) ≤ x * 10 ^ places
  above : ∀ places, 0 < places → x * 10 ^ places ≤ (enclose places).high
  lowLimit : Tendsto (fun places => ((enclose places).low / 10 ^ places : ℝ)) atTop (𝓝 x)
  highLimit : Tendsto (fun places => ((enclose places).high / 10 ^ places : ℝ)) atTop (𝓝 x)

namespace Encloses

variable {a b : Nat → Enclosure} {x y : ℝ}

theorem tendsto_linear_div_pow (slope constant : ℝ) :
    Tendsto (fun places : Nat => (slope * places + constant) / 10 ^ places) atTop (𝓝 0) := by
  have linear := (tendsto_pow_const_div_const_pow_of_one_lt 1 (by norm_num : (1 : ℝ) < 10)).const_mul
    slope
  have flat := (tendsto_pow_const_div_const_pow_of_one_lt 0 (by norm_num : (1 : ℝ) < 10)).const_mul
    constant
  have total := linear.add flat
  simp only [pow_one, pow_zero, mul_zero, add_zero] at total
  refine total.congr fun places => ?_
  ring

/-- Ends whose distance grows only linearly with the places. -/
theorem of_width (slope constant : Nat)
    (below : ∀ places, 0 < places → ((a places).low : ℝ) ≤ x * 10 ^ places)
    (above : ∀ places, 0 < places → x * 10 ^ places ≤ (a places).high)
    (width : ∀ places, (a places).high ≤ (a places).low + slope * places + constant) :
    Encloses a x := by
  have wide (places : Nat) :
      ((a places).high : ℝ) ≤ (a places).low + (slope * places + constant) := by
    have cast : ((a places).high : ℝ) ≤ (((a places).low + slope * places + constant : ℤ) : ℝ) :=
      Int.cast_le.mpr (width places)
    push_cast at cast
    linarith
  have vanishing := tendsto_linear_div_pow slope constant
  refine ⟨below, above, ?_, ?_⟩
  · have lower : Tendsto (fun places : Nat => x - (slope * places + constant) / 10 ^ places) atTop
        (𝓝 x) := by simpa using tendsto_const_nhds.sub vanishing
    refine tendsto_of_tendsto_of_tendsto_of_le_of_le' lower tendsto_const_nhds ?_ ?_
    · filter_upwards [eventually_gt_atTop 0] with places positive
      rw [sub_le_iff_le_add, ← add_div, le_div_iff₀ (by positivity)]
      exact (above places positive).trans (wide places)
    · filter_upwards [eventually_gt_atTop 0] with places positive
      rw [div_le_iff₀ (by positivity)]
      exact below places positive
  · have upper : Tendsto (fun places : Nat => x + (slope * places + constant) / 10 ^ places) atTop
        (𝓝 x) := by simpa using tendsto_const_nhds.add vanishing
    refine tendsto_of_tendsto_of_tendsto_of_le_of_le' tendsto_const_nhds upper ?_ ?_
    · filter_upwards [eventually_gt_atTop 0] with places positive
      rw [le_div_iff₀ (by positivity)]
      exact above places positive
    · filter_upwards [eventually_gt_atTop 0] with places positive
      rw [div_le_iff₀ (by positivity), add_mul, div_mul_cancel₀ _ (by positivity)]
      linarith [below places positive, wide places]

theorem add (first : Encloses a x) (second : Encloses b y) :
    Encloses (fun places => (a places).add (b places)) (x + y) where
  below places positive := by
    rw [Enclosure.add, Int.cast_add, add_mul]
    exact add_le_add (first.below places positive) (second.below places positive)
  above places positive := by
    rw [Enclosure.add, Int.cast_add, add_mul]
    exact add_le_add (first.above places positive) (second.above places positive)
  lowLimit := by
    refine (first.lowLimit.add second.lowLimit).congr fun places => ?_
    rw [Enclosure.add, Int.cast_add, add_div]
  highLimit := by
    refine (first.highLimit.add second.highLimit).congr fun places => ?_
    rw [Enclosure.add, Int.cast_add, add_div]

theorem scale (encloses : Encloses a x) (factor : Int) :
    Encloses (fun places => (a places).scale factor) (factor * x) := by
  unfold Enclosure.scale
  rcases le_or_gt 0 factor with nonneg | negative
  · have factor' : (0 : ℝ) ≤ factor := by exact_mod_cast nonneg
    simp only [nonneg, if_true]
    refine ⟨fun places positive => ?_, fun places positive => ?_, ?_, ?_⟩
    · rw [Int.cast_mul, mul_assoc]
      exact mul_le_mul_of_nonneg_left (encloses.below places positive) factor'
    · rw [Int.cast_mul, mul_assoc]
      exact mul_le_mul_of_nonneg_left (encloses.above places positive) factor'
    · simpa only [Int.cast_mul, mul_div_assoc] using encloses.lowLimit.const_mul (factor : ℝ)
    · simpa only [Int.cast_mul, mul_div_assoc] using encloses.highLimit.const_mul (factor : ℝ)
  · have factor' : (factor : ℝ) ≤ 0 := by exact_mod_cast negative.le
    simp only [not_le.mpr negative, if_false]
    refine ⟨fun places positive => ?_, fun places positive => ?_, ?_, ?_⟩
    · rw [Int.cast_mul, mul_assoc]
      exact mul_le_mul_of_nonpos_left (encloses.above places positive) factor'
    · rw [Int.cast_mul, mul_assoc]
      exact mul_le_mul_of_nonpos_left (encloses.below places positive) factor'
    · simpa only [Int.cast_mul, mul_div_assoc] using encloses.highLimit.const_mul (factor : ℝ)
    · simpa only [Int.cast_mul, mul_div_assoc] using encloses.lowLimit.const_mul (factor : ℝ)

/-! ## Quotients -/

theorem fdiv_bounds (num den : Int) (positive : 0 < den) :
    ((num.fdiv den : ℤ) : ℝ) ≤ num / den ∧ (num / den : ℝ) < (num.fdiv den : ℤ) + 1 := by
  have den' : (0 : ℝ) < den := by exact_mod_cast positive
  rw [Int.fdiv_eq_ediv_of_nonneg num positive.le, le_div_iff₀ den', div_lt_iff₀ den']
  constructor
  · exact_mod_cast Int.ediv_mul_le num positive.ne'
  · exact_mod_cast Int.lt_ediv_add_one_mul_self num positive

/-- A rounded quotient of two ends tends to the quotient of the numbers. -/
theorem tendsto_fdiv (num den : Nat → Int) (shift : Int)
    (numLimit : Tendsto (fun places => (num places / 10 ^ places : ℝ)) atTop (𝓝 x))
    (denLimit : Tendsto (fun places => (den places / 10 ^ places : ℝ)) atTop (𝓝 y))
    (denPos : ∀ places, 0 < places → 0 < den places) (nonzero : y ≠ 0) :
    Tendsto (fun places =>
      (((num places * (Nat.pow 10 places : Nat)).fdiv (den places) + shift : ℤ) : ℝ) / 10 ^ places)
      atTop (𝓝 (x / y)) := by
  have ratio := numLimit.div denLimit nonzero
  have lower := ratio.add (tendsto_linear_div_pow 0 (shift - 1))
  have upper := ratio.add (tendsto_linear_div_pow 0 shift)
  rw [add_zero] at lower upper
  have scaled (places : Nat) : (num places / 10 ^ places : ℝ) / (den places / 10 ^ places) =
      (num places * (Nat.pow 10 places : Nat) : ℤ) / den places / 10 ^ places := by
    have ten : (10 : ℝ) ^ places ≠ 0 := by positivity
    rw [div_div_div_cancel_right₀ ten, Nat.pow_eq]
    push_cast
    field_simp
  refine tendsto_of_tendsto_of_tendsto_of_le_of_le' lower upper ?_ ?_
  · filter_upwards [eventually_gt_atTop 0] with places positive
    have bounds := fdiv_bounds (num places * (Nat.pow 10 places : Nat)) _ (denPos places positive)
    rw [Pi.div_apply, scaled, ← add_div]
    gcongr
    push_cast at bounds ⊢
    linarith [bounds.2]
  · filter_upwards [eventually_gt_atTop 0] with places positive
    have bounds := fdiv_bounds (num places * (Nat.pow 10 places : Nat)) _ (denPos places positive)
    rw [Pi.div_apply, scaled, ← add_div]
    gcongr
    push_cast at bounds ⊢
    linarith [bounds.1]

/-- Dividing a number by more brings it nearer to zero. -/
theorem div_le_div_of_sign {num less more : ℝ} (positive : 0 < less) (order : less ≤ more) :
    (0 ≤ num → num / more ≤ num / less) ∧ (num ≤ 0 → num / less ≤ num / more) := by
  rw [div_le_div_iff₀ (positive.trans_le order) positive,
    div_le_div_iff₀ positive (positive.trans_le order)]
  exact ⟨fun nonneg => mul_le_mul_of_nonneg_left order nonneg,
    fun nonpos => mul_le_mul_of_nonpos_left order nonpos⟩

/-- The smaller end of a quotient: a number that is not negative is divided by the larger end. -/
theorem fdiv_le_quotient (num : Int) (scale : Nat) {low high : Int} (positive : 0 < low)
    (below : low ≤ y) (above : y ≤ high) :
    (((num * scale).fdiv (if 0 ≤ num then high else low) : ℤ) : ℝ) ≤ num * scale / y := by
  have low' : (0 : ℝ) < low := by exact_mod_cast positive
  have high' : 0 < high := by exact_mod_cast low'.trans_le (below.trans above)
  split
  · next nonneg =>
    have numerator : (0 : ℝ) ≤ num * scale := by exact_mod_cast mul_nonneg nonneg scale.cast_nonneg
    refine (fdiv_bounds _ _ high').1.trans ?_
    push_cast
    exact (div_le_div_of_sign (low'.trans_le below) above).1 numerator
  · next negative =>
    have numerator : (num * scale : ℝ) ≤ 0 := by
      exact_mod_cast mul_nonpos_of_nonpos_of_nonneg (not_le.mp negative).le scale.cast_nonneg
    refine (fdiv_bounds _ _ positive).1.trans ?_
    push_cast
    exact (div_le_div_of_sign low' below).2 numerator

/-- The larger end of a quotient: a number that is not negative is divided by the smaller end. -/
theorem quotient_le_fdiv (num : Int) (scale : Nat) {low high : Int} (positive : 0 < low)
    (below : low ≤ y) (above : y ≤ high) :
    (num * scale / y : ℝ) ≤ ((num * scale).fdiv (if 0 ≤ num then low else high) + 1 : ℤ) := by
  have low' : (0 : ℝ) < low := by exact_mod_cast positive
  have high' : 0 < high := by exact_mod_cast low'.trans_le (below.trans above)
  rw [Int.cast_add, Int.cast_one]
  split
  · next nonneg =>
    have numerator : (0 : ℝ) ≤ num * scale := by exact_mod_cast mul_nonneg nonneg scale.cast_nonneg
    refine le_trans ?_ (fdiv_bounds _ _ positive).2.le
    push_cast
    exact (div_le_div_of_sign low' below).1 numerator
  · next negative =>
    have numerator : (num * scale : ℝ) ≤ 0 := by
      exact_mod_cast mul_nonpos_of_nonpos_of_nonneg (not_le.mp negative).le scale.cast_nonneg
    refine le_trans ?_ (fdiv_bounds _ _ high').2.le
    push_cast
    exact (div_le_div_of_sign (low'.trans_le below) above).2 numerator

/-- Whichever end is chosen at each number of places, the choice has the limit of both. -/
theorem tendsto_chosen {c d : Nat → Int} (choice : Nat → Prop) [DecidablePred choice]
    (left : Tendsto (fun places => (c places / 10 ^ places : ℝ)) atTop (𝓝 y))
    (right : Tendsto (fun places => (d places / 10 ^ places : ℝ)) atTop (𝓝 y)) :
    Tendsto (fun places => (((if choice places then c places else d places) : Int) /
      10 ^ places : ℝ)) atTop (𝓝 y) := by
  have chosen : Tendsto (fun places => if choice places then (c places / 10 ^ places : ℝ)
      else d places / 10 ^ places) atTop (𝓝 y) := left.if' right
  refine chosen.congr fun places => ?_
  split <;> rfl

theorem quotient (first : Encloses a x) (second : Encloses b y) (nonzero : y ≠ 0)
    (positive : ∀ places, 0 < places → 0 < (b places).low) :
    Encloses (fun places => Enclosure.quotient (Nat.pow 10 places) (a places) (b places))
      (x / y) := by
  have middle (places : Nat) (some : 0 < places) : 0 < y * 10 ^ places :=
    lt_of_lt_of_le (by exact_mod_cast positive places some) (second.below places some)
  have highPositive (places : Nat) (some : 0 < places) : 0 < (b places).high := by
    exact_mod_cast (middle places some).trans_le (second.above places some)
  have scaled (places : Nat) : x / y * 10 ^ places =
      x * 10 ^ places * (Nat.pow 10 places : Nat) / (y * 10 ^ places) := by
    push_cast [Nat.pow_eq]
    field_simp
  refine ⟨fun places some => ?_, fun places some => ?_, ?_, ?_⟩
  · rw [scaled]
    refine (fdiv_le_quotient _ _ (positive places some) (second.below places some)
      (second.above places some)).trans (div_le_div_of_nonneg_right ?_ (middle places some).le)
    exact mul_le_mul_of_nonneg_right (first.below places some) (Nat.cast_nonneg _)
  · rw [scaled]
    refine le_trans (div_le_div_of_nonneg_right ?_ (middle places some).le)
      (quotient_le_fdiv _ _ (positive places some) (second.below places some)
        (second.above places some))
    exact mul_le_mul_of_nonneg_right (first.above places some) (Nat.cast_nonneg _)
  · have denominator := tendsto_chosen (fun places => 0 ≤ (a places).low) second.highLimit
      second.lowLimit
    simpa only [Enclosure.quotient, Int.add_zero] using
      tendsto_fdiv _ _ 0 first.lowLimit denominator (fun places some => by
        split
        · exact highPositive places some
        · exact positive places some) nonzero
  · have denominator := tendsto_chosen (fun places => 0 ≤ (a places).high) second.lowLimit
      second.highLimit
    exact tendsto_fdiv _ _ 1 first.highLimit denominator (fun places some => by
      split
      · exact positive places some
      · exact highPositive places some) nonzero

end Encloses

/-! ## Settled digits -/

theorem settled?_opposite {a : Enclosure} (order : a.low ≤ a.high) (digits places : Nat) :
    (a.scale (-1)).settled? digits places =
      (a.settled? digits places).map (fun value => (!value.1, value.2)) := by
  have opposite : a.scale (-1) = ⟨-a.high, -a.low⟩ := by
    simp [Enclosure.scale]
  rw [opposite]
  unfold Enclosure.settled?
  simp only [Int.neg_neg]
  by_cases positive : 0 < a.low
  · rw [if_neg (by omega), if_pos (by omega), if_pos positive]
    split <;> rfl
  · rw [if_neg positive]
    by_cases negative : a.high < 0
    · rw [if_pos (by omega), if_pos negative]
      split <;> rfl
    · rw [if_neg (by omega), if_neg (by omega), if_neg negative, Option.map_none]

section Settled

variable {digits places : Nat} {a : Enclosure} {x : ℝ}

theorem toNat_cast {n : Int} (nonneg : 0 ≤ n) : ((n.toNat : Nat) : ℝ) = n := by
  exact_mod_cast congrArg (Int.cast : Int → ℝ) (Int.toNat_of_nonneg nonneg)

theorem toSignificant_toNat_isRounding (digitsPos : 0 < digits) {n : Int} (positive : 0 < n) :
    IsRounding digits n (Rounding.toSignificant digits n.toNat 1) := by
  have rounding : IsRounding digits (n.toNat / (1 : Nat)) _ :=
    Rounding.toSignificant_isRounding digitsPos (by omega) one_pos
  rwa [Nat.cast_one, div_one, toNat_cast positive.le] at rounding

/-- Settled digits of an enclosure of positive numbers. -/
theorem settled?_of_pos (digitsPos : 0 < digits) (positive : 0 < a.low)
    (below : (a.low : ℝ) ≤ x * 10 ^ places) (above : x * 10 ^ places ≤ a.high)
    {value : Bool × Nat × Int} (settled : a.settled? digits places = some value) :
    value.1 = false ∧ IsRounding digits x value.2 := by
  have order : a.low ≤ a.high := by exact_mod_cast below.trans above
  simp only [Enclosure.settled?, if_pos positive] at settled
  split at settled
  · next same =>
    cases settled
    have first := toSignificant_toNat_isRounding digitsPos positive
    have last := toSignificant_toNat_isRounding digitsPos (positive.trans_le order)
    rw [← same] at last
    have rounding := (first.between last below above).shift (-places)
    rw [mul_assoc, ← zpow_natCast, ← zpow_add₀ (by norm_num), add_neg_cancel, zpow_zero,
      mul_one] at rounding
    exact ⟨rfl, rounding⟩
  · cases settled

/-- What an enclosure settles are the digits of every number in it, and their sign. -/
theorem settled?_isRounding (digitsPos : 0 < digits)
    (below : (a.low : ℝ) ≤ x * 10 ^ places) (above : x * 10 ^ places ≤ a.high)
    {value : Bool × Nat × Int} (settled : a.settled? digits places = some value) :
    (value.1 = true ↔ x < 0) ∧ IsRounding digits |x| value.2 := by
  have order : a.low ≤ a.high := by exact_mod_cast below.trans above
  have unit : (0 : ℝ) < 10 ^ places := by positivity
  by_cases positive : 0 < a.low
  · have low : (0 : ℝ) < a.low := by exact_mod_cast positive
    have xPos : 0 < x := (mul_pos_iff_of_pos_right unit).mp (low.trans_le below)
    obtain ⟨sign, rounding⟩ := settled?_of_pos digitsPos positive below above settled
    rw [abs_of_pos xPos, sign]
    exact ⟨by simp [xPos.le], rounding⟩
  · have negative : a.high < 0 := by
      by_contra nonneg
      simp [Enclosure.settled?, positive, nonneg] at settled
    have high : (a.high : ℝ) < 0 := by exact_mod_cast negative
    have xNeg : x < 0 := neg_of_mul_neg_left (above.trans_lt high) unit.le
    have opposite := settled?_opposite order digits places
    rw [settled, Option.map_some] at opposite
    obtain ⟨sign, rounding⟩ := settled?_of_pos (x := -x) digitsPos
      (by simpa [Enclosure.scale] using negative) (by simpa [Enclosure.scale] using above)
      (by simpa [Enclosure.scale] using below) opposite
    rw [abs_of_neg xNeg]
    exact ⟨iff_of_true (by simpa using sign) xNeg, rounding⟩

/-- An irrational number, counted in units of a power of ten, never lies half way. -/
theorem abs_sub_round_lt_half (irrational : Irrational x) (unit : Int) :
    |x * 10 ^ unit - round (x * 10 ^ unit)| < 1 / 2 := by
  have ratio (count : Int) (half : Rat) (same : x * 10 ^ unit - count = half) : False := by
    refine irrational ⟨(count + half) * 10 ^ (-unit), ?_⟩
    push_cast
    rw [← same, add_sub_cancel, mul_assoc, ← zpow_add₀ (by norm_num), add_neg_cancel, zpow_zero,
      mul_one]
  refine lt_of_le_of_ne (abs_sub_round _) fun tie => ?_
  rcases (abs_eq (by norm_num)).mp tie with same | same
  · exact ratio _ (1 / 2) (by rw [same]; norm_num)
  · exact ratio _ (-(1 / 2)) (by rw [same]; norm_num)

/-- An irrational number lies strictly between two powers of ten. -/
theorem exists_leading_power (positive : 0 < x) (irrational : Irrational x) :
    ∃ power : Int, (10 : ℝ) ^ power < x ∧ x < 10 ^ (power + 1) := by
  have low := Int.zpow_log_le_self (b := 10) (by norm_num) positive
  have high := Int.lt_zpow_succ_log_self (b := 10) (by norm_num) x
  rw [Nat.cast_ofNat] at low high
  refine ⟨Int.log 10 x, lt_of_le_of_ne low fun same => ?_, high⟩
  exact irrational ⟨10 ^ Int.log 10 x, by push_cast; exact same⟩

/-- Ends that tend to an irrational number are finally all rounded to the same digits. -/
theorem exists_common_digits (positive : 0 < x) (irrational : Irrational x) (digits : Nat) :
    ∃ common : Nat → Nat × Int, ∀ ends : Nat → Int,
      Tendsto (fun places => (ends places / 10 ^ places : ℝ)) atTop (𝓝 x) →
        ∀ᶠ places in atTop, 0 < ends places ∧
          Rounding.toSignificant digits (ends places).toNat 1 = common places := by
  have ten : (0 : ℝ) < 10 := by norm_num
  obtain ⟨power, low, high⟩ := exists_leading_power positive irrational
  generalize isUnit : -(power - digits + 1) = unit
  have near := abs_sub_round_lt_half irrational unit
  generalize round (x * 10 ^ unit) = count at near
  have nonneg : 0 ≤ count := by
    have scaledPos : 0 < x * 10 ^ unit := mul_pos positive (zpow_pos ten _)
    have above : (-1 : ℝ) < count := by linarith [(abs_lt.mp near).2]
    have above' : -1 < count := by exact_mod_cast above
    omega
  refine ⟨fun places => if count.toNat = 10 ^ digits
    then (10 ^ (digits - 1), power + places - digits + 1 + 1)
    else (count.toNat, power + places - digits + 1), fun ends limit => ?_⟩
  have shiftedLimit := ((limit.mul_const (10 ^ unit)).sub_const (count : ℝ)).abs
  filter_upwards [limit.eventually_const_lt low, limit.eventually_lt_const high,
    shiftedLimit.eventually_lt_const near] with places above below close
  have scale : (0 : ℝ) < 10 ^ places := by positivity
  have endPos : (0 : ℝ) < ends places :=
    (div_pos_iff_of_pos_right scale).mp ((zpow_pos ten _).trans above)
  have endPos' : 0 < ends places := by exact_mod_cast endPos
  refine ⟨endPos', Rounding.toSignificant_eq (by omega) one_pos ?_ ?_ ?_⟩
  · rw [Nat.cast_one, div_one, toNat_cast endPos'.le, zpow_add₀ ten.ne', zpow_natCast]
    exact ((lt_div_iff₀ scale).mp above).le
  · rw [Nat.cast_one, div_one, toNat_cast endPos'.le, add_right_comm, zpow_add₀ ten.ne',
      zpow_natCast]
    exact (div_lt_iff₀ scale).mp below
  · rw [Nat.cast_one, div_one, toNat_cast endPos'.le, toNat_cast nonneg]
    have same : (ends places : ℝ) * 10 ^ (-(power + places - digits + 1)) =
        ends places / 10 ^ places * 10 ^ unit := by
      rw [div_mul_eq_mul_div, mul_div_assoc, ← zpow_natCast, ← zpow_sub₀ ten.ne', ← isUnit]
      congr 2
      ring
    rwa [same]

end Settled

/-- The digits of a positive irrational number are finally settled. -/
theorem Encloses.eventually_settled_of_pos {a : Nat → Enclosure} {x : ℝ} (encloses : Encloses a x)
    (positive : 0 < x) (irrational : Irrational x) (digits : Nat) :
    ∀ᶠ places in atTop, (a places).settled? digits places ≠ none := by
  obtain ⟨common, same⟩ := exists_common_digits positive irrational digits
  filter_upwards [same _ encloses.lowLimit, same _ encloses.highLimit] with places low high
  simp [Enclosure.settled?, low.1, low.2, high.2]

theorem Encloses.eventually_settled {a : Nat → Enclosure} {x : ℝ} (encloses : Encloses a x)
    (irrational : Irrational x) (digits : Nat) :
    ∀ᶠ places in atTop, (a places).settled? digits places ≠ none := by
  rcases lt_trichotomy x 0 with negative | zero | positive
  · have opposite := encloses.scale (-1)
    rw [Int.cast_neg, Int.cast_one, neg_one_mul] at opposite
    filter_upwards [opposite.eventually_settled_of_pos (neg_pos.mpr negative) irrational.neg digits,
      eventually_gt_atTop 0] with places settled some
    have order : (a places).low ≤ (a places).high := by
      exact_mod_cast (encloses.below places some).trans (encloses.above places some)
    rw [settled?_opposite order] at settled
    exact fun open' => settled (by rw [open', Option.map_none])
  · exact absurd zero irrational.ne_zero
  · exact encloses.eventually_settled_of_pos positive irrational digits

/-! ## Refinement -/

section Refinement

variable {digits : Nat} {enclose : Nat → Enclosure}

/-- Every step of the refinement adds places, so that digits that are finally settled end it. -/
theorem wellFounded_refines (digitsPos : 0 < digits)
    (settles : ∀ᶠ places in atTop, (enclose places).settled? digits places ≠ none) :
    WellFounded (Refines digits enclose) := by
  obtain ⟨bound, settled⟩ := eventually_atTop.mp settles
  refine Subrelation.wf (r := InvImage (· < ·) fun places => bound - places) ?_
    (InvImage.wf _ Nat.lt_wfRel.wf)
  rintro next places ⟨unsettled, rfl⟩
  have below : places < bound := by
    by_contra reached
    exact settled places (not_lt.mp reached) unsettled
  show bound - (places + places / 2 + digits) < bound - places
  omega

theorem refine_eq (ends : WellFounded (Refines digits enclose)) (places : Nat) :
    refine digits enclose places =
      match (enclose places).settled? digits places with
      | some value => value
      | none => refine digits enclose (places + places / 2 + digits) := by
  conv_lhs => rw [refine, WellFounded.extrinsicFix_eq_apply ends]
  split <;> simp_all [refine]

theorem refine_settled (ends : WellFounded (Refines digits enclose)) (start : Nat) :
    ∃ places, start ≤ places ∧
      (enclose places).settled? digits places = some (refine digits enclose start) := by
  induction start using ends.induction with
  | h start ih =>
    rw [refine_eq ends]
    cases settled : (enclose start).settled? digits start with
    | some value => exact ⟨start, le_rfl, settled⟩
    | none =>
      obtain ⟨places, later, found⟩ := ih _ ⟨settled, rfl⟩
      exact ⟨places, by omega, found⟩

/-- The refinement of an enclosure of an irrational number gives its sign and its digits. -/
theorem Encloses.refine_isRounding {x : ℝ} (encloses : Encloses enclose x)
    (irrational : Irrational x) (digitsPos : 0 < digits) {start : Nat} (startPos : 0 < start) :
    ((refine digits enclose start).1 = true ↔ x < 0) ∧
      IsRounding digits |x| (refine digits enclose start).2 := by
  have ends := wellFounded_refines digitsPos (encloses.eventually_settled irrational digits)
  obtain ⟨places, later, settled⟩ := refine_settled ends start
  have some : 0 < places := by omega
  exact settled?_isRounding digitsPos (encloses.below places some) (encloses.above places some)
    settled

end Refinement

end QuantumResources.Decimal
