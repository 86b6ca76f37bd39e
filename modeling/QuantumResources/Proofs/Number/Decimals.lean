import QuantumResources.Proofs.Number.Logarithm

/-! What decimal arithmetic computes.

A product or a quotient is the exact value rounded at a last place that depends on its size, unless
the exponent is too large. So is a decimal logarithm that is neither huge nor tiny. Within the range of
normal exponents the result differs from the exact value by at most one unit of roundoff, relative to
the result. -/

namespace QuantumResources.Decimal

open QuantumResources.Rounding (IsRounding RoundsAt)

/-! ## Values -/

noncomputable def signed (negative : Bool) (size : ℝ) : ℝ := if negative then -size else size

/-- The number that a finite decimal stands for. -/
def Denotes : Decimal → ℝ → Prop
  | .finite negative coefficient power, x =>
    x = signed negative (coefficient * ((10 : Nat) : ℝ) ^ power)
  | _, _ => False

theorem abs_signed (negative : Bool) {size : ℝ} (nonneg : 0 ≤ size) : |signed negative size| = size := by
  cases negative with
  | false => exact abs_of_nonneg nonneg
  | true => exact (abs_neg size).trans (abs_of_nonneg nonneg)

theorem signed_abs {negative : Bool} {x : ℝ} (sign : negative = true ↔ x < 0) :
    signed negative |x| = x := by
  cases negative with
  | false => exact abs_of_nonneg (not_lt.mp (mt sign.mpr Bool.false_ne_true))
  | true => exact neg_eq_iff_eq_neg.mpr (abs_of_neg (sign.mp rfl))

theorem signed_zero (negative : Bool) : signed negative 0 = 0 := by
  cases negative <;> simp [signed]

theorem signed_mul (a b : Bool) (x y : ℝ) : signed a x * signed b y = signed (a != b) (x * y) := by
  cases a <;> cases b <;> simp [signed]

theorem signed_div (a b : Bool) (x y : ℝ) : signed a x / signed b y = signed (a != b) (x / y) := by
  cases a <;> cases b <;> simp [signed, neg_div, div_neg]

theorem ofInt_denotes (n : Int) : (ofInt n).Denotes n := by
  rw [ofInt, Denotes, zpow_zero, mul_one, signed, Nat.cast_natAbs]
  rcases lt_or_ge n 0 with negative | nonneg
  · simp [negative, abs_of_neg negative]
  · simp [not_lt.mpr nonneg, abs_of_nonneg nonneg]

theorem one_denotes : one.Denotes 1 := by exact_mod_cast ofInt_denotes 1

theorem ofFloat_denotes {x : Float} {negative : Bool} {significand : Nat} {power : Int}
    (parts : Binary64.parts x = .finite negative significand power) :
    (ofFloat x).Denotes (signed negative (significand * 2 ^ power)) := by
  rw [ofFloat, parts]
  dsimp only
  split
  · next whole =>
    obtain ⟨exponent, rfl⟩ := Int.eq_ofNat_of_zero_le whole
    rw [Denotes, zpow_zero, mul_one, Int.toNat_natCast, Nat.pow_eq, zpow_natCast]
    push_cast
    rfl
  · next fractional =>
    obtain ⟨exponent, isExponent⟩ := Int.eq_ofNat_of_zero_le (show 0 ≤ -power by omega)
    have isPower : power = -(exponent : Int) := by omega
    subst isPower
    rw [Denotes, Int.neg_neg, Int.toNat_natCast, Nat.pow_eq, zpow_neg, zpow_neg, zpow_natCast,
      zpow_natCast]
    congr 1
    push_cast
    rw [show (10 : ℝ) = 5 * 2 by norm_num, mul_pow]
    field_simp

theorem wholePart_of_neg (coefficient places : Nat) :
    wholePart coefficient (-(places + 1 : Nat)) =
      (coefficient / 10 ^ (places + 1), coefficient % 10 ^ (places + 1) != 0) := by
  simp only [wholePart, Nat.pow_eq, Int.neg_neg, Int.toNat_natCast]
  rw [if_neg (by omega)]
  split
  · next short =>
    have less : coefficient < 10 ^ (places + 1) := by
      rcases Nat.eq_zero_or_pos coefficient with zero | positive
      · rw [zero]
        exact Nat.pow_pos (by decide)
      · exact (Rounding.decimalLength_spec coefficient positive).2.2.trans
          (Nat.pow_lt_pow_right (by decide) short)
    rw [Nat.div_eq_of_lt less, Nat.mod_eq_of_lt less]
  · rfl

/-- The whole part is the floor, and something follows it unless the decimal is an integer. -/
theorem wholePart_spec (coefficient : Nat) (power : Int) :
    let whole := wholePart coefficient power
    ⌊(coefficient * 10 ^ power : ℝ)⌋ = whole.1 ∧
      ⌈(coefficient * 10 ^ power : ℝ)⌉ = if whole.2 then (whole.1 : Int) + 1 else whole.1 := by
  intro whole
  rcases lt_or_ge power 0 with fractional | nonneg
  · obtain ⟨places, rfl⟩ : ∃ places : Nat, power = -(places + 1 : Nat) :=
      ⟨(-power).toNat - 1, by omega⟩
    have isWhole : whole = _ := wholePart_of_neg coefficient places
    rw [isWhole, zpow_neg, zpow_natCast, ← div_eq_mul_inv]
    generalize isUnit : 10 ^ (places + 1) = unit
    have unitPos : 0 < unit := isUnit ▸ Nat.pow_pos (by decide)
    have unitCast : (10 : ℝ) ^ (places + 1) = (unit : Nat) := by exact_mod_cast isUnit
    have unitPos' : (0 : ℝ) < unit := by exact_mod_cast unitPos
    rw [unitCast]
    obtain ⟨low, high⟩ := div_bounds coefficient unit unitPos
    refine ⟨Int.floor_eq_iff.mpr ⟨by exact_mod_cast low, by exact_mod_cast high⟩, ?_⟩
    have split' : (coefficient : ℝ) / unit =
        (coefficient / unit : Nat) + (coefficient % unit : Nat) / unit := by
      rw [eq_comm, ← eq_sub_iff_add_eq', div_eq_iff unitPos'.ne', sub_mul,
        div_mul_cancel₀ _ unitPos'.ne', eq_sub_iff_add_eq]
      exact_mod_cast Nat.mod_add_div' coefficient unit
    by_cases integral : coefficient % unit = 0
    · rw [integral, Nat.cast_zero, zero_div, add_zero] at split'
      simp [split', integral]
    · have rest : (0 : ℝ) < (coefficient % unit : Nat) / unit :=
        div_pos (by exact_mod_cast Nat.pos_of_ne_zero integral) unitPos'
      simp only [bne_iff_ne, ne_eq, integral, not_false_eq_true, if_true]
      rw [Int.ceil_eq_iff, Int.cast_add, Int.cast_one, Int.cast_natCast]
      constructor
      · linarith
      · linarith
  · obtain ⟨exponent, rfl⟩ := Int.eq_ofNat_of_zero_le nonneg
    have isWhole : whole = (coefficient * 10 ^ exponent, false) := by
      show wholePart _ _ = _
      rw [wholePart, if_pos nonneg, Int.toNat_natCast, Nat.pow_eq]
    have cast : (coefficient * 10 ^ (exponent : Int) : ℝ) = (coefficient * 10 ^ exponent : Nat) := by
      push_cast
      rw [zpow_natCast]
    rw [isWhole, cast, Int.floor_natCast, Int.ceil_natCast]
    exact ⟨rfl, rfl⟩

theorem ceil?_eq {a : Decimal} {x : ℝ} (denotes : a.Denotes x) : a.ceil? = some ⌈x⌉ := by
  cases a with
  | finite negative coefficient power =>
    obtain ⟨floor, ceil⟩ := wholePart_spec coefficient power
    rw [ceil?, denotes]
    cases negative with
    | true => simp [signed, Int.ceil_neg, floor]
    | false => simp [signed, ceil]
  | infinite => exact denotes.elim
  | nan => exact denotes.elim

/-! ## Rounding -/

/-- Half a unit of the last of all digits, relative to the first. -/
noncomputable def roundoff : ℝ := 1 / (2 * 10 ^ (precision - 1) : Nat)

/-- A number and what it is rounded to. -/
def Near (x y : ℝ) : Prop := |x - y| ≤ roundoff * |y|

theorem roundoff_eq : roundoff = 1 / (2 * 10 ^ (precision - 1)) := by
  rw [roundoff]
  push_cast
  rfl

theorem roundoff_nonneg : 0 ≤ roundoff := by
  rw [roundoff_eq]
  positivity

theorem Near.refl (x : ℝ) : Near x x := by
  rw [Near, sub_self, abs_zero]
  exact mul_nonneg roundoff_nonneg (abs_nonneg x)

theorem Near.signed {x y : ℝ} (near : Near x y) (negative : Bool) :
    Near (signed negative x) (signed negative y) := by
  cases negative with
  | false => exact near
  | true =>
    rw [Near, Decimal.signed, Decimal.signed, if_pos rfl, if_pos rfl, neg_sub_neg, abs_sub_comm,
      abs_neg]
    exact near

theorem roundoff_le : 2 * roundoff ≤ 1 / 100 := by
  rw [roundoff_eq, precision]
  norm_num

/-- What a number is rounded to is the number times a factor near one. -/
theorem Near.exists_factor {x y : ℝ} (near : Near x y) :
    ∃ factor, y = x * factor ∧ |factor - 1| ≤ 2 * roundoff := by
  have small := roundoff_le
  have nonneg := roundoff_nonneg
  rcases eq_or_ne x 0 with rfl | nonzero
  · have zero : y = 0 := by
      rw [Near, zero_sub, abs_neg] at near
      refine abs_nonpos_iff.mp ?_
      nlinarith [abs_nonneg y]
    exact ⟨1, by rw [zero, zero_mul], by rw [sub_self, abs_zero]; linarith⟩
  · refine ⟨y / x, (mul_div_cancel₀ y nonzero).symm, ?_⟩
    have apart : |y| ≤ 2 * |x| := by
      have triangle := abs_sub_abs_le_abs_sub y x
      rw [abs_sub_comm] at triangle
      have close : |x - y| ≤ roundoff * |y| := near
      nlinarith [abs_nonneg y]
    rw [div_sub_one nonzero, abs_div, div_le_iff₀ (abs_pos.mpr nonzero), abs_sub_comm]
    calc |x - y|
      _ ≤ roundoff * |y| := near
      _ ≤ roundoff * (2 * |x|) := mul_le_mul_of_nonneg_left apart nonneg
      _ = 2 * roundoff * |x| := by ring

theorem near_of_isRounding {x : ℝ} {value : Nat × Int} (rounding : IsRounding precision x value) :
    Near x (value.1 * 10 ^ value.2) := by
  have unit : (0 : ℝ) < 10 ^ value.2 := zpow_pos (by norm_num) _
  have low : (10 : ℝ) ^ (precision - 1) ≤ value.1 := by exact_mod_cast rounding.low
  have lead : (0 : ℝ) < 10 ^ (precision - 1) := by positivity
  rw [Near, roundoff_eq, abs_of_nonneg (show (0 : ℝ) ≤ value.1 * 10 ^ value.2 by positivity)]
  refine rounding.near.trans ?_
  rw [one_div_mul_eq_div, div_le_div_iff₀ two_pos (by positivity)]
  nlinarith

/-- Zero, or a size within the range of normal exponents. -/
def InRange (x : ℝ) : Prop :=
  x = 0 ∨ ((10 : Nat) : ℝ) ^ leastPower ≤ |x| ∧ |x| ≤ ((10 : Nat) : ℝ) ^ greatestPower

/-! ## Rounding to decimals -/

/-- The place of the last digit that is kept of a number. -/
noncomputable def lastPlace (x : ℝ) : Int := max (Int.log 10 |x| - precision + 1) lowestPower

/-- A number and the decimal that it is rounded to, if the exponent of that is not too large. -/
def RoundsTo (x z : ℝ) : Prop := RoundsAt (lastPlace x) x z

theorem lastPlace_abs (x : ℝ) : lastPlace |x| = lastPlace x := by
  rw [lastPlace, lastPlace, abs_abs]

theorem lastPlace_neg (x : ℝ) : lastPlace (-x) = lastPlace x := by
  rw [lastPlace, lastPlace, abs_neg]

theorem lastPlace_mono {x y : ℝ} (positive : 0 < x) (order : x ≤ y) : lastPlace x ≤ lastPlace y := by
  have leading := Int.log_mono_right (b := 10) positive order
  rw [lastPlace, lastPlace, abs_of_pos positive, abs_of_pos (positive.trans_le order)]
  omega

theorem lastPlace_of_normal {x : ℝ} (low : 10 ^ leastPower ≤ |x|) :
    lastPlace x = Int.log 10 |x| - precision + 1 := by
  have positive : 0 < |x| := (zpow_pos (by norm_num) _).trans_le low
  have leading : leastPower ≤ Int.log 10 |x| :=
    (Int.zpow_le_iff_le_log (by norm_num) positive).mp (by rwa [Nat.cast_ofNat])
  rw [lastPlace, lowestPower]
  omega

theorem lastPlace_le {x : ℝ} (nonzero : x ≠ 0) {power : Int} (above : lowestPower ≤ power)
    (high : |x| ≤ 10 ^ power) : lastPlace x ≤ power := by
  have long : (1 : Int) ≤ precision := by decide
  have leading : Int.log 10 |x| < power + 1 := by
    refine (Int.lt_zpow_iff_log_lt (by norm_num) (abs_pos.mpr nonzero)).mp ?_
    rw [Nat.cast_ofNat]
    exact high.trans_lt (zpow_lt_zpow_right₀ (by norm_num) (lt_add_one power))
  rw [lastPlace]
  omega

namespace RoundsTo

variable {x y z w : ℝ}

theorem exists_of (x : ℝ) : ∃ z, RoundsTo x z := RoundsAt.exists_of _ _

theorem neg (rounds : RoundsTo x z) : RoundsTo (-x) (-z) := by
  rw [RoundsTo, lastPlace_neg]
  exact RoundsAt.neg rounds

theorem signed (rounds : RoundsTo x z) (negative : Bool) :
    RoundsTo (signed negative x) (signed negative z) := by
  cases negative with
  | false => exact rounds
  | true => exact rounds.neg

theorem zero : RoundsTo 0 0 := RoundsAt.zero _

theorem nonneg (rounds : RoundsTo x z) (sign : 0 ≤ x) : 0 ≤ z := RoundsAt.nonneg rounds sign

theorem nonpos (rounds : RoundsTo x z) (sign : x ≤ 0) : z ≤ 0 :=
  neg_nonneg.mp (rounds.neg.nonneg (neg_nonneg.mpr sign))

theorem le_of_pos (first : RoundsTo x z) (second : RoundsTo y w) (positive : 0 < x)
    (order : x ≤ y) : z ≤ w := by
  have positive' := positive.trans_le order
  refine RoundsAt.le_of_digits first second (by decide : 0 < precision) positive order
    (lastPlace_mono positive order) ?_ ?_
  · rw [lastPlace, abs_of_pos positive]
    exact le_max_left _ _
  · intro less
    rw [lastPlace, lastPlace, abs_of_pos positive, abs_of_pos positive'] at less
    rw [lastPlace, abs_of_pos positive']
    omega

/-- Rounding to a decimal keeps the order of numbers. -/
theorem le (first : RoundsTo x z) (second : RoundsTo y w) (order : x ≤ y) : z ≤ w := by
  rcases lt_or_ge 0 x with positive | nonpos
  · exact first.le_of_pos second positive order
  · rcases lt_or_ge y 0 with negative | nonneg
    · have reversed := second.neg.le_of_pos first.neg (neg_pos.mpr negative) (neg_le_neg order)
      exact neg_le_neg_iff.mp reversed
    · exact (first.nonpos nonpos).trans (second.nonneg nonneg)

theorem unique (first : RoundsTo x z) (second : RoundsTo x w) : z = w :=
  RoundsAt.unique first second

theorem abs (rounds : RoundsTo x z) : RoundsTo |x| |z| := by
  rcases le_total 0 x with sign | sign
  · rwa [abs_of_nonneg sign, abs_of_nonneg (rounds.nonneg sign)]
  · rw [abs_of_nonpos sign, abs_of_nonpos (rounds.nonpos sign)]
    exact rounds.neg

theorem of_pow {power : Int} (above : lowestPower ≤ power) :
    RoundsTo (10 ^ power) (10 ^ power) := by
  have positive : (0 : ℝ) < 10 ^ power := zpow_pos (by norm_num) _
  exact RoundsAt.of_pow (lastPlace_le positive.ne' above (abs_of_pos positive).le)

theorem abs_le_pow (rounds : RoundsTo x z) {power : Int} (above : lowestPower ≤ power)
    (high : |x| ≤ 10 ^ power) : |z| ≤ 10 ^ power :=
  rounds.abs.le (of_pow above) high

/-- A rounded number has no more digits than the precision. -/
theorem exists_short (rounds : RoundsTo x z) :
    ∃ (coefficient : Nat) (power : Int), coefficient < 10 ^ precision ∧
      |z| = coefficient * 10 ^ power := by
  have high := Int.lt_zpow_succ_log_self (b := 10) (by norm_num) |x|
  rw [Nat.cast_ofNat] at high
  have digits : Int.log 10 |x| + 1 ≤ lastPlace x + precision := by
    rw [lastPlace]
    omega
  have most : |z| ≤ 10 ^ (lastPlace x + precision) := by
    refine RoundsAt.le_pow rounds.abs ?_ (high.le.trans (zpow_le_zpow_right₀ (by norm_num) digits))
    rw [lastPlace_abs]
    omega
  obtain ⟨n, -, rfl⟩ := rounds
  rw [Nat.cast_ofNat] at most ⊢
  have unit : (0 : ℝ) < 10 ^ lastPlace x := zpow_pos (by norm_num) _
  have size : |(n * 10 ^ lastPlace x : ℝ)| = n.natAbs * 10 ^ lastPlace x := by
    rw [abs_mul, abs_of_pos unit, Nat.cast_natAbs, Int.cast_abs]
  rw [size] at most ⊢
  rw [zpow_add₀ (by norm_num), mul_comm ((10 : ℝ) ^ lastPlace x), zpow_natCast] at most
  have most' : n.natAbs ≤ 10 ^ precision := by exact_mod_cast le_of_mul_le_mul_right most unit
  rcases most'.lt_or_eq with less | equal
  · exact ⟨n.natAbs, lastPlace x, less, rfl⟩
  · refine ⟨1, precision + lastPlace x, Nat.one_lt_pow (by decide) (by decide), ?_⟩
    rw [equal, Nat.cast_one, one_mul, zpow_add₀ (by norm_num), zpow_natCast]
    push_cast
    rfl

/-- Within the range of normal exponents the error is at most a unit of roundoff. -/
theorem near (rounds : RoundsTo x z) (low : 10 ^ leastPower ≤ |x|) : Near x z := by
  have positive : 0 < |x| := (zpow_pos (by norm_num) _).trans_le low
  have place := lastPlace_of_normal low
  have leading := Int.zpow_log_le_self (b := 10) (by norm_num) positive
  rw [Nat.cast_ofNat] at leading
  have size : (10 : ℝ) ^ Int.log 10 |x| ≤ |z| := by
    refine RoundsAt.pow_le rounds.abs ?_ leading
    rw [lastPlace_abs, place, precision]
    omega
  have unit : (10 : ℝ) ^ lastPlace x * 10 ^ (precision - 1) = 10 ^ Int.log 10 |x| := by
    rw [← zpow_natCast, ← zpow_add₀ (by norm_num), place, precision]
    congr 1
    omega
  rw [Near, roundoff_eq]
  calc |x - z|
    _ ≤ 10 ^ lastPlace x / 2 := RoundsAt.near rounds
    _ = 1 / (2 * 10 ^ (precision - 1)) * 10 ^ Int.log 10 |x| := by
      rw [← unit]
      field_simp
    _ ≤ 1 / (2 * 10 ^ (precision - 1)) * |z| := by gcongr

end RoundsTo

theorem InRange.abs_lt {x z : ℝ} (range : InRange x) (rounds : RoundsTo x z) :
    |z| < 10 ^ (greatestPower + 1) := by
  have positive : (0 : ℝ) < 10 ^ greatestPower := zpow_pos (by norm_num) _
  have high : |x| ≤ 10 ^ greatestPower := by
    rcases range with rfl | ⟨-, high⟩
    · rw [abs_zero]
      exact positive.le
    · rwa [Nat.cast_ofNat] at high
  calc |z|
    _ ≤ 10 ^ greatestPower := rounds.abs_le_pow (by decide) high
    _ < 10 ^ (greatestPower + 1) := zpow_lt_zpow_right₀ (by norm_num) (lt_add_one _)

theorem InRange.near {x z : ℝ} (range : InRange x) (rounds : RoundsTo x z) : Near x z := by
  rcases range with rfl | ⟨low, -⟩
  · rw [rounds.unique .zero]
    exact Near.refl 0
  · rw [Nat.cast_ofNat] at low
    exact rounds.near low

/-! ## Operations -/

/-- The result of an operation that is rounded to `z`, unless the exponent is too large. -/
structure Gives (result : Except DecimalSignal Decimal) (z : ℝ) : Prop where
  overflow : ((10 : Nat) : ℝ) ^ (greatestPower + 1) ≤ |z| → result = .error .overflow
  value : |z| < ((10 : Nat) : ℝ) ^ (greatestPower + 1) → ∃ a, result = .ok a ∧ a.Denotes z

theorem leading_bounds {coefficient : Nat} (power : Int) (positive : 0 < coefficient) :
    (10 : ℝ) ^ leading coefficient power ≤ coefficient * 10 ^ power ∧
      (coefficient * 10 ^ power : ℝ) < 10 ^ (leading coefficient power + 1) := by
  obtain ⟨low, high⟩ := Rounding.decimalLength_bounds coefficient positive
  have unit : (0 : ℝ) < 10 ^ power := zpow_pos (by norm_num) power
  have isLeading :
      leading coefficient power = (Rounding.decimalLength coefficient : Int) - 1 + power := by
    unfold leading
    ring
  have isNext :
      leading coefficient power + 1 = (Rounding.decimalLength coefficient : Int) + power := by
    unfold leading
    ring
  rw [isNext, isLeading, zpow_add₀ (by norm_num), zpow_add₀ (by norm_num)]
  exact ⟨mul_le_mul_of_nonneg_right low unit.le, mul_lt_mul_of_pos_right high unit⟩

theorem gives_zero (negative : Bool) (power : Int) : Gives (.ok (.finite negative 0 power)) 0 where
  overflow large := by
    rw [abs_zero] at large
    exact absurd large (not_le.mpr (zpow_pos (by norm_num) _))
  value _ := ⟨_, rfl, by rw [Denotes, Nat.cast_zero, zero_mul, signed_zero]⟩

theorem gives_unlessTooLarge (negative : Bool) {coefficient : Nat} (positive : 0 < coefficient)
    (power : Int) :
    Gives (unlessTooLarge negative (coefficient, power))
      (signed negative (coefficient * 10 ^ power)) := by
  obtain ⟨low, high⟩ := leading_bounds power positive
  have size : |signed negative (coefficient * 10 ^ power)| = (coefficient * 10 ^ power : ℝ) :=
    abs_signed negative (by positivity)
  refine ⟨fun large => if_pos ?_, fun small => ⟨_, if_neg ?_, by rw [Denotes, Nat.cast_ofNat]⟩⟩
  · rw [size, Nat.cast_ofNat] at large
    have := (zpow_lt_zpow_iff_right₀ (by norm_num)).mp (large.trans_lt high)
    dsimp only
    omega
  · rw [size, Nat.cast_ofNat] at small
    have := (zpow_lt_zpow_iff_right₀ (by norm_num)).mp (low.trans_lt small)
    dsimp only
    omega

theorem gives_unlessTooLarge_zero (negative : Bool) {power : Int} (fits : power ≤ greatestPower) :
    Gives (unlessTooLarge negative (0, power)) 0 := by
  have length : Rounding.decimalLength 0 = 1 := rfl
  have kept : unlessTooLarge negative (0, power) = .ok (.finite negative 0 power) := by
    refine if_neg ?_
    rw [leading, length]
    omega
  rw [kept]
  exact gives_zero negative power

section Ratios

variable {num den : Nat} (numPos : 0 < num) (denPos : 0 < den) (power : Int)

include numPos denPos

theorem log_ratio :
    Int.log 10 |(num / den * 10 ^ power : ℝ)| = Rounding.leadingPower num den + power := by
  have ratioPos : (0 : ℝ) < num / den := by positivity
  rw [abs_of_pos (by positivity), Rounding.log_mul_zpow ratioPos, Rounding.log_div numPos denPos]

theorem gives_ofRatio (negative : Bool) {z : ℝ} (rounds : RoundsTo (num / den * 10 ^ power) z) :
    Gives (ofRatio negative num den power) (signed negative z) := by
  have positive : (0 : ℝ) < num / den * 10 ^ power := by positivity
  have lead := log_ratio numPos denPos power
  have place : lastPlace (num / den * 10 ^ power) =
      max (Rounding.leadingPower num den + power - precision + 1) lowestPower := by
    rw [lastPlace, lead]
  have high := Int.lt_zpow_succ_log_self (b := 10) (by norm_num) |(num / den * 10 ^ power : ℝ)|
  rw [lead, abs_of_pos positive, Nat.cast_ofNat] at high
  have low := Int.zpow_log_le_self (b := 10) (by norm_num) (abs_pos.mpr positive.ne')
  rw [lead, abs_of_pos positive, Nat.cast_ofNat] at low
  have digits : (1 : Int) ≤ precision := by decide
  rw [RoundsTo, place] at rounds
  simp only [ofRatio]
  generalize isLast :
    max (Rounding.leadingPower num den + power - precision + 1) lowestPower = last at *
  split
  · next tiny =>
    rw [rounds.eq_zero_of_lt positive.le high tiny, signed_zero]
    exact gives_zero _ _
  · have units := (Rounding.toUnits_roundsAt (by decide : 0 < precision) num denPos
      (last - power)).shift power
    rw [sub_add_cancel, mul_assoc, ← zpow_add₀ (by norm_num)] at units
    have top := Rounding.toUnits_place precision num den (last - power)
    generalize Rounding.toUnits precision num den (last - power) = value at *
    rw [rounds.unique units]
    rcases Nat.eq_zero_or_pos value.1 with none | some
    · -- only below the range of normal exponents can all digits be lost
      have lost := (units.eq_zero_iff positive.le).mp (by rw [none, Nat.cast_zero, zero_mul])
      have smaller : (10 : ℝ) ^ (Rounding.leadingPower num den + power) < 10 ^ last := by
        have unit : (0 : ℝ) < 10 ^ last := zpow_pos (by norm_num) _
        linarith
      have below := (zpow_lt_zpow_iff_right₀ (by norm_num)).mp smaller
      rw [none, Nat.cast_zero, zero_mul, signed_zero]
      have fits : value.2 + power ≤ greatestPower := by
        rw [lowestPower, leastPower, precision] at isLast
        rw [greatestPower]
        omega
      have zero := gives_unlessTooLarge_zero negative fits
      rwa [← none] at zero
    · exact gives_unlessTooLarge negative some (value.2 + power)

end Ratios

/-- Digits that are not more than the precision, above the lowest place, are all kept. -/
theorem RoundsTo.of_short {coefficient : Nat} (positive : 0 < coefficient)
    (short : Rounding.decimalLength coefficient ≤ precision) {power : Int}
    (above : lowestPower ≤ power) :
    RoundsTo (coefficient * 10 ^ power) (coefficient * 10 ^ power) := by
  obtain ⟨-, high⟩ := leading_bounds power positive
  have top : Int.log 10 |(coefficient * 10 ^ power : ℝ)| < leading coefficient power + 1 := by
    refine (Int.lt_zpow_iff_log_lt (by norm_num) (by positivity)).mp ?_
    rwa [abs_of_pos (by positivity), Nat.cast_ofNat]
  rw [leading] at top
  have place : lastPlace (coefficient * 10 ^ power) ≤ power := by
    rw [lastPlace]
    omega
  exact RoundsAt.of_multiple coefficient place

/-- The decimal of a sign, digits and a power, rounded to the precision. -/
theorem gives_rounded (negative : Bool) (coefficient : Nat) (power : Int) {z : ℝ}
    (rounds : RoundsTo (coefficient * 10 ^ power) z) :
    Gives (rounded negative coefficient power) (signed negative z) := by
  rw [rounded]
  split
  · next none =>
    rw [none, Nat.cast_zero, zero_mul] at rounds
    rw [rounds.unique .zero, signed_zero]
    exact gives_zero _ _
  · next some =>
    have positive := Nat.pos_of_ne_zero some
    split
    · next short =>
      rw [rounds.unique (.of_short positive short.1 short.2)]
      exact gives_unlessTooLarge negative positive power
    · refine gives_ofRatio positive one_pos power negative ?_
      rwa [Nat.cast_one, div_one]

/-- A finite decimal has a sign, digits and a power. -/
theorem Denotes.exists_finite {a : Decimal} {x : ℝ} (denotes : a.Denotes x) :
    ∃ negative coefficient power, a = .finite negative coefficient power ∧
      x = signed negative (coefficient * 10 ^ power) := by
  cases a with
  | finite negative coefficient power => exact ⟨negative, coefficient, power, rfl, denotes⟩
  | infinite => exact denotes.elim
  | nan => exact denotes.elim

theorem Denotes.exists_positive {a : Decimal} {x : ℝ} (denotes : a.Denotes x) (positive : 0 < x) :
    ∃ coefficient power, a = .finite false coefficient power ∧ 0 < coefficient ∧
      x = coefficient * 10 ^ power := by
  obtain ⟨negative, coefficient, power, rfl, rfl⟩ := denotes.exists_finite
  have size : (0 : ℝ) ≤ coefficient * 10 ^ power := by positivity
  cases negative with
  | true => exact absurd positive (not_lt.mpr (neg_nonpos.mpr size))
  | false =>
    refine ⟨coefficient, power, rfl, Nat.pos_of_ne_zero fun zero => positive.ne' ?_, rfl⟩
    rw [zero, Nat.cast_zero, zero_mul, signed_zero]

section Operations

variable {a b : Decimal} {x y z : ℝ}

theorem gives_mul (first : a.Denotes x) (second : b.Denotes y) (rounds : RoundsTo (x * y) z) :
    Gives (a.mul b) z := by
  obtain ⟨aNegative, a, aPower, rfl, rfl⟩ := first.exists_finite
  obtain ⟨bNegative, b, bPower, rfl, rfl⟩ := second.exists_finite
  have size : (a * 10 ^ aPower * (b * 10 ^ bPower) : ℝ) = (a * b : Nat) * 10 ^ (aPower + bPower) := by
    rw [zpow_add₀ (by norm_num)]
    push_cast
    ring
  rw [signed_mul, size] at rounds
  obtain ⟨w, rounds'⟩ := RoundsTo.exists_of ((a * b : Nat) * 10 ^ (aPower + bPower))
  rw [rounds.unique (rounds'.signed _)]
  exact gives_rounded _ _ _ rounds'

theorem gives_div (first : a.Denotes x) (second : b.Denotes y) (nonzero : y ≠ 0)
    (rounds : RoundsTo (x / y) z) : Gives (a.div b) z := by
  obtain ⟨aNegative, a, aPower, rfl, rfl⟩ := first.exists_finite
  obtain ⟨bNegative, b, bPower, rfl, rfl⟩ := second.exists_finite
  have bPos : 0 < b := by
    refine Nat.pos_of_ne_zero fun zero => nonzero ?_
    rw [zero, Nat.cast_zero, zero_mul, signed_zero]
  have same : (a * 10 ^ aPower / (b * 10 ^ bPower) : ℝ) = a / b * 10 ^ (aPower - bPower) := by
    rw [zpow_sub₀ (by norm_num), div_mul_div_comm]
  rw [signed_div, same] at rounds
  show Gives (if b = 0 then _ else if a = 0 then _ else _) z
  rw [if_neg bPos.ne']
  split
  · next none =>
    rw [none, Nat.cast_zero, zero_div, zero_mul, signed_zero] at rounds
    rw [rounds.unique .zero]
    exact gives_zero _ _
  · next some =>
    obtain ⟨w, rounds'⟩ := RoundsTo.exists_of (a / b * 10 ^ (aPower - bPower))
    rw [rounds.unique (rounds'.signed _)]
    exact gives_ofRatio (Nat.pos_of_ne_zero some) bPos _ _ rounds'

theorem mul_near (first : a.Denotes x) (second : b.Denotes y) (range : InRange (x * y)) :
    ∃ product z, a.mul b = .ok product ∧ product.Denotes z ∧ Near (x * y) z := by
  obtain ⟨z, rounds⟩ := RoundsTo.exists_of (x * y)
  obtain ⟨product, found, denotes⟩ := (gives_mul first second rounds).value (by
    rw [Nat.cast_ofNat]
    exact range.abs_lt rounds)
  exact ⟨product, z, found, denotes, range.near rounds⟩

theorem div_near (first : a.Denotes x) (second : b.Denotes y) (nonzero : y ≠ 0)
    (range : InRange (x / y)) :
    ∃ quotient z, a.div b = .ok quotient ∧ quotient.Denotes z ∧ Near (x / y) z := by
  obtain ⟨z, rounds⟩ := RoundsTo.exists_of (x / y)
  obtain ⟨quotient, found, denotes⟩ := (gives_div first second nonzero rounds).value (by
    rw [Nat.cast_ofNat]
    exact range.abs_lt rounds)
  exact ⟨quotient, z, found, denotes, range.near rounds⟩

theorem log10_near (denotes : a.Denotes x) (positive : 0 < x) :
    ∃ logarithm z, a.log10 = .ok logarithm ∧ logarithm.Denotes z ∧ Near (Real.logb 10 x) z := by
  obtain ⟨coefficient, power, rfl, coefficientPos, rfl⟩ := denotes.exists_positive positive
  rcases log10_cases coefficientPos power with ⟨n, isInteger, found⟩ | ⟨value, found, sign, rounding⟩
  · refine ⟨_, _, found, ofInt_denotes n, ?_⟩
    rw [isInteger]
    exact Near.refl _
  · refine ⟨_, _, found, rfl, ?_⟩
    have near := (near_of_isRounding rounding).signed value.1
    rwa [signed_abs sign] at near

/-- The logarithm is rounded as all results are, unless it is an integer of too many digits. -/
theorem log10_roundsTo (denotes : a.Denotes x) (positive : 0 < x) (range : InRange (Real.logb 10 x))
    (few : |Real.logb 10 x| < 10 ^ precision) (rounds : RoundsTo (Real.logb 10 x) z) :
    ∃ logarithm, a.log10 = .ok logarithm ∧ logarithm.Denotes z := by
  obtain ⟨coefficient, power, rfl, coefficientPos, rfl⟩ := denotes.exists_positive positive
  rcases log10_cases coefficientPos power with ⟨n, isInteger, found⟩ | ⟨value, found, sign, rounding⟩
  · refine ⟨_, found, ?_⟩
    rw [isInteger] at rounds few
    have whole : RoundsTo n n := by
      rcases eq_or_ne n 0 with rfl | nonzero
      · rw [Int.cast_zero]
        exact .zero
      · have digits : Int.log 10 |(n : ℝ)| < precision := by
          refine (Int.lt_zpow_iff_log_lt (by norm_num) (abs_pos.mpr (by exact_mod_cast nonzero))).mp ?_
          rwa [Nat.cast_ofNat, zpow_natCast]
        have place : lastPlace n ≤ 0 := by
          rw [lastPlace, max_le_iff]
          exact ⟨by omega, by decide⟩
        have multiple := RoundsAt.of_multiple n place
        rwa [zpow_zero, mul_one] at multiple
    rw [rounds.unique whole]
    exact ofInt_denotes n
  · refine ⟨_, found, ?_⟩
    have low : 10 ^ leastPower ≤ |Real.logb 10 (coefficient * 10 ^ power)| := by
      rcases range with zero | ⟨low, -⟩
      · exact absurd (abs_eq_zero.mpr zero) rounding.positive.ne'
      · rwa [Nat.cast_ofNat] at low
    have size : RoundsTo |Real.logb 10 (coefficient * 10 ^ power)| (value.2.1 * 10 ^ value.2.2) := by
      rw [RoundsTo, lastPlace_abs, lastPlace_of_normal low]
      exact rounding.rounds
    have whole := size.signed value.1
    rw [signed_abs sign] at whole
    rw [rounds.unique whole, Denotes, Nat.cast_ofNat]

end Operations

/-! ## Logarithms of short decimals -/

theorem last_digit_le {places : Nat} (few : places ≤ precision) :
    (1 : ℝ) / 10 ^ precision ≤ 1 / 10 ^ places := by
  gcongr
  norm_num

theorem last_digit_le_tenth : (1 : ℝ) / 10 ^ precision ≤ 1 / 10 := by
  simpa using @last_digit_le 1 (by decide)

/-- A fraction of no more digits than the precision that is less than one. -/
theorem fraction_below_one {coefficient places : Nat} (short : coefficient < 10 ^ precision)
    (less : coefficient < 10 ^ places) :
    (coefficient / 10 ^ places : ℝ) ≤ 1 - 1 / 10 ^ precision := by
  have unit : (0 : ℝ) < 10 ^ places := by positivity
  rcases Nat.lt_or_ge precision places with many | few
  · have small : (coefficient / 10 ^ places : ℝ) ≤ 1 / 10 := by
      rw [div_le_div_iff₀ unit (by norm_num), one_mul]
      have : coefficient * 10 ≤ 10 ^ places := by
        calc coefficient * 10
          _ ≤ 10 ^ precision * 10 := Nat.mul_le_mul_right 10 short.le
          _ = 10 ^ (precision + 1) := (pow_succ 10 precision).symm
          _ ≤ 10 ^ places := Nat.pow_le_pow_right (by decide) many
      exact_mod_cast this
    linarith [last_digit_le_tenth]
  · have next : (coefficient : ℝ) + 1 ≤ 10 ^ places := by exact_mod_cast Nat.succ_le_of_lt less
    refine le_trans ?_ (sub_le_sub_left (last_digit_le few) 1)
    rw [le_sub_iff_add_le, ← add_div, div_le_one unit]
    exact next

/-- A fraction of no more digits than the precision that is more than one. -/
theorem fraction_above_one {coefficient places : Nat} (short : coefficient < 10 ^ precision)
    (more : 10 ^ places < coefficient) :
    1 + 1 / 10 ^ precision ≤ (coefficient / 10 ^ places : ℝ) := by
  have unit : (0 : ℝ) < 10 ^ places := by positivity
  have few : places ≤ precision :=
    ((Nat.pow_lt_pow_iff_right (by decide)).mp (more.trans short)).le
  refine (add_le_add_right (last_digit_le few) 1).trans ?_
  rw [one_add_div unit.ne', div_le_div_iff_of_pos_right unit]
  exact_mod_cast more

/-- A decimal of no more digits than the precision is one, or differs from one by a unit of the last
of these digits. -/
theorem apart_from_one {coefficient : Nat} (short : coefficient < 10 ^ precision) (power : Int) :
    let x : ℝ := coefficient * 10 ^ power
    (x < 1 → x ≤ 1 - 1 / 10 ^ precision) ∧ (1 < x → 1 + 1 / 10 ^ precision ≤ x) := by
  intro x
  rcases lt_or_ge power 0 with fractional | nonneg
  · obtain ⟨places, rfl⟩ : ∃ places : Nat, power = -(places : Nat) := ⟨(-power).toNat, by omega⟩
    have unit : (0 : ℝ) < 10 ^ places := by positivity
    have isRatio : x = coefficient / 10 ^ places := by
      show (coefficient * 10 ^ (-(places : Int)) : ℝ) = _
      rw [zpow_neg, zpow_natCast, div_eq_mul_inv]
    rw [isRatio, div_lt_one unit, one_lt_div unit]
    constructor
    · intro less
      exact fraction_below_one short (by exact_mod_cast less)
    · intro more
      exact fraction_above_one short (by exact_mod_cast more)
  · obtain ⟨exponent, rfl⟩ := Int.eq_ofNat_of_zero_le nonneg
    have isWhole : x = (coefficient * 10 ^ exponent : Nat) := by
      show (coefficient * 10 ^ (exponent : Int) : ℝ) = _
      push_cast
      rw [zpow_natCast]
    rw [isWhole]
    have tenth := last_digit_le_tenth
    constructor
    · intro less
      have none : coefficient * 10 ^ exponent = 0 := by
        have : coefficient * 10 ^ exponent < 1 := by exact_mod_cast less
        omega
      rw [none, Nat.cast_zero]
      linarith
    · intro more
      have two : 2 ≤ coefficient * 10 ^ exponent := by exact_mod_cast more
      have two' : (2 : ℝ) ≤ (coefficient * 10 ^ exponent : Nat) := by exact_mod_cast two
      linarith

/-- So the logarithm of a short decimal is zero or not too small. -/
theorem le_abs_logb {coefficient : Nat} (positive : 0 < coefficient)
    (short : coefficient < 10 ^ precision) (power : Int)
    (notOne : (coefficient * 10 ^ power : ℝ) ≠ 1) :
    1 / (100 * 10 ^ precision) ≤ |Real.logb 10 (coefficient * 10 ^ power)| := by
  obtain ⟨below, above⟩ := apart_from_one short power
  have positive' : (0 : ℝ) < coefficient * 10 ^ power := by positivity
  have unitPos : (0 : ℝ) < 1 / 10 ^ precision := by positivity
  have unitSmall : (1 : ℝ) / 10 ^ precision ≤ 1 := by
    rw [precision]
    norm_num
  rw [← div_div, div_right_comm]
  generalize (coefficient * 10 ^ power : ℝ) = x at *
  generalize (1 : ℝ) / 10 ^ precision = unit at *
  have natural : unit / 2 ≤ |Real.log x| := by
    rcases lt_or_gt_of_ne notOne with less | more
    · have bound := Real.log_le_sub_one_of_pos positive'
      rw [le_abs]
      exact .inr (by linarith [below less])
    · have bound := Real.one_sub_inv_le_log_of_pos positive'
      have inverse : x⁻¹ ≤ 1 - unit / 2 := by
        rw [inv_le_iff_one_le_mul₀ positive']
        nlinarith [above more]
      rw [le_abs]
      exact .inl (by linarith)
  have ten : 0 < Real.log 10 := Real.log_pos (by norm_num)
  have tenSmall : Real.log 10 ≤ 9 := by
    have := Real.log_le_sub_one_of_pos (show (0 : ℝ) < 10 by norm_num)
    linarith
  rw [Real.logb, abs_div, abs_of_pos ten, le_div_iff₀ ten]
  calc unit / 100 * Real.log 10
    _ ≤ unit / 100 * 9 := by gcongr
    _ ≤ unit / 2 := by linarith
    _ ≤ |Real.log x| := natural

end QuantumResources.Decimal
