import QuantumResources.Proofs.Number.Nearest

/-! Ratios rounded to a number of significant decimal digits.

The rounded digits are at most half a unit of the last one away from the ratio. Where the ratio is not
just between two of them, all ratios near it are rounded to the same digits. -/

namespace QuantumResources.Rounding

/-! ## Powers of ten -/

theorem lengthWithin_spec (fuel n : Nat) (positive : 0 < n) (enough : n < 10 ^ (fuel + 1)) :
    0 < lengthWithin fuel n ∧ 10 ^ (lengthWithin fuel n - 1) ≤ n ∧
      n < 10 ^ lengthWithin fuel n := by
  induction fuel generalizing n with
  | zero => exact ⟨one_pos, positive, enough⟩
  | succ fuel ih =>
    unfold lengthWithin
    split
    · next short => exact ⟨one_pos, positive, by simpa using short⟩
    · next long =>
      have shorter : n / 10 < 10 ^ (fuel + 1) := by
        rw [Nat.div_lt_iff_lt_mul (by decide), ← pow_succ]
        exact enough
      obtain ⟨some, low, high⟩ := ih (n / 10) (by omega) shorter
      rw [Nat.le_div_iff_mul_le (by decide), ← pow_succ, Nat.sub_add_cancel some] at low
      rw [Nat.div_lt_iff_lt_mul (by decide), ← pow_succ] at high
      exact ⟨Nat.succ_pos _, low, high⟩

theorem decimalLength_spec (n : Nat) (positive : 0 < n) :
    0 < decimalLength n ∧ 10 ^ (decimalLength n - 1) ≤ n ∧ n < 10 ^ decimalLength n := by
  refine lengthWithin_spec n.log2 n positive (Nat.lt_of_lt_of_le Nat.lt_log2_self ?_)
  exact Nat.pow_le_pow_left (by decide) _

theorem decimalLength_le {n digits : Nat} (positive : 0 < n) (high : n < 10 ^ digits) :
    decimalLength n ≤ digits := by
  obtain ⟨-, low, -⟩ := decimalLength_spec n positive
  have := (Nat.pow_lt_pow_iff_right (by decide)).mp (low.trans_lt high)
  omega

theorem decimalLength_bounds (n : Nat) (positive : 0 < n) :
    (10 : ℝ) ^ ((decimalLength n : Int) - 1) ≤ n ∧ (n : ℝ) < 10 ^ (decimalLength n : Int) := by
  obtain ⟨some, low, high⟩ := decimalLength_spec n positive
  constructor
  · rw [← Nat.cast_pred some, zpow_natCast]
    exact_mod_cast low
  · rw [zpow_natCast]
    exact_mod_cast high

theorem scaleTen_spec (num den : Nat) (power : Int) (positive : 0 < den) :
    0 < (scaleTen num den power).2 ∧
      ((scaleTen num den power).1 / (scaleTen num den power).2 : ℝ) = num / den * 10 ^ power := by
  unfold scaleTen
  split
  · next raised =>
    obtain ⟨shift, rfl⟩ := Int.eq_ofNat_of_zero_le raised
    refine ⟨positive, ?_⟩
    rw [Int.toNat_natCast, Nat.pow_eq, zpow_natCast]
    push_cast
    ring
  · next lowered =>
    obtain ⟨shift, isShift⟩ := Int.eq_ofNat_of_zero_le (show 0 ≤ -power by omega)
    have isPower : power = -(shift : Int) := by omega
    subst isPower
    refine ⟨Nat.mul_pos positive (Nat.pow_pos (by decide)), ?_⟩
    rw [Int.neg_neg, Int.toNat_natCast, Nat.pow_eq, zpow_neg, zpow_natCast]
    push_cast
    rw [div_mul_eq_div_div, div_eq_mul_inv (num / den : ℝ)]

/-- The leading power of a ratio is the power of ten just below it. -/
theorem leadingPower_spec (num den : Nat) (numPos : 0 < num) (denPos : 0 < den) :
    (10 : ℝ) ^ leadingPower num den ≤ num / den ∧
      (num / den : ℝ) < 10 ^ (leadingPower num den + 1) := by
  obtain ⟨numLow, numHigh⟩ := decimalLength_bounds num numPos
  obtain ⟨denLow, denHigh⟩ := decimalLength_bounds den denPos
  have den' : (0 : ℝ) < den := by exact_mod_cast denPos
  have ten : (0 : ℝ) < 10 := by norm_num
  simp only [leadingPower]
  generalize isGuess : (decimalLength num : Int) - decimalLength den = guess
  obtain ⟨scaledPos, scaled⟩ := scaleTen_spec num den (-guess) denPos
  have scaledPos' : (0 : ℝ) < (scaleTen num den (-guess)).2 := by exact_mod_cast scaledPos
  have shifted : (scaleTen num den (-guess)).1 < (scaleTen num den (-guess)).2 ↔
      (num / den : ℝ) < 10 ^ guess := by
    rw [← Nat.cast_lt (α := ℝ), ← div_lt_one scaledPos', scaled, zpow_neg, ← div_eq_mul_inv,
      div_lt_one (zpow_pos ten _)]
  have upper : (num / den : ℝ) < 10 ^ (guess + 1) := by
    rw [div_lt_iff₀ den']
    calc (num : ℝ)
      _ < 10 ^ (decimalLength num : Int) := numHigh
      _ = 10 ^ (guess + 1) * 10 ^ ((decimalLength den : Int) - 1) := by
        rw [← zpow_add₀ ten.ne']
        congr 1
        omega
      _ ≤ 10 ^ (guess + 1) * den := mul_le_mul_of_nonneg_left denLow (zpow_pos ten _).le
  have lower : (10 : ℝ) ^ (guess - 1) ≤ num / den := by
    rw [le_div_iff₀ den']
    calc (10 : ℝ) ^ (guess - 1) * den
      _ ≤ 10 ^ (guess - 1) * 10 ^ (decimalLength den : Int) :=
        mul_le_mul_of_nonneg_left denHigh.le (zpow_pos ten _).le
      _ = 10 ^ ((decimalLength num : Int) - 1) := by
        rw [← zpow_add₀ ten.ne']
        congr 1
        omega
      _ ≤ num := numLow
  split
  · next small =>
    refine ⟨lower, ?_⟩
    rw [Int.sub_add_cancel]
    exact shifted.mp small
  · next large => exact ⟨not_lt.mp (fun small => large (shifted.mpr small)), upper⟩

theorem leadingPower_eq {num den : Nat} (numPos : 0 < num) (denPos : 0 < den) {power : Int}
    (low : (10 : ℝ) ^ power ≤ num / den) (high : (num / den : ℝ) < 10 ^ (power + 1)) :
    leadingPower num den = power := by
  obtain ⟨ownLow, ownHigh⟩ := leadingPower_spec num den numPos denPos
  have ten : (1 : ℝ) < 10 := by norm_num
  have below := (zpow_lt_zpow_iff_right₀ ten).mp (ownLow.trans_lt high)
  have above := (zpow_lt_zpow_iff_right₀ ten).mp (low.trans_lt ownHigh)
  omega

theorem log_div {num den : Nat} (numPos : 0 < num) (denPos : 0 < den) :
    Int.log 10 (num / den : ℝ) = leadingPower num den := by
  have ratioPos : (0 : ℝ) < num / den := by positivity
  have low := Int.zpow_log_le_self (b := 10) (by norm_num) ratioPos
  have high := Int.lt_zpow_succ_log_self (b := 10) (by norm_num) (num / den : ℝ)
  rw [Nat.cast_ofNat] at low high
  exact (leadingPower_eq numPos denPos low high).symm

theorem log_mul_zpow {x : ℝ} (positive : 0 < x) (power : Int) :
    Int.log 10 (x * 10 ^ power) = Int.log 10 x + power := by
  have ten : (0 : ℝ) < 10 := by norm_num
  have unit : (0 : ℝ) < 10 ^ power := zpow_pos ten _
  have low := Int.zpow_log_le_self (b := 10) (by norm_num) positive
  have high := Int.lt_zpow_succ_log_self (b := 10) (by norm_num) x
  rw [Nat.cast_ofNat] at low high
  apply le_antisymm
  · rw [← Int.lt_add_one_iff, ← Int.lt_zpow_iff_log_lt (by norm_num) (mul_pos positive unit),
      add_right_comm, Nat.cast_ofNat, zpow_add₀ ten.ne']
    exact mul_lt_mul_of_pos_right high unit
  · rw [← Int.zpow_le_iff_le_log (by norm_num) (mul_pos positive unit), Nat.cast_ofNat,
      zpow_add₀ ten.ne']
    exact mul_le_mul_of_nonneg_right low unit.le

/-! ## Significant digits -/

theorem abs_sub_nearest_le (num den : Nat) (positive : 0 < den) :
    |(num / den : ℝ) - nearest num den| ≤ 1 / 2 := by
  simpa using (nearest_isNearest num den positive).near

/-- Carrying over to the next power does not change what the units stand for. -/
theorem toUnits_roundsAt {digits : Nat} (digitsPos : 0 < digits) (num : Nat) {den : Nat}
    (denPos : 0 < den) (last : Int) :
    let value := toUnits digits num den last
    RoundsAt last (num / den) (value.1 * 10 ^ value.2) := by
  obtain ⟨scaledPos, scaled⟩ := scaleTen_spec num den (-last) denPos
  have nearest' := nearest_isNearest (scaleTen num den (-last)).1 _ scaledPos
  rw [scaled, zpow_neg, ← div_eq_mul_inv] at nearest'
  simp only [toUnits, Nat.pow_eq]
  generalize nearest (scaleTen num den (-last)).1 (scaleTen num den (-last)).2 = kept at *
  refine ⟨kept, by rwa [Nat.cast_ofNat], ?_⟩
  rw [Nat.cast_ofNat, Int.cast_natCast]
  split
  · next full =>
    rw [full, zpow_add_one₀ (by norm_num)]
    push_cast
    rw [mul_comm ((10 : ℝ) ^ last), ← mul_assoc, ← pow_succ, Nat.sub_add_cancel digitsPos]
  · rfl

theorem toUnits_place (digits num den : Nat) (last : Int) :
    (toUnits digits num den last).2 ≤ last + 1 := by
  simp only [toUnits]
  split
  · exact le_rfl
  · exact (lt_add_one last).le

theorem nearest_eq {num den count : Nat} (positive : 0 < den)
    (near : |(num / den : ℝ) - count| < 1 / 2) : nearest num den = count := by
  have own := abs_sub_nearest_le num den positive
  rw [abs_le] at own
  rw [abs_lt] at near
  have less : (nearest num den : ℝ) < count + 1 := by linarith
  have more : (count : ℝ) < nearest num den + 1 := by linarith
  have less' : nearest num den < count + 1 := by exact_mod_cast less
  have more' : count < nearest num den + 1 := by exact_mod_cast more
  omega

/-- Digits of a given length and their power of ten that a number is rounded to. They are at most half
a unit of the last digit away from it. -/
structure IsRounding (digits : Nat) (x : ℝ) (value : Nat × Int) : Prop where
  low : 10 ^ (digits - 1) ≤ value.1
  high : value.1 < 10 ^ digits
  near : |x - value.1 * 10 ^ value.2| ≤ 10 ^ value.2 / 2
  rounds : RoundsAt (Int.log 10 x - digits + 1) x (value.1 * 10 ^ value.2)

namespace IsRounding

variable {digits : Nat} {x y z : ℝ} {value : Nat × Int}

theorem positive (rounding : IsRounding digits x value) : 0 < x := by
  have unit : (0 : ℝ) < 10 ^ value.2 := zpow_pos (by norm_num) _
  have some : (1 : ℝ) ≤ value.1 := by
    exact_mod_cast (Nat.one_le_pow (digits - 1) 10 (by decide)).trans rounding.low
  have near := abs_le.mp rounding.near
  nlinarith

theorem digits_pos (rounding : IsRounding digits x value) : 0 < digits := by
  by_contra none
  have high := rounding.high
  rw [Nat.eq_zero_of_not_pos none, pow_zero] at high
  have low := (Nat.one_le_pow (digits - 1) 10 (by decide)).trans rounding.low
  omega

/-- Between two numbers that are rounded to the same digits, every number is. -/
theorem between (first : IsRounding digits x value) (last : IsRounding digits z value)
    (above : x ≤ y) (below : y ≤ z) : IsRounding digits y value := by
  have yPos := first.positive.trans_le above
  have xLog := Int.log_mono_right (b := 10) first.positive above
  have zLog := Int.log_mono_right (b := 10) yPos below
  obtain ⟨w, rounds⟩ := RoundsAt.exists_of (Int.log 10 y - digits + 1) y
  have atLeast := first.rounds.le_of_digits rounds first.digits_pos first.positive above (by omega)
    le_rfl fun _ => rfl
  have atMost := rounds.le_of_digits last.rounds first.digits_pos yPos below (by omega) le_rfl
    fun _ => rfl
  refine ⟨first.low, first.high, ?_, le_antisymm atMost atLeast ▸ rounds⟩
  have firstNear := abs_le.mp first.near
  have lastNear := abs_le.mp last.near
  exact abs_le.mpr ⟨by linarith, by linarith⟩

theorem shift (rounding : IsRounding digits x value) (power : Int) :
    IsRounding digits (x * 10 ^ power) (value.1, value.2 + power) := by
  have unit : (0 : ℝ) < 10 ^ power := zpow_pos (by norm_num) _
  have shifted : (value.1 : ℝ) * 10 ^ (value.2 + power) = value.1 * 10 ^ value.2 * 10 ^ power := by
    rw [zpow_add₀ (by norm_num), mul_assoc]
  refine ⟨rounding.low, rounding.high, ?_, ?_⟩
  · rw [shifted, ← sub_mul, abs_mul, abs_of_pos unit, zpow_add₀ (by norm_num), mul_div_right_comm]
    exact mul_le_mul_of_nonneg_right rounding.near unit.le
  · rw [shifted, log_mul_zpow rounding.positive,
      show Int.log 10 x + power - digits + 1 = Int.log 10 x - digits + 1 + power by ring]
    exact rounding.rounds.shift power

end IsRounding

section Digits

variable {digits num den : Nat}

/-- The ratio with its leading digit in the first of the places kept. -/
theorem scaled_ratio (digitsPos : 0 < digits) (numPos : 0 < num) (denPos : 0 < den) :
    (10 : ℝ) ^ (digits - 1) ≤ num / den * 10 ^ (-(leadingPower num den - digits + 1)) ∧
      (num / den : ℝ) * 10 ^ (-(leadingPower num den - digits + 1)) < 10 ^ digits := by
  obtain ⟨low, high⟩ := leadingPower_spec num den numPos denPos
  have ten : (0 : ℝ) < 10 := by norm_num
  have unit : (0 : ℝ) < 10 ^ (-(leadingPower num den - digits + 1)) := zpow_pos ten _
  constructor
  · calc (10 : ℝ) ^ (digits - 1)
      _ = 10 ^ leadingPower num den * 10 ^ (-(leadingPower num den - digits + 1)) := by
        rw [← zpow_add₀ ten.ne', ← zpow_natCast, Nat.cast_pred digitsPos]
        congr 1
        omega
      _ ≤ num / den * 10 ^ (-(leadingPower num den - digits + 1)) :=
        mul_le_mul_of_nonneg_right low unit.le
  · calc (num / den : ℝ) * 10 ^ (-(leadingPower num den - digits + 1))
      _ < 10 ^ (leadingPower num den + 1) * 10 ^ (-(leadingPower num den - digits + 1)) :=
        mul_lt_mul_of_pos_right high unit
      _ = 10 ^ digits := by
        rw [← zpow_add₀ ten.ne', ← zpow_natCast]
        congr 1
        omega

theorem toSignificant_bounds (digitsPos : 0 < digits) (numPos : 0 < num) (denPos : 0 < den) :
    let value := toSignificant digits num den
    10 ^ (digits - 1) ≤ value.1 ∧ value.1 < 10 ^ digits ∧
      |(num / den : ℝ) - value.1 * 10 ^ value.2| ≤ 10 ^ value.2 / 2 := by
  obtain ⟨low, high⟩ := scaled_ratio digitsPos numPos denPos
  have ten : (0 : ℝ) < 10 := by norm_num
  simp only [toSignificant, toUnits, Nat.pow_eq]
  generalize leadingPower num den - digits + 1 = last at *
  obtain ⟨scaledPos, scaled⟩ := scaleTen_spec num den (-last) denPos
  have near := abs_sub_nearest_le (scaleTen num den (-last)).1 _ scaledPos
  rw [scaled] at near
  generalize nearest (scaleTen num den (-last)).1 (scaleTen num den (-last)).2 = kept at *
  have unit : (0 : ℝ) < 10 ^ last := zpow_pos ten _
  have undone : (num / den : ℝ) = num / den * 10 ^ (-last) * 10 ^ last := by
    rw [mul_assoc, ← zpow_add₀ ten.ne', Int.add_left_neg, zpow_zero, mul_one]
  have close : |(num / den : ℝ) - kept * 10 ^ last| ≤ 10 ^ last / 2 := by
    rw [undone, ← sub_mul, abs_mul, abs_of_pos unit]
    calc |(num / den : ℝ) * 10 ^ (-last) - kept| * 10 ^ last
      _ ≤ 1 / 2 * 10 ^ last := mul_le_mul_of_nonneg_right near unit.le
      _ = 10 ^ last / 2 := by ring
  rw [abs_le] at near
  have atLeast : 10 ^ (digits - 1) ≤ kept := by
    have reached : ((10 ^ (digits - 1) : Nat) : ℝ) < kept + 1 := by
      push_cast
      linarith
    have reached' : 10 ^ (digits - 1) < kept + 1 := by exact_mod_cast reached
    omega
  have atMost : kept ≤ 10 ^ digits := by
    have reached : (kept : ℝ) < ((10 ^ digits : Nat) : ℝ) + 1 := by
      push_cast
      linarith
    have reached' : kept < 10 ^ digits + 1 := by exact_mod_cast reached
    omega
  split
  · next full =>
    -- The digits carry over to the next power of ten.
    have carried : ((10 ^ (digits - 1) : Nat) : ℝ) * 10 ^ (last + 1) = kept * 10 ^ last := by
      rw [full, zpow_add_one₀ ten.ne']
      push_cast
      rw [mul_comm ((10 : ℝ) ^ last), ← mul_assoc, ← pow_succ, Nat.sub_add_cancel digitsPos]
    refine ⟨le_rfl, Nat.pow_lt_pow_right (by decide) (by omega), ?_⟩
    rw [carried, zpow_add_one₀ ten.ne']
    linarith
  · next short => exact ⟨atLeast, Nat.lt_of_le_of_ne atMost short, close⟩

theorem toSignificant_isRounding (digitsPos : 0 < digits) (numPos : 0 < num) (denPos : 0 < den) :
    IsRounding digits (num / den) (toSignificant digits num den) := by
  obtain ⟨low, high, near⟩ := toSignificant_bounds digitsPos numPos denPos
  refine ⟨low, high, near, ?_⟩
  rw [log_div numPos denPos]
  exact toUnits_roundsAt digitsPos num denPos _

/-- Ratios that share their leading power and are closer to one choice of digits than half a unit are
rounded to these digits. -/
theorem toSignificant_eq (numPos : 0 < num) (denPos : 0 < den) {power : Int} {count : Nat}
    (low : (10 : ℝ) ^ power ≤ num / den) (high : (num / den : ℝ) < 10 ^ (power + 1))
    (near : |(num / den : ℝ) * 10 ^ (-(power - digits + 1)) - count| < 1 / 2) :
    toSignificant digits num den =
      if count = 10 ^ digits then (10 ^ (digits - 1), power - digits + 1 + 1)
      else (count, power - digits + 1) := by
  obtain ⟨scaledPos, scaled⟩ := scaleTen_spec num den (-(power - digits + 1)) denPos
  rw [← scaled] at near
  simp only [toSignificant, toUnits, leadingPower_eq numPos denPos low high,
    nearest_eq scaledPos near, Nat.pow_eq]

end Digits

end QuantumResources.Rounding
