import QuantumResources.Proofs.Number.Doubles

/-! Numbers rounded to multiples of a power of ten.

A tie goes to the even neighbour, so there is one rounded number only. Rounding keeps the order of
two numbers, also when they are rounded to different powers, as long as a power of ten lies between
them. -/

namespace QuantumResources.Rounding

/-! ## The nearest integer -/

/-- The integer nearest to a number; a tie goes to the even one. -/
structure IsNearest (x : ℝ) (n : Int) : Prop where
  near : |x - n| ≤ 1 / (2 : Nat)
  tie : |x - n| = 1 / (2 : Nat) → Even n

namespace IsNearest

variable {x y : ℝ} {n m : Int}

theorem bounds (nearest : IsNearest x n) : (n : ℝ) - 1 / 2 ≤ x ∧ x ≤ n + 1 / 2 := by
  have near := abs_le.mp nearest.near
  rw [Nat.cast_ofNat] at near
  exact ⟨by linarith, by linarith⟩

/-- Were the order reversed, both numbers would be half way between the same two integers, and both
integers even. -/
theorem le (first : IsNearest x n) (second : IsNearest y m) (order : x ≤ y) : n ≤ m := by
  by_contra reversed
  obtain ⟨firstLow, _⟩ := first.bounds
  obtain ⟨_, secondHigh⟩ := second.bounds
  have above : (m : ℝ) + 1 ≤ n := by exact_mod_cast not_le.mp reversed
  have next : (n : ℝ) = m + 1 := by linarith
  have firstEven : Even n := by
    refine first.tie ?_
    rw [show x - n = -(1 / 2) by linarith, abs_neg, Nat.cast_ofNat]
    norm_num
  have secondEven : Even m := by
    refine second.tie ?_
    rw [show y - m = 1 / 2 by linarith, Nat.cast_ofNat]
    norm_num
  have next' : n = m + 1 := by exact_mod_cast next
  rw [next', Int.even_add_one] at firstEven
  exact firstEven secondEven

theorem half_above (even : Even n) : IsNearest (n + 1 / 2) n := by
  have half : |(n + 1 / 2 : ℝ) - n| = 1 / (2 : Nat) := by
    rw [add_sub_cancel_left, Nat.cast_ofNat]
    norm_num
  exact ⟨half.le, fun _ => even⟩

theorem half_below (even : Even n) : IsNearest (n - 1 / 2) n := by
  have half : |(n - 1 / 2 : ℝ) - n| = 1 / (2 : Nat) := by
    rw [sub_sub_cancel_left, abs_neg, Nat.cast_ofNat]
    norm_num
  exact ⟨half.le, fun _ => even⟩

theorem of_intCast (n : Int) : IsNearest n n where
  near := by
    rw [sub_self, abs_zero]
    positivity
  tie half := by
    rw [sub_self, abs_zero, Nat.cast_ofNat] at half
    norm_num at half

theorem neg (nearest : IsNearest x n) : IsNearest (-x) (-n) := by
  have same : |-x - (-n : Int)| = |x - n| := by
    rw [Int.cast_neg, neg_sub_neg, abs_sub_comm]
  exact ⟨same ▸ nearest.near, fun half => (nearest.tie (same ▸ half)).neg⟩

/-- Every number has a nearest integer. -/
theorem exists_of (x : ℝ) : ∃ n, IsNearest x n := by
  have near := abs_sub_round x
  by_cases even : |x - round x| = 1 / 2 → Even (round x)
  · exact ⟨round x, by rw [Nat.cast_ofNat]; exact near, by rwa [Nat.cast_ofNat]⟩
  · push Not at even
    obtain ⟨half, odd⟩ := even
    -- the other neighbour is even
    rcases (abs_eq (by norm_num)).mp half with above | below
    · have other : |x - (round x + 1 : Int)| = 1 / 2 := by
        push_cast
        rw [show x - (round x + 1) = -(1 / 2) by linarith, abs_neg]
        norm_num
      exact ⟨round x + 1, by rw [Nat.cast_ofNat]; exact other.le,
        fun _ => Int.even_add_one.mpr odd⟩
    · have other : |x - (round x - 1 : Int)| = 1 / 2 := by
        push_cast
        rw [show x - (round x - 1) = 1 / 2 by linarith]
        norm_num
      exact ⟨round x - 1, by rw [Nat.cast_ofNat]; exact other.le,
        fun _ => (Int.not_even_iff_odd.mp odd).sub_odd odd_one⟩

theorem le_iff_of_even (nearest : IsNearest x m) (even : Even n) : m ≤ n ↔ x ≤ n + 1 / 2 := by
  refine ⟨fun below => ?_, fun below => nearest.le (half_above even) below⟩
  have below' : (m : ℝ) ≤ n := by exact_mod_cast below
  linarith [nearest.bounds.2]

end IsNearest

theorem nearest_isNearest (num den : Nat) (positive : 0 < den) :
    IsNearest (num / den) (nearest num den) := by
  obtain ⟨low, high, half⟩ := nearest_spec num den positive
  have low' : ((nearest num den : Rat) - 1 / 2 : Rat) ≤ ((num / den : Rat) : ℝ) := by
    exact_mod_cast low
  have high' : ((num / den : Rat) : ℝ) ≤ ((nearest num den : Rat) + 1 / 2 : Rat) := by
    exact_mod_cast high
  push_cast at low' high'
  refine ⟨?_, fun tie => ?_⟩
  · rw [Nat.cast_ofNat, Int.cast_natCast, abs_le]
    exact ⟨by linarith, by linarith⟩
  · rw [Nat.cast_ofNat, Int.cast_natCast] at tie
    refine (Int.even_coe_nat _).mpr (half ?_)
    rcases (abs_eq (by norm_num)).mp tie with above | below
    · have cast : ((num / den : Rat) : ℝ) = ((nearest num den + 1 / 2 : Rat) : ℝ) := by
        push_cast
        linarith
      exact .inr (by exact_mod_cast cast)
    · have cast : ((num / den : Rat) : ℝ) = ((nearest num den - 1 / 2 : Rat) : ℝ) := by
        push_cast
        linarith
      exact .inl (by exact_mod_cast cast)

/-! ## Multiples of a power of ten -/

/-- A number and what it is when rounded to a multiple of `10 ^ last`. -/
def RoundsAt (last : Int) (x z : ℝ) : Prop :=
  ∃ n : Int, IsNearest (x / ((10 : Nat) : ℝ) ^ last) n ∧ z = n * ((10 : Nat) : ℝ) ^ last

namespace RoundsAt

variable {last other : Int} {x y z w : ℝ}

theorem exists_of (last : Int) (x : ℝ) : ∃ z, RoundsAt last x z := by
  obtain ⟨n, nearest⟩ := IsNearest.exists_of (x / ((10 : Nat) : ℝ) ^ last)
  exact ⟨_, n, nearest, rfl⟩

theorem neg (rounds : RoundsAt last x z) : RoundsAt last (-x) (-z) := by
  obtain ⟨n, nearest, rfl⟩ := rounds
  refine ⟨-n, ?_, ?_⟩
  · rw [neg_div]
    exact nearest.neg
  · rw [Int.cast_neg, neg_mul]

/-- Multiples of a power that is not below the last place are multiples of the last place. -/
theorem of_multiple (n : Int) {power : Int} (above : last ≤ power) :
    RoundsAt last (n * 10 ^ power) (n * 10 ^ power) := by
  obtain ⟨gap, isGap⟩ := Int.eq_ofNat_of_zero_le (sub_nonneg.mpr above)
  have multiple : (n * 10 ^ power : ℝ) = (n * 10 ^ gap : Int) * 10 ^ last := by
    push_cast
    rw [mul_assoc, ← zpow_natCast, ← zpow_add₀ (by norm_num), ← isGap, sub_add_cancel]
  rw [multiple]
  refine ⟨n * 10 ^ gap, ?_, by rw [Nat.cast_ofNat]⟩
  rw [Nat.cast_ofNat, mul_div_cancel_right₀ _ (zpow_pos (by norm_num) last).ne']
  exact IsNearest.of_intCast _

theorem of_pow {power : Int} (above : last ≤ power) :
    RoundsAt last (10 ^ power) (10 ^ power) := by
  have multiple := of_multiple 1 above
  rwa [Int.cast_one, one_mul] at multiple

theorem zero (last : Int) : RoundsAt last 0 0 := by
  have multiple := of_multiple 0 (le_refl last)
  rwa [Int.cast_zero, zero_mul] at multiple

theorem near (rounds : RoundsAt last x z) : |x - z| ≤ 10 ^ last / 2 := by
  obtain ⟨n, nearest, rfl⟩ := rounds
  have unit : (0 : ℝ) < 10 ^ last := zpow_pos (by norm_num) _
  have close := nearest.near
  rw [Nat.cast_ofNat, Nat.cast_ofNat] at close
  calc |x - n * ((10 : Nat) : ℝ) ^ last|
    _ = |x / 10 ^ last - n| * 10 ^ last := by
      rw [Nat.cast_ofNat, ← abs_of_pos unit, ← abs_mul, abs_of_pos unit, sub_mul,
        div_mul_cancel₀ _ unit.ne']
    _ ≤ 1 / 2 * 10 ^ last := mul_le_mul_of_nonneg_right close unit.le
    _ = 10 ^ last / 2 := by ring

theorem shift (rounds : RoundsAt last x z) (power : Int) :
    RoundsAt (last + power) (x * 10 ^ power) (z * 10 ^ power) := by
  obtain ⟨n, nearest, rfl⟩ := rounds
  have unit : (10 : ℝ) ^ power ≠ 0 := (zpow_pos (by norm_num) _).ne'
  refine ⟨n, ?_, ?_⟩
  · rw [Nat.cast_ofNat, zpow_add₀ (by norm_num), mul_div_mul_right _ _ unit]
    rwa [Nat.cast_ofNat] at nearest
  · rw [Nat.cast_ofNat, zpow_add₀ (by norm_num), mul_assoc]

theorem le (first : RoundsAt last x z) (second : RoundsAt last y w) (order : x ≤ y) : z ≤ w := by
  obtain ⟨n, firstNearest, rfl⟩ := first
  obtain ⟨m, secondNearest, rfl⟩ := second
  have unit : (0 : ℝ) < ((10 : Nat) : ℝ) ^ last := zpow_pos (by norm_num) _
  have order' : n ≤ m := firstNearest.le secondNearest (div_le_div_of_nonneg_right order unit.le)
  exact mul_le_mul_of_nonneg_right (by exact_mod_cast order') unit.le

theorem unique (first : RoundsAt last x z) (second : RoundsAt last x w) : z = w :=
  le_antisymm (first.le second le_rfl) (second.le first le_rfl)

theorem nonneg (rounds : RoundsAt last x z) (sign : 0 ≤ x) : 0 ≤ z := (zero last).le rounds sign

theorem eq_zero_iff (rounds : RoundsAt last x z) (sign : 0 ≤ x) : z = 0 ↔ x ≤ 10 ^ last / 2 := by
  have unit : (0 : ℝ) < 10 ^ last := zpow_pos (by norm_num) _
  rw [← (rounds.nonneg sign).ge_iff_eq']
  obtain ⟨n, nearest, rfl⟩ := rounds
  rw [Nat.cast_ofNat] at nearest ⊢
  have half : x ≤ 10 ^ last / 2 ↔ x / 10 ^ last ≤ (0 : Int) + 1 / 2 := by
    rw [Int.cast_zero, zero_add, div_le_div_iff₀ unit two_pos, le_div_iff₀ two_pos, one_mul]
  rw [half, ← nearest.le_iff_of_even Even.zero, ← le_div_iff₀ unit, zero_div, Int.cast_nonpos]

/-- A number below a tenth of a unit of the last place is lost. -/
theorem eq_zero_of_lt (rounds : RoundsAt last x z) (sign : 0 ≤ x) {power : Int}
    (high : x < 10 ^ power) (below : power < last) : z = 0 := by
  refine (rounds.eq_zero_iff sign).mpr ?_
  have unit : (0 : ℝ) < 10 ^ last := zpow_pos (by norm_num) _
  have tenth : (10 : ℝ) ^ power ≤ 10 ^ last / 10 := by
    rw [div_eq_mul_inv, ← zpow_sub_one₀ (by norm_num)]
    exact zpow_le_zpow_right₀ (by norm_num) (by omega)
  linarith

theorem le_pow (rounds : RoundsAt last x z) {power : Int} (above : last ≤ power)
    (high : x ≤ 10 ^ power) : z ≤ 10 ^ power :=
  rounds.le (of_pow above) high

theorem pow_le (rounds : RoundsAt last x z) {power : Int} (above : last ≤ power)
    (low : 10 ^ power ≤ x) : 10 ^ power ≤ z :=
  (of_pow above).le rounds low

/-- Order is kept between different last places if a power of ten between the two numbers is a
multiple of both. -/
theorem le_of_between (first : RoundsAt last x z) (second : RoundsAt other y w) (order : x ≤ y)
    (places : last ≤ other)
    (between : last < other → ∃ power, other ≤ power ∧ x ≤ 10 ^ power ∧ 10 ^ power ≤ y) :
    z ≤ w := by
  rcases places.eq_or_lt with rfl | less
  · exact first.le second order
  · obtain ⟨power, above, high, low⟩ := between less
    exact (first.le_pow (less.le.trans above) high).trans (second.pow_le above low)

/-- So it is kept when a number of digits is left to both, or more of the first are cut off. -/
theorem le_of_digits (first : RoundsAt last x z) (second : RoundsAt other y w) {digits : Nat}
    (digitsPos : 0 < digits) (positive : 0 < x) (order : x ≤ y) (places : last ≤ other)
    (atMost : Int.log 10 x - digits + 1 ≤ last)
    (exactly : last < other → other = Int.log 10 y - digits + 1) : z ≤ w := by
  refine first.le_of_between second order places fun less => ?_
  have isOther := exactly less
  refine ⟨Int.log 10 y, by omega, ?_, ?_⟩
  · have high := Int.lt_zpow_succ_log_self (b := 10) (by norm_num) x
    rw [Nat.cast_ofNat] at high
    exact high.le.trans (zpow_le_zpow_right₀ (by norm_num) (by omega))
  · have low := Int.zpow_log_le_self (b := 10) (by norm_num) (positive.trans_le order)
    rwa [Nat.cast_ofNat] at low

end RoundsAt

end QuantumResources.Rounding
