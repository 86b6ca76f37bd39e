import Mathlib
import QuantumResources.Proofs.Sequence

/-! Ratios of whole numbers as doubles: which of them are out of range, and which vanish.

A ratio is scaled so that its leading bit is the highest of a significand, as far as the least
exponent allows, and then rounded. From the middle between the largest double and the next power of
two on there is no double; up to half the least double the ratio rounds to zero. -/

namespace QuantumResources

/-! ## Rounding -/

namespace Rounding

theorem div_eq_add (num den : Nat) (positive : 0 < den) :
    (num / den : Rat) = (num / den : Nat) + ((num % den : Nat) : Rat) / den := by
  have denPos : (den : Rat) ≠ 0 := by exact_mod_cast positive.ne'
  have whole : (num : Rat) = (num / den : Nat) * den + (num % den : Nat) := by
    exact_mod_cast (Nat.div_add_mod' num den).symm
  conv_lhs => rw [whole]
  rw [add_div, mul_div_cancel_right₀ _ denPos]

/-- The nearest whole number is at most a half away, and even if it is just a half. -/
theorem nearest_spec (num den : Nat) (positive : 0 < den) :
    (nearest num den : Rat) - 1 / 2 ≤ num / den ∧ (num / den : Rat) ≤ nearest num den + 1 / 2 ∧
      ((num / den : Rat) = nearest num den - 1 / 2 ∨ (num / den : Rat) = nearest num den + 1 / 2 →
        Even (nearest num den)) := by
  have denPos : (0 : Rat) < den := by exact_mod_cast positive
  have below : ((num % den : Nat) : Rat) / den < 1 := by
    rw [div_lt_one denPos]
    exact_mod_cast Nat.mod_lt num positive
  have above : (0 : Rat) ≤ ((num % den : Nat) : Rat) / den :=
    div_nonneg (Nat.cast_nonneg _) denPos.le
  have less : 2 * (num % den) < den ↔ ((num % den : Nat) : Rat) / den < 1 / 2 := by
    rw [div_lt_div_iff₀ denPos two_pos, ← Nat.cast_lt (α := Rat)]
    push_cast
    constructor <;> intro order <;> linarith
  have more : den < 2 * (num % den) ↔ 1 / 2 < ((num % den : Nat) : Rat) / den := by
    rw [div_lt_div_iff₀ two_pos denPos, ← Nat.cast_lt (α := Rat)]
    push_cast
    constructor <;> intro order <;> linarith
  rw [div_eq_add num den positive]
  simp only [nearest, less, more]
  generalize ((num % den : Nat) : Rat) / den = rest at *
  generalize num / den = low
  by_cases short : rest < 1 / 2
  · rw [if_pos short]
    refine ⟨by linarith, by linarith, ?_⟩
    rintro (half | half) <;> linarith
  · rw [if_neg short]
    by_cases long : 1 / 2 < rest
    · rw [if_pos long]
      push_cast
      refine ⟨by linarith, by linarith, ?_⟩
      rintro (half | half) <;> linarith
    · have half : rest = 1 / 2 := by linarith
      rw [if_neg long, half]
      by_cases even : low % 2 = 0
      · rw [if_pos even]
        exact ⟨by linarith, le_rfl, fun _ => Nat.even_iff.mpr even⟩
      · rw [if_neg even]
        push_cast
        refine ⟨by linarith, by linarith, fun _ => ?_⟩
        rw [Nat.even_iff]
        omega

/-- A half is rounded up to an even number. -/
theorem le_nearest_iff_of_even (num den bound : Nat) (positive : 0 < den) (even : Even bound) :
    bound ≤ nearest num den ↔ (bound : Rat) - 1 / 2 ≤ num / den := by
  obtain ⟨low, high, half⟩ := nearest_spec num den positive
  constructor
  · intro order
    have cast : (bound : Rat) ≤ nearest num den := by exact_mod_cast order
    linarith
  · intro reached
    by_contra short
    have cast : (nearest num den : Rat) + 1 ≤ bound := by exact_mod_cast Nat.lt_of_not_ge short
    have tie : (num / den : Rat) = nearest num den + 1 / 2 := by linarith
    have last : bound = nearest num den + 1 := by
      have equal : (bound : Rat) = nearest num den + 1 := by linarith
      exact_mod_cast equal
    have other := half (.inr tie)
    rw [last, Nat.even_add_one] at even
    exact even other

/-- A half is rounded down below an odd number. -/
theorem le_nearest_iff_of_odd (num den bound : Nat) (positive : 0 < den) (odd : Odd bound) :
    bound ≤ nearest num den ↔ (bound : Rat) - 1 / 2 < num / den := by
  obtain ⟨low, high, half⟩ := nearest_spec num den positive
  constructor
  · intro order
    have cast : (bound : Rat) ≤ nearest num den := by exact_mod_cast order
    by_contra short
    have tie : (num / den : Rat) = nearest num den - 1 / 2 := by linarith
    have equal : bound = nearest num den := by
      have same : (bound : Rat) = nearest num den := by linarith
      exact_mod_cast same
    have even := half (.inl tie)
    rw [← equal] at even
    exact Nat.not_even_iff_odd.mpr odd even
  · intro reached
    by_contra short
    have cast : (nearest num den : Rat) + 1 ≤ bound := by exact_mod_cast Nat.lt_of_not_ge short
    linarith

theorem scaleTwo_spec (num den : Nat) (power : Int) (positive : 0 < den) :
    0 < (scaleTwo num den power).2 ∧
      ((scaleTwo num den power).1 / (scaleTwo num den power).2 : Rat) =
        num / den * 2 ^ power := by
  unfold scaleTwo
  split
  · next raised =>
    obtain ⟨shift, rfl⟩ := Int.eq_ofNat_of_zero_le raised
    refine ⟨positive, ?_⟩
    rw [Int.toNat_natCast, Nat.pow_eq, zpow_natCast]
    push_cast
    ring
  · next lowered =>
    obtain ⟨shift, isShift⟩ := Int.eq_ofNat_of_zero_le (show 0 ≤ -power by omega)
    have isPower : power = -(shift : Int) := by omega
    subst isPower
    refine ⟨Nat.mul_pos positive (Nat.pow_pos two_pos), ?_⟩
    rw [Int.neg_neg, Int.toNat_natCast, Nat.pow_eq, zpow_neg, zpow_natCast]
    push_cast
    rw [div_mul_eq_div_div, div_eq_mul_inv (num / den : Rat)]

end Rounding

/-! ## Ratios -/

namespace Binary64

open Rounding

/-- The leading bit of a ratio is the power of two just below it. -/
theorem leadingBit_spec (num den : Nat) (numPos : 0 < num) (denPos : 0 < den) :
    (2 : Rat) ^ leadingBit num den ≤ num / den ∧
      (num / den : Rat) < 2 ^ (leadingBit num den + 1) := by
  have bound : ∀ n : Nat, 0 < n →
      (2 : Rat) ^ (n.log2 : Int) ≤ n ∧ (n : Rat) < 2 ^ ((n.log2 : Int) + 1) := by
    intro n positive
    have low := Nat.log2_self_le (Nat.ne_of_gt positive)
    have high := @Nat.lt_log2_self n
    constructor
    · rw [zpow_natCast]
      exact_mod_cast low
    · rw [← Nat.cast_succ, zpow_natCast]
      exact_mod_cast high
  obtain ⟨numLow, numHigh⟩ := bound num numPos
  obtain ⟨denLow, denHigh⟩ := bound den denPos
  have den' : (0 : Rat) < den := by exact_mod_cast denPos
  have two : (0 : Rat) < 2 := two_pos
  simp only [leadingBit]
  generalize isGuess : (num.log2 : Int) - den.log2 = guess
  obtain ⟨scaledPos, scaled⟩ := scaleTwo_spec num den (-guess) denPos
  have scaledPos' : (0 : Rat) < (scaleTwo num den (-guess)).2 := by exact_mod_cast scaledPos
  have shifted : (scaleTwo num den (-guess)).1 < (scaleTwo num den (-guess)).2 ↔
      (num / den : Rat) < 2 ^ guess := by
    rw [← Nat.cast_lt (α := Rat), ← div_lt_one scaledPos', scaled, zpow_neg,
      ← div_eq_mul_inv, div_lt_one (zpow_pos two _)]
  have upper : (num / den : Rat) < 2 ^ (guess + 1) := by
    rw [div_lt_iff₀ den']
    calc (num : Rat)
      _ < 2 ^ ((num.log2 : Int) + 1) := numHigh
      _ = 2 ^ (guess + 1) * 2 ^ (den.log2 : Int) := by
        rw [← zpow_add₀ two.ne']
        congr 1
        omega
      _ ≤ 2 ^ (guess + 1) * den := mul_le_mul_of_nonneg_left denLow (zpow_pos two _).le
  have lower : (2 : Rat) ^ (guess - 1) ≤ num / den := by
    rw [le_div_iff₀ den']
    calc (2 : Rat) ^ (guess - 1) * den
      _ ≤ 2 ^ (guess - 1) * 2 ^ ((den.log2 : Int) + 1) :=
        mul_le_mul_of_nonneg_left denHigh.le (zpow_pos two _).le
      _ = 2 ^ (num.log2 : Int) := by
        rw [← zpow_add₀ two.ne']
        congr 1
        omega
      _ ≤ num := numLow
  split
  · next small =>
    refine ⟨lower, ?_⟩
    rw [Int.sub_add_cancel]
    exact shifted.mp small
  · next large => exact ⟨not_lt.mp (fun small => large (shifted.mpr small)), upper⟩

/-- The bits of the double nearest to a positive ratio. From `2047 * 2 ^ 52` on they stand for no
finite double. -/
def encoding (num den : Nat) : Nat :=
  let power := max (leadingBit num den - 52) (-1074)
  let scaled := scaleTwo num den (-power)
  (power + 1074).toNat * 2 ^ 52 + nearest scaled.1 scaled.2

theorem ofRatio_eq (negative : Bool) (num den : Nat) (numPos : 0 < num) :
    ofRatio negative num den =
      if encoding num den < 2047 * 2 ^ 52 then
        some (Float.ofBits ((if negative then 2 ^ 63 else 0) + encoding num den).toUInt64)
      else none := by
  unfold ofRatio
  rw [if_neg numPos.ne']
  rfl

section Encoding

variable {num den : Nat} (numPos : 0 < num) (denPos : 0 < den)

include numPos denPos

/-- The scaled ratio fits into a significand, and fills it unless the exponent is the least. -/
theorem scaled_bounds (power : Int) (isPower : power = max (leadingBit num den - 52) (-1074)) :
    (num / den : Rat) * 2 ^ (-power) < 2 ^ 53 ∧
      (-1074 < power → (2 : Rat) ^ 52 ≤ num / den * 2 ^ (-power)) := by
  obtain ⟨low, high⟩ := leadingBit_spec num den numPos denPos
  have two : (0 : Rat) < 2 := two_pos
  constructor
  · calc (num / den : Rat) * 2 ^ (-power)
      _ < 2 ^ (leadingBit num den + 1) * 2 ^ (-power) :=
        mul_lt_mul_of_pos_right high (zpow_pos two _)
      _ = 2 ^ (leadingBit num den + 1 - power) := by rw [← zpow_add₀ two.ne', sub_eq_add_neg]
      _ ≤ 2 ^ (53 : Int) := zpow_le_zpow_right₀ one_le_two (by omega)
  · intro raised
    calc (2 : Rat) ^ (52 : Int)
      _ = 2 ^ (leadingBit num den) * 2 ^ (-power) := by
        rw [← zpow_add₀ two.ne']
        congr 1
        omega
      _ ≤ num / den * 2 ^ (-power) := mul_le_mul_of_nonneg_right low (zpow_pos two _).le

theorem encoding_lt_iff :
    encoding num den < 2047 * 2 ^ 52 ↔ (num / den : Rat) < (2 ^ 54 - 1) * 2 ^ (970 : Int) := by
  obtain ⟨low, high⟩ := leadingBit_spec num den numPos denPos
  have unit : (0 : Rat) < 2 ^ (970 : Int) := zpow_pos two_pos _
  simp only [encoding]
  generalize isPower : max (leadingBit num den - 52) (-1074) = power
  obtain ⟨scaledPos, scaled⟩ := scaleTwo_spec num den (-power) denPos
  obtain ⟨fits, fills⟩ := scaled_bounds numPos denPos power isPower.symm
  rw [← scaled] at fits fills
  generalize leadingBit num den = lead at *
  rcases lt_trichotomy lead 1023 with less | same | more
  · -- Rounding up to the next power of two stays below the largest exponent.
    have digits : nearest (scaleTwo num den (-power)).1 (scaleTwo num den (-power)).2 ≤ 2 ^ 53 := by
      by_contra many
      have reached := (le_nearest_iff_of_odd _ _ (2 ^ 53 + 1) scaledPos (by decide)).mp
        (Nat.lt_of_not_ge many)
      push_cast at reached
      linarith
    refine ⟨fun _ => ?_, fun _ => by omega⟩
    calc (num / den : Rat)
      _ < 2 ^ (lead + 1) := high
      _ ≤ 2 ^ (970 + 53 : Int) := zpow_le_zpow_right₀ one_le_two (by omega)
      _ = 2 ^ 53 * 2 ^ (970 : Int) := by rw [zpow_add₀ two_ne_zero, mul_comm]; rfl
      _ ≤ (2 ^ 54 - 1) * 2 ^ (970 : Int) := mul_le_mul_of_nonneg_right (by norm_num) unit.le
  · have isTop : power = 971 := by omega
    subst isTop
    have digits := le_nearest_iff_of_even (scaleTwo num den (-971)).1 (scaleTwo num den (-971)).2
      (2 ^ 53) scaledPos (by decide)
    have top : (num / den : Rat) * 2 ^ (-971 : Int) < 2 ^ 53 - 1 / 2 ↔
        (num / den : Rat) < (2 ^ 54 - 1) * 2 ^ (970 : Int) := by
      have next : (2 : Rat) ^ (971 : Int) = 2 * 2 ^ (970 : Int) := by
        rw [show (971 : Int) = 1 + 970 from rfl, zpow_add₀ two_ne_zero, zpow_one]
      rw [zpow_neg, ← div_eq_mul_inv, div_lt_iff₀ (zpow_pos two_pos _), next]
      constructor <;> intro order <;> linarith
    rw [← top, ← scaled]
    constructor
    · intro within
      by_contra reached
      have full := digits.mpr (by push_cast; linarith)
      omega
    · intro below
      by_contra beyond
      have reached := digits.mp (by omega)
      push_cast at reached
      linarith
  · have filled := fills (by omega)
    have digits : 2 ^ 52 ≤ nearest (scaleTwo num den (-power)).1 (scaleTwo num den (-power)).2 := by
      apply (le_nearest_iff_of_even _ _ _ scaledPos (by decide)).mpr
      push_cast
      linarith
    refine ⟨fun _ => by omega, fun small => ?_⟩
    have large : (2 ^ 54 - 1) * 2 ^ (970 : Int) ≤ (num / den : Rat) := by
      calc (2 ^ 54 - 1) * (2 : Rat) ^ (970 : Int)
        _ ≤ 2 ^ 54 * 2 ^ (970 : Int) := mul_le_mul_of_nonneg_right (by norm_num) unit.le
        _ = 2 ^ (970 + 54 : Int) := by rw [zpow_add₀ two_ne_zero, mul_comm]; rfl
        _ ≤ 2 ^ lead := zpow_le_zpow_right₀ one_le_two (by omega)
        _ ≤ num / den := low
    exact absurd small (not_lt.mpr large)

theorem encoding_eq_zero_iff :
    encoding num den = 0 ↔ (num / den : Rat) ≤ 2 ^ (-1075 : Int) := by
  obtain ⟨low, high⟩ := leadingBit_spec num den numPos denPos
  simp only [encoding]
  generalize isPower : max (leadingBit num den - 52) (-1074) = power
  obtain ⟨scaledPos, scaled⟩ := scaleTwo_spec num den (-power) denPos
  by_cases least : power = -1074
  · subst least
    have digits := le_nearest_iff_of_odd (scaleTwo num den (- -1074)).1
      (scaleTwo num den (- -1074)).2 1 scaledPos (by decide)
    have half : (num / den : Rat) * 2 ^ (- -1074 : Int) ≤ 1 / 2 ↔
        (num / den : Rat) ≤ 2 ^ (-1075 : Int) := by
      have next : (2 : Rat) ^ (-1075 : Int) = 1 / 2 / 2 ^ (1074 : Int) := by
        rw [show (-1075 : Int) = -1 + -1074 from rfl, zpow_add₀ two_ne_zero, zpow_neg_one, zpow_neg,
          one_div, div_eq_mul_inv]
      rw [next, le_div_iff₀ (zpow_pos two_pos _)]
      rfl
    rw [← half, ← scaled]
    rw [Nat.cast_one] at digits
    constructor
    · intro none
      by_contra reached
      have one := digits.mpr (by linarith)
      omega
    · intro below
      by_contra some
      have reached := digits.mp (by omega)
      linarith
  · refine ⟨fun none => by omega, fun small => ?_⟩
    have large : (2 : Rat) ^ (-1075 : Int) < num / den := by
      calc (2 : Rat) ^ (-1075 : Int)
        _ < 2 ^ leadingBit num den := zpow_lt_zpow_right₀ one_lt_two (by omega)
        _ ≤ num / den := low
    exact absurd small (not_le.mpr large)

end Encoding

/-! ## Finite doubles -/

theorem toBits_ofBits (bits : UInt64) (finite : bits.toNat < 2047 * 2 ^ 52) :
    (Float.ofBits bits).toBits = bits := by
  have valid : Float.Model.Format.binary64.Valid bits.toBitVec := by
    constructor
    intro exponent
    have field := congrArg BitVec.toNat exponent
    simp only [Float.Model.UnpackedFloat.unpackExponent, BitVec.toNat_cast,
      BitVec.extractLsb_toNat] at field
    change bits.toNat >>> 52 % 2 ^ 11 = 2047 at field
    rw [Nat.shiftRight_eq_div_pow] at field
    omega
  change UInt64.ofBitVec _ = bits
  exact congrArg UInt64.ofBitVec (Float.Model.UnpackedFloat.pack_unpack_of_valid valid)

theorem parts_bounds {x : Float} {negative : Bool} {significand : Nat} {power : Int}
    (isFinite : parts x = .finite negative significand power) :
    significand < 2 ^ 53 ∧ -1074 ≤ power ∧ power ≤ 971 := by
  simp only [parts, Nat.pow_eq] at isFinite
  split at isFinite
  · split at isFinite <;> cases isFinite
  · split at isFinite <;> cases isFinite <;> omega

theorem parts_bits (bits : Nat) (finite : bits < 2047 * 2 ^ 52) :
    parts (Float.ofBits bits.toUInt64) =
      if bits / 2 ^ 52 = 0 then .finite false bits (-1074)
      else .finite false (bits % 2 ^ 52 + 2 ^ 52) ((bits / 2 ^ 52 : Nat) - 1075) := by
  have whole : bits.toUInt64.toNat = bits := by
    rw [Nat.toUInt64_eq, UInt64.toNat_ofNat']
    exact Nat.mod_eq_of_lt (by omega)
  have positive : (bits / Nat.pow 2 63 == 1) = false := by
    rw [beq_eq_false_iff_ne, Nat.pow_eq]
    omega
  have biased : bits / Nat.pow 2 52 % 2048 = bits / 2 ^ 52 := by
    rw [Nat.pow_eq]
    omega
  simp only [parts, toBits_ofBits bits.toUInt64 (by rw [whole]; exact finite), whole, positive,
    biased, if_neg (show ¬ bits / 2 ^ 52 = 2047 by omega)]
  split
  · next least =>
    rw [Nat.pow_eq, Nat.mod_eq_of_lt (by omega)]
  · rfl

/-- A positive finite double is a significand times a power of two, and no other one is zero. -/
theorem parts_ofBits (bits : Nat) (finite : bits < 2047 * 2 ^ 52) :
    ∃ significand power, parts (Float.ofBits bits.toUInt64) = .finite false significand power ∧
      (significand = 0 ↔ bits = 0) := by
  rw [parts_bits bits finite]
  split
  · exact ⟨bits, -1074, rfl, Iff.rfl⟩
  · exact ⟨_, _, rfl, by omega⟩

theorem ceilDiv_eq_zero_iff (num den : Nat) (positive : 0 < den) :
    ceilDiv num den = 0 ↔ num = 0 := by
  unfold ceilDiv
  split
  · next even =>
    rw [Nat.div_eq_zero_iff]
    constructor
    · rintro (zero | small)
      · omega
      · rw [Nat.mod_eq_of_lt small] at even
        exact even
    · rintro rfl
      exact .inr positive
  · next rest =>
    refine ⟨fun none => absurd none (Nat.succ_ne_zero _), fun zero => absurd ?_ rest⟩
    rw [zero, Nat.zero_mod]

theorem ceil?_ofBits (bits : Nat) (finite : bits < 2047 * 2 ^ 52) :
    ∃ count : Nat, ceil? (Float.ofBits bits.toUInt64) = some (count : Int) ∧
      (count = 0 ↔ bits = 0) := by
  obtain ⟨significand, power, isFinite, zero⟩ := parts_ofBits bits finite
  obtain ⟨sizePos, _⟩ := scaleTwo_spec significand 1 power one_pos
  refine ⟨ceilDiv (ratio significand power).1 (ratio significand power).2, ?_, ?_⟩
  · simp only [ceil?, isFinite]
    rfl
  · rw [ratio, ceilDiv_eq_zero_iff _ _ sizePos, ← zero, scaleTwo]
    split
    · simp
    · rfl

/-! ## Range -/

/-- Ratios from this number on have no double. -/
def overflow : Nat := (2 ^ 54 - 1) * 2 ^ 970

/-- Ratios up to one over this number round to zero. -/
def vanishing : Nat := 2 ^ 1075

section Range

variable {num den : Nat} (numPos : 0 < num) (denPos : 0 < den)

include denPos in
theorem lt_overflow_iff :
    (num / den : Rat) < (2 ^ 54 - 1) * 2 ^ (970 : Int) ↔ num < overflow * den := by
  have limit : (overflow : Rat) = (2 ^ 54 - 1) * 2 ^ (970 : Int) := by
    have power : (2 : Rat) ^ (970 : Int) = ((2 ^ 970 : Nat) : Rat) := by
      rw [Nat.cast_pow, Nat.cast_ofNat]
      exact zpow_natCast 2 970
    rw [power, overflow, Nat.cast_mul, Nat.cast_sub Nat.one_le_two_pow]
    congr 1
  rw [div_lt_iff₀ (by exact_mod_cast denPos), ← limit]
  exact_mod_cast Iff.rfl

include denPos in
theorem le_vanishing_iff :
    (num / den : Rat) ≤ 2 ^ (-1075 : Int) ↔ num * vanishing ≤ den := by
  have limit : (vanishing : Rat) = 2 ^ (1075 : Int) := by
    rw [vanishing, Nat.cast_pow, Nat.cast_ofNat]
    exact (zpow_natCast 2 1075).symm
  have positive : (0 : Rat) < vanishing := by
    rw [limit]
    exact zpow_pos two_pos _
  rw [zpow_neg, ← limit, div_le_iff₀ (by exact_mod_cast denPos), mul_comm, ← div_eq_mul_inv,
    le_div_iff₀ positive]
  exact_mod_cast Iff.rfl

include numPos denPos

theorem ofRatio_range :
    (overflow * den ≤ num → ofRatio false num den = none) ∧
      (num < overflow * den → ∃ (value : Float) (count : Nat),
        ofRatio false num den = some value ∧ ceil? value = some (count : Int) ∧
          (count = 0 ↔ num * vanishing ≤ den)) := by
  rw [ofRatio_eq false num den numPos, ← not_lt, ← lt_overflow_iff denPos,
    ← encoding_lt_iff numPos denPos, ← le_vanishing_iff denPos,
    ← encoding_eq_zero_iff numPos denPos]
  constructor
  · intro beyond
    rw [if_neg beyond]
  · intro within
    obtain ⟨count, isCeil, zero⟩ := ceil?_ofBits (encoding num den) within
    refine ⟨_, count, if_pos within, ?_, zero⟩
    rw [if_neg Bool.false_ne_true, Nat.zero_add]
    exact isCeil

omit denPos in
/-- A ratio of at most one never overflows. -/
theorem exists_ofRatio (negative : Bool) (small : num ≤ den) :
    ∃ value, ofRatio negative num den = some value := by
  have denPos : 0 < den := by omega
  have above : 1 < overflow := by decide +kernel
  have within : num < overflow * den :=
    Nat.lt_of_le_of_lt small (lt_mul_of_one_lt_left denPos above)
  have finite := (encoding_lt_iff numPos denPos).mpr ((lt_overflow_iff denPos).mpr within)
  exact ⟨_, (ofRatio_eq negative num den numPos).trans (if_pos finite)⟩

end Range

theorem exists_ofInt_iff (n : Int) : (∃ value, ofInt n = some value) ↔ n.natAbs < overflow := by
  have within : Nat.pow 2 53 ≤ overflow := by decide +kernel
  unfold ofInt
  split
  · next small => exact ⟨fun _ => Nat.lt_of_lt_of_le small within, fun _ => ⟨_, rfl⟩⟩
  · next large =>
    have positive : 0 < n.natAbs := Nat.lt_of_lt_of_le (Nat.pow_pos two_pos) (Nat.not_lt.mp large)
    have range : encoding n.natAbs 1 < 2047 * 2 ^ 52 ↔ n.natAbs < overflow := by
      have bound := @lt_overflow_iff n.natAbs 1 one_pos
      rw [← encoding_lt_iff positive one_pos] at bound
      rw [bound]
      generalize overflow = limit
      rw [Nat.mul_one]
    rw [ofRatio_eq _ _ _ positive, ← range]
    split
    · next fits => exact ⟨fun _ => fits, fun _ => ⟨_, rfl⟩⟩
    · next beyond =>
      refine ⟨?_, fun fits => absurd fits beyond⟩
      rintro ⟨_, found⟩
      cases found

/-- A quotient of counts, rounded up. -/
theorem quotient_ceil (num den : Nat) (numPos : 0 < num) (denPos : 0 < den) :
    (overflow * den ≤ num →
      Arithmetic.div (Arithmetic.ofInt num : Scalar) (Arithmetic.ofInt den) >>= Arithmetic.ceil =
        .error .outOfRange) ∧
    (num < overflow * den → ∃ count : Nat,
      Arithmetic.div (Arithmetic.ofInt num : Scalar) (Arithmetic.ofInt den) >>= Arithmetic.ceil =
        .ok (count : Int) ∧ (count = 0 ↔ num * vanishing ≤ den)) := by
  obtain ⟨beyond, within⟩ := ofRatio_range numPos denPos
  have quotient : ∀ found, ofRatio false num den = found →
      Arithmetic.div (Arithmetic.ofInt num : Scalar) (Arithmetic.ofInt den) =
        found.elim (.error .outOfRange) fun value => .ok (.real value) := by
    intro found isFound
    have notZero : ¬ den = 0 := denPos.ne'
    have numNonneg : ¬ (num : Int) < 0 := by omega
    have denNonneg : ¬ (den : Int) < 0 := by omega
    change Scalar.wholeQuotient num den = _
    cases found <;> simp [Scalar.wholeQuotient, notZero, numNonneg, denNonneg, isFound]
  constructor
  · intro large
    rw [quotient none (beyond large)]
    rfl
  · intro small
    obtain ⟨value, count, isFound, isCeil, zero⟩ := within small
    refine ⟨count, ?_, zero⟩
    rw [quotient _ isFound]
    change Scalar.ceil (.real value) = _
    simp only [Scalar.ceil, isCeil]

end Binary64

end QuantumResources
