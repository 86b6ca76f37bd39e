import QuantumResources.Proofs.Number.Decimals
import QuantumResources.Proofs.Number.Exact

/-! Numbers of mixed kinds are compared by their values.

A number stands for a real number or is infinite. Doubles are compared by the fields of their words,
decimals by their leading digits and a double with a decimal by its decimal expansion, and all of
these agree with the order of the values. So a bound that is met stays met when it is raised. -/

namespace QuantumResources

/-! ## Orderings -/

/-- A first difference decides the order. -/
theorem compares_then {first second : Int} {rest : Ordering} {x y : ℝ}
    (below : first < second → x < y) (above : second < first → y < x)
    (equal : first = second → rest.Compares x y) :
    ((compare first second).then rest).Compares x y := by
  rcases lt_trichotomy first second with less | same | greater
  · rw [compare_lt_iff_lt.mpr less]
    exact below less
  · rw [compare_eq_iff_eq.mpr same]
    exact equal same
  · rw [compare_gt_iff_gt.mpr greater]
    exact above greater

theorem compares_scaled (a b : Nat) {scale : ℝ} (positive : 0 < scale) :
    (compare a b).Compares (a * scale) (b * scale) := by
  rcases lt_trichotomy a b with less | same | greater
  · rw [compare_lt_iff_lt.mpr less]
    exact mul_lt_mul_of_pos_right (by exact_mod_cast less) positive
  · rw [compare_eq_iff_eq.mpr same, same]
    exact rfl
  · rw [compare_gt_iff_gt.mpr greater]
    exact mul_lt_mul_of_pos_right (by exact_mod_cast greater) positive

theorem compares_int (a b : Int) : (compare a b).Compares (a : ℝ) b := by
  rw [← @Ordering.then_eq (compare a b)]
  exact compares_then Int.cast_lt.mpr Int.cast_lt.mpr (congrArg Int.cast)

theorem compares_neg {order : Ordering} {x y : ℝ} (compares : order.Compares x y) :
    order.swap.Compares (-x) (-y) := by
  cases order with
  | lt => exact neg_lt_neg compares
  | eq => exact congrArg Neg.neg compares
  | gt => exact neg_lt_neg compares

theorem compares_coe {order : Ordering} {x y : ℝ} (compares : order.Compares x y) :
    order.Compares (x : EReal) y := by
  cases order with
  | lt => exact EReal.coe_lt_coe_iff.mpr compares
  | eq => exact congrArg _ compares
  | gt => exact EReal.coe_lt_coe_iff.mpr compares

theorem compares_trans {R : Type} [LinearOrder R] {a b c : R} {first second third : Ordering}
    (isFirst : first.Compares a b) (isSecond : second.Compares b c) (upward : first ≠ .gt)
    (upward' : second ≠ .gt) (isThird : third.Compares a c) :
    third ≠ .gt ∧ (first = .lt ∨ second = .lt → third = .lt) := by
  rw [isFirst.ne_gt] at upward
  rw [isSecond.ne_gt] at upward'
  rw [isThird.ne_gt, isFirst.eq_lt, isSecond.eq_lt, isThird.eq_lt]
  refine ⟨upward.trans upward', ?_⟩
  rintro (less | less)
  · exact less.trans_le upward'
  · exact upward.trans_lt less

/-! ## Doubles -/

namespace Binary64

open Float.Model (UnpackedFloat)
open Float.Model.UnpackedFloat (Sign unpack unpackMantissa unpackExponent unpackSign)

def sign (negative : Bool) : Sign := if negative then .negative else .positive

/-- The form in which doubles are compared: zeros are kept apart from the other finite doubles. -/
def Parts.unpacked : Parts → UnpackedFloat
  | .finite negative significand power =>
    if positive : 0 < significand then .finite (sign negative) significand power positive
    else .zero (sign negative)
  | .infinite negative => .infinity (sign negative)
  | .nan => .notANumber

theorem fraction_eq (word : BitVec 64) :
    (@unpackMantissa .binary64 word).toNat = word.toNat % 2 ^ 52 := by
  change (word.toNat >>> 0) % 2 ^ 52 = _
  rw [Nat.shiftRight_zero]

theorem biased_eq (word : BitVec 64) :
    (@unpackExponent .binary64 word).toNat = word.toNat / 2 ^ 52 % 2048 := by
  change (word.toNat >>> 52) % 2 ^ 11 = _
  rw [Nat.shiftRight_eq_div_pow]

theorem sign_eq (word : BitVec 64) :
    Sign.ofBitVec (@unpackSign .binary64 word) = sign (word.toNat / 2 ^ 63 == 1) := by
  have bound := word.isLt
  have bit : (@unpackSign .binary64 word).toNat = word.toNat / 2 ^ 63 := by
    change (word.toNat >>> 63) % 2 = _
    rw [Nat.shiftRight_eq_div_pow]
    omega
  have positive : @unpackSign .binary64 word = 0#1 ↔ ¬ word.toNat / 2 ^ 63 = 1 := by
    rw [← BitVec.toNat_inj, bit]
    change _ = 0 ↔ _
    omega
  simp only [Sign.ofBitVec, sign, positive, beq_iff_eq, ite_not]

theorem unpack_eq (x : Float) : x.toModel.unpack = (parts x).unpacked := by
  change unpack .binary64 x.toBits.toBitVec = _
  have fraction := fraction_eq x.toBits.toBitVec
  have biased := biased_eq x.toBits.toBitVec
  have top : @unpackExponent .binary64 x.toBits.toBitVec = -1#_ ↔
      x.toBits.toNat / 2 ^ 52 % 2048 = 2047 := by
    rw [← BitVec.toNat_inj, biased]
    exact Iff.rfl
  have bottom : @unpackExponent .binary64 x.toBits.toBitVec = 0#_ ↔
      x.toBits.toNat / 2 ^ 52 % 2048 = 0 := by
    rw [← BitVec.toNat_inj, biased]
    exact Iff.rfl
  have empty : @unpackMantissa .binary64 x.toBits.toBitVec = 0#_ ↔
      x.toBits.toNat % 2 ^ 52 = 0 := by
    rw [← BitVec.toNat_inj, fraction]
    exact Iff.rfl
  -- Both sides now split on the same three fields of the word.
  unfold unpack parts
  simp only [Nat.pow_eq, top, bottom, empty, sign_eq]
  split
  · split <;> rfl
  · split
    · next least =>
      split
      · next zero =>
        simp only [Parts.unpacked, zero]
        rfl
      · next nonzero =>
        simp only [Parts.unpacked, Nat.pos_of_ne_zero nonzero, dite_true]
        rw [UnpackedFloat.finite.injEq]
        refine ⟨rfl, fraction, ?_⟩
        change ((@unpackExponent .binary64 x.toBits.toBitVec).toNat : Int) - (1023 + 52) + 1 = _
        rw [bottom.mpr least]
        rfl
    · have positive : 0 < x.toBits.toNat % 2 ^ 52 + 2 ^ 52 := by omega
      simp only [Parts.unpacked, positive, dite_true]
      rw [UnpackedFloat.finite.injEq]
      refine ⟨rfl, ?_, ?_⟩
      · rw [BitVec.toNat_append, ← Nat.shiftLeft_add_eq_or_of_lt (BitVec.isLt _), fraction]
        exact Nat.add_comm _ _
      · change ((@unpackExponent .binary64 x.toBits.toBitVec).toNat : Int) - (1023 + 52) = _
        rw [biased]
        rfl

/-- A significand fills all of its bits, except at the least power. -/
structure Normalized (significand : Nat) (power : Int) : Prop where
  high : significand < 2 ^ 53
  least : -1074 ≤ power
  full : -1074 < power → 2 ^ 52 ≤ significand

theorem parts_normalized {x : Float} {negative : Bool} {significand : Nat} {power : Int}
    (isFinite : parts x = .finite negative significand power) : Normalized significand power := by
  simp only [parts, Nat.pow_eq] at isFinite
  split at isFinite
  · split at isFinite <;> cases isFinite
  · split at isFinite <;> cases isFinite <;> constructor <;> omega

theorem Normalized.size_lt {s t : Nat} {p q : Int} (first : Normalized s p)
    (second : Normalized t q) (less : p < q) : (s * 2 ^ p : ℝ) < t * 2 ^ q := by
  have high : (s : ℝ) < 2 ^ 53 := by exact_mod_cast first.high
  have full : (2 : ℝ) ^ 52 ≤ t := by exact_mod_cast second.full (first.least.trans_lt less)
  have next : (2 : ℝ) ^ (p + 1) ≤ 2 ^ q := zpow_le_zpow_right₀ one_le_two less
  calc (s * 2 ^ p : ℝ) < 2 ^ 53 * 2 ^ p := by gcongr
    _ = 2 ^ 52 * 2 ^ (p + 1) := by
      rw [zpow_add_one₀ two_ne_zero]
      ring
    _ ≤ 2 ^ 52 * 2 ^ q := by gcongr
    _ ≤ t * 2 ^ q := by gcongr

theorem Normalized.compares {s t : Nat} {p q : Int} (first : Normalized s p)
    (second : Normalized t q) :
    ((compare p q).then (compare s t)).Compares (s * 2 ^ p : ℝ) (t * 2 ^ q) := by
  refine compares_then (first.size_lt second) (second.size_lt first) ?_
  rintro rfl
  exact compares_scaled s t (by positivity)

/-- The value of a double that is a number. -/
inductive Unpacks : UnpackedFloat → EReal → Prop
  | top : Unpacks (.infinity .positive) ⊤
  | bottom : Unpacks (.infinity .negative) ⊥
  | zero (sign : Sign) : Unpacks (.zero sign) 0
  | positive {s : Nat} {p : Int} (some : 0 < s) (normalized : Normalized s p) :
      Unpacks (.finite .positive s p some) (s * 2 ^ p : ℝ)
  | negative {s : Nat} {p : Int} (some : 0 < s) (normalized : Normalized s p) :
      Unpacks (.finite .negative s p some) (-(s * 2 ^ p) : ℝ)

theorem Unpacks.isNaN_eq_false {a : UnpackedFloat} {x : EReal} (unpacks : Unpacks a x) :
    a.isNaN = false := by
  cases unpacks <;> rfl

theorem size_pos {s : Nat} (some : 0 < s) (p : Int) : (0 : ℝ) < s * 2 ^ p :=
  mul_pos (by exact_mod_cast some) (zpow_pos two_pos p)

theorem neg_size_lt_size {s t : Nat} (some : 0 < s) (p q : Int) :
    (-(s * 2 ^ p) : ℝ) < t * 2 ^ q :=
  (neg_lt_zero.mpr (size_pos some p)).trans_le (by positivity)

theorem Unpacks.compares {a b : UnpackedFloat} {x y : EReal} (first : Unpacks a x)
    (second : Unpacks b y) : ∃ order, a.compare b = some order ∧ order.Compares x y := by
  cases first with
  | top =>
    cases second with
    | top => exact ⟨.eq, rfl, rfl⟩
    | bottom => exact ⟨.gt, rfl, bot_lt_top⟩
    | zero => exact ⟨.gt, rfl, EReal.zero_lt_top⟩
    | positive => exact ⟨.gt, rfl, EReal.coe_lt_top _⟩
    | negative => exact ⟨.gt, rfl, EReal.coe_lt_top _⟩
  | bottom =>
    cases second with
    | top => exact ⟨.lt, rfl, bot_lt_top⟩
    | bottom => exact ⟨.eq, rfl, rfl⟩
    | zero => exact ⟨.lt, rfl, EReal.bot_lt_zero⟩
    | positive => exact ⟨.lt, rfl, EReal.bot_lt_coe _⟩
    | negative => exact ⟨.lt, rfl, EReal.bot_lt_coe _⟩
  | zero =>
    cases second with
    | top => exact ⟨.lt, rfl, EReal.zero_lt_top⟩
    | bottom => exact ⟨.gt, rfl, EReal.bot_lt_zero⟩
    | zero => exact ⟨.eq, rfl, rfl⟩
    | positive some => exact ⟨.lt, rfl, EReal.coe_pos.mpr (size_pos some _)⟩
    | negative some => exact ⟨.gt, rfl, EReal.coe_neg'.mpr (neg_lt_zero.mpr (size_pos some _))⟩
  | positive some normalized =>
    cases second with
    | top => exact ⟨.lt, rfl, EReal.coe_lt_top _⟩
    | bottom => exact ⟨.gt, rfl, EReal.bot_lt_coe _⟩
    | zero => exact ⟨.gt, rfl, EReal.coe_pos.mpr (size_pos some _)⟩
    | positive _ normalized' => exact ⟨_, rfl, compares_coe (normalized.compares normalized')⟩
    | negative some' => exact ⟨.gt, rfl, EReal.coe_lt_coe_iff.mpr (neg_size_lt_size some' _ _)⟩
  | negative some normalized =>
    cases second with
    | top => exact ⟨.lt, rfl, EReal.coe_lt_top _⟩
    | bottom => exact ⟨.gt, rfl, EReal.bot_lt_coe _⟩
    | zero => exact ⟨.lt, rfl, EReal.coe_neg'.mpr (neg_lt_zero.mpr (size_pos some _))⟩
    | positive => exact ⟨.lt, rfl, EReal.coe_lt_coe_iff.mpr (neg_size_lt_size some _ _)⟩
    | negative _ normalized' =>
      exact ⟨_, rfl, compares_coe (compares_neg (normalized.compares normalized'))⟩

end Binary64

/-! ## Decimals -/

namespace Decimal

/-- The value of a decimal, unless it is not a number. -/
noncomputable def value? : Decimal → Option EReal
  | .finite negative coefficient power =>
    some (signed negative (coefficient * ((10 : Nat) : ℝ) ^ power) : ℝ)
  | .infinite negative => some (if negative then ⊥ else ⊤)
  | .nan _ => none

theorem Denotes.value? {a : Decimal} {x : ℝ} (denotes : a.Denotes x) :
    a.value? = some (x : EReal) := by
  cases a with
  | finite => exact congrArg _ (congrArg _ denotes.symm)
  | infinite => exact denotes.elim
  | nan => exact denotes.elim

theorem size_lt_of_leading {a b : Nat} {p q : Int} (first : 0 < a) (second : 0 < b)
    (less : leading a p < leading b q) : (a * 10 ^ p : ℝ) < b * 10 ^ q :=
  calc (a * 10 ^ p : ℝ) < 10 ^ (leading a p + 1) := (leading_bounds p first).2
    _ ≤ 10 ^ leading b q := zpow_le_zpow_right₀ (by norm_num) less
    _ ≤ b * 10 ^ q := (leading_bounds q second).1

theorem scaled_mul (a : Nat) {p least : Int} (order : least ≤ p) :
    ((a * Nat.pow 10 (p - least).toNat : Nat) : ℝ) * 10 ^ least = a * 10 ^ p := by
  obtain ⟨gap, isGap⟩ := Int.eq_ofNat_of_zero_le (Int.sub_nonneg.mpr order)
  have isPower : p = gap + least := by omega
  rw [isGap, isPower, Int.toNat_natCast, Nat.pow_eq, zpow_add₀ (by norm_num), zpow_natCast]
  push_cast
  ring

/-- Sizes are compared by their leading digits, and if these agree on a common power. -/
theorem compares_sizes (a b : Nat) (p q : Int) :
    (if a = 0 ∨ b = 0 then compare a b
      else (compare (leading a p) (leading b q)).then
        (compare (a * Nat.pow 10 (p - min p q).toNat)
          (b * Nat.pow 10 (q - min p q).toNat))).Compares (a * 10 ^ p : ℝ) (b * 10 ^ q) := by
  have unit (power : Int) : (0 : ℝ) < 10 ^ power := zpow_pos (by norm_num) power
  split
  · next zero =>
    rcases zero with rfl | rfl
    · simpa using compares_scaled 0 b (unit q)
    · simpa using compares_scaled a 0 (unit p)
  · next nonzero =>
    obtain ⟨first, second⟩ := not_or.mp nonzero
    have first := Nat.pos_of_ne_zero first
    have second := Nat.pos_of_ne_zero second
    refine compares_then (size_lt_of_leading first second) (size_lt_of_leading second first) ?_
    intro _
    have scaled := compares_scaled (a * Nat.pow 10 (p - min p q).toNat)
      (b * Nat.pow 10 (q - min p q).toNat) (unit (min p q))
    rwa [scaled_mul a (min_le_left p q), scaled_mul b (min_le_right p q)] at scaled

theorem size_pos {a : Nat} (nonzero : a ≠ 0) (p : Int) : (0 : ℝ) < a * 10 ^ p :=
  mul_pos (by exact_mod_cast Nat.pos_of_ne_zero nonzero) (zpow_pos (by norm_num) p)

theorem compareFinite_compares (aNegative : Bool) (a : Nat) (p : Int) (bNegative : Bool) (b : Nat)
    (q : Int) :
    (compareFinite aNegative (a, p) bNegative (b, q)).Compares
      (signed aNegative (a * ((10 : Nat) : ℝ) ^ p))
      (signed bNegative (b * ((10 : Nat) : ℝ) ^ q)) := by
  have sizes := compares_sizes a b p q
  unfold compareFinite
  simp only [Nat.cast_ofNat]
  by_cases zeros : a = 0 ∧ b = 0
  · rw [if_pos zeros, zeros.1, zeros.2]
    simp [signed_zero]
  rw [if_neg zeros]
  -- Where the signs differ they decide, unless the negative number is a zero.
  cases aNegative with
  | false =>
    cases bNegative with
    | false => exact sizes
    | true =>
      by_cases zero : b = 0
      · simpa [signed, zero] using sizes
      · have less : -(b * 10 ^ q : ℝ) < a * 10 ^ p :=
          (neg_lt_zero.mpr (size_pos zero q)).trans_le (by positivity)
        simpa [signed, zero] using less
  | true =>
    cases bNegative with
    | false =>
      by_cases zero : a = 0
      · simpa [signed, zero] using sizes
      · have less : -(a * 10 ^ p : ℝ) < b * 10 ^ q :=
          (neg_lt_zero.mpr (size_pos zero p)).trans_le (by positivity)
        simpa [signed, zero] using less
    | true => exact compares_neg sizes

theorem compare?_compares {a b : Decimal} {x y : EReal} (first : a.value? = some x)
    (second : b.value? = some y) : ∃ order, compare? a b = some order ∧ order.Compares x y := by
  cases a with
  | finite an ac ap =>
    cases b with
    | finite bn bc bp =>
      cases first
      cases second
      exact ⟨_, rfl, compares_coe (compareFinite_compares an ac ap bn bc bp)⟩
    | infinite negative =>
      cases first
      cases second
      cases negative with
      | false => exact ⟨.lt, rfl, EReal.coe_lt_top _⟩
      | true => exact ⟨.gt, rfl, EReal.bot_lt_coe _⟩
    | nan => cases second
  | infinite negative =>
    cases first
    cases b with
    | finite =>
      cases second
      cases negative with
      | false => exact ⟨.gt, rfl, EReal.coe_lt_top _⟩
      | true => exact ⟨.lt, rfl, EReal.bot_lt_coe _⟩
    | infinite negative' =>
      cases second
      cases negative <;> cases negative'
      · exact ⟨.eq, rfl, rfl⟩
      · exact ⟨.gt, rfl, bot_lt_top⟩
      · exact ⟨.lt, rfl, bot_lt_top⟩
      · exact ⟨.eq, rfl, rfl⟩
    | nan => cases second
  | nan => cases first

theorem compare?_of_missing {a b : Decimal} (missing : a.value? = none ∨ b.value? = none) :
    compare? a b = none := by
  rcases missing with missing | missing
  · cases a <;> cases missing
    rfl
  · cases b <;> cases missing
    cases a <;> rfl

end Decimal

/-! ## Doubles as decimals -/

namespace Binary64

open Decimal (ofFloat signed ofFloat_denotes)

theorem unpacks_of_value {x : Float} {value : EReal} (isValue : (ofFloat x).value? = some value) :
    Unpacks x.toModel.unpack value := by
  rw [unpack_eq]
  cases isParts : parts x with
  | finite negative significand power =>
    rw [(ofFloat_denotes isParts).value?] at isValue
    cases isValue
    have normalized := parts_normalized isParts
    rcases Nat.eq_zero_or_pos significand with rfl | positive
    · simpa [Parts.unpacked, Decimal.signed_zero] using Unpacks.zero (sign negative)
    · simp only [Parts.unpacked, positive, dite_true]
      cases negative with
      | false => exact .positive positive normalized
      | true => exact .negative positive normalized
  | infinite negative =>
    rw [ofFloat, isParts] at isValue
    cases isValue
    cases negative with
    | false => exact .top
    | true => exact .bottom
  | nan =>
    rw [ofFloat, isParts] at isValue
    cases isValue

theorem lt_iff_of_values {a b : Float} {x y : EReal} (first : (ofFloat a).value? = some x)
    (second : (ofFloat b).value? = some y) : a < b ↔ x < y := by
  obtain ⟨order, compared, compares⟩ :=
    (unpacks_of_value first).compares (unpacks_of_value second)
  have isLess : a < b ↔ a.toModel.unpack.compare b.toModel.unpack = some .lt := by
    change decide (a.toModel < b.toModel) = true ↔ _
    rw [decide_eq_true_iff]
    exact beq_iff_eq
  rw [isLess, compared, Option.some.injEq]
  exact compares.eq_lt

theorem isNaN_of_value {x : Float} (noValue : (ofFloat x).value? = none) : x.isNaN = true := by
  change x.toModel.unpack.isNaN = true
  rw [unpack_eq]
  cases isParts : parts x with
  | finite => cases (ofFloat_denotes isParts).value?.symm.trans noValue
  | infinite =>
    rw [ofFloat, isParts] at noValue
    cases noValue
  | nan => rfl

theorem isNaN_eq_false {x : Float} {value : EReal} (isValue : (ofFloat x).value? = some value) :
    x.isNaN = false :=
  (unpacks_of_value isValue).isNaN_eq_false

end Binary64

namespace Scalar

theorem compareReal_of_missing {a b : Float}
    (missing : (Decimal.ofFloat a).value? = none ∨ (Decimal.ofFloat b).value? = none) :
    compareReal a b = none := by
  rcases missing with missing | missing
  · rw [compareReal, Binary64.isNaN_of_value missing]
    rfl
  · rw [compareReal, Binary64.isNaN_of_value missing, Bool.or_true]
    rfl

theorem compareReal_compares {a b : Float} {x y : EReal}
    (first : (Decimal.ofFloat a).value? = some x) (second : (Decimal.ofFloat b).value? = some y) :
    ∃ order, compareReal a b = some order ∧ order.Compares x y := by
  simp only [compareReal, Binary64.isNaN_eq_false first, Binary64.isNaN_eq_false second,
    Binary64.lt_iff_of_values first second, Binary64.lt_iff_of_values second first]
  refine ⟨_, rfl, ?_⟩
  rcases lt_trichotomy x y with less | same | greater
  · simp [less]
  · simp [same]
  · simp [greater, greater.not_gt]

/-- The value of a scalar, if it is a number. -/
noncomputable def value? : Scalar → Option EReal
  | .whole n => some ((n : ℝ) : EReal)
  | .flag b => some (((if b then 1 else 0 : Int) : ℝ) : EReal)
  | .real x => (Decimal.ofFloat x).value?
  | .decimal d => d.value?
  | .complex _ _ | .text _ | .unset => none

theorem whole_value {x : Scalar} {n : Int} (isWhole : x.whole? = some n) :
    x.value? = some ((n : ℝ) : EReal) := by
  cases x <;> cases isWhole <;> rfl

theorem expansion_value {x : Scalar} {d : Decimal} (isExpansion : x.expansion? = some d) :
    x.value? = d.value? := by
  cases x with
  | whole n =>
    cases isExpansion
    exact (Decimal.ofInt_denotes n).value?.symm
  | flag b =>
    cases isExpansion
    exact (Decimal.ofInt_denotes _).value?.symm
  | real =>
    cases isExpansion
    rfl
  | decimal =>
    cases isExpansion
    rfl
  | complex => cases isExpansion
  | text => cases isExpansion
  | unset => cases isExpansion

theorem exists_expansion {x : Scalar} {a : EReal} (isValue : x.value? = some a) :
    ∃ d, x.expansion? = some d := by
  cases x with
  | whole | flag | real | decimal => exact ⟨_, rfl⟩
  | complex | text | unset => cases isValue

/-- How two scalars are compared. -/
inductive Compared (x y : Scalar) : Except Failure (Option Ordering) → Prop
  | wholes {m n : Int} (first : x.whole? = some m) (second : y.whole? = some n) :
      Compared x y (.ok (some (compare m n)))
  | reals {a b : Float} (first : x = .real a) (second : y = .real b) :
      Compared x y (.ok (compareReal a b))
  | texts {s t : String} (first : x = .text s) (second : y = .text t) :
      Compared x y (.ok (some (compare s t)))
  | expansions {d e : Decimal} {found : Ordering} (first : x.expansion? = some d)
      (second : y.expansion? = some e) (compared : Decimal.compare? d e = some found) :
      Compared x y (.ok (some found))
  | unordered {result : Except Failure (Option Ordering)}
      (missing : x.value? = none ∨ y.value? = none) (nothing : ∀ found, result ≠ .ok (some found)) :
      Compared x y result

theorem values_or_missing (x y : Scalar) :
    (∃ a b, x.value? = some a ∧ y.value? = some b) ∨ x.value? = none ∨ y.value? = none := by
  cases first : x.value? with
  | none => exact .inr (.inl rfl)
  | some a =>
    cases second : y.value? with
    | none => exact .inr (.inr rfl)
    | some b => exact .inl ⟨a, b, rfl, rfl⟩

theorem compared_expansions {x y : Scalar} {d e : Decimal} (first : x.expansion? = some d)
    (second : y.expansion? = some e) (failure : Failure) :
    Compared x y (.ok (Decimal.compare? d e)) ∧
      Compared x y (match Decimal.compare? d e with
        | some found => .ok (some found)
        | none => .error failure) := by
  cases compared : Decimal.compare? d e with
  | some found => exact ⟨.expansions first second compared, .expansions first second compared⟩
  | none =>
    have missing : x.value? = none ∨ y.value? = none := by
      rcases values_or_missing x y with ⟨a, b, isFirst, isSecond⟩ | missing
      · rw [expansion_value first] at isFirst
        rw [expansion_value second] at isSecond
        obtain ⟨found, isFound, _⟩ := Decimal.compare?_compares isFirst isSecond
        cases compared.symm.trans isFound
      · exact missing
    exact ⟨.unordered missing nofun, .unordered missing nofun⟩

theorem order_compared (x y : Scalar) : Compared x y (x.order y) := by
  unfold order
  split
  · next first second => exact .wholes first second
  · split
    · exact .reals rfl rfl
    · exact .unordered (.inl rfl) nofun
    · exact .unordered (.inr rfl) nofun
    · exact .texts rfl rfl
    · split
      · next d e first second =>
        split
        · exact (compared_expansions first second _).2
        · exact (compared_expansions first second _).2
        · exact (compared_expansions first second .wrongKind).1
      · next noExpansions =>
        rcases values_or_missing x y with ⟨a, b, isFirst, isSecond⟩ | missing
        · obtain ⟨d, first⟩ := exists_expansion isFirst
          obtain ⟨e, second⟩ := exists_expansion isSecond
          exact (noExpansions d e first second).elim
        · exact .unordered missing nofun

/-- Numbers of any two kinds are compared by their values. -/
theorem order_compares {x y : Scalar} {a b : EReal} (first : x.value? = some a)
    (second : y.value? = some b) : ∃ order, x.order y = .ok (some order) ∧ order.Compares a b := by
  have compared := order_compared x y
  generalize x.order y = result at compared ⊢
  cases compared with
  | wholes isFirst isSecond =>
    cases first.symm.trans (whole_value isFirst)
    cases second.symm.trans (whole_value isSecond)
    exact ⟨_, rfl, compares_coe (compares_int _ _)⟩
  | reals isFirst isSecond =>
    subst isFirst isSecond
    obtain ⟨found, isFound, compares⟩ := compareReal_compares first second
    exact ⟨found, congrArg Except.ok isFound, compares⟩
  | texts isFirst =>
    subst isFirst
    cases first
  | expansions isFirst isSecond isFound =>
    rw [expansion_value isFirst] at first
    rw [expansion_value isSecond] at second
    obtain ⟨found, isFound', compares⟩ := Decimal.compare?_compares first second
    cases isFound.symm.trans isFound'
    exact ⟨_, rfl, compares⟩
  | unordered missing =>
    rcases missing with missing | missing
    · cases first.symm.trans missing
    · cases second.symm.trans missing

/-- Only numbers and texts are ordered. -/
theorem order_of_missing {x y : Scalar} (missing : x.value? = none ∨ y.value? = none)
    {found : Ordering} (ordered : x.order y = .ok (some found)) :
    ∃ s t, x = .text s ∧ y = .text t ∧ found = compare s t := by
  have compared := order_compared x y
  rw [ordered] at compared
  generalize isResult : Except.ok (some found) = result at compared
  cases compared with
  | wholes first second =>
    rw [whole_value first, whole_value second] at missing
    rcases missing with impossible | impossible <;> cases impossible
  | reals first second =>
    subst first second
    cases isResult.trans (congrArg Except.ok (compareReal_of_missing missing))
  | texts first second =>
    cases isResult
    exact ⟨_, _, first, second, rfl⟩
  | expansions first second isFound =>
    rw [expansion_value first, expansion_value second] at missing
    cases isFound.symm.trans (Decimal.compare?_of_missing missing)
  | unordered _ nothing => exact absurd isResult.symm (nothing found)

theorem values_of_order {x y : Scalar} {found : Ordering} (ordered : x.order y = .ok (some found)) :
    (∃ a b, x.value? = some a ∧ y.value? = some b ∧ found.Compares a b) ∨
      ∃ s t, x = .text s ∧ y = .text t ∧ found.Compares s t := by
  rcases values_or_missing x y with ⟨a, b, first, second⟩ | missing
  · obtain ⟨found', ordered', compares⟩ := order_compares first second
    cases ordered.symm.trans ordered'
    exact .inl ⟨a, b, first, second, compares⟩
  · obtain ⟨s, t, first, second, rfl⟩ := order_of_missing missing ordered
    exact .inr ⟨s, t, first, second, (compare_iff s t).mp rfl⟩

/-- An order that goes through a third scalar. -/
theorem order_trans {x y z : Scalar} {first second : Ordering}
    (isFirst : x.order y = .ok (some first)) (isSecond : y.order z = .ok (some second))
    (upward : first ≠ .gt) (upward' : second ≠ .gt) :
    ∃ found, x.order z = .ok (some found) ∧ found ≠ .gt ∧
      (first = .lt ∨ second = .lt → found = .lt) := by
  rcases values_of_order isFirst with ⟨a, b, hasA, hasB, compares⟩ | ⟨s, t, rfl, rfl, compares⟩
  · rcases values_of_order isSecond with ⟨b', c, hasB', hasC, compares'⟩ | ⟨s, t, rfl, _⟩
    · cases hasB.symm.trans hasB'
      obtain ⟨found, isFound, order⟩ := order_compares hasA hasC
      exact ⟨found, isFound, compares_trans compares compares' upward upward' order⟩
    · cases hasB
  · rcases values_of_order isSecond with ⟨b, c, hasB, _⟩ | ⟨_, u, same, rfl, compares'⟩
    · cases hasB
    · cases same
      exact ⟨_, rfl, compares_trans compares compares' upward upward' ((compare_iff s u).mp rfl)⟩

theorem lt_iff_order {x y : Scalar} : x.lt y = .ok true ↔ x.order y = .ok (some .lt) := by
  unfold lt
  cases x.order y with
  | error => simp
  | ok found => simp

theorem le_iff_order {x y : Scalar} :
    x.le y = .ok true ↔ ∃ found, x.order y = .ok (some found) ∧ found ≠ .gt := by
  unfold le
  cases x.order y with
  | error => simp
  | ok found => rcases found with _ | _ | _ | _ <;> simp

theorem lt_of_values {x y : Scalar} {a b : EReal} (first : x.value? = some a)
    (second : y.value? = some b) : x.lt y = .ok (decide (a < b)) := by
  obtain ⟨found, ordered, compares⟩ := order_compares first second
  have isLess : (some found == some Ordering.lt) = decide (a < b) := by
    rw [Bool.eq_iff_iff, beq_iff_eq, decide_eq_true_iff, Option.some.injEq]
    exact compares.eq_lt
  rw [lt, ordered, ← isLess]
  rfl

/-! ## Whole values -/

theorem eq_whole_of_value {x : Scalar} {n : Int} (isValue : x.value? = some ((n : ℝ) : EReal))
    (c : Int) : (Scalar.whole c).eq x = decide (c = n) := by
  obtain ⟨found, ordered, compares⟩ := order_compares (x := .whole c) rfl isValue
  have decided : (Scalar.whole c).eq x = (some found == some Ordering.eq) := by
    cases x <;> simp only [eq, ordered]
  rw [decided, Bool.eq_iff_iff, beq_iff_eq, Option.some.injEq, decide_eq_true_iff, compares.eq_eq]
  norm_cast

/-- The whole part of a ratio whose value is a natural number is that number. -/
theorem whole_of_ratio {negative : Bool} {num den n : Nat} {size : ℝ} (positive : 0 < den)
    (isSize : (num / den : ℝ) = size) (isValue : Decimal.signed negative size = n) :
    (if negative then -((num / den : Nat) : Int) else ((num / den : Nat) : Int)) = n := by
  have nonneg : 0 ≤ size := by
    rw [← isSize]
    positivity
  have same : size = n := by
    calc size = |Decimal.signed negative size| := (Decimal.abs_signed negative nonneg).symm
      _ = |(n : ℝ)| := by rw [isValue]
      _ = n := Nat.abs_cast n
  have quotient : num / den = n := by
    rw [same, div_eq_iff (by positivity)] at isSize
    apply Nat.div_eq_of_eq_mul_left positive
    exact_mod_cast isSize
  rw [quotient]
  cases negative with
  | false => rfl
  | true =>
    have zero : n = 0 := by
      have opposite : -(n : ℝ) = n := same ▸ isValue
      exact_mod_cast neg_eq_self.mp opposite
    simp [zero]

/-- A number that stands for a natural number is cut to that number. -/
theorem truncate_of_value {x : Scalar} {n : Nat} (isValue : x.value? = some ((n : ℝ) : EReal)) :
    x.truncate = .ok (n : Int) := by
  have same {size : ℝ} (isSize : some (size : EReal) = some ((n : ℝ) : EReal)) : size = n :=
    EReal.coe_injective (Option.some.inj isSize)
  cases x with
  | whole m => exact congrArg Except.ok (Int.cast_inj.mp ((same isValue).trans (by simp)))
  | flag b => exact congrArg Except.ok (Int.cast_inj.mp ((same isValue).trans (by simp)))
  | real value =>
    change (Decimal.ofFloat value).value? = _ at isValue
    cases isParts : Binary64.parts value with
    | finite negative significand power =>
      obtain ⟨positive, ratio⟩ := Rounding.scaleTwo_spec significand 1 power one_pos
      have size : ((Rounding.scaleTwo significand 1 power).1 /
          (Rounding.scaleTwo significand 1 power).2 : ℝ) = significand * 2 ^ power := by
        have moved := congrArg (fun q : Rat => (q : ℝ)) ratio
        push_cast at moved
        simpa using moved
      rw [(Decimal.ofFloat_denotes isParts).value?] at isValue
      have whole := whole_of_ratio positive size (same isValue)
      simp only [truncate, Binary64.truncate?, isParts]
      exact congrArg Except.ok whole
    | infinite negative =>
      rw [Decimal.ofFloat, isParts] at isValue
      cases negative <;> cases Option.some.inj isValue
    | nan =>
      rw [Decimal.ofFloat, isParts] at isValue
      cases isValue
  | decimal value =>
    cases value with
    | finite negative coefficient power =>
      obtain ⟨positive, ratio⟩ := Rounding.scaleTen_spec coefficient 1 power one_pos
      rw [Nat.cast_one, div_one] at ratio
      exact congrArg Except.ok (whole_of_ratio positive ratio (same isValue))
    | infinite negative => cases negative <;> cases Option.some.inj isValue
    | nan signaling => cases isValue
  | complex => cases isValue
  | text => cases isValue
  | unset => cases isValue

end Scalar

end QuantumResources
