import QuantumResources.Proofs.Number.Order

/-! Natural numbers in decimal digits.

Below `2 ^ 53` every natural number is a double, so digits are read as the number that they stand
for. -/

namespace QuantumResources

/-! ## Naturals as doubles -/

namespace Binary64

open Rounding

theorem nearest_one (n : Nat) : nearest n 1 = n := by
  simp [nearest, Nat.mod_one]

/-- The significand and the power of a double with a full significand. -/
theorem parts_full (exponent significand : Nat) (small : exponent < 2046)
    (full : 2 ^ 52 ≤ significand) (fits : significand < 2 ^ 53) :
    parts (Float.ofBits (exponent * 2 ^ 52 + significand).toUInt64) =
      .finite false significand ((exponent : Int) - 1074) := by
  have biased : (exponent * 2 ^ 52 + significand) / 2 ^ 52 = exponent + 1 := by omega
  have fraction : (exponent * 2 ^ 52 + significand) % 2 ^ 52 + 2 ^ 52 = significand := by omega
  rw [parts_bits _ (by omega), biased, fraction, if_neg (by omega)]
  congr 1
  omega

/-- A natural number is moved up until it fills the significand. -/
theorem encoding_natural (n : Nat) (positive : 0 < n) (small : n < 2 ^ 53) :
    ∃ shift ≤ 52, 2 ^ 52 ≤ n * 2 ^ shift ∧ n * 2 ^ shift < 2 ^ 53 ∧
      encoding n 1 = (1074 - shift) * 2 ^ 52 + n * 2 ^ shift := by
  obtain ⟨low, high⟩ := leadingBit_spec n 1 positive one_pos
  rw [Nat.cast_one, div_one] at low high
  have nonneg : 0 ≤ leadingBit n 1 := by
    by_contra negative
    have tiny : (2 : Rat) ^ (leadingBit n 1 + 1) ≤ 2 ^ (0 : Int) :=
      zpow_le_zpow_right₀ one_le_two (by omega)
    have one : (1 : Rat) ≤ n := by exact_mod_cast positive
    rw [zpow_zero] at tiny
    linarith
  have short : leadingBit n 1 ≤ 52 := by
    by_contra long
    have large : (2 : Rat) ^ (53 : Int) ≤ 2 ^ leadingBit n 1 :=
      zpow_le_zpow_right₀ one_le_two (by omega)
    have bound : (n : Rat) < 2 ^ (53 : Int) := by exact_mod_cast small
    linarith
  -- A number of at most 53 bits is moved up only, so that nothing is rounded.
  obtain ⟨shift, isShift⟩ := Int.eq_ofNat_of_zero_le (show 0 ≤ 52 - leadingBit n 1 by omega)
  have isPower : -(shift : Int) = max (leadingBit n 1 - 52) (-1074) := by omega
  obtain ⟨fits, full⟩ := scaled_bounds positive one_pos (-(shift : Int)) isPower
  have reached := full (by omega)
  rw [Nat.cast_one, div_one, neg_neg, zpow_natCast] at fits reached
  refine ⟨shift, by omega, by exact_mod_cast reached, by exact_mod_cast fits, ?_⟩
  have scaled : scaleTwo n 1 (- -(shift : Int)) = (n * 2 ^ shift, 1) := by
    rw [neg_neg, scaleTwo, if_pos (by omega), Int.toNat_natCast, Nat.pow_eq]
  have exponent : (-(shift : Int) + 1074).toNat = 1074 - shift := by omega
  simp only [encoding, ← isPower, scaled, nearest_one, exponent]

/-- A natural number below `2 ^ 53` is a double. -/
theorem ofRatio_natural (n : Nat) (small : n < 2 ^ 53) :
    ∃ x, ofRatio false n 1 = some x ∧ (Decimal.ofFloat x).value? = some ((n : ℝ) : EReal) := by
  rcases Nat.eq_zero_or_pos n with rfl | positive
  · refine ⟨Float.ofBits (0 : Nat).toUInt64, rfl, ?_⟩
    rw [(Decimal.ofFloat_denotes (parts_bits 0 (by decide))).value?]
    simp [Decimal.signed]
  · obtain ⟨shift, most, full, fits, isEncoding⟩ := encoding_natural n positive small
    have isFinite := parts_full (1074 - shift) (n * 2 ^ shift) (by omega) full fits
    have power : ((1074 - shift : Nat) : Int) - 1074 = -(shift : Int) := by omega
    have size : Decimal.signed false ((n * 2 ^ shift : Nat) * 2 ^ (-(shift : Int)) : ℝ) = n := by
      rw [zpow_neg, zpow_natCast]
      simp [Decimal.signed]
    refine ⟨Float.ofBits (encoding n 1).toUInt64, ?_, ?_⟩
    · rw [ofRatio_eq false n 1 positive, if_pos (by omega), if_neg Bool.false_ne_true, Nat.zero_add]
    · rw [isEncoding, (Decimal.ofFloat_denotes isFinite).value?, power, size]

theorem ofDecimal_natural (n : Nat) (small : n < 2 ^ 53) :
    ofDecimal false n 0 = ofRatio false n 1 := by
  rw [ofDecimal]
  by_cases zero : n = 0
  · rw [if_pos zero, zero]
  · have short : decimalLength n ≤ 16 := decimalLength_le (by omega) (by omega)
    rw [if_neg zero, if_neg (by omega), if_neg (by omega)]
    simp [scaleTen]

end Binary64

/-! ## Digits -/

namespace Numeral

theorem digit_bounds {c : Char} (digit : isDigit c = true) : 48 ≤ c.toNat ∧ c.toNat ≤ 57 := by
  rw [isDigit, Bool.and_eq_true, decide_eq_true_eq, decide_eq_true_eq] at digit
  exact digit

theorem isBlank_digit {c : Char} (digit : isDigit c = true) : isBlank c = false := by
  have bounds := digit_bounds digit
  rw [Bool.eq_false_iff]
  intro blank
  simp only [isBlank, Bool.or_eq_true, Bool.and_eq_true, beq_iff_eq, decide_eq_true_eq] at blank
  omega

theorem toLower_digit {c : Char} (digit : isDigit c = true) : c.toLower = c := by
  have bounds := digit_bounds digit
  rw [Char.toLower, dif_neg]
  rintro ⟨upper, _⟩
  have isUpper : 65 ≤ c.toNat := upper
  omega

theorem trim_digits (digits : List Char) (all : ∀ c ∈ digits, isDigit c = true) :
    trim digits = digits := by
  have kept (text : List Char) (all : ∀ c ∈ text, isDigit c = true) :
      text.dropWhile isBlank = text := by
    cases text with
    | nil => rfl
    | cons c rest =>
      exact List.dropWhile_cons_of_neg (by simp [isBlank_digit (all c (by simp))])
  rw [trim, kept digits all, kept digits.reverse (by simpa using all), List.reverse_reverse]

theorem digitsFrom_digits (started : Bool) (digits : List Char)
    (all : ∀ c ∈ digits, isDigit c = true) : digitsFrom started digits = (digits, []) := by
  induction digits generalizing started with
  | nil => rfl
  | cons c rest ih =>
    have later := ih true fun other member => all other (List.mem_cons_of_mem _ member)
    simp [digitsFrom, all c (by simp), later]

theorem finite?_digits (negative : Bool) (digits : List Char) (nonempty : digits ≠ [])
    (all : ∀ c ∈ digits, isDigit c = true) :
    finite? negative digits = some (.finite negative (valueOf digits) 0) := by
  simp [finite?, takeDigits, digitsFrom_digits false digits all, nonempty, exponent?]

theorem takeSign_digit {c : Char} (digit : isDigit c = true) (rest : List Char) :
    takeSign (c :: rest) = (false, c :: rest) := by
  have bounds := digit_bounds digit
  rw [takeSign]
  · rintro _ ⟨⟩
    revert bounds
    decide
  · rintro _ ⟨⟩
    revert bounds
    decide

theorem lower_digit_ne {c word : Char} (digit : isDigit c = true) (letter : 57 < word.toNat)
    (rest letters : List Char) : lower (c :: rest) ≠ String.ofList (word :: letters) := by
  have bounds := digit_bounds digit
  intro same
  rw [lower, String.ofList_inj, List.map_cons, toLower_digit digit] at same
  obtain ⟨rfl, _⟩ := List.cons.inj same
  omega

/-- Digits are read as the number that they stand for. -/
theorem read?_digits (digits : List Char) (nonempty : digits ≠ [])
    (all : ∀ c ∈ digits, isDigit c = true) :
    read? (String.ofList digits) = some (.finite false (valueOf digits) 0) := by
  cases digits with
  | nil => exact absurd rfl nonempty
  | cons c rest =>
    have digit := all c (by simp)
    rw [read?, String.toList_ofList, trim_digits _ all, takeSign_digit digit]
    dsimp only
    split
    · next isWord => exact absurd isWord (lower_digit_ne digit (by decide) rest ['n', 'f'])
    · next isWord =>
      exact absurd isWord
        (lower_digit_ne digit (by decide) rest ['n', 'f', 'i', 'n', 'i', 't', 'y'])
    · next isWord => exact absurd isWord (lower_digit_ne digit (by decide) rest ['a', 'n'])
    · exact finite?_digits false (c :: rest) nonempty all

theorem toFloat_natural (n : Nat) (small : n < 2 ^ 53) :
    (Decimal.ofFloat (finite false n 0).toFloat).value? = some ((n : ℝ) : EReal) := by
  obtain ⟨x, isDouble, isValue⟩ := Binary64.ofRatio_natural n small
  rw [toFloat, Binary64.ofDecimal_natural n small, isDouble]
  exact isValue

end Numeral

end QuantumResources
