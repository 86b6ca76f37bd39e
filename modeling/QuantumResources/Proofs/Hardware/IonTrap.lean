import QuantumResources.Hardware.IonTrap
import QuantumResources.Proofs.Binomial

/-! How many pairs are distilled and how many ions communicate, for exact probabilities.

Both counts are least numbers of trials. A patch of a larger distance needs more pairs. -/

namespace QuantumResources.IonTrap

open Binomial (exactCdf Suffices)

/-- Probability that a distillation succeeds. -/
def distillationSuccess : Rat := ((76 : Nat) : Rat) / (100 : Nat)

/-- Probability that one of some attempts to link two ions succeeds. -/
def linkSuccess (attempts : Nat) : Rat := 1 - (1 - ((218 : Nat) : Rat) / (1000000 : Nat)) ^ attempts

theorem distillationSuccess_eq : distillationSuccess = 76 / 100 := by
  rw [distillationSuccess, Nat.cast_ofNat, Nat.cast_ofNat]

theorem linkSuccess_le_one (attempts : Nat) : linkSuccess attempts ≤ 1 := by
  rw [linkSuccess, Nat.cast_ofNat, Nat.cast_ofNat]
  exact sub_le_self _ (pow_nonneg (by norm_num) _)

/-- Further attempts do no harm, and the first alone gives the bound that ends the search. -/
theorem one_le_mul_linkSuccess {attempts : Nat} (some : 1 ≤ attempts) :
    1 ≤ ((4588 : Nat) : Rat) * linkSuccess attempts := by
  rw [linkSuccess, Nat.cast_ofNat, Nat.cast_ofNat, Nat.cast_ofNat]
  have first : (1 - 218 / 1000000 : Rat) ^ attempts ≤ (1 - 218 / 1000000) ^ 1 :=
    pow_le_pow_of_le_one (by norm_num) (by norm_num) some
  norm_num at first ⊢
  linarith

theorem pairsWith_isLeast {distance : Nat} (positive : 1 ≤ distance) :
    ∃ pairs : Nat, pairsWith exactCdf distance = .ok (pairs : Int) ∧
      IsLeast {n | Suffices distillationSuccess (2 * distance - 1) n} pairs := by
  have needed : 2 * (distance : Int) - 1 = (2 * distance - 1 : Nat) := by omega
  have success : (Arithmetic.constant 76 2 : Rat) = distillationSuccess := rfl
  rw [pairsWith, needed, success]
  refine Binomial.leastTrials_isLeast ?_ ?_ (by omega)
  · rw [distillationSuccess_eq]
    norm_num
  · rw [distillationSuccess_eq]
    norm_num

theorem communicationIonsWith_eq {distance pairs : Nat} (attempts : Nat)
    (found : pairsWith exactCdf distance = .ok (pairs : Int)) :
    communicationIonsWith exactCdf distance attempts =
      Binomial.leastTrials exactCdf 4588 (4 * pairs : Nat) (linkSuccess attempts) := by
  have failure : (1 - (Arithmetic.constant 218 6 : Rat) : Calc Rat) =
      .ok (1 - ((218 : Nat) : Rat) / (1000000 : Nat)) := rfl
  have raised (x : Rat) : (1 - Arithmetic.pow x (attempts : Int) : Calc Rat) =
      .ok (1 - x ^ attempts) := by
    have power : Arithmetic.pow x (attempts : Int) = .ok (x ^ attempts) := by
      show (if x = 0 ∧ (attempts : Int) < 0 then _ else _) = _
      rw [if_neg (by omega), zpow_natCast]
    rw [power]
    rfl
  rw [communicationIonsWith, found, Calc.ok_bind, failure, Calc.ok_bind, raised, Calc.ok_bind,
    Nat.cast_mul]
  rfl

theorem distillationSuccess_bounds : 0 ≤ distillationSuccess ∧ distillationSuccess ≤ 1 := by
  rw [distillationSuccess_eq]
  norm_num

/-- For a larger distance more pairs are distilled. -/
theorem pairs_lt {distance further pairs more : Nat} (positive : 1 ≤ distance)
    (order : distance < further)
    (first : IsLeast {n | Suffices distillationSuccess (2 * distance - 1) n} pairs)
    (second : IsLeast {n | Suffices distillationSuccess (2 * further - 1) n} more) : pairs < more := by
  obtain ⟨nonneg, atMost⟩ := distillationSuccess_bounds
  have enough : Suffices distillationSuccess (2 * further - 1) more := second.1
  obtain ⟨extra, isFurther⟩ : ∃ extra, 2 * further - 1 = 2 * distance - 1 + extra :=
    Nat.exists_eq_add_of_le (by omega)
  have reached := enough.1
  obtain ⟨fewer, rfl⟩ : ∃ fewer, more = fewer + extra :=
    ⟨more - extra, by omega⟩
  rw [isFurther] at enough
  have least : pairs ≤ fewer := first.2 (Suffices.of_add nonneg atMost enough)
  omega

/-- Both searches end with the least sufficient number, and all larger ones suffice. -/
theorem least_pairs_and_ions {distance : Nat} (positive : 1 ≤ distance) :
    ∃ pairs : Nat, pairsWith exactCdf distance = .ok (pairs : Int) ∧
      IsLeast {n | Suffices distillationSuccess (2 * distance - 1) n} pairs ∧
      (∀ n, pairs ≤ n → Suffices distillationSuccess (2 * distance - 1) n) ∧
      (∀ further : Nat, distance < further →
        ∃ more : Nat, pairsWith exactCdf further = .ok (more : Int) ∧ pairs < more) ∧
      ∀ attempts : Nat, 1 ≤ attempts →
        ∃ ions : Nat, communicationIonsWith exactCdf distance attempts = .ok (ions : Int) ∧
          IsLeast {n | Suffices (linkSuccess attempts) (4 * pairs) n} ions ∧
          ∀ n, ions ≤ n → Suffices (linkSuccess attempts) (4 * pairs) n := by
  obtain ⟨nonneg, atMost⟩ := distillationSuccess_bounds
  obtain ⟨pairs, found, least⟩ := pairsWith_isLeast positive
  refine ⟨pairs, found, least, fun n larger => Suffices.mono nonneg atMost least.1 larger, ?_, ?_⟩
  · intro further order
    obtain ⟨more, found', least'⟩ := pairsWith_isLeast (positive.trans order.le)
    exact ⟨more, found', pairs_lt positive order least least'⟩
  · intro attempts some
    have bound := one_le_mul_linkSuccess some
    have nonneg' : 0 ≤ linkSuccess attempts := by
      rw [Nat.cast_ofNat] at bound
      linarith
    have needed : 1 ≤ 4 * pairs := by
      have : 2 * distance - 1 ≤ pairs := least.1.1
      omega
    obtain ⟨ions, ionsFound, ionsLeast⟩ :=
      Binomial.leastTrials_isLeast (linkSuccess_le_one attempts) bound needed
    refine ⟨ions, (communicationIonsWith_eq attempts found).trans ionsFound, ionsLeast, ?_⟩
    intro n larger
    exact Suffices.mono nonneg' (linkSuccess_le_one attempts) ionsLeast.1 larger

/-- Five trials give one pair often enough, and four do not. -/
theorem least_pairs_and_ions_one :
    pairsWith exactCdf 1 = .ok 5 ∧
      ∃ ions : Nat, communicationIonsWith exactCdf 1 1000 = .ok (ions : Int) ∧
        IsLeast {n | Suffices (linkSuccess 1000) 20 n} ions := by
  obtain ⟨nonneg, atMost⟩ := distillationSuccess_bounds
  have five : IsLeast {n | Suffices distillationSuccess (2 * 1 - 1) n} 5 := by
    constructor
    · refine (Binomial.suffices_iff (by decide)).mpr ?_
      norm_num [Binomial.fewer, Binomial.mass, distillationSuccess_eq]
    · intro n enough
      by_contra few
      have four := Suffices.mono nonneg atMost enough (by omega : n ≤ 4)
      rw [Binomial.suffices_iff (by decide)] at four
      norm_num [Binomial.fewer, Binomial.mass, distillationSuccess_eq] at four
  obtain ⟨pairs, found, least, -, -, communicate⟩ := least_pairs_and_ions (le_refl 1)
  obtain rfl := least.unique five
  obtain ⟨ions, ionsFound, ionsLeast, -⟩ := communicate 1000 (by decide)
  exact ⟨found, ions, ionsFound, ionsLeast⟩

end QuantumResources.IonTrap
