import Mathlib.RingTheory.Polynomial.Bernstein
import QuantumResources.Binomial
import QuantumResources.Proofs.Sequence

/-! The least number of trials for a wanted success probability.

The search has no bound of its own: that it ends rests on an estimate of the binomial tail by its
variance. That the first hit is a threshold rests on the recursion of the tail in the number of
trials. -/

namespace QuantumResources.Binomial

/-! ## Tails -/

/-- Probability of exactly `k` successes in `n` trials. -/
def mass (p : Rat) (n k : Nat) : Rat := n.choose k * p ^ k * (1 - p) ^ (n - k)

/-- Probability of fewer than the needed successes. -/
def fewer (p : Rat) (needed n : Nat) : Rat := ∑ k ∈ Finset.range needed, mass p n k

/-- Probability of at least the needed successes. -/
def atLeast (p : Rat) (needed n : Nat) : Rat := ∑ k ∈ Finset.Icc needed n, mass p n k

theorem mass_eq_eval (p : Rat) (n k : Nat) : mass p n k = (bernsteinPolynomial Rat n k).eval p := by
  simp [mass, bernsteinPolynomial]

theorem sum_mass (p : Rat) (n : Nat) : ∑ k ∈ Finset.range (n + 1), mass p n k = 1 := by
  have total := congrArg (Polynomial.eval p) (bernsteinPolynomial.sum Rat n)
  simpa only [Polynomial.eval_finsetSum, ← mass_eq_eval, Polynomial.eval_one] using total

theorem sum_sq_mul_mass (p : Rat) (n : Nat) :
    ∑ k ∈ Finset.range (n + 1), (n * p - k) ^ 2 * mass p n k = n * p * (1 - p) := by
  have variance := congrArg (Polynomial.eval p) (bernsteinPolynomial.variance Rat n)
  simpa [Polynomial.eval_finsetSum, ← mass_eq_eval] using variance

theorem fewer_add_atLeast (p : Rat) {needed n : Nat} (few : needed ≤ n) :
    fewer p needed n + atLeast p needed n = 1 := by
  rw [fewer, atLeast, ← sum_mass p n, ← Finset.sum_range_add_sum_Ico _ (Nat.le_succ_of_le few)]
  rfl

/-- One more trial: its success leaves one success less to wait for. -/
theorem mass_succ_succ (p : Rat) (n k : Nat) :
    mass p (n + 1) (k + 1) = p * mass p n k + (1 - p) * mass p n (k + 1) := by
  rw [mass, mass, mass, Nat.choose_succ_succ, Nat.add_sub_add_right]
  rcases Nat.lt_or_ge k n with less | enough
  · have left : n - k = n - (k + 1) + 1 := by omega
    rw [left]
    push_cast
    ring
  · rw [Nat.choose_eq_zero_of_lt (Nat.lt_succ_of_le enough)]
    push_cast
    ring

theorem fewer_succ_succ (p : Rat) (needed n : Nat) :
    fewer p (needed + 1) (n + 1) = p * fewer p needed n + (1 - p) * fewer p (needed + 1) n := by
  have none : mass p (n + 1) 0 = (1 - p) * mass p n 0 := by
    simp only [mass, Nat.choose_zero_right, Nat.sub_zero]
    ring
  simp only [fewer, Finset.sum_range_succ' _ needed, mass_succ_succ, Finset.sum_add_distrib,
    ← Finset.mul_sum, none]
  ring

section Probability

variable {p : Rat} (nonneg : 0 ≤ p) (atMost : p ≤ 1)

include nonneg atMost

theorem mass_nonneg (n k : Nat) : 0 ≤ mass p n k := by
  have failure : 0 ≤ 1 - p := sub_nonneg.mpr atMost
  unfold mass
  positivity

theorem fewer_le_fewer_succ (needed n : Nat) : fewer p needed n ≤ fewer p (needed + 1) n := by
  rw [fewer, fewer, Finset.sum_range_succ]
  exact le_add_of_nonneg_right (mass_nonneg nonneg atMost n needed)

/-- More trials make a lack of successes less likely. -/
theorem fewer_succ_le (needed n : Nat) : fewer p needed (n + 1) ≤ fewer p needed n := by
  cases needed with
  | zero => rfl
  | succ needed =>
    have more := fewer_le_fewer_succ nonneg atMost needed n
    rw [fewer_succ_succ]
    nlinarith

/-- One more success is harder to get than one more trial can help. -/
theorem fewer_le_fewer_succ_succ (needed n : Nat) :
    fewer p needed n ≤ fewer p (needed + 1) (n + 1) := by
  have more := fewer_le_fewer_succ nonneg atMost needed n
  rw [fewer_succ_succ]
  nlinarith

/-- Chebyshev's inequality for the lower tail. -/
theorem fewer_mul_sq_le {needed n : Nat} (few : (needed : Rat) ≤ n * p) :
    fewer p needed n * (n * p - needed) ^ 2 ≤ n * p * (1 - p) := by
  have inside : needed ≤ n + 1 := by
    have cast : (needed : Rat) ≤ n := few.trans (mul_le_of_le_one_right n.cast_nonneg atMost)
    exact Nat.le_succ_of_le (by exact_mod_cast cast)
  calc fewer p needed n * (n * p - needed) ^ 2
    _ = ∑ k ∈ Finset.range needed, (n * p - needed) ^ 2 * mass p n k := by
      rw [fewer, mul_comm, Finset.mul_sum]
    _ ≤ ∑ k ∈ Finset.range needed, (n * p - k) ^ 2 * mass p n k := by
      refine Finset.sum_le_sum fun k member => ?_
      have less : (k : Rat) ≤ needed := by exact_mod_cast (Finset.mem_range.mp member).le
      have mass := mass_nonneg nonneg atMost n k
      gcongr
    _ ≤ ∑ k ∈ Finset.range (n + 1), (n * p - k) ^ 2 * mass p n k := by
      refine Finset.sum_le_sum_of_subset_of_nonneg (Finset.range_mono inside) fun k _ _ => ?_
      exact mul_nonneg (sq_nonneg _) (mass_nonneg nonneg atMost n k)
    _ = n * p * (1 - p) := sum_sq_mul_mass p n

/-- The mean of so many trials is twice the needed number and some thousands, or more. -/
theorem fewer_le_of_many {needed inverseBound : Nat} (bound : 1 ≤ inverseBound * p) :
    fewer p needed ((2 * needed + 4000) * inverseBound) ≤ 1 / 4000 := by
  have mean : (2 * needed + 4000 : Rat) ≤ ((2 * needed + 4000) * inverseBound : Nat) * p := by
    push_cast
    rw [mul_assoc]
    exact le_mul_of_one_le_right (by positivity) bound
  generalize (2 * needed + 4000) * inverseBound = n at *
  have tail : fewer p needed n * (n * p - needed) ^ 2 ≤ n * p * (1 - p) :=
    fewer_mul_sq_le nonneg atMost (by linarith [(Nat.cast_nonneg needed : (0 : Rat) ≤ needed)])
  have lack : 0 ≤ fewer p needed n := Finset.sum_nonneg fun k _ => mass_nonneg nonneg atMost n k
  have needed' : (0 : Rat) ≤ needed := Nat.cast_nonneg needed
  generalize (n : Rat) * p = mean' at *
  have square : 4000 * mean' ≤ (mean' - needed) ^ 2 :=
    calc 4000 * mean'
      _ ≤ ((mean' + 4000) / 2) ^ 2 := by nlinarith [sq_nonneg (mean' - 4000)]
      _ ≤ (mean' - needed) ^ 2 := pow_le_pow_left₀ (by linarith) (by linarith) 2
  have scaled : fewer p needed n * 4000 * mean' ≤ 1 * mean' :=
    calc fewer p needed n * 4000 * mean'
      _ = fewer p needed n * (4000 * mean') := mul_assoc _ _ _
      _ ≤ fewer p needed n * (mean' - needed) ^ 2 := mul_le_mul_of_nonneg_left square lack
      _ ≤ mean' * (1 - p) := tail
      _ ≤ 1 * mean' := by nlinarith
  have small := le_of_mul_le_mul_right scaled (by linarith)
  linarith

end Probability

/-! ## The search -/

/-- The probability of at most `x` successes as an exact sum. -/
def exactCdf (x n : Int) (p : Rat) : Calc Rat :=
  .ok (∑ k ∈ Finset.range (x + 1).toNat, mass p n.toNat k)

/-- So many trials are not fewer than the needed successes and almost surely give them. -/
def Suffices (p : Rat) (needed n : Nat) : Prop :=
  needed ≤ n ∧ ((999 : Nat) : Rat) / (1000 : Nat) ≤ atLeast p needed n

theorem suffices_iff {p : Rat} {needed n : Nat} (few : needed ≤ n) :
    Suffices p needed n ↔ fewer p needed n ≤ 1 / 1000 := by
  have total := fewer_add_atLeast p few
  rw [Suffices, and_iff_right few]
  push_cast
  constructor <;> intro <;> linarith

section Threshold

variable {p : Rat} (nonneg : 0 ≤ p) (atMost : p ≤ 1) {needed n : Nat}

include nonneg atMost

theorem Suffices.mono (enough : Suffices p needed n) {more : Nat} (order : n ≤ more) :
    Suffices p needed more := by
  induction more, order using Nat.le_induction with
  | base => exact enough
  | succ more order ih =>
    rw [suffices_iff ih.1] at ih
    rw [suffices_iff (Nat.le_succ_of_le (enough.1.trans order))]
    exact (fewer_succ_le nonneg atMost needed more).trans ih

/-- What suffices for more successes suffices, less the same number of trials, for fewer. -/
theorem Suffices.of_add {extra : Nat} (enough : Suffices p (needed + extra) (n + extra)) :
    Suffices p needed n := by
  induction extra with
  | zero => exact enough
  | succ extra ih =>
    have few : needed + extra ≤ n + extra := by
      have := enough.1
      omega
    refine ih ((suffices_iff few).mpr ?_)
    rw [← Nat.add_assoc, ← Nat.add_assoc, suffices_iff (Nat.add_le_add_right few 1)] at enough
    exact (fewer_le_fewer_succ_succ nonneg atMost _ _).trans enough

end Threshold

/-- A search that reaches a hit ends at the first one. -/
theorem leastFrom_isLeast {holds : Int → Calc Bool} {hit : Nat → Prop} [DecidablePred hit]
    {fuel start target : Nat} (decides : ∀ n : Nat, start ≤ n → holds n = .ok (decide (hit n)))
    (isHit : hit target) (ahead : start ≤ target) (within : target < start + fuel) :
    ∃ least : Nat, leastFrom holds fuel start = .ok (least : Int) ∧
      IsLeast {n | start ≤ n ∧ hit n} least := by
  induction fuel generalizing start with
  | zero => omega
  | succ fuel ih =>
    rw [leastFrom, decides start le_rfl, Calc.ok_bind]
    by_cases first : hit start
    · refine ⟨start, ?_, ⟨le_rfl, first⟩, fun n later => later.1⟩
      rw [decide_eq_true first]
      rfl
    · have beyond : start + 1 ≤ target :=
        Nat.lt_of_le_of_ne ahead fun same => first (same ▸ isHit)
      obtain ⟨least, found, ⟨after, isLeast⟩, lower⟩ :=
        ih (fun n later => decides n (by omega)) beyond (by omega)
      refine ⟨least, ?_, ⟨by omega, isLeast⟩, fun n later => ?_⟩
      · rw [decide_eq_false first]
        exact found
      · exact lower ⟨Nat.lt_of_le_of_ne later.1 fun same => first (same ▸ later.2), later.2⟩

theorem isEnough_exactCdf (p : Rat) (needed n : Nat) :
    isEnough exactCdf needed p n = .ok (decide (fewer p needed n ≤ 1 / 1000)) := by
  have opened : isEnough exactCdf needed p n = .ok (!decide
      (((1 : Int) : Rat) - fewer p ((needed : Int) - 1 + 1).toNat n <
        ((999 : Nat) : Rat) / (Nat.pow 10 3 : Nat))) := rfl
  rw [opened, sub_add_cancel, Int.toNat_natCast, ← decide_not]
  congr 2
  rw [Nat.pow_eq, not_lt, eq_iff_iff]
  push_cast
  constructor <;> intro <;> linarith

/-- The search ends with the least number of trials that suffices. -/
theorem leastTrials_isLeast {p : Rat} (atMost : p ≤ 1) {inverseBound needed : Nat}
    (bound : 1 ≤ inverseBound * p) (some : 1 ≤ needed) :
    ∃ least : Nat, leastTrials exactCdf inverseBound needed p = .ok (least : Int) ∧
      IsLeast {n | Suffices p needed n} least := by
  have nonneg : 0 ≤ p := by
    by_contra negative
    nlinarith [(Nat.cast_nonneg inverseBound : (0 : Rat) ≤ inverseBound)]
  have factor : 1 ≤ inverseBound := by
    refine Nat.one_le_iff_ne_zero.mpr fun none => ?_
    rw [none, Nat.cast_zero, zero_mul] at bound
    linarith
  have many : needed ≤ (2 * needed + 4000) * inverseBound := by nlinarith
  have enough : fewer p needed ((2 * needed + 4000) * inverseBound) ≤ 1 / 1000 :=
    (fewer_le_of_many nonneg atMost bound).trans (by norm_num)
  have same : {n | Suffices p needed n} = {n | needed ≤ n ∧ fewer p needed n ≤ 1 / 1000} := by
    ext n
    exact ⟨fun holds => ⟨holds.1, (suffices_iff holds.1).mp holds⟩,
      fun holds => (suffices_iff holds.1).mpr holds.2⟩
  rw [leastTrials, Int.toNat_natCast, same]
  exact leastFrom_isLeast (fun n _ => isEnough_exactCdf p needed n) enough many (by omega)

end QuantumResources.Binomial
