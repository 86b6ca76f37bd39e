import QuantumResources.Proofs.Number.Order

/-! Laws of arithmetic that rounding does not break.

They hold for the numbers of mixed kinds as well as for the rationals. Numbers are compared by their
values, and a product with a whole number does not depend on the order of its factors. -/

namespace QuantumResources

class LawfulArithmetic (α : Type) [Arithmetic α] extends ExactWholes α where
  /-- The value of a number, which may be infinite. -/
  value? : α → Option EReal
  lt_eq {a b : α} {x y : EReal} (first : value? a = some x) (second : value? b = some y) :
    Arithmetic.lt a b = .ok (decide (x < y))
  lt_of_lt_of_le {a b c : α} (less : Arithmetic.lt a b = .ok true)
    (order : Arithmetic.le b c = .ok true) : Arithmetic.lt a c = .ok true
  le_trans {a b c : α} (first : Arithmetic.le a b = .ok true)
    (second : Arithmetic.le b c = .ok true) : Arithmetic.le a c = .ok true
  isWhole_ofInt (n : Int) : Arithmetic.isWhole (Arithmetic.ofInt n : α) = true
  mul_whole_comm (n : Int) (a : α) :
    Arithmetic.mul a (Arithmetic.ofInt n) = Arithmetic.mul (Arithmetic.ofInt n) a

theorem ofInt_injective (α : Type) [Arithmetic α] [ExactWholes α] :
    Function.Injective (Arithmetic.ofInt : Int → α) := by
  intro a b same
  have equal := ExactWholes.eq_ofInt (α := α) a b
  rw [same, ExactWholes.eq_ofInt, decide_eq_true rfl] at equal
  exact of_decide_eq_true equal.symm

noncomputable instance : LawfulArithmetic Rat where
  value? q := some ((q : ℝ) : EReal)
  lt_eq {a b x y} first second := by
    cases first
    cases second
    simp [Arithmetic.lt]
  lt_of_lt_of_le {a b c} less order := by
    simp only [Arithmetic.lt, Arithmetic.le, Except.ok.injEq, decide_eq_true_eq] at less order ⊢
    exact less.trans_le order
  le_trans {a b c} first second := by
    simp only [Arithmetic.le, Except.ok.injEq, decide_eq_true_eq] at first second ⊢
    exact first.trans second
  isWhole_ofInt n := by simp [Arithmetic.isWhole, Arithmetic.ofInt]
  mul_whole_comm n a := congrArg Except.ok (mul_comm a n)

/-! ## Sums and products of doubles -/

namespace Binary64

open Float.Model (UnpackedFloat Format)
open Float.Model.UnpackedFloat (Sign)

theorem sign_mul_comm (s t : Sign) : s * t = t * s := by
  cases s <;> cases t <;> rfl

theorem unpacked_mul_comm (spec : Format) (a b : UnpackedFloat) : a.mul spec b = b.mul spec a := by
  cases a with
  | notANumber => cases b <;> rfl
  | infinity s =>
    cases b with
    | notANumber => rfl
    | infinity t => exact congrArg _ (sign_mul_comm s t)
    | zero => rfl
    | finite t => exact congrArg _ (sign_mul_comm s t)
  | zero s =>
    cases b with
    | notANumber => rfl
    | infinity => rfl
    | zero t => exact congrArg _ (sign_mul_comm s t)
    | finite t => exact congrArg _ (sign_mul_comm s t)
  | finite s m p =>
    cases b with
    | notANumber => rfl
    | infinity t => exact congrArg _ (sign_mul_comm s t)
    | zero t => exact congrArg _ (sign_mul_comm s t)
    | finite t n q =>
      simp only [UnpackedFloat.mul, sign_mul_comm s t, Nat.mul_comm m n, Int.add_comm p q]

theorem mul_comm (a b : Float) : a * b = b * a :=
  congrArg (fun product => Float.ofModel (.pack product)) (unpacked_mul_comm _ _ _)

theorem unpacked_add_comm (spec : Format) (a b : UnpackedFloat) : a.add spec b = b.add spec a := by
  cases a with
  | notANumber => cases b <;> rfl
  | infinity s =>
    cases b with
    | infinity t => cases s <;> cases t <;> rfl
    | notANumber => rfl
    | zero => rfl
    | finite => rfl
  | zero s =>
    cases b with
    | zero t => cases s <;> cases t <;> rfl
    | notANumber => rfl
    | infinity => rfl
    | finite => rfl
  | finite s m p =>
    cases b with
    | finite t n q =>
      simp only [UnpackedFloat.add, min_comm p q, Int.add_comm (s.apply _)]
    | notANumber => rfl
    | infinity => rfl
    | zero => rfl

theorem add_comm (a b : Float) : a + b = b + a :=
  congrArg (fun sum => Float.ofModel (.pack sum)) (unpacked_add_comm _ _ _)

end Binary64

/-! ## Products of scalars -/

theorem Decimal.mul_comm (a b : Decimal) : a.mul b = b.mul a := by
  have same : nanResult? a b = nanResult? b a := by
    simp only [nanResult?, Bool.or_comm]
  simp only [Decimal.mul]
  rw [same]
  split
  · rfl
  · cases a <;> cases b <;>
      simp only [isNegative, bne_comm, Nat.mul_comm, Int.add_comm, Bool.or_comm]

namespace Scalar

theorem mul_whole_comm (n : Int) (x : Scalar) : x.mul (.whole n) = (Scalar.whole n).mul x := by
  cases x with
  | whole m => exact congrArg (Except.ok ∘ whole) (Int.mul_comm m n)
  | flag b => exact congrArg (Except.ok ∘ whole) (Int.mul_comm _ n)
  | real a =>
    change (do multiplication.onReal (← .ok a) (← realOfInt n)) =
      (do multiplication.onReal (← realOfInt n) (← .ok a) : Outcome)
    cases realOfInt n with
    | error => rfl
    | ok b => exact congrArg (Except.ok ∘ real) (Binary64.mul_comm a b)
  | complex re im =>
    change (do multiplication.onComplex (← .ok (re, im)) (← (realOfInt n).map (·, 0.0))) =
      (do multiplication.onComplex (← (realOfInt n).map (·, 0.0)) (← .ok (re, im)) : Outcome)
    cases realOfInt n with
    | error => rfl
    | ok b =>
      change Except.ok (complex (re * b - im * 0.0) (re * 0.0 + im * b)) =
        Except.ok (complex (b * re - 0.0 * im) (b * im + 0.0 * re))
      rw [Binary64.mul_comm b, Binary64.mul_comm 0.0, Binary64.mul_comm b, Binary64.mul_comm 0.0,
        Binary64.add_comm]
  | decimal d => exact congrArg ofDecimal (Decimal.mul_comm d (.ofInt n))
  | text => rfl
  | unset => rfl

end Scalar

noncomputable instance : LawfulArithmetic Scalar where
  value? := Scalar.value?
  lt_eq := Scalar.lt_of_values
  lt_of_lt_of_le {a b c} less order := by
    obtain ⟨found, isFound, upward⟩ := Scalar.le_iff_order.mp order
    obtain ⟨third, isThird, _, less'⟩ :=
      Scalar.order_trans (Scalar.lt_iff_order.mp less) isFound (by decide) upward
    exact Scalar.lt_iff_order.mpr (less' (.inl rfl) ▸ isThird)
  le_trans {a b c} first second := by
    obtain ⟨found, isFound, upward⟩ := Scalar.le_iff_order.mp first
    obtain ⟨found', isFound', upward'⟩ := Scalar.le_iff_order.mp second
    obtain ⟨third, isThird, upward'', _⟩ := Scalar.order_trans isFound isFound' upward upward'
    exact Scalar.le_iff_order.mpr ⟨third, isThird, upward''⟩
  isWhole_ofInt _ := rfl
  mul_whole_comm := Scalar.mul_whole_comm

end QuantumResources
