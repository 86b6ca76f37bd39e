import Mathlib.Algebra.Order.Floor.Div
import Mathlib.Algebra.Order.Ring.Rat
import Mathlib.Data.Rat.Cast.Order
import QuantumResources.Number.Arithmetic

/-! Kinds of numbers in which whole numbers are calculated with exactly.

Both the numbers of mixed kind and the rationals are such; a count that is proved for the one
holds for the other. In the rationals every amount is exact and not only the whole ones. Quotients
of counts are rounded up. -/

namespace QuantumResources

/-- Sums, differences, products and comparisons of whole numbers never round and never stop. -/
class ExactWholes (α : Type) [Arithmetic α] : Prop where
  add_ofInt (a b : Int) :
    Arithmetic.add (Arithmetic.ofInt a : α) (Arithmetic.ofInt b) = .ok (Arithmetic.ofInt (a + b))
  sub_ofInt (a b : Int) :
    Arithmetic.sub (Arithmetic.ofInt a : α) (Arithmetic.ofInt b) = .ok (Arithmetic.ofInt (a - b))
  mul_ofInt (a b : Int) :
    Arithmetic.mul (Arithmetic.ofInt a : α) (Arithmetic.ofInt b) = .ok (Arithmetic.ofInt (a * b))
  lt_ofInt (a b : Int) :
    Arithmetic.lt (Arithmetic.ofInt a : α) (Arithmetic.ofInt b) = .ok (decide (a < b))
  le_ofInt (a b : Int) :
    Arithmetic.le (Arithmetic.ofInt a : α) (Arithmetic.ofInt b) = .ok (decide (a ≤ b))
  eq_ofInt (a b : Int) :
    Arithmetic.eq (Arithmetic.ofInt a : α) (Arithmetic.ofInt b) = decide (a = b)

attribute [simp] ExactWholes.add_ofInt ExactWholes.sub_ofInt ExactWholes.mul_ofInt
  ExactWholes.lt_ofInt ExactWholes.le_ofInt ExactWholes.eq_ofInt

instance : ExactWholes Scalar where
  add_ofInt _ _ := rfl
  sub_ofInt _ _ := rfl
  mul_ofInt _ _ := rfl
  lt_ofInt a b := by
    change Except.ok (some (compare a b) == some .lt) = _
    rcases Int.lt_trichotomy a b with less | same | greater
    · simp [less, Int.compare_eq_lt.mpr less]
    · simp [same]
    · simp [Int.compare_eq_gt.mpr greater, Int.not_lt.mpr (Int.le_of_lt greater)]
  le_ofInt a b := by
    change Except.ok (some (compare a b) == some .lt || some (compare a b) == some .eq) = _
    rcases Int.lt_trichotomy a b with less | same | greater
    · simp [Int.le_of_lt less, Int.compare_eq_lt.mpr less]
    · simp [same]
    · simp [Int.compare_eq_gt.mpr greater, Int.not_le.mpr greater]
  eq_ofInt a b := by
    change (some (compare a b) == some .eq) = _
    rcases Int.lt_trichotomy a b with less | same | greater
    · simp [Int.ne_of_lt less, Int.compare_eq_lt.mpr less]
    · simp [same]
    · simp [Int.ne_of_gt greater, Int.compare_eq_gt.mpr greater]

instance : ExactWholes Rat where
  add_ofInt a b := by simp [Arithmetic.add, Arithmetic.ofInt]
  sub_ofInt a b := by simp [Arithmetic.sub, Arithmetic.ofInt]
  mul_ofInt a b := by simp [Arithmetic.mul, Arithmetic.ofInt]
  lt_ofInt a b := by simp [Arithmetic.lt, Arithmetic.ofInt]
  le_ofInt a b := by simp [Arithmetic.le, Arithmetic.ofInt]
  eq_ofInt a b := by simp [Arithmetic.eq, Arithmetic.ofInt]

/-- The numbers of an ordered ring, calculated with inside a kind of numbers without rounding. -/
class Exact (R α : Type) [CommRing R] [LinearOrder R] [IsStrictOrderedRing R] [Arithmetic α] where
  embed : R → α
  embed_intCast (n : Int) : embed (n : R) = Arithmetic.ofInt n
  add_embed (a b : R) : Arithmetic.add (embed a) (embed b) = .ok (embed (a + b))
  sub_embed (a b : R) : Arithmetic.sub (embed a) (embed b) = .ok (embed (a - b))
  mul_embed (a b : R) : Arithmetic.mul (embed a) (embed b) = .ok (embed (a * b))
  lt_embed (a b : R) : Arithmetic.lt (embed a) (embed b) = .ok (decide (a < b))
  le_embed (a b : R) : Arithmetic.le (embed a) (embed b) = .ok (decide (a ≤ b))

attribute [simp] Exact.add_embed Exact.sub_embed Exact.mul_embed Exact.lt_embed Exact.le_embed

theorem Exact.ofInt_zero (R : Type) {α : Type} [CommRing R] [LinearOrder R]
    [IsStrictOrderedRing R] [Arithmetic α] [Exact R α] :
    (Arithmetic.ofInt 0 : α) = Exact.embed (0 : R) := by
  rw [← Exact.embed_intCast (R := R), Int.cast_zero]

instance {α : Type} [Arithmetic α] [ExactWholes α] : Exact Int α where
  embed := Arithmetic.ofInt
  embed_intCast n := by simp
  add_embed := ExactWholes.add_ofInt
  sub_embed := ExactWholes.sub_ofInt
  mul_embed := ExactWholes.mul_ofInt
  lt_embed := ExactWholes.lt_ofInt
  le_embed := ExactWholes.le_ofInt

@[simp] theorem embed_whole {α : Type} [Arithmetic α] [ExactWholes α] (n : Int) :
    (Exact.embed n : α) = Arithmetic.ofInt n := rfl

instance : Exact Rat Rat where
  embed := id
  embed_intCast _ := rfl
  add_embed _ _ := rfl
  sub_embed _ _ := rfl
  mul_embed _ _ := rfl
  lt_embed _ _ := rfl
  le_embed _ _ := rfl

@[simp] theorem embed_rational (x : Rat) : (Exact.embed x : Rat) = x := rfl

/-- A rational divided by a count. -/
theorem div_count (x : Rat) (count : Int) (positive : 1 ≤ count) :
    Arithmetic.div x (Arithmetic.ofInt count) = .ok (x / count) := by
  have nonzero : (count : Rat) ≠ 0 := Int.cast_ne_zero.mpr (by omega)
  exact if_neg nonzero

theorem ceilDiv_add_self (count size : Nat) (sizePos : 0 < size) :
    (count + size) ⌈/⌉ size = count ⌈/⌉ size + 1 := by
  have shifted : count + size + size - 1 = count + size - 1 + size := by omega
  rw [Nat.ceilDiv_eq_add_pred_div, Nat.ceilDiv_eq_add_pred_div, shifted,
    Nat.add_div_right _ sizePos]

end QuantumResources
