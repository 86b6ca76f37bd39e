import QuantumResources.Number.Numeral
import QuantumResources.Number.Scalar

/-! Arithmetic as an interface.

The estimators are written once, over any kind of number that has these operations, and an
operation may stop the computation. They run over `Scalar`; over the rationals the same
definitions compute without any rounding. -/

namespace QuantumResources

/-- A computation with numbers that may stop. -/
abbrev Calc (α : Type) := Except Failure α

class Arithmetic (α : Type) where
  ofInt : Int → α
  /-- The constant `digits / 10 ^ places`. -/
  constant : (digits places : Nat) → α
  add : α → α → Calc α
  sub : α → α → Calc α
  mul : α → α → Calc α
  div : α → α → Calc α
  /-- Power with an integer exponent. -/
  pow : α → Int → Calc α
  lt : α → α → Calc Bool
  le : α → α → Calc Bool
  eq : α → α → Bool
  /-- Whether the number is below infinity. -/
  isBounded : α → Calc Bool
  /-- Infinity, where it is a number. -/
  infinity : Calc α
  /-- Whether the number is of a whole kind. -/
  isWhole : α → Bool
  ceil : α → Calc Int
  /-- The whole part, toward zero. -/
  truncate : α → Calc Int
  display : α → String
  /-- The same number as a decimal. -/
  toDecimal : α → Calc α
  /-- The nearest double. -/
  toReal : α → Calc α

namespace Arithmetic

variable {α : Type} [Arithmetic α]

instance : Add (Calc α) := ⟨fun x y => do Arithmetic.add (← x) (← y)⟩

instance : Sub (Calc α) := ⟨fun x y => do Arithmetic.sub (← x) (← y)⟩

instance : Mul (Calc α) := ⟨fun x y => do Arithmetic.mul (← x) (← y)⟩

instance : Div (Calc α) := ⟨fun x y => do Arithmetic.div (← x) (← y)⟩

instance : Coe α (Calc α) := ⟨.ok⟩

instance {n : Nat} : OfNat (Calc α) n := ⟨.ok (ofInt n)⟩

def int (n : Int) : α := ofInt n

/-- A whole number as a step of a computation. -/
def num (n : Int) : Calc α := .ok (ofInt n)

/-- A sum from the left that starts from zero. -/
def sum (terms : List α) : Calc α :=
  terms.foldlM (fun total term => add total term) (ofInt 0)

/-- The larger of two; the first if they are equal. -/
def maximum (x y : α) : Calc α := do if ← lt x y then return y else return x

/-- The smaller of two; the first if they are equal. -/
def minimum (x y : α) : Calc α := do if ← lt y x then return y else return x

/-- The greatest of a list; of equal ones the first. -/
def greatest : List α → Calc α
  | [] => .error .noValue
  | first :: rest => rest.foldlM maximum first

/-- The value of an optional field; an operation on an absent one stops. -/
def required {β : Type} : Option β → Calc β
  | some value => .ok value
  | none => .error .wrongKind

end Arithmetic

namespace Scalar

/-- A text is read as a numeral; what is no number at all has no double. -/
def toReal (x : Scalar) : Outcome :=
  match x with
  | .real value => .ok (.real value)
  | .whole _ | .flag _ => do return .real (← realOfInt (x.whole?.getD 0))
  | .decimal value => if value.isSignaling then .error .noValue else .ok (.real value.toFloat)
  | .text value =>
    match Numeral.read? value with
    | some numeral => .ok (.real numeral.toFloat)
    | none => .error .noValue
  | .complex _ _ | .unset => .error .wrongKind

def toDecimal (x : Scalar) : Outcome :=
  match x with
  | .real value => .ok (.decimal (Decimal.ofFloat value))
  | .whole _ | .flag _ => .ok (.decimal (Decimal.ofInt (x.whole?.getD 0)))
  | .decimal value => .ok (.decimal value)
  | .text value =>
    match Numeral.readDecimal? value with
    | some numeral => .ok (.decimal numeral.toDecimal)
    | none => .error (.decimal .invalid)
  | .complex _ _ | .unset => .error .wrongKind

instance : Arithmetic Scalar where
  ofInt := .whole
  constant digits places := .real (Numeral.finite false digits (-(places : Int))).toFloat
  add := add
  sub := sub
  mul := mul
  div := div
  pow x n := power x (.whole n)
  lt := lt
  le := le
  eq := eq
  isBounded x := lt x (.real (Binary64.infinity false))
  isWhole := isWhole
  infinity := .ok (.real (Binary64.infinity false))
  ceil := ceil
  truncate := truncate
  display := display
  toDecimal := toDecimal
  toReal := toReal

end Scalar

/-- Exact arithmetic; only division by zero stops. -/
instance : Arithmetic Rat where
  ofInt n := n
  constant digits places := (digits : Rat) / (Nat.pow 10 places : Nat)
  add x y := .ok (x + y)
  sub x y := .ok (x - y)
  mul x y := .ok (x * y)
  div x y := if y = 0 then .error .divisionByZero else .ok (x / y)
  pow x n := if x = 0 ∧ n < 0 then .error .divisionByZero else .ok (x ^ n)
  lt x y := .ok (decide (x < y))
  le x y := .ok (decide (x ≤ y))
  eq x y := decide (x = y)
  isBounded _ := .ok true
  infinity := .error .outOfRange
  isWhole x := decide (x.den = 1)
  ceil x := .ok x.ceil
  truncate x := .ok (x.num.tdiv x.den)
  display x := Digits.ofInt x.num ++ "/" ++ Digits.ofNat x.den
  toDecimal x := .ok x
  toReal x := .ok x

end QuantumResources
