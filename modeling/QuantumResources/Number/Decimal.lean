import QuantumResources.Number.Binary64

/-! Decimal floating point with a hundred significant digits.

A result is rounded to the nearest decimal of that length, ties to even. A magnitude whose
leading power exceeds the greatest exponent is an overflow and stops the computation, as do
division by zero and operations that have no value. Results below the least exponent lose
digits and finally become zero. -/

namespace QuantumResources

/-- Why decimal arithmetic stops. -/
inductive DecimalSignal where
  | invalid
  | divisionByZero
  | overflow
  deriving DecidableEq, Repr

inductive Decimal where
  | finite (negative : Bool) (coefficient : Nat) (power : Int)
  | infinite (negative : Bool)
  | nan (signaling : Bool)
  deriving DecidableEq, Repr

namespace Decimal

def precision : Nat := 100

def greatestPower : Int := 999999

def leastPower : Int := -999999

def ofInt (n : Int) : Decimal := .finite (decide (n < 0)) n.natAbs 0

def zero : Decimal := .finite false 0 0

def one : Decimal := .finite false 1 0

/-- Every double is a decimal: `2 ^ -k = 5 ^ k * 10 ^ -k`. -/
def ofFloat (x : Float) : Decimal :=
  match Binary64.parts x with
  | .nan => .nan false
  | .infinite negative => .infinite negative
  | .finite negative significand power =>
    if 0 ≤ power then .finite negative (significand * Nat.pow 2 power.toNat) 0
    else .finite negative (significand * Nat.pow 5 (-power).toNat) power

/-- The power of ten of the leading digit of a nonzero finite decimal. -/
def leading (coefficient : Nat) (power : Int) : Int :=
  power + Rounding.decimalLength coefficient - 1

/-- Keeps at most `digits` digits of `coefficient * 10 ^ power`. -/
def shorten (digits coefficient : Nat) (power : Int) : Nat × Int :=
  if Rounding.decimalLength coefficient ≤ digits then (coefficient, power)
  else Rounding.toSignificant digits coefficient 1 |>.map id (· + power)

/-- A quotient of naturals times a power of ten, to `digits` significant digits. -/
def roundRatio (digits num den : Nat) (power : Int) : Nat × Int :=
  if num = 0 then (0, power)
  else Rounding.toSignificant digits num den |>.map id (· + power)

/-- The power of ten below which no digit is kept, whatever the size of a number. -/
def lowestPower : Int := leastPower - precision + 1

/-- Zero with an exponent in the range. -/
def zeroAt (negative : Bool) (power : Int) : Decimal :=
  .finite negative 0 (max lowestPower (min power greatestPower))

/-- A decimal of at most a hundred digits whose exponent is not too low. -/
def unlessTooLarge (negative : Bool) (value : Nat × Int) : Except DecimalSignal Decimal :=
  if greatestPower < leading value.1 value.2 then .error .overflow
  else .ok (.finite negative value.1 value.2)

/-- The decimal nearest to `± num / den * 10 ^ power`, for positive `num` and `den`. A number far
below the last digit that is kept is not scaled to it. -/
def ofRatio (negative : Bool) (num den : Nat) (power : Int) : Except DecimalSignal Decimal :=
  let lead := Rounding.leadingPower num den + power
  let last := max (lead - precision + 1) lowestPower
  if lead + 1 < last then .ok (.finite negative 0 last)
  else
    unlessTooLarge negative
      ((Rounding.toUnits precision num den (last - power)).map id (· + power))

/-- The decimal nearest to `± coefficient * 10 ^ power`. -/
def rounded (negative : Bool) (coefficient : Nat) (power : Int) : Except DecimalSignal Decimal :=
  if coefficient = 0 then .ok (zeroAt negative power)
  else if Rounding.decimalLength coefficient ≤ precision ∧ lowestPower ≤ power then
    unlessTooLarge negative (coefficient, power)
  else ofRatio negative coefficient 1 power

def neg : Decimal → Decimal
  | .finite negative coefficient power => .finite (!negative) coefficient power
  | .infinite negative => .infinite (!negative)
  | .nan signaling => .nan signaling

def isNegative : Decimal → Bool
  | .finite negative _ _ => negative
  | .infinite negative => negative
  | .nan _ => false

def isZero : Decimal → Bool
  | .finite _ coefficient _ => coefficient == 0
  | _ => false

def isNaN : Decimal → Bool
  | .nan _ => true
  | _ => false

def isSignaling : Decimal → Bool
  | .nan signaling => signaling
  | _ => false

/-- A result that is settled by a NaN among the operands: a signaling one stops, a quiet one is
passed on. -/
def nanResult? (a b : Decimal) : Option (Except DecimalSignal Decimal) :=
  if a.isSignaling || b.isSignaling then some (.error .invalid)
  else if a.isNaN || b.isNaN then some (.ok (.nan false))
  else none

/-- Signed sum of two magnitudes on a common power of ten. -/
def signedSum (a b : Bool × Nat) : Bool × Nat :=
  if a.1 == b.1 then (a.1, a.2 + b.2)
  else if b.2 < a.2 then (a.1, a.2 - b.2)
  else if a.2 < b.2 then (b.1, b.2 - a.2)
  else (false, 0)

/-- When one operand lies so far below the other that it can only decide which way the sum is
rounded, a single unit two places below the last kept digit decides the same. -/
def standIn (high : Nat × Int) (low : Nat × Int) : Nat × Int :=
  let floor := high.2 + min (-1) ((Rounding.decimalLength high.1 : Int) - precision - 2)
  if leading low.1 low.2 < floor then (1, floor) else low

/-- The exact sum of two finite decimals, up to the replacement of a negligible operand. -/
def sumOf (aNegative : Bool) (a : Nat × Int) (bNegative : Bool) (b : Nat × Int) :
    Bool × Nat × Int :=
  if a.1 = 0 ∧ b.1 = 0 then (aNegative && bNegative, 0, min a.2 b.2)
  else if a.1 = 0 then (bNegative, b.1, b.2)
  else if b.1 = 0 then (aNegative, a.1, a.2)
  else
    let a' := if b.2 ≤ a.2 then a else standIn b a
    let b' := if b.2 ≤ a.2 then standIn a b else b
    let power := min a'.2 b'.2
    let total := signedSum
      (aNegative, a'.1 * Nat.pow 10 (a'.2 - power).toNat)
      (bNegative, b'.1 * Nat.pow 10 (b'.2 - power).toNat)
    (total.1, total.2, power)

def add (a b : Decimal) : Except DecimalSignal Decimal :=
  match nanResult? a b with
  | some result => result
  | none =>
    match a, b with
    | .infinite x, .infinite y => if x == y then .ok (.infinite x) else .error .invalid
    | .infinite x, _ => .ok (.infinite x)
    | _, .infinite y => .ok (.infinite y)
    | .finite an ac ap, .finite bn bc bp =>
      let total := sumOf an (ac, ap) bn (bc, bp)
      rounded total.1 total.2.1 total.2.2
    | _, _ => .ok (.nan false)

def sub (a b : Decimal) : Except DecimalSignal Decimal := add a (if b.isNaN then b else b.neg)

def mul (a b : Decimal) : Except DecimalSignal Decimal :=
  match nanResult? a b with
  | some result => result
  | none =>
    let negative := a.isNegative != b.isNegative
    match a, b with
    | .finite _ ac ap, .finite _ bc bp => rounded negative (ac * bc) (ap + bp)
    | _, _ => if a.isZero || b.isZero then .error .invalid else .ok (.infinite negative)

def div (a b : Decimal) : Except DecimalSignal Decimal :=
  match nanResult? a b with
  | some result => result
  | none =>
    let negative := a.isNegative != b.isNegative
    match a, b with
    | .infinite _, .infinite _ => .error .invalid
    | .infinite _, _ => .ok (.infinite negative)
    | _, .infinite _ => .ok (.finite negative 0 lowestPower)
    | .finite _ ac ap, .finite _ bc bp =>
      if bc = 0 then .error (if ac = 0 then .invalid else .divisionByZero)
      else if ac = 0 then .ok (zeroAt negative (ap - bp))
      else ofRatio negative ac bc (ap - bp)
    | _, _ => .ok (.nan false)

/-- Exact order of two numbers given as sign, digits and power of ten. Sizes are compared by
their leading powers first. -/
def compareFinite (aNegative : Bool) (a : Nat × Int) (bNegative : Bool) (b : Nat × Int) :
    Ordering :=
  let sizes : Ordering :=
    if a.1 = 0 ∨ b.1 = 0 then compare a.1 b.1
    else
      (compare (leading a.1 a.2) (leading b.1 b.2)).then
        (let power := min a.2 b.2
         compare (a.1 * Nat.pow 10 (a.2 - power).toNat) (b.1 * Nat.pow 10 (b.2 - power).toNat))
  if a.1 = 0 ∧ b.1 = 0 then .eq
  else if aNegative && !bNegative then (if a.1 = 0 then sizes else .lt)
  else if !aNegative && bNegative then (if b.1 = 0 then sizes else .gt)
  else if aNegative then sizes.swap
  else sizes

/-- Order of two decimals; `none` when one of them is not a number. -/
def compare? (a b : Decimal) : Option Ordering :=
  match a, b with
  | .nan _, _ => none
  | _, .nan _ => none
  | .infinite x, .infinite y => some (compare y.toNat x.toNat)
  | .infinite x, _ => some (if x then .lt else .gt)
  | _, .infinite y => some (if y then .gt else .lt)
  | .finite an ac ap, .finite bn bc bp => some (compareFinite an (ac, ap) bn (bc, bp))

/-- Whether a finite decimal stands for an integer. -/
def isInteger : Decimal → Bool
  | .finite _ coefficient power =>
    coefficient == 0 || 0 ≤ power ||
      (decide ((-power).toNat ≤ Rounding.decimalLength coefficient) &&
        coefficient % Nat.pow 10 (-power).toNat == 0)
  | _ => false

/-- The integer that a finite decimal has before its point, and whether something follows it. -/
def wholePart (coefficient : Nat) (power : Int) : Nat × Bool :=
  if 0 ≤ power then (coefficient * Nat.pow 10 power.toNat, false)
  else if Rounding.decimalLength coefficient < (-power).toNat then (0, coefficient != 0)
  else (coefficient / Nat.pow 10 (-power).toNat, coefficient % Nat.pow 10 (-power).toNat != 0)

/-- The least integer that is not below a finite decimal. -/
def ceil? : Decimal → Option Int
  | .finite negative coefficient power =>
    let whole := wholePart coefficient power
    some (if negative then -(whole.1 : Int) else if whole.2 then whole.1 + 1 else whole.1)
  | _ => none

/-- The double nearest to a decimal; beyond the largest double it is infinite. -/
def toFloat : Decimal → Float
  | .finite negative coefficient power =>
    (Binary64.ofDecimal negative coefficient power).getD (Binary64.infinity negative)
  | .infinite negative => Binary64.infinity negative
  | .nan _ => Binary64.nan

end Decimal

end QuantumResources
