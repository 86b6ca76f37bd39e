import QuantumResources.Failure
import QuantumResources.Number.Digits
import QuantumResources.Number.Elementary

/-! Numbers of mixed kinds.

Amounts enter as whole numbers of any size, doubles or decimals, and the kind of a result is part
of the result: a sum of whole numbers stays whole, a quotient of whole numbers is a double, and
doubles and decimals do not mix. A field may also be a flag, which counts as 0 or 1, a text, or
not given at all. -/

namespace QuantumResources

inductive Scalar where
  | whole (value : Int)
  | flag (value : Bool)
  | real (value : Float)
  | complex (re im : Float)
  | decimal (value : Decimal)
  | text (value : String)
  | unset

namespace Scalar

abbrev Outcome := Except Failure Scalar

def ofDecimal : Except DecimalSignal Decimal → Outcome
  | .ok value => .ok (.decimal value)
  | .error signal => .error (.decimal signal)

/-- A flag counts as a whole number. -/
def whole? : Scalar → Option Int
  | .whole value => some value
  | .flag value => some (if value then 1 else 0)
  | _ => none

def realOfInt (n : Int) : Except Failure Float :=
  match Binary64.ofInt n with
  | some value => .ok value
  | none => .error .outOfRange

/-- The double for a whole or real operand, if it is one. -/
def real? (x : Scalar) : Option (Except Failure Float) :=
  match x with
  | .real value => some (.ok value)
  | .whole _ | .flag _ => x.whole?.map realOfInt
  | _ => none

def complex? (x : Scalar) : Option (Except Failure (Float × Float)) :=
  match x with
  | .complex re im => some (.ok (re, im))
  | _ => x.real?.map (·.map (fun value => (value, 0.0)))

/-- The decimal for a whole or decimal operand, if it is one. -/
def decimal? (x : Scalar) : Option Decimal :=
  match x with
  | .decimal value => some value
  | _ => x.whole?.map Decimal.ofInt

/-- An operation given by its rule on each kind. Whole numbers come first, then decimals with
whole numbers, then doubles, then complex numbers. -/
structure Operation where
  onWhole : Int → Int → Outcome
  onDecimal : Decimal → Decimal → Except DecimalSignal Decimal
  onReal : Float → Float → Outcome
  onComplex : Float × Float → Float × Float → Outcome

def Operation.apply (op : Operation) (x y : Scalar) : Outcome :=
  match x.whole?, y.whole? with
  | some a, some b => op.onWhole a b
  | _, _ =>
    match x.decimal?, y.decimal? with
    | some a, some b => ofDecimal (op.onDecimal a b)
    | _, _ =>
      match x.real?, y.real? with
      | some a, some b => do op.onReal (← a) (← b)
      | _, _ =>
        match x.complex?, y.complex? with
        | some a, some b => do op.onComplex (← a) (← b)
        | _, _ => .error .wrongKind

def addition : Operation where
  onWhole a b := .ok (.whole (a + b))
  onDecimal := Decimal.add
  onReal a b := .ok (.real (a + b))
  onComplex a b := .ok (.complex (a.1 + b.1) (a.2 + b.2))

def subtraction : Operation where
  onWhole a b := .ok (.whole (a - b))
  onDecimal := Decimal.sub
  onReal a b := .ok (.real (a - b))
  onComplex a b := .ok (.complex (a.1 - b.1) (a.2 - b.2))

def multiplication : Operation where
  onWhole a b := .ok (.whole (a * b))
  onDecimal := Decimal.mul
  onReal a b := .ok (.real (a * b))
  onComplex a b :=
    .ok (.complex (a.1 * b.1 - a.2 * b.2) (a.1 * b.2 + a.2 * b.1))

/-- A quotient of whole numbers is the double nearest to it. -/
def wholeQuotient (a b : Int) : Outcome :=
  if b = 0 then .error .divisionByZero
  else
    match Binary64.ofRatio (decide (a < 0) != decide (b < 0)) a.natAbs b.natAbs with
    | some value => .ok (.real value)
    | none => .error .outOfRange

def realQuotient (a b : Float) : Outcome :=
  if b == 0.0 then .error .divisionByZero else .ok (.real (a / b))

/-- Quotient of complex numbers, scaled by the larger part of the divisor. -/
def complexQuotient (a b : Float × Float) : Outcome :=
  if b.1 == 0.0 && b.2 == 0.0 then .error .divisionByZero
  else if b.2.abs ≤ b.1.abs then
    let ratio := b.2 / b.1
    let scale := b.1 + b.2 * ratio
    .ok (.complex ((a.1 + a.2 * ratio) / scale) ((a.2 - a.1 * ratio) / scale))
  else
    let ratio := b.1 / b.2
    let scale := b.1 * ratio + b.2
    .ok (.complex ((a.1 * ratio + a.2) / scale) ((a.2 * ratio - a.1) / scale))

def division : Operation where
  onWhole := wholeQuotient
  onDecimal := Decimal.div
  onReal := realQuotient
  onComplex := complexQuotient

def add (x y : Scalar) : Outcome := addition.apply x y

def sub (x y : Scalar) : Outcome := subtraction.apply x y

def mul (x y : Scalar) : Outcome := multiplication.apply x y

def div (x y : Scalar) : Outcome := division.apply x y

def complexProduct (a b : Float × Float) : Float × Float :=
  (a.1 * b.1 - a.2 * b.2, a.1 * b.2 + a.2 * b.1)

/-- Product of the powers `base ^ (2 ^ i)` over the bits of an exponent, low to high. -/
def complexBits : Nat → Nat → Float × Float → Float × Float → Float × Float
  | 0, _, _, result => result
  | fuel + 1, exponent, base, result =>
    if exponent = 0 then result
    else
      let next := if exponent % 2 = 1 then complexProduct result base else result
      complexBits fuel (exponent / 2) (complexProduct base base) next

def finiteComplex (value : Float × Float) : Outcome :=
  if value.1.isInf || value.2.isInf then .error .outOfRange
  else .ok (.complex value.1 value.2)

/-- Power of complex numbers. A small integer exponent is multiplied out, any other one goes
through size and angle. -/
def complexPower (base exponent : Float × Float) : Outcome :=
  if exponent.2 == 0.0 && Binary64.isInteger exponent.1 && exponent.1.abs ≤ 100.0 then
    let count := (Binary64.truncate? exponent.1).getD 0
    let value := complexBits 8 count.natAbs base (1.0, 0.0)
    if 0 < count then finiteComplex value
    else complexQuotient (1.0, 0.0) value
  else if base.1 == 0.0 && base.2 == 0.0 then
    if exponent.2 != 0.0 || exponent.1 < 0.0 then .error .divisionByZero else .ok (.complex 0.0 0.0)
  else
    let size := (base.1 * base.1 + base.2 * base.2).sqrt
    let angle := Float.atan2 base.2 base.1
    let length := (if base.2 == 0.0 then base.1.abs else size).pow exponent.1
    let phase := angle * exponent.1
    if exponent.2 == 0.0 then finiteComplex (length * phase.cos, length * phase.sin)
    else
      let damped := length / (angle * exponent.2).exp
      let turned := phase + exponent.2 * size.log
      finiteComplex (damped * turned.cos, damped * turned.sin)

/-- Power of doubles: zero has no negative power, and a result beyond the largest double is out
of range, while one too small is zero. -/
def realPower (base exponent : Float) : Outcome :=
  if exponent == 0.0 then .ok (.real 1.0)
  else if base.isNaN then .ok (.real base)
  else if exponent.isNaN then .ok (.real (if base == 1.0 then 1.0 else exponent))
  else if exponent.isInf then
    let size := base.abs
    .ok (.real (
      if size == 1.0 then 1.0
      else if (exponent > 0.0) == (size > 1.0) then exponent.abs else 0.0))
  else if base.isInf then
    let odd := Binary64.isOdd exponent
    if exponent > 0.0 then .ok (.real (if odd then base else base.abs))
    else .ok (.real (if odd && base < 0.0 then -0.0 else 0.0))
  else if base == 0.0 then
    if exponent < 0.0 then .error .divisionByZero
    else .ok (.real (if Binary64.isOdd exponent then base else 0.0))
  else if base < 0.0 && !Binary64.isInteger exponent then
    complexPower (base, 0.0) (exponent, 0.0)
  else
    let negated := base < 0.0 && Binary64.isOdd exponent
    let size := base.abs.pow exponent
    if size.isInf then .error .outOfRange else .ok (.real (if negated then -size else size))

/-- A whole number to a negative power is a double. -/
def wholePower (base exponent : Int) : Outcome :=
  if 0 ≤ exponent then .ok (.whole (Int.pow base exponent.toNat))
  else do realPower (← realOfInt base) (← realOfInt exponent)

def powering : Operation where
  onWhole := wholePower
  onDecimal := Decimal.power
  onReal := realPower
  onComplex := complexPower

def power (x y : Scalar) : Outcome := powering.apply x y

/-- The decimal with which a number is compared with one of another kind. -/
def expansion? (x : Scalar) : Option Decimal :=
  match x with
  | .real value => some (Decimal.ofFloat value)
  | _ => x.decimal?

/-- Exact order of two doubles. -/
def compareReal (a b : Float) : Option Ordering :=
  if a.isNaN || b.isNaN then none
  else some (if a < b then .lt else if b < a then .gt else .eq)

/-- Order of two scalars: `none` inside when a NaN is among them. A decimal cannot be ordered
against a NaN at all. -/
def order (x y : Scalar) : Except Failure (Option Ordering) :=
  match x.whole?, y.whole? with
  | some a, some b => .ok (some (compare a b))
  | _, _ =>
    match x, y with
    | .real a, .real b => .ok (compareReal a b)
    | .complex _ _, _ => .error .wrongKind
    | _, .complex _ _ => .error .wrongKind
    | .text a, .text b => .ok (some (compare a b))
    | _, _ =>
      match x.expansion?, y.expansion? with
      | some a, some b =>
        match x, y with
        | .decimal _, _ | _, .decimal _ =>
          match Decimal.compare? a b with
          | some found => .ok (some found)
          | none => .error (.decimal .invalid)
        | _, _ => .ok (Decimal.compare? a b)
      | _, _ => .error .wrongKind

def lt (x y : Scalar) : Except Failure Bool := do return (← order x y) == some .lt

def le (x y : Scalar) : Except Failure Bool := do
  let found ← order x y
  return found == some .lt || found == some .eq

/-- Equal as numbers, whatever their kinds. -/
def eq (x y : Scalar) : Bool :=
  match x, y with
  | .unset, .unset => true
  | .text a, .text b => a == b
  | .complex a b, .complex c d => a == c && b == d
  | .decimal a, .decimal b => Decimal.compare? a b == some .eq
  | _, _ =>
    match order x y with
    | .ok found => found == some .eq
    | .error _ => false

/-- Zero, an empty text and a field that is not given count as nothing. -/
def isNothing (x : Scalar) : Bool :=
  match x with
  | .unset => true
  | .text value => value.isEmpty
  | .complex re im => re == 0.0 && im == 0.0
  | .decimal value => value.isZero
  | .real value => value == 0.0
  | .whole value => value == 0
  | .flag value => !value

def isWhole (x : Scalar) : Bool := x.whole?.isSome

def ceil (x : Scalar) : Except Failure Int :=
  match x with
  | .whole _ | .flag _ => .ok (x.whole?.getD 0)
  | .real value =>
    match Binary64.ceil? value with
    | some n => .ok n
    | none => .error (if value.isNaN then .noValue else .outOfRange)
  | .decimal value =>
    match value.ceil? with
    | some n => .ok n
    | none => .error (if value.isNaN then .noValue else .outOfRange)
  | _ => .error .wrongKind

/-- The whole part, toward zero. -/
def truncate (x : Scalar) : Except Failure Int :=
  match x with
  | .whole _ | .flag _ => .ok (x.whole?.getD 0)
  | .real value =>
    match Binary64.truncate? value with
    | some n => .ok n
    | none => .error (if value.isNaN then .noValue else .outOfRange)
  | .decimal value =>
    match value with
    | .finite negative coefficient power =>
      let ratio := Rounding.scaleTen coefficient 1 power
      let size : Int := (ratio.1 / ratio.2 : Nat)
      .ok (if negative then -size else size)
    | .infinite _ => .error .outOfRange
    | .nan _ => .error .noValue
  | _ => .error .wrongKind

/-- How a number is written inside a name or a message: doubles with the fewest digits that read
back, and without an exponent from a ten-thousandth up to ten quadrillion. -/
def realFormat : Digits.PlainFormat where
  leastPower := -4
  greatestPower := 15
  special := ⟨fun negative => if negative then "-0.0" else "0.0",
    fun negative => if negative then "-inf" else "inf", "nan"⟩

def display : Scalar → String
  | .whole n => Digits.ofInt n
  | .flag b => if b then "True" else "False"
  | .real x => Digits.plainDouble realFormat x
  | .text t => t
  | .unset => "None"
  | .complex re im =>
    "(" ++ Digits.plainDouble realFormat re ++ (if im < 0.0 then "" else "+") ++
      Digits.plainDouble realFormat im ++ "j)"
  | .decimal d => Digits.plainDouble realFormat d.toFloat

end Scalar

end QuantumResources
