import QuantumResources.Number.Rounding

/-! Doubles as exact numbers.

A finite double is a signed integer times a power of two. The functions here take a double
apart into that form and find the double nearest to an exact ratio. -/

namespace QuantumResources.Binary64

inductive Parts where
  | finite (negative : Bool) (significand : Nat) (power : Int)
  | infinite (negative : Bool)
  | nan
  deriving DecidableEq, Repr

/-- A finite double is `± significand * 2 ^ power`. -/
def parts (x : Float) : Parts :=
  let bits : Nat := x.toBits.toNat
  let negative : Bool := bits / Nat.pow 2 63 == 1
  let biased : Nat := bits / Nat.pow 2 52 % 2048
  let fraction : Nat := bits % Nat.pow 2 52
  if biased = 2047 then
    if fraction = 0 then .infinite negative else .nan
  else if biased = 0 then .finite negative fraction (-1074)
  else .finite negative (fraction + Nat.pow 2 52) ((biased : Int) - 1075)

def infinity (negative : Bool) : Float :=
  Float.ofBits (if negative then 0xFFF0000000000000 else 0x7FF0000000000000)

def nan : Float := Float.ofBits 0x7FF8000000000000

/-- The power of two of the leading bit of `num / den`, for positive `num` and `den`. -/
def leadingBit (num den : Nat) : Int :=
  let guess : Int := (num.log2 : Int) - den.log2
  let scaled := Rounding.scaleTwo num den (-guess)
  if scaled.1 < scaled.2 then guess - 1 else guess

/-- The double nearest to `± num / den`, a tie going to the even significand; `none` when its
size is beyond the largest double. The encoding is monotone, so a significand that rounds up to
the next power of two carries into the exponent field by itself. -/
def ofRatio (negative : Bool) (num den : Nat) : Option Float :=
  let sign : Nat := if negative then Nat.pow 2 63 else 0
  if num = 0 then some (Float.ofBits sign.toUInt64)
  else
    let power := max (leadingBit num den - 52) (-1074)
    let scaled := Rounding.scaleTwo num den (-power)
    let bits := (power + 1074).toNat * Nat.pow 2 52 + Rounding.nearest scaled.1 scaled.2
    if bits < 2047 * Nat.pow 2 52 then some (Float.ofBits (sign + bits).toUInt64) else none

/-- The double nearest to an integer. Integers below `2 ^ 53` are doubles themselves. -/
def ofInt (n : Int) : Option Float :=
  if n.natAbs < Nat.pow 2 53 then some (Float.ofInt n)
  else ofRatio (decide (n < 0)) n.natAbs 1

/-- The double nearest to `± coefficient * 10 ^ power`. Powers far outside the range of doubles
are settled by size alone. -/
def ofDecimal (negative : Bool) (coefficient : Nat) (power : Int) : Option Float :=
  let top := power + Rounding.decimalLength coefficient
  if coefficient = 0 then ofRatio negative 0 1
  else if top < -330 then ofRatio negative 0 1
  else if 320 < top then none
  else
    let scaled := Rounding.scaleTen coefficient 1 power
    ofRatio negative scaled.1 scaled.2

/-- The size of a finite double as an exact ratio. -/
def ratio (significand : Nat) (power : Int) : Nat × Nat := Rounding.scaleTwo significand 1 power

/-- The least integer that is not below a finite double. -/
def ceil? (x : Float) : Option Int :=
  match parts x with
  | .finite negative significand power =>
    let size := ratio significand power
    some (if negative then -((size.1 / size.2 : Nat) : Int)
      else (Rounding.ceilDiv size.1 size.2 : Nat))
  | _ => none

/-- The integer nearest to a finite double toward zero. -/
def truncate? (x : Float) : Option Int :=
  match parts x with
  | .finite negative significand power =>
    let size := ratio significand power
    let whole : Int := ((size.1 / size.2 : Nat) : Int)
    some (if negative then -whole else whole)
  | _ => none

/-- Whether a double stands for an integer. -/
def isInteger (x : Float) : Bool :=
  match parts x with
  | .finite _ significand power =>
    let size := ratio significand power
    size.1 % size.2 == 0
  | _ => false

/-- Whether a double stands for an odd integer. -/
def isOdd (x : Float) : Bool :=
  match parts x with
  | .finite _ significand power =>
    let size := ratio significand power
    size.1 % size.2 == 0 && size.1 / size.2 % 2 == 1
  | _ => false

/-- Exact order of a finite double and an integer. -/
def compareInt (x : Float) (n : Int) : Option Ordering :=
  match parts x with
  | .finite negative significand power =>
    let size := ratio significand power
    let signed : Int := if negative then -(size.1 : Int) else size.1
    some (compare signed (n * size.2))
  | .infinite negative => some (if negative then .lt else .gt)
  | .nan => none

end QuantumResources.Binary64
