import QuantumResources.Number.Decimal

/-! Logarithm, exponential and power of decimals.

The logarithm and the exponential are correctly rounded: an enclosure of the exact value between
two integers over a power of ten is refined until both ends round to the same decimal. Enclosures
come from series with positive terms, summed with every division rounded down, so that the sum is
a lower end and the number of roundings bounds the distance to the upper end. -/

namespace QuantumResources.Decimal

/-- Integers `low` and `high` with `low ≤ value * scale ≤ high` for a scale that the context
gives. -/
structure Enclosure where
  low : Int
  high : Int

namespace Enclosure

def add (a b : Enclosure) : Enclosure := ⟨a.low + b.low, a.high + b.high⟩

def scale (factor : Int) (a : Enclosure) : Enclosure :=
  if 0 ≤ factor then ⟨factor * a.low, factor * a.high⟩ else ⟨factor * a.high, factor * a.low⟩

/-- Quotient by a positive enclosure on the same scale. -/
def quotient (scale : Nat) (a b : Enclosure) : Enclosure :=
  ⟨(a.low * scale).fdiv (if 0 ≤ a.low then b.high else b.low),
    (a.high * scale).fdiv (if 0 ≤ a.high then b.low else b.high) + 1⟩

/-- The decimal of `digits` digits to which every number of the enclosure rounds, if there is
one: its sign, digits and power of ten. -/
def settled? (digits places : Nat) (a : Enclosure) : Option (Bool × Nat × Int) :=
  if 0 < a.low then
    let low := Rounding.toSignificant digits a.low.toNat 1
    let high := Rounding.toSignificant digits a.high.toNat 1
    if low = high then some (false, low.1, low.2 - places) else none
  else if a.high < 0 then
    let low := Rounding.toSignificant digits (-a.high).toNat 1
    let high := Rounding.toSignificant digits (-a.low).toNat 1
    if low = high then some (true, low.1, low.2 - places) else none
  else none

end Enclosure

/-- Lower end of `z + z ^ 3 / 3 + z ^ 5 / 5 + …` on a scale, from a lower end of `z` and of its
square; `term` is the next odd power and `odd` its divisor. -/
def oddPowerSum (scale square : Nat) : Nat → Nat → Nat → Nat → Nat
  | 0, _, _, sum => sum
  | fuel + 1, term, odd, sum =>
    if term = 0 then sum
    else oddPowerSum scale square fuel (term * square / scale) (odd + 2) (sum + term / odd)

/-- Encloses `ln (num / den)` for a ratio between one half and two, through
`ln u = 2 * artanh ((u - 1) / (u + 1))`. -/
def lnNearOne (places num den : Nat) : Enclosure :=
  let scale := Nat.pow 10 places
  let gap := if den ≤ num then num - den else den - num
  let z := gap * scale / (num + den)
  let sum := oddPowerSum scale (z * z / scale) (4 * places + 4) z 1 0
  let low : Int := 2 * sum
  let high : Int := 2 * (sum + 3 * places + 10)
  if gap = 0 then ⟨0, 0⟩ else if den ≤ num then ⟨low, high⟩ else ⟨-high, -low⟩

def lnTwo (places : Nat) : Enclosure := lnNearOne places 2 1

/-- Since `10 = 2 ^ 3 * 5 / 4`. -/
def lnTen (places : Nat) : Enclosure :=
  (Enclosure.scale 3 (lnTwo places)).add (lnNearOne places 5 4)

/-- Encloses the logarithm of `coefficient * 10 ^ power`. The coefficient is read as a number
from 1 up to 10 and halved until it is near one. -/
def lnEnclosure (places coefficient : Nat) (power : Int) : Enclosure :=
  let length := Rounding.decimalLength coefficient
  let den := Nat.pow 10 (length - 1)
  let halvings : Nat :=
    if 2 * coefficient < 3 * den then 0
    else if coefficient < 3 * den then 1
    else if coefficient < 6 * den then 2 else 3
  let near := lnNearOne places coefficient (den * Nat.pow 2 halvings)
  let twos := Enclosure.scale halvings (lnTwo places)
  let tens := Enclosure.scale (power + length - 1) (lnTen places)
  (near.add twos).add tens

/-- The next number of places after one that leaves digits open. -/
def Refines (digits : Nat) (enclose : Nat → Enclosure) (next places : Nat) : Prop :=
  (enclose places).settled? digits places = none ∧ next = places + places / 2 + digits

/-- Refines an enclosure until it settles all digits. That it ever does depends on the number that
is enclosed. -/
def refine (digits : Nat) (enclose : Nat → Enclosure) : Nat → Bool × Nat × Int :=
  WellFounded.extrinsicFix (Refines digits enclose) fun places again =>
    match unsettled : (enclose places).settled? digits places with
    | some value => value
    | none => again (places + places / 2 + digits) ⟨unsettled, rfl⟩

/-- The logarithm of a positive number other than one, to a number of digits. -/
def lnDigits (digits coefficient : Nat) (power : Int) : Bool × Nat × Int :=
  refine digits (fun places => lnEnclosure places coefficient power) (digits + 12)

/-- Lower end of `1 + r + r ^ 2 / 2 + r ^ 3 / 6 + …` on a scale. -/
def powerSum (scale r : Nat) : Nat → Nat → Nat → Nat → Nat
  | 0, _, _, sum => sum
  | fuel + 1, term, next, sum =>
    if term = 0 then sum
    else powerSum scale r fuel (term * r / (scale * next)) (next + 1) (sum + term)

/-- Encloses `exp v / 10 ^ tens` for `v = ± coefficient * 10 ^ power`, where `tens` is such that
the remaining exponent is not negative and below three. -/
def expEnclosure (places : Nat) (negative : Bool) (coefficient : Nat) (power : Int) :
    Enclosure × Int :=
  let scale := Nat.pow 10 places
  let ten := lnTen places
  let size := Rounding.scaleTen (coefficient * scale) 1 power
  let low : Int := if negative then -(Rounding.ceilDiv size.1 size.2 : Nat) else (size.1 / size.2 : Nat)
  let tens := low.fdiv ten.high
  let rest := (Enclosure.mk low (low + 1)).add (Enclosure.scale (-tens) ten)
  let sumOf (r : Int) : Nat := powerSum scale r.toNat (8 * places + 8) scale 1 0
  (⟨sumOf rest.low, sumOf rest.high + 6 * places + 100⟩, tens)

/-- The exponential of a nonzero number of moderate size, to a number of digits. -/
def expDigits (digits : Nat) (negative : Bool) (coefficient : Nat) (power : Int) : Nat × Int :=
  let start := digits + 20
  let tens := (expEnclosure start negative coefficient power).2
  let settle (places : Nat) : Enclosure :=
    let found := expEnclosure places negative coefficient power
    if found.2 = tens then found.1 else ⟨found.1.low * 10, found.1.high * 10⟩
  (refine digits settle start).2.map id (· + tens)

/-- If the number is a power of ten, its exponent. -/
def powerOfTen? (coefficient : Nat) (power : Int) : Option Int :=
  let length := Rounding.decimalLength coefficient
  if coefficient = Nat.pow 10 (length - 1) then some (power + length - 1) else none

/-- The decimal logarithm, correctly rounded. -/
def log10 : Decimal → Except DecimalSignal Decimal
  | .nan signaling => if signaling then .error .invalid else .ok (.nan false)
  | .infinite negative => if negative then .error .invalid else .ok (.infinite false)
  | .finite negative coefficient power =>
    if coefficient = 0 then .ok (.infinite true)
    else if negative then .error .invalid
    else
      match powerOfTen? coefficient power with
      | some exponent => .ok (ofInt exponent)
      | none =>
        let enclose (places : Nat) : Enclosure :=
          Enclosure.quotient (Nat.pow 10 places) (lnEnclosure places coefficient power) (lnTen places)
        let value := refine precision enclose (precision + 12)
        .ok (.finite value.1 value.2.1 value.2.2)

/-- Repeated squaring from the highest bit of the exponent down, every product shortened to
`digits` digits. -/
def powerBits (digits : Nat) (base : Nat × Int) : List Bool → Nat × Int → Nat × Int
  | [], value => value
  | bit :: rest, value =>
    let squared := shorten digits (value.1 * value.1) (value.2 + value.2)
    let next :=
      if bit then shorten digits (squared.1 * base.1) (squared.2 + base.2) else squared
    powerBits digits base rest next

/-- The bits of a positive number below its highest one, high to low. -/
def lowerBits (n : Nat) : List Bool :=
  (List.range n.log2).reverse.map (fun i => n.testBit i)

/-- Power with an integer exponent. The working length exceeds the precision by two digits more
than the exponent has, and by a third one if the base is inverted first. -/
def powerInteger (negative : Bool) (base : Nat × Int) (exponentNegative : Bool)
    (exponent : Nat) : Except DecimalSignal Decimal :=
  let digits := precision + Rounding.decimalLength exponent + 2 + (if exponentNegative then 1 else 0)
  let start :=
    if exponentNegative then roundRatio digits 1 base.1 (-base.2) else base
  let value := powerBits digits start (lowerBits exponent) start
  rounded negative value.1 value.2

/-- Power with a fractional exponent, as the exponential of a product with the logarithm; each
of the three steps keeps 23 digits more than the precision. -/
def powerReal (base : Nat × Int) (exponentNegative : Bool) (exponent : Nat × Int) :
    Except DecimalSignal Decimal :=
  let digits := precision + 23
  let ln := lnDigits digits base.1 base.2
  let product := shorten digits (ln.2.1 * exponent.1) (ln.2.2 + exponent.2)
  let negative := ln.1 != exponentNegative
  if product.1 = 0 then .ok one
  else if 7 < leading product.1 product.2 then
    if negative then .ok (.finite false 0 lowestPower) else .error .overflow
  else if leading product.1 product.2 < -(2 * digits : Int) then .ok one
  else
    let value := expDigits digits negative product.1 product.2
    rounded false value.1 value.2

/-- Order of the size of a number against one. -/
def compareOne (coefficient : Nat) (power : Int) : Ordering :=
  compareFinite false (coefficient, power) false (1, 0)

def isOdd : Decimal → Bool
  | .finite negative coefficient power =>
    isInteger (.finite negative coefficient power) &&
      (wholePart coefficient (min power 1)).1 % 2 == 1 && decide (power ≤ 0)
  | _ => false

def power (base exponent : Decimal) : Except DecimalSignal Decimal :=
  match nanResult? base exponent with
  | some result => result
  | none =>
    let integral := exponent.isInteger
    let negative := base.isNegative && integral && exponent.isOdd
    if base.isZero then
      if exponent.isZero then .error .invalid
      else if exponent.isNegative then .ok (.infinite negative)
      else .ok (.finite negative 0 0)
    else if base.isNegative && !integral then .error .invalid
    else
      match base, exponent with
      | .finite _ coefficient p, .infinite down =>
        match compareOne coefficient p with
        | .eq => .ok (.finite negative 1 0)
        | .gt => .ok (if down then .finite negative 0 0 else .infinite negative)
        | .lt => .ok (if down then .infinite negative else .finite negative 0 0)
      | .infinite _, .infinite down =>
        .ok (if down then .finite negative 0 0 else .infinite negative)
      | .infinite _, _ =>
        if exponent.isZero then .ok (.finite negative 1 0)
        else if exponent.isNegative then .ok (.finite negative 0 0)
        else .ok (.infinite negative)
      | .finite _ coefficient p, .finite down ec ep =>
        if ec = 0 then .ok (.finite negative 1 0)
        else if compareOne coefficient p = .eq then .ok (.finite negative 1 0)
        else if integral then powerInteger negative (coefficient, p) down (wholePart ec ep).1
        else powerReal (coefficient, p) down (ec, ep)
      | _, _ => .ok (.nan false)

end QuantumResources.Decimal
