/-! Rounding of exact ratios of natural numbers.

Every rounded number in the library, binary or decimal, is the nearest integer to some exact
quotient, with a tie going to the even neighbour. -/

namespace QuantumResources.Rounding

/-- The integer nearest to `num / den`; a tie goes to the even one. -/
def nearest (num den : Nat) : Nat :=
  let low := num / den
  let rest := 2 * (num % den)
  if rest < den then low
  else if den < rest then low + 1
  else if low % 2 = 0 then low else low + 1

def ceilDiv (num den : Nat) : Nat :=
  if num % den = 0 then num / den else num / den + 1

def lengthWithin : Nat → Nat → Nat
  | 0, _ => 1
  | fuel + 1, n => if n < 10 then 1 else lengthWithin fuel (n / 10) + 1

/-- How many decimal digits `n` has. Dropping a digit takes three bits or more away, so the
number of bits bounds the number of steps. -/
def decimalLength (n : Nat) : Nat := lengthWithin n.log2 n

/-- Multiplies a ratio by a power of ten, keeping both sides natural. -/
def scaleTen (num den : Nat) (power : Int) : Nat × Nat :=
  if 0 ≤ power then (num * Nat.pow 10 power.toNat, den) else (num, den * Nat.pow 10 (-power).toNat)

/-- Multiplies a ratio by a power of two, keeping both sides natural. -/
def scaleTwo (num den : Nat) (power : Int) : Nat × Nat :=
  if 0 ≤ power then (num * Nat.pow 2 power.toNat, den) else (num, den * Nat.pow 2 (-power).toNat)

/-- The power of ten of the leading digit of `num / den`, for positive `num` and `den`. -/
def leadingPower (num den : Nat) : Int :=
  let guess : Int := (decimalLength num : Int) - decimalLength den
  let scaled := scaleTen num den (-guess)
  if scaled.1 < scaled.2 then guess - 1 else guess

/-- `num / den` in units of `10 ^ last`: the nearest number of them and their power. A number with
more than the given digits is carried over to the next power. -/
def toUnits (digits num den : Nat) (last : Int) : Nat × Int :=
  let scaled := scaleTen num den (-last)
  let rounded := nearest scaled.1 scaled.2
  if rounded = Nat.pow 10 digits then (Nat.pow 10 (digits - 1), last + 1) else (rounded, last)

/-- `num / den` to a number of significant decimal digits: the rounded digits, read as one
integer, and the power of ten of the last of them. -/
def toSignificant (digits num den : Nat) : Nat × Int :=
  toUnits digits num den (leadingPower num den - digits + 1)

end QuantumResources.Rounding
