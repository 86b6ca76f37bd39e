import QuantumResources.Number.Binary64

/-! Decimal text of numbers.

Two general rules are here: a value written with a fixed number of significant or fractional
digits, and a double written with the fewest digits that read back as the same double. A format
is one record of choices on top of them. -/

namespace QuantumResources.Digits

def ofNat (n : Nat) : String := String.ofList (Nat.toDigits 10 n)

def ofInt (n : Int) : String :=
  if n < 0 then "-" ++ ofNat n.natAbs else ofNat n.natAbs

def padLeft (width : Nat) (text : String) : String :=
  String.ofList (List.replicate (width - text.length) '0') ++ text

/-- Digits with a point after the first one: `d.ddd`, or `d` alone. -/
def pointed (digits : String) : String :=
  match digits.toList with
  | [] => ""
  | [only] => String.ofList [only]
  | first :: rest => String.ofList (first :: '.' :: rest)

/-- An exponent with a sign and at least `width` digits. -/
def signedExponent (width : Nat) (power : Int) : String :=
  (if power < 0 then "-" else "+") ++ padLeft width (ofNat power.natAbs)

/-- A positive ratio in scientific notation with `digits` significant digits. -/
def scientific (digits width num den : Nat) : String :=
  let rounded := Rounding.toSignificant digits num den
  let leading := rounded.2 + digits - 1
  pointed (ofNat rounded.1) ++ "e" ++ signedExponent width leading

/-- A ratio with `places` digits after the point. -/
def fixed (places num den : Nat) : String :=
  let scaled := Rounding.nearest (num * Nat.pow 10 places) den
  let whole := ofNat (scaled / Nat.pow 10 places)
  if places = 0 then whole
  else whole ++ "." ++ padLeft places (ofNat (scaled % Nat.pow 10 places))

def withSign (negative : Bool) (text : String) : String :=
  if negative then "-" ++ text else text

/-- Texts of the values of a double that have no digits. -/
structure SpecialTexts where
  zero : Bool → String
  infinite : Bool → String
  nan : String

/-- A double in scientific notation with `digits` significant digits and an exponent of at
least two. -/
def scientificDouble (special : SpecialTexts) (digits : Nat) (x : Float) : String :=
  match Binary64.parts x with
  | .nan => special.nan
  | .infinite negative => special.infinite negative
  | .finite negative significand power =>
    if significand = 0 then special.zero negative
    else
      let size := Binary64.ratio significand power
      withSign negative (scientific digits 2 size.1 size.2)

/-- A finite double with `places` digits after the point. -/
def fixedDouble (special : SpecialTexts) (places : Nat) (x : Float) : String :=
  match Binary64.parts x with
  | .nan => special.nan
  | .infinite negative => special.infinite negative
  | .finite negative significand power =>
    let size := Binary64.ratio significand power
    withSign negative (fixed places size.1 size.2)

/-- The open or closed interval of reals whose nearest double is `significand * 2 ^ power`, in
units of a quarter of the last bit, with that unit as a ratio. The lower gap is half as wide at
a power of two. -/
structure Basin where
  low : Nat
  middle : Nat
  high : Nat
  closed : Bool
  unit : Nat × Nat

def basin (significand : Nat) (power : Int) : Basin where
  low :=
    if significand = Nat.pow 2 52 ∧ -1074 < power then 4 * significand - 1
    else 4 * significand - 2
  middle := 4 * significand
  high := 4 * significand + 2
  closed := significand % 2 == 0
  unit := Binary64.ratio 1 (power - 2)

/-- Whether `count * 10 ^ last` lies in the interval. -/
def Basin.holds (b : Basin) (count : Nat) (last : Int) : Bool :=
  let grid := Rounding.scaleTen count 1 last
  let value := grid.1 * b.unit.2
  let low := b.low * b.unit.1 * grid.2
  let high := b.high * b.unit.1 * grid.2
  if b.closed then low ≤ value && value ≤ high else low < value && value < high

/-- Of the two multiples of `10 ^ last` around the value, one that reads back: the nearer if
both do, and the even one if they are equally near. -/
def Basin.shortAt (b : Basin) (last : Int) : Option Nat :=
  let scaled := Rounding.scaleTen (b.middle * b.unit.1) b.unit.2 (-last)
  let below := scaled.1 / scaled.2
  match b.holds below last, b.holds (below + 1) last with
  | true, true => some (Rounding.nearest scaled.1 scaled.2)
  | true, false => some below
  | false, true => some (below + 1)
  | false, false => none

/-- The first number of digits in the list at which some decimal reads back, with the digits as
one integer and the power of ten of the last digit. -/
def shortestFrom (b : Basin) (leading : Int) : List Nat → Nat × Int
  | [] => (0, 0)
  | digits :: more =>
    let last := leading - digits + 1
    match b.shortAt last with
    | some count => (count, last)
    | none => shortestFrom b leading more

def dropZeros : Nat → Nat × Int → Nat × Int
  | 0, pair => pair
  | fuel + 1, (count, last) =>
    if count % 10 = 0 ∧ count ≠ 0 then dropZeros fuel (count / 10, last + 1) else (count, last)

/-- The fewest digits that read back as the given positive double. Seventeen always do. -/
def shortest (significand : Nat) (power : Int) : Nat × Int :=
  let size := Binary64.ratio significand power
  let found := shortestFrom (basin significand power) (Rounding.leadingPower size.1 size.2)
    [1, 2, 3, 4, 5, 6, 7, 8, 9, 10, 11, 12, 13, 14, 15, 16, 17]
  dropZeros 17 found

/-- Choices of a format for the shortest text: the leading powers that are written without an
exponent, and the texts of special values. -/
structure PlainFormat where
  leastPower : Int
  greatestPower : Int
  special : SpecialTexts

def positional (digits : String) (last : Int) : String :=
  let length : Int := digits.length
  if 0 ≤ last then digits ++ String.ofList (List.replicate last.toNat '0') ++ ".0"
  else if length + last ≤ 0 then
    "0." ++ String.ofList (List.replicate (-(length + last)).toNat '0') ++ digits
  else
    let whole := (length + last).toNat
    String.ofList (digits.toList.take whole) ++ "." ++ String.ofList (digits.toList.drop whole)

def plainDouble (format : PlainFormat) (x : Float) : String :=
  match Binary64.parts x with
  | .nan => format.special.nan
  | .infinite negative => format.special.infinite negative
  | .finite negative significand power =>
    if significand = 0 then format.special.zero negative
    else
      let found := shortest significand power
      let digits := ofNat found.1
      let leading := found.2 + digits.length - 1
      withSign negative <|
        if format.leastPower ≤ leading ∧ leading ≤ format.greatestPower then
          positional digits found.2
        else pointed digits ++ "e" ++ signedExponent 2 leading

end QuantumResources.Digits
