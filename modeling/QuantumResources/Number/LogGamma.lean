import QuantumResources.Failure

/-! The logarithm of the gamma function at positive integers, in doubles.

A rational approximation in the argument, with a logarithm on either side of it, is accurate to
the last few bits for every positive argument. -/

namespace QuantumResources.LogGamma

/-- The shift that belongs to the coefficients below. -/
def shift : Float := 6.024680040776729583740234375

/-- Coefficients of the numerator, constant term first. -/
def numerator : List Float :=
  [23531376880.410759688572007674451636754734846804940,
    42919803642.649098768957899047001988850926355848959,
    35711959237.355668049440185451547166705960488635843,
    17921034426.037209699919755754458931112671403265390,
    6039542586.3520280050642916443072979210699388420708,
    1439720407.3117216736632230727949123939715485786772,
    248874557.86205415651146038641322942321632125127801,
    31426415.585400194380614231628318205362874684987640,
    2876370.6289353724412254090516208496135991145378768,
    186056.26539522349504029498971604569928220784236328,
    8071.6720023658162106380029022722506138218516325024,
    210.82427775157934587250973392071336271166969580291,
    2.5066282746310002701649081771338373386264310793408]

/-- Coefficients of the denominator, constant term first. -/
def denominator : List Float :=
  [0.0, 39916800.0, 120543840.0, 150917976.0, 105258076.0, 45995730.0, 13339535.0, 2637558.0,
    357423.0, 32670.0, 1925.0, 66.0, 1.0]

/-- The approximating ratio. Small arguments are multiplied in from the highest coefficient down,
large ones divided in from the constant term up, so that no power overflows. -/
def ratio (x : Float) : Float :=
  if x < 5.0 then
    numerator.reverse.foldl (fun sum c => sum * x + c) 0.0 /
      denominator.reverse.foldl (fun sum c => sum * x + c) 0.0
  else
    numerator.foldl (fun sum c => sum / x + c) 0.0 /
      denominator.foldl (fun sum c => sum / x + c) 0.0

/-- `ln ((n - 1)!)` for a positive integer; the other integers are poles. -/
def atInteger (n : Int) : Except Failure Float :=
  if n ≤ 0 then .error .noValue
  else if n ≤ 2 then .ok 0.0
  else
    match Binary64.ofInt n with
    | none => .error .outOfRange
    | some x =>
      let first := (ratio x).log - shift
      let value := first + (x - 0.5) * ((x + shift - 0.5).log - 1.0)
      if value.isInf then .error .outOfRange else .ok value

end QuantumResources.LogGamma
