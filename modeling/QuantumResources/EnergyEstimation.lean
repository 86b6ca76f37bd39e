import QuantumResources.Number.Arithmetic

/-! Cost of estimating a ground state energy with shallow circuits.

The spectrum is blurred by a Gaussian filter whose width trades circuit depth against the number
of circuits. The formulas mix numbers as they are given, for which a division by zero or an
overflow stops the computation, with results of elementary functions, which go on as infinite or
as no number. -/

namespace QuantumResources.EnergyEstimation

/-- A double, and whether operations on it stop at a division by zero. -/
structure Reading where
  value : Float
  strict : Bool

def real (x : Scalar) : Calc Float := do
  match ← x.toReal with
  | .real value => return value
  | _ => .error .wrongKind

/-- A whole power of a reading. -/
def Reading.pow (x : Reading) (exponent : Float) : Calc Float :=
  if x.strict then do real (← Scalar.realPower x.value exponent)
  else .ok (x.value.pow exponent)

/-- The gap that the filter has to resolve, between the true gap and the precision. -/
def resolution (alpha gap precision : Scalar) : Calc Scalar := do
  let fine ← Scalar.power precision alpha
  let coarse ← Scalar.power gap (← Scalar.sub (.whole 1) alpha)
  Scalar.mul fine coarse

/-- Width of the Gaussian filter: the smaller of two bounds. -/
def deviation (alpha gap overlap precision : Scalar) : Calc Reading := do
  let delta ← resolution alpha gap precision
  let scaled ← Scalar.mul (← Scalar.mul (.whole 9) delta) (← Scalar.power precision (.whole (-1)))
  let argument ← Scalar.mul scaled (← Scalar.power overlap (.whole (-1)))
  match argument, delta with
  | .complex _ _, _ | _, .complex _ _ => .error .wrongKind
  | _, _ =>
    let numerator ← real (← Scalar.mul (.real 0.9) delta)
    let filtered := numerator / (2.0 * (← real argument).log).sqrt
    let bound ← real (← Scalar.mul (.real 0.2) delta)
    return if bound < filtered then ⟨bound, true⟩ else ⟨filtered, false⟩

def pi : Float := 3.141592653589793

/-- Error that is left for the convolution with the filter. -/
def convolutionError (precision overlap : Scalar) (cubed : Float) : Calc Float := do
  let numerator ← real (← Scalar.mul (← Scalar.mul (.real 0.1) precision) overlap)
  return numerator / ((2.0 * pi).sqrt * cubed)

/-- As `convolutionError`, for a width given as a number. -/
def convolutionErrorAt (precision overlap width : Scalar) : Calc Float := do
  let cubed ← real (← Scalar.power width (.whole 3))
  convolutionError precision overlap cubed

def maxEvolutionTime (alpha gap overlap precision : Scalar) : Calc Float := do
  let width ← deviation alpha gap overlap precision
  let error ← convolutionError precision overlap (← width.pow 3.0)
  let inverse := pi.pow (-1.0)
  let argument := 8.0 * inverse * error.pow (-1.0)
  let scale := inverse * (← width.pow (-1.0))
  return scale * (2.0 * (argument * (← width.pow (-2.0))).log).sqrt

def circuitRepetitions (alpha gap overlap precision failureProbability : Scalar) :
    Calc Float := do
  let width ← deviation alpha gap overlap precision
  let error ← convolutionError precision overlap (← width.pow 3.0)
  let step ← real precision
  let points := (width.value / step).ceil + 1.0
  let allowed ← real failureProbability
  let factor := 16.0 / pi.pow 2.0
  return factor * (4.0 * points / allowed).log / ((← width.pow 4.0) * error.pow 2.0)

end QuantumResources.EnergyEstimation
