import QuantumResources.Number.Arithmetic

/-! Logical failure rates and sizes of surface code patches.

A cell is one logical qubit over as many cycles as the code distance. Two models are in use: one
compounds the survival of every cell in decimals of a hundred digits, the other adds up the
failure rates of all cells in doubles. -/

namespace QuantumResources

/-- A model of the surface code. Error rate, space-time volume in cells and code distance come in
this order. -/
structure SurfaceCode (α : Type) where
  cellFailureRate : (errorRate distance : α) → Calc α
  totalFailureRate : (errorRate volume distance : α) → Calc α
  physicalQubits : (distance : α) → Calc α

namespace SurfaceCode

def wholeDecimal (n : Int) : Scalar := .decimal (Decimal.ofInt n)

/-- One minus the survival `(1 - x) ^ count`, as a double. -/
def compoundedFailure (x count : Scalar) : Calc Scalar := do
  let survival ← Scalar.power (← Scalar.sub (.whole 1) x) count
  Scalar.toReal (← Scalar.sub (.whole 1) survival)

/-- A cell fails with probability `1 - (1 - 0.3 * (70 * p) ^ ((d + 1) / 2)) ^ d`. -/
def compoundedCell (errorRate distance : Scalar) : Calc Scalar := do
  let rate ← errorRate.toDecimal
  let d ← distance.toDecimal
  let scale ← Scalar.toDecimal (.real 0.3)
  let ratio ← Scalar.mul (.whole 70) rate
  let exponent ← Scalar.div (← Scalar.add d (.whole 1)) (.whole 2)
  let perCycle ← Scalar.mul scale (← Scalar.power ratio exponent)
  compoundedFailure perCycle d

def compounded : SurfaceCode Scalar where
  cellFailureRate := compoundedCell
  totalFailureRate errorRate volume distance := do
    let cell ← Scalar.toDecimal (← compoundedCell errorRate distance)
    compoundedFailure cell (← volume.toDecimal)
  physicalQubits distance := do
    Scalar.mul (← Scalar.power distance (.whole 2)) (.whole 2)

/-- A cell fails with probability `0.1 * (100 * p) ^ ((d + 1) / 2)`. -/
def additiveCell (errorRate distance : Scalar) : Calc Scalar := do
  let ratio ← Scalar.mul (.whole 100) errorRate
  let exponent ← Scalar.div (← Scalar.add distance (.whole 1)) (.whole 2)
  Scalar.mul (.real 0.1) (← Scalar.power ratio exponent)

def additive : SurfaceCode Scalar where
  cellFailureRate := additiveCell
  totalFailureRate errorRate volume distance := do
    Scalar.mul volume (← additiveCell errorRate distance)
  physicalQubits distance := do
    let side ← Scalar.add distance (.whole 1)
    Scalar.mul (← Scalar.power side (.whole 2)) (.whole 2)

end SurfaceCode

end QuantumResources
