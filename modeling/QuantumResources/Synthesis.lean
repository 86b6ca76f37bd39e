import QuantumResources.Number.Arithmetic

/-! Cost of approximating a rotation by Clifford and T gates.

The number of T gates grows with four times the binary logarithm of the inverse tolerance. -/

namespace QuantumResources.Synthesis

def signalled {β : Type} : Except DecimalSignal β → Calc β
  | .ok value => .ok value
  | .error signal => .error (.decimal signal)

/-- `⌈4 * log (1 / tolerance) / log 2⌉` with every step rounded to a decimal, for a given
decimal logarithm. -/
def tGatesWith (log10 : Decimal → Except DecimalSignal Decimal) (tolerance : Decimal) :
    Calc Int := do
  let inverse ← signalled (Decimal.one.div tolerance)
  let exponent ← signalled (log10 inverse)
  let scaled ← signalled ((Decimal.ofInt 4).mul exponent)
  let two ← signalled (log10 (Decimal.ofInt 2))
  let count ← signalled (scaled.div two)
  match count.ceil? with
  | some n => return n
  | none => .error (if count.isNaN then .noValue else .outOfRange)

/-- T gates for one rotation within the given failure tolerance. -/
def tGatesPerRotation (tolerance : Scalar) : Calc Int := do
  match ← tolerance.toDecimal with
  | .decimal value => tGatesWith Decimal.log10 value
  | _ => .error .wrongKind

end QuantumResources.Synthesis
