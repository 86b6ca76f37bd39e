import QuantumResources.Factory
import QuantumResources.SurfaceCode

/-! Factories that distill CCZ states in two levels.

Level one distills T states at an inner code distance, level two turns eight of them into a CCZ
state, or two T states, at an outer distance. -/

namespace QuantumResources.AutoCcz

/-- Size of a factory in logical qubits, and its depth in tocks. -/
structure Dimensions where
  width : Int
  height : Int
  depth : Scalar

def whole (n : Int) : Calc Scalar := Arithmetic.num n

def dimensions (inner outer : Int) : Calc Dimensions := do
  let scaled (factor : Scalar) : Calc Scalar :=
    factor * whole inner / whole outer
  let unitHeight ← scaled (.whole 4)
  let unitWidth ← scaled (.whole 8)
  let unitDepth ← scaled (.real 5.75)
  let storage ← scaled (.whole 2)
  let rate ← (1 / 5 : Calc Scalar)
  let unitRate ← (1 / unitDepth : Calc Scalar)
  let units ← Scalar.ceil (← (rate * 8 / unitRate : Calc Scalar))
  let rows ← Scalar.ceil (← (whole units / 2 : Calc Scalar))
  let column ← (unitHeight * whole rows : Calc Scalar)
  return {
    width := ← Scalar.ceil (← (unitWidth * 2 + 3 + storage : Calc Scalar))
    height := ← Scalar.ceil (← Arithmetic.maximum (.whole 6) column)
    depth := ← Arithmetic.maximum (.whole 5) unitDepth }

/-- Error rate of the distilled states. The volumes of the injection and of both levels are
estimates in cells. -/
def errorRate (inner outer : Int) (physical : Scalar) : Calc Scalar := do
  let failure (volume distance : Int) : Calc Scalar :=
    SurfaceCode.additive.totalFailureRate physical (.whole volume) (.whole distance)
  let injected ← (physical + failure 100 (inner.fdiv 2) : Calc Scalar)
  let innerFailure ← failure 1100 inner
  let distilled ← (35 * Scalar.power injected (.whole 3) + innerFailure : Calc Scalar)
  let outerFailure ← failure 1000 outer
  (outerFailure + 28 * Scalar.power distilled (.whole 2) : Calc Scalar)

def factory (physical : Scalar) (inner outer : Int) : Calc (MagicStateFactory Scalar) := do
  let size ← dimensions inner outer
  let rate ← errorRate inner outer physical
  return {
    name := "AutoCCZ(" ++ physical.display ++ "," ++ Digits.ofInt inner ++ ", " ++
      Digits.ofInt outer ++ ")"
    errorRate := ← rate.toReal
    space := some [size.width, size.height]
    qubits := ← (whole (size.width * size.height) *
      SurfaceCode.additive.physicalQubits (.whole outer) : Calc Scalar)
    cycles := .whole (← Scalar.truncate (← (size.depth * whole outer : Calc Scalar)))
    statesPerRound := 2 }

/-- Odd inner distances from 5 to 23, each with the odd outer distances above it up to 39. -/
def distances : List (Int × Int) :=
  (List.range 10).flatMap fun i =>
    (List.range (17 - i)).map fun (j : Nat) => (2 * (i : Int) + 5, 2 * ((i + j : Nat) : Int) + 7)

def source (physical : Scalar) : FactorySource Scalar :=
  distances.map fun d => factory physical d.1 d.2

/-- A factory known for one physical error rate only. -/
def twoLevel (physical : Scalar) : Calc (MagicStateFactory Scalar) := do
  if !physical.eq (.real 0.001) then .error .conditionViolated
  return {
    name := "SC Qubit AutoCCZ Factory"
    errorRate := ← (36 * (Scalar.real 1e-17 : Calc Scalar) : Calc Scalar)
    space := some [96, 4]
    qubits := ← (whole (96 * 4) * SurfaceCode.additive.physicalQubits (.whole 31) :
      Calc Scalar)
    cycles := .whole (6 * 31)
    statesPerRound := 2 }

/-- All factories: the one known for a single error rate comes first where it applies. -/
def allSource (physical : Scalar) : FactorySource Scalar :=
  if physical.eq (.real 0.001) then twoLevel physical :: source physical else source physical

end QuantumResources.AutoCcz
