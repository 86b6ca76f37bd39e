import QuantumResources.Hardware
import QuantumResources.Run
import QuantumResources.Schedule
import QuantumResources.SurfaceCode

/-! Logical architectures and the search for the least code distance. -/

namespace QuantumResources

inductive Architecture where
  /-- Every qubit reaches every other one, without a bus. -/
  | allToAll
  /-- A row of data qubits above a row of bus qubits, to which the factories connect. -/
  | twoRowBus
  /-- An architecture whose space is not described. -/
  | undescribed
  deriving DecidableEq, Repr

namespace Architecture

def name : Architecture → Option String
  | allToAll => some "all_to_all"
  | twoRowBus => some "two_row_bus"
  | undescribed => none

/-- Bus qubits for a number of data qubits and factories. -/
def busQubits : Architecture → (data factories : Int) → Calc Int
  | allToAll, _, _ => .ok 0
  | twoRowBus, data, factories => .ok (data + factories)
  | undescribed, _, _ => .error .layoutNotDescribed

/-- The most T states that any layer could use at once. -/
def maxParallel (program : CompiledProgram) : Calc Int := do
  let tops ← program.subroutines.mapM fun subroutine =>
    match List.zipWith (· + ·) subroutine.tStates subroutine.rotations with
    | [] => .error .noValue
    | first :: rest => .ok (rest.foldl max first)
  return tops.foldl max 0

def dataQubits (program : CompiledProgram) : Int :=
  (program.subroutines.map (·.logicalQubits)).foldl max 0

variable {α : Type} [Arithmetic α]

/-- One factory to save space; to save time, enough for the widest layer. A program without T
states needs none. -/
def factoryCount (program : CompiledProgram) (optimization : Optimization)
    (factory : Option (MagicStateFactory α)) : Calc Int := do
  if (← program.tGates) = 0 then
    if (← program.rotationGates) = 0 then return 0
  let some factory := factory | .error .factoryNeeded
  match optimization with
  | .space => return 1
  | .time =>
    let states ← maxParallel program
    Arithmetic.ceil
      (← Arithmetic.div (Arithmetic.ofInt states : α) (Arithmetic.ofInt factory.statesPerRound))
  | .other name => .error (.unknownOptimization name)

/-- The space that a program takes at a code distance. -/
def layout (architecture : Architecture) (program : CompiledProgram)
    (optimization : Optimization) (distance : Option α)
    (factory : Option (MagicStateFactory α)) : Calc (Layout α) := do
  if architecture = .undescribed then .error .layoutNotDescribed
  let data := dataQubits program
  let factories ← factoryCount program optimization factory
  let bus ← architecture.busQubits data factories
  return {
    dataQubits := some (Arithmetic.ofInt data)
    busQubits := some (Arithmetic.ofInt bus)
    distance
    factoryCount := some (Arithmetic.ofInt factories)
    factory }

end Architecture

/-- What is known about a program at one code distance. -/
structure Plan (α : Type) where
  layout : Layout α
  allocation : Allocation α
  failureRate : α

namespace Architecture

variable {α : Type} [Arithmetic α]

/-- The layout at one distance, its schedule and its failure rate. -/
def plan (code : SurfaceCode α) (architecture : Architecture) (program : CompiledProgram)
    (optimization : Optimization) (perRotation : Int) (factory : Option (MagicStateFactory α))
    (hardware : Hardware α) (distance : Int) : Calc (Plan α) := do
  let d : α := Arithmetic.ofInt distance
  let layout ← architecture.layout program optimization (some d) factory
  let allocation ← Schedule.allocation program optimization layout perRotation
  let zero : α := Arithmetic.ofInt 0
  let qubits ← Arithmetic.add (layout.dataQubits.getD zero) (layout.busQubits.getD zero)
  let volume ← (qubits * allocation.total / d : Calc α)
  let rate ← code.totalFailureRate (← hardware.errorRate) volume d
  return ⟨layout, allocation, ← Arithmetic.toDecimal rate⟩

/-- A plan that is good enough, as a layout with its schedule. -/
def accept (plan : Plan α) : Calc (Layout α) := do
  let rate ← Arithmetic.toReal plan.failureRate
  return { plan.layout with
    allocation := some plan.allocation
    failureRates := some { totalCorrection := some rate } }

/-- Tries every second distance. The first one below the tolerance is taken; otherwise the last
layout is left without distance, schedule and failure rates. -/
def searchFrom (planAt : Int → Calc (Plan α)) (tolerance : α) :
    Nat → Int → Layout α → Run (Layout α)
  | 0, _, last => do
    Run.warn "No viable layout found! Returning null results."
    return { last with distance := none, allocation := none, failureRates := none }
  | count + 1, distance, _ => do
    let found ← planAt distance
    if ← Arithmetic.lt found.failureRate tolerance then accept found
    else searchFrom planAt tolerance count (distance + 2) found.layout

/-- The layout of least code distance from `low` up to but not including `high`. -/
def leastLayout (code : SurfaceCode α) (architecture : Architecture) (program : CompiledProgram)
    (optimization : Optimization) (perRotation : Int) (tolerance : α)
    (factory : Option (MagicStateFactory α)) (hardware : Hardware α) (low high : Int) :
    Run (Layout α) :=
  searchFrom (plan code architecture program optimization perRotation factory hardware)
    tolerance ((high - low + 1) / 2).toNat low {}

/-- Physical qubits of the patches and of the factories. -/
def physicalQubits (code : SurfaceCode α) (layout : Layout α) : Calc α := do
  let patch ← code.physicalQubits (← Arithmetic.required layout.distance)
  let data ← Arithmetic.required layout.dataQubits
  let bus ← Arithmetic.required layout.busQubits
  let patches ← (patch * ((data : Calc α) + bus) : Calc α)
  if layout.factoryCount.any (Arithmetic.eq (Arithmetic.ofInt 0)) then
    Arithmetic.add patches (Arithmetic.ofInt 0)
  else
    let some factory := layout.factory | .error .absentRecord
    let count ← Arithmetic.required layout.factoryCount
    (patches + factory.qubits * count : Calc α)

end Architecture

end QuantumResources
