import QuantumResources.Sequence
import QuantumResources.Synthesis

/-! Programs compiled into graph states.

A compiled subroutine runs layer by layer. Every layer prepares a part of the graph state and
then consumes T states, one for a T gate and several for a rotation. -/

namespace QuantumResources

structure CompiledSubroutine where
  logicalQubits : Int
  layerCount : Int
  /-- Tocks to create the graph state of each layer. -/
  tocks : List Int
  tStates : List Int
  rotations : List Int
  deriving DecidableEq, Repr

structure CompiledProgram where
  subroutines : List CompiledSubroutine
  steps : Int
  order : Order

namespace CompiledProgram

/-- A program has at least one subroutine. -/
def make (subroutines : List CompiledSubroutine) (steps : Int) (order : Order) :
    Calc CompiledProgram :=
  if subroutines.isEmpty then .error .noValue else .ok ⟨subroutines, steps, order⟩

def sequence (program : CompiledProgram) : Calc (List Int) := program.order program.steps

/-- The largest number of logical qubits of any subroutine. -/
def logicalQubits (program : CompiledProgram) : Calc Int :=
  match program.subroutines.map (·.logicalQubits) with
  | [] => .error .noValue
  | first :: rest => .ok (rest.foldl max first)

def rotationGates (program : CompiledProgram) : Calc Int := do
  countAlong (program.subroutines.map (tally ·.rotations)) (← program.sequence)

def tGates (program : CompiledProgram) : Calc Int := do
  countAlong (program.subroutines.map (tally ·.tStates)) (← program.sequence)

variable {α : Type} [Arithmetic α]

/-- The tolerance of one rotation when a total is spread evenly over all of them. -/
def rotationTolerance (total : α) (rotations : Int) : Calc α := do
  let whole ← Arithmetic.toDecimal total
  let share ← Arithmetic.toDecimal (← (1 / (Arithmetic.num rotations : Calc α) : Calc α))
  Arithmetic.mul whole share

/-- T gates once every rotation is approximated within its share of the tolerance. -/
def tGatesAfterSynthesis (tGatesPerRotation : α → Calc Int) (program : CompiledProgram)
    (tolerance : α) : Calc Int := do
  let rotations ← program.rotationGates
  if rotations = 0 then program.tGates
  else
    let perRotation ← tGatesPerRotation (← rotationTolerance tolerance rotations)
    return (← program.tGates) + rotations * perRotation

end CompiledProgram

/-- A compiled program with its failure tolerance and the number of times it runs. -/
structure CompiledImplementation (α : Type) where
  program : CompiledProgram
  transpilationTolerance : α
  hardwareTolerance : α
  shots : α

end QuantumResources
