import QuantumResources.Circuit
import QuantumResources.CompiledProgram

/-! Programs as sequences of subroutine calls. -/

namespace QuantumResources

structure Program (θ : Type) where
  subroutines : List (Circuit θ)
  steps : Int
  order : Order

namespace Program

variable {θ : Type}

/-- All subroutines act on the same number of qubits, and there is at least one. -/
def make (subroutines : List (Circuit θ)) (steps : Int) (order : Order) : Calc (Program θ) :=
  match subroutines with
  | [] => .error .indexOutOfRange
  | first :: _ =>
    if subroutines.all (·.qubits == first.qubits) then .ok ⟨subroutines, steps, order⟩
    else .error .qubitCountsDiffer

def ofCircuit (circuit : Circuit θ) : Program θ := ⟨[circuit], 1, fun _ => .ok [0]⟩

def dataQubits (program : Program θ) : Int :=
  match program.subroutines with
  | [] => 0
  | first :: _ => first.qubits

def sequence (program : Program θ) : Calc (List Int) := program.order program.steps

/-- Adds one at a place; negative places count from the end. -/
def bump (counts : List Int) (place : Int) : Calc (List Int) := do
  let index := if place < 0 then place + counts.length else place
  let count ← pick counts place
  return counts.set index.toNat (count + 1)

/-- How often each subroutine runs, up to the last one that does. -/
def multiplicities (program : Program θ) : Calc (List Int) := do
  match ← program.sequence with
  | [] => .error .noValue
  | first :: rest =>
    let last := rest.foldl max first
    (first :: rest).foldlM bump (List.replicate (last + 1).toNat 0)

def countEach (wanted : String → Bool) (program : Program θ) : List Int :=
  program.subroutines.map fun circuit => (circuit.count wanted : Int)

/-- Operations of a whole run whose names are wanted. -/
def count (wanted : String → Bool) (program : Program θ) : Calc Int := do
  countAlong (program.countEach wanted) (← program.sequence)

def isRotation (name : String) : Bool := ["RX", "RY", "RZ"].contains name

def isEntangling (name : String) : Bool := ["CZ", "CNOT"].contains name

def isT (name : String) : Bool := ["T", "Tdag"].contains name

def rotationGates (program : Program θ) : Calc Int := program.count isRotation

def entanglingGates (program : Program θ) : Calc Int := program.count isEntangling

def tGates (program : Program θ) : Calc Int := program.count isT

/-- The least number of nodes of a graph state for the program. -/
def leastNodes (program : Program θ) : Calc Int := do
  return (← program.tGates) + (← program.rotationGates) + program.dataQubits

def replaceCircuits (program : Program θ) (circuits : List (Circuit θ)) : Calc (Program θ) :=
  make circuits program.steps program.order

/-- Circuits one after the other. -/
def join (circuits : List (Circuit θ)) : Circuit θ where
  qubits := (circuits.map (·.qubits)).foldl max 0
  operations := circuits.flatMap (·.operations)

/-- The places of the subroutines that run, counted from the start. -/
def places (program : Program θ) : Calc (List Nat) := do
  let count : Int := program.subroutines.length
  (← program.sequence).mapM fun place => do
    let _ ← pick program.subroutines place
    return (if place < 0 then place + count else place).toNat

/-- The whole run as one circuit. -/
def fullCircuit (program : Program θ) : Calc (Circuit θ) := do
  return join (← (← program.sequence).mapM (pick program.subroutines))

/-- The same run as a program with a single subroutine. -/
def combined (program : Program θ) : Calc (Program θ) := do
  return ofCircuit (← program.fullCircuit)

/-- The compiled form, from one compiled subroutine for each circuit. -/
def withCompiled (program : Program θ) (compiled : List CompiledSubroutine) :
    Calc CompiledProgram :=
  if compiled.length = program.subroutines.length then
    CompiledProgram.make compiled program.steps program.order
  else .error .conditionViolated

variable {α : Type} [Arithmetic α]

/-- T gates once every rotation is approximated within its share of the tolerance. -/
def tGatesAfterSynthesis (tGatesPerRotation : α → Calc Int) (program : Program θ)
    (tolerance : α) : Calc Int := do
  let rotations ← program.rotationGates
  if rotations = 0 then program.tGates
  else
    let share ← CompiledProgram.rotationTolerance tolerance rotations
    let perRotation ← tGatesPerRotation share
    return (← program.tGates) + rotations * perRotation

/-- The tolerance of each subroutine, in proportion to its rotations. -/
def distributeTolerance (program : Program θ) (total : α) : Calc (List α) := do
  let rotations ← program.rotationGates
  if rotations = 0 then return program.subroutines.map fun _ => Arithmetic.ofInt 0
  else
    (program.countEach isRotation).mapM fun count =>
      (total * (Arithmetic.num count : Calc α) / (Arithmetic.num rotations : Calc α) : Calc α)

end Program

/-- A program with its failure tolerance and the number of times it runs. -/
structure Implementation (α θ : Type) where
  program : Program θ
  transpilationTolerance : α
  shots : α

end QuantumResources
