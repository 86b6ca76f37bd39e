import QuantumResources.Engine.Dialogue
import QuantumResources.Program
import QuantumResources.Progress

/-! Compilation to native gates: an engine takes every gate apart by the rules. -/

namespace QuantumResources.Native

/-- The engine's function that applies rules to a gate. -/
def decomposer : String := "orquestra.quantum.decompositions._decomposition.decompose_operation"

def operationOf : Datum → Except Failure (Operation Scalar)
  | .operation operation => .ok operation
  | _ => .error .wrongKind

def operationsOf (reply : Datum) : Except Failure (List (Operation Scalar)) := do
  (← reply.elements).mapM operationOf

/-- What becomes of an operation; one that is no gate stays. -/
def decomposed (operation : Operation Scalar) : Dialogue (List (Operation Scalar)) :=
  match operation with
  | .gate _ => do
    let reply ← Dialogue.ask decomposer [.operation operation, .list (Rule.all.map .rule)]
    operationsOf reply
  | _ => .done [operation]

def notice : String := "Compiling to native gates...\n"

/-- The number of qubits stays, also where no operation acts on some of them. -/
def circuit (verbose : Bool) (circuit : Circuit Scalar) : Dialogue (Circuit Scalar) := do
  Dialogue.sayIf verbose notice
  let operations ← circuit.operations.mapM decomposed
  Dialogue.say (← Progress.text circuit.operations.length [])
  return { circuit with operations := operations.flatten }

/-- All subroutines of a program, with the time that it took. -/
def program (verbose : Bool) (clock : Clock) (program : Program Scalar) :
    Dialogue (Program Scalar) := do
  Dialogue.sayIf verbose notice
  let circuits ← program.subroutines.mapM (circuit false)
  let seconds ← (Timing.measure clock).1.total
  Dialogue.sayIf verbose ("Compiled in " ++ seconds.display ++ " seconds.\n")
  program.replaceCircuits circuits

end QuantumResources.Native
