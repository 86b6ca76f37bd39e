import QuantumResources.Interchange.Values
import QuantumResources.Program

/-! Circuits and programs as JSON. -/

namespace QuantumResources.Interchange

def getSequence (j : Json) : Decoded Sequence := do
  let part (key : String) : Decoded (List Int) := fieldOr [] getInts key j
  return ⟨← part "prefix", ← part "body", ← part "suffix"⟩

def compiledFields : List String :=
  ["num_logical_qubits", "num_layers", "graph_creation_tocks_per_layer", "t_states_per_layer",
    "rotations_per_layer"]

def getCompiledSubroutine (j : Json) : Decoded (Calc CompiledSubroutine) := do
  if !compiledFields.all (has · j) then return .error .noSuchKey
  return .ok ⟨← field getInt "num_logical_qubits" j, ← field getInt "num_layers" j,
    ← field getInts "graph_creation_tocks_per_layer" j, ← field getInts "t_states_per_layer" j,
    ← field getInts "rotations_per_layer" j⟩

def getCompiledSubroutines (j : Json) : Decoded (Calc (List CompiledSubroutine)) := do
  let items ← (← getList j).mapM getCompiledSubroutine
  return items.mapM id

def getCompiledProgram (j : Json) : Decoded (Calc CompiledProgram) := do
  let subroutines ← field getCompiledSubroutines "subroutines" j
  let steps ← fieldOr 1 getInt "steps" j
  let sequence ← field getSequence "sequence" j
  return do CompiledProgram.make (← subroutines) steps sequence.toOrder

/-- A named gate with its angles, or one inside a controlled gate. -/
def getGate (angles : List Scalar) (j : Json) : Decoded (Gate Scalar) := do
  match _found : j.field? "wrapped" with
  | some inner =>
    return .controlled (← getGate angles inner) (← field getInt "controls" j)
      (← fieldOr Gate.controlName getString "name" j)
  | none => return .named (← field getString "name" j) angles
termination_by sizeOf j
decreasing_by exact Json.sizeOf_field? _found

def getOperation (j : Json) : Decoded (Operation Scalar) := do
  match j with
  | .string "reset" => return .reset
  | .string "other" => return .other
  | .string name => return .gate ⟨.plain name, []⟩
  | _ =>
    let angles ← fieldOr [] getScalars "params" j
    return .gate ⟨← getGate angles (← need "gate" j), ← fieldOr [] getInts "qubits" j⟩

def getCircuit (j : Json) : Decoded (Circuit Scalar) := do
  return .on (← field getInt "n_qubits" j) (← (← field getList "operations" j).mapM getOperation)

def getCircuits (j : Json) : Decoded (List (Circuit Scalar)) := do (← getList j).mapM getCircuit

def getProgram (j : Json) : Decoded (Calc (Program Scalar)) := do
  let circuits ← field getCircuits "circuits" j
  let steps ← fieldOr 1 getInt "steps" j
  let sequence ← field getSequence "sequence" j
  return Program.make circuits steps sequence.toOrder

def ofGate (withAngles : Bool) : Gate Scalar → Json
  | .named name angles =>
    .list (.string name :: if withAngles then angles.map ofScalar else [])
  | .controlled gate controls _ =>
    .list [.string "controlled", ofGate withAngles gate, .int controls]
  | .adjoint gate => .list [.string "dagger", ofGate withAngles gate]
  | .inverted gate => .list [.string "Dagger", ofGate withAngles gate]

def ofGateOperation (withAngles : Bool) (operation : GateOperation Scalar) : Json :=
  .list [ofGate withAngles operation.gate, ofInts operation.qubits]

/-- Names that are wanted: those of a list, or all that stand somewhere in a text. -/
def getWanted (j : Json) : Decoded (String → Bool) := do
  match j with
  | .string text => return fun name => name.isEmpty || (text.splitOn name).length > 1
  | _ =>
    let names ← getStrings j
    return names.contains

end QuantumResources.Interchange
