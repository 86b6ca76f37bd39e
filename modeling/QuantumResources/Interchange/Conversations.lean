import QuantumResources.Engine.Script
import QuantumResources.Graph.Compilers
import QuantumResources.Interchange.Graphs
import QuantumResources.Interchange.Programs
import QuantumResources.Interchange.Tensors
import QuantumResources.Molecule

/-! Scripts of engines, and what was asked of them, as JSON. -/

namespace QuantumResources.Interchange

def getOperations (j : Json) : Decoded (List Datum) := do
  (← getList j).mapM fun item => do return .operation (← getOperation item)

def getArrays (fields : List (String × Json)) : Decoded (List (String × Tensor Float)) :=
  fields.mapM fun (name, values) =>
    match getFloats values with
    | .ok array => .ok (name, array)
    | .error _ => .error "not an array"

mutual
/-- A value of an engine. Objects with one special key stand for what JSON has no notation for. -/
def getDatum : Json → Decoded Datum
  | .list items => do return .list (← getData items)
  | .object [("tuple", .list items)] => do return .list (← getData items)
  | .object [("array", values)] => do
    match getFloats values with
    | .ok array => return .array array
    | .error _ => .error "not an array"
  | .object [("stand_in", .string name)] => .ok (.handle ⟨name, 0⟩)
  | .object [("circuit", circuit)] => do return .circuit (← getCircuit circuit)
  | .object [("operations", items)] => do return .list (← getOperations items)
  | .object [("stabilizers", rows)] => do return .stabilizers (← getStabilizers rows)
  | .object [("datasets", .object arrays), ("attrs", .object attributes)]
  | .object [("attrs", .object attributes), ("datasets", .object arrays)] => do
    return .file (← getArrays arrays) (← getDatumFields attributes)
  | .object [("float", value)] => do return .scalar (← getScalar (.object [("float", value)]))
  | .object [("dec", value)] => do return .scalar (← getScalar (.object [("dec", value)]))
  | .object fields => do return .record (← getDatumFields fields)
  | value => do return .scalar (← getScalar value)
def getData : List Json → Decoded (List Datum)
  | [] => .ok []
  | item :: rest => do
    let first ← getDatum item
    return first :: (← getData rest)
def getDatumFields : List (String × Json) → Decoded (List (String × Datum))
  | [] => .ok []
  | (key, value) :: rest => do
    let first ← getDatum value
    return (key, first) :: (← getDatumFields rest)
end

def getOptions (j : Json) : Decoded Options := do getDatumFields (← getFields j)

def getArguments (j : Json) : Decoded (List Datum) := do getData (← getList j)

def getReply (j : Json) : Decoded Reply := do
  match j with
  | .object [("each", .list items)] => return .each (← getData items)
  | _ => return .always (← getDatum j)

def getScript (j : Json) : Decoded Script := do
  let replies ← (← getFields j).mapM fun (name, reply) => do return (name, ← getReply reply)
  return { replies }

def ruleName : Rule → String
  | .cczToT => "CCZtoT"
  | .ccxToT => "CCXtoT"
  | .u3ToRz => "U3toRZ"
  | .rxToRz => "RXtoRZ"
  | .ryToRz => "RYtoRZ"
  | .standardRz => "DecomposeStandardRZ"

def operationKind : Operation Scalar → String
  | .gate _ => "GateOperation"
  | .reset => "ResetOperation"
  | .other => "Operation"

/-- Something of which only the kind is written. -/
def ofKind (kind : String) : Json := .string ("<" ++ kind ++ ">")

def ofOperation (operation : Operation Scalar) : Json :=
  match operation with
  | .gate operation => ofGateOperation false operation
  | _ => ofKind (operationKind operation)

def ofCircuit (circuit : Circuit Scalar) : Json :=
  .object [("n_qubits", .int circuit.qubits),
    ("operations", ofList ofOperation circuit.operations)]

/-- Entries as nested lists. -/
def nested : List Nat → List Json → Json
  | [], entries => entries.headD .null
  | size :: rest, entries =>
    let volume := rest.foldl (· * ·) 1
    .list ((List.range size).map fun i => nested rest ((entries.drop (i * volume)).take volume))

def ofTensor (values : Tensor Float) : Json := nested values.shape (values.entries.map ofFloat)

mutual
def ofDatum : Datum → Json
  | .scalar value => ofScalar value
  | .list items => .list (ofData items)
  | .record fields => .object (ofDatumFields fields)
  | .array values => ofTensor values
  | .handle handle => ofKind handle.name
  | .thing kind => ofKind kind
  | .circuit _ => ofKind "Circuit"
  | .operation operation => ofOperation operation
  | .rule rule => ofKind (ruleName rule)
  | .graph graph => ofGraph graph
  | .stabilizers rows => ofList (ofList .bool) rows
  | .file _ _ => ofKind "File"
def ofData : List Datum → List Json
  | [] => []
  | item :: rest => ofDatum item :: ofData rest
def ofDatumFields : List (String × Datum) → List (String × Json)
  | [] => []
  | (key, value) :: rest => (key, ofDatum value) :: ofDatumFields rest
end

def ofOptions (options : Options) : Json := .object (ofDatumFields options)

def ofNote : Note → Json
  | .assigned object property value =>
    .list [.string "set", .string (object.name ++ "." ++ property), ofDatum value]
  | .called function arguments named =>
    .list [.string function.name, .list (ofData arguments), ofOptions named]

def transcriptFields (transcript : Transcript) : List (String × Json) :=
  ("asked", ofList ofNote transcript.notes) ::
    (match transcript.published with
    | some token => [("token", .string token)]
    | none => [])

def ofMoleculeTask (task : MoleculeTask) : Json :=
  .object [("molecule", ofOptions task.molecule.fields),
    ("active_space", ofOptions task.space.fields), ("scf_options", ofDatum task.options),
    ("experiment", ofDatum task.experiment), ("workspace", ofDatum task.workspace)]

def ofCompiledSubroutine (subroutine : CompiledSubroutine) : Json :=
  .object [("num_logical_qubits", .int subroutine.logicalQubits),
    ("num_layers", .int subroutine.layerCount),
    ("graph_creation_tocks_per_layer", ofInts subroutine.tocks),
    ("t_states_per_layer", ofInts subroutine.tStates),
    ("rotations_per_layer", ofInts subroutine.rotations)]

end QuantumResources.Interchange
