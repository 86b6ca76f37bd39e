import QuantumResources.Engine.Dialogue

/-! Circuits of other frameworks: engines turn them into ours and back. -/

namespace QuantumResources

inductive Framework where
  | qiskit
  | cirq
  deriving DecidableEq, Repr

namespace Framework

def label : Framework → String
  | qiskit => "qiskit"
  | cirq => "cirq"

/-- What a circuit of the framework is called. -/
def circuitKind : Framework → String
  | qiskit => "QiskitCircuit"
  | cirq => "CirqCircuit"

def converter (framework : Framework) (function : String) : String :=
  "orquestra.integrations." ++ framework.label ++ ".conversions." ++ function ++ framework.label

def exportCircuit (framework : Framework) (circuit : Circuit Scalar) : Dialogue Datum :=
  Dialogue.ask (framework.converter "export_to_") [.circuit circuit]

/-- A circuit of the framework as one of ours, with another number of qubits if one is given. -/
def importCircuit (framework : Framework) (foreign : Datum) (qubits : Option Int) :
    Dialogue (Circuit Scalar) := do
  match ← Dialogue.ask (framework.converter "import_from_") [foreign] with
  | .circuit circuit => return circuit.imported qubits
  | _ => .failed .wrongKind

end Framework

end QuantumResources
