import QuantumResources.Engine.Dialogue
import QuantumResources.Hamiltonian.Document
import QuantumResources.Hamiltonian.Quadratic

/-! Hamiltonians in files of arrays, which an engine opens. -/

namespace QuantumResources.Hamiltonian

/-- What a file of arrays holds: a quadratic form, or the integrals of a molecule. -/
inductive Stored where
  | quadratic (terms : List (Quadratic.ZTerm Scalar))
  | molecule (operator : Datum)

/-- Whether something has a part of a name. -/
def hasPart (key : String) : Datum → Except Failure Bool
  | .record fields => .ok (fields.any (·.1 == key))
  | .list items => .ok (items.any fun
    | .scalar (.text name) => name == key
    | _ => false)
  | .scalar (.text name) => .ok ((name.splitOn key).length > 1)
  | _ => .error .wrongKind

/-- Whether a file has an array. -/
def hasArray (key : String) (file : Datum) : Dialogue Bool := do
  match file with
  | .file arrays _ => return arrays.any (·.1 == key)
  | _ => hasPart key (← Dialogue.method file "keys")

/-- The operator of a molecule's integrals, on qubits. -/
def ofIntegrals (file attributes : Datum) : Dialogue Datum := do
  let oneBody ← file.field "one_body_tensor"
  let twoBody ← file.field "two_body_tensor"
  let constant ← attributes.field "constant"
  let operator ← Dialogue.ask "openfermion.InteractionOperator" []
    [("constant", constant), ("one_body_tensor", oneBody), ("two_body_tensor", twoBody)]
  Dialogue.ask "openfermion.jordan_wigner" [operator]

def ofQuadratic (matrix : Datum) : Except Failure (List (Quadratic.ZTerm Scalar)) := do
  Quadratic.ofMatrix ((← matrix.toArray).map .real)

/-- A file is recognised by the arrays in it or by what is said about them. -/
def ofArrays (name : String) : Dialogue Stored := do
  let file ← Dialogue.ask "h5py.File" [.text name, .text "r"]
  if ← hasArray "q_matrix" file then
    return .quadratic (← ofQuadratic (← file.field "q_matrix"))
  let attributes ← Dialogue.property file "attrs"
  if ← hasPart "basis" attributes then
    return .molecule (← ofIntegrals file attributes)
  .failed (.unrecognisedFile name)

end QuantumResources.Hamiltonian
