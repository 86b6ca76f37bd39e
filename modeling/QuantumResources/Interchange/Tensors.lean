import QuantumResources.Hamiltonian.Document
import QuantumResources.Hamiltonian.Quadratic
import QuantumResources.Interchange.Values

/-! Arrays and Hamiltonians as JSON. -/

namespace QuantumResources.Interchange

mutual
/-- Nested lists as an array; parts of different shapes have no array. -/
def getTensor : Json → Calc (Tensor Json)
  | .list items => do Tensor.stack (← getParts items)
  | value => .ok (.single value)
def getParts : List Json → Calc (List (Tensor Json))
  | [] => .ok []
  | item :: rest => do
    let first ← getTensor item
    return first :: (← getParts rest)
end

def getEntry (j : Json) : Calc Scalar :=
  match getScalar j with
  | .ok value => .ok value
  | .error _ => .error .noValue

/-- An entry as a double; no value is no number. -/
def getFloat (j : Json) : Calc Float := do
  match ← getEntry j with
  | .unset => return 0.0 / 0.0
  | value =>
    match ← value.toReal with
    | .real x => return x
    | _ => .error .wrongKind

def getFloats (j : Json) : Calc (Tensor Float) := do (← getTensor j).mapM getFloat

/-- An array of whole numbers, or of doubles if not all entries are whole. -/
def getNumbers (j : Json) : Calc (Tensor Scalar) := do
  let entries ← (← getTensor j).mapM getEntry
  if entries.entries.all (·.isWhole) then return entries
  entries.mapM (·.toReal)

def ofZTerms (terms : List (Quadratic.ZTerm Scalar)) : Json :=
  ofList (fun term => .list [.string term.operator, ofScalar term.coefficient]) terms

/-- A stored value with its doubles written out. -/
def ofStored : Json → Json
  | .real x => ofFloat x
  | other => other

def ofTerms (terms : List Hamiltonian.Term) : Json :=
  ofList (fun term => .list [
    ofList (fun factor => .list [ofStored factor.qubit, ofStored factor.operator]) term.factors,
    match term.coefficient with
    | .stored value => ofStored value
    | .complex value => ofScalar value]) terms

/-- Hamiltonians in the order of their written texts. -/
def ofHamiltonians (all : List (List Hamiltonian.Term)) : Json :=
  let written := all.map fun terms => ((ofTerms terms).write, ofTerms terms)
  .list ((written.mergeSort fun a b => !(b.1 < a.1)).map (·.2))

end QuantumResources.Interchange
