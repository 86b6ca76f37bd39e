import QuantumResources.Json
import QuantumResources.Number.Arithmetic

/-! Hamiltonians in documents: a list of terms, each with Pauli operators and a coefficient. -/

namespace QuantumResources.Hamiltonian

/-- A coefficient without an imaginary part stays as it is stored. -/
inductive Coefficient where
  | stored (value : Json)
  | complex (value : Scalar)

/-- An operator on a qubit, as it is stored. -/
structure Factor where
  qubit : Json
  operator : Json

structure Term where
  factors : List Factor
  coefficient : Coefficient

/-- A field that has to be there. -/
def field (key : String) (document : Json) : Except Failure Json :=
  match document with
  | .object _ =>
    match document.field? key with
    | some value => .ok value
    | none => .error .noSuchKey
  | _ => .error .wrongKind

/-- The parts of a value, one by one. A text has characters and an object its keys. -/
def items : Json → Except Failure (List Json)
  | .list items => .ok items
  | .string text => .ok (text.toList.map fun c => .string (String.ofList [c]))
  | .object fields => .ok (fields.map fun field => .string field.1)
  | _ => .error .wrongKind

def scalar : Json → Except Failure Scalar
  | .null => .ok .unset
  | .bool value => .ok (.flag value)
  | .int value => .ok (.whole value)
  | .real value => .ok (.real value)
  | .string _ | .list _ | .object _ => .error .wrongKind

def factor (document : Json) : Except Failure Factor := do
  return ⟨← field "qubit" document, ← field "op" document⟩

def coefficient (document : Json) : Except Failure Coefficient := do
  let real ← field "real" document
  match document.field? "imag" with
  | none => return .stored real
  | some imaginary =>
    if imaginary.isNothing then return .stored real
    let turned ← Scalar.mul (.complex 0.0 1.0) (← scalar imaginary)
    return .complex (← Scalar.add (← scalar real) turned)

def term (document : Json) : Except Failure Term := do
  let factors ← (← items (← field "pauli_ops" document)).mapM factor
  return ⟨factors, ← coefficient (← field "coefficient" document)⟩

/-- The terms of a document, in their order. -/
def ofDocument (document : Json) : Except Failure (List Term) := do
  (← items (← field "terms" document)).mapM term

def ofText (text : String) : Except Failure (List Term) :=
  match Json.read? text with
  | some document => ofDocument document
  | none => .error .malformedDocument

/-- What is kept under a file name, told by the end of the name. -/
inductive Format where
  | document
  | arrays
  | unsupported (ending : String)
  deriving DecidableEq, Repr

def Format.ofName (name : String) : Format :=
  if name.endsWith ".json" then .document
  else if name.endsWith ".hdf5" then .arrays
  else .unsupported ((name.splitOn ".").getLastD "")

/-- Files of other formats are passed over if that is allowed. -/
def passOver (allowed : Bool) (name ending : String) : Except Failure Unit :=
  if allowed then .ok () else .error (.unsupportedFile name ending)

/-- A file of documents: its terms, or nothing if it is passed over. -/
def ofFile (files : List (String × String)) (folder : String) (allowed : Bool) (name : String) :
    Except Failure (Option (List Term)) := do
  let path := folder ++ "/" ++ name
  match Format.ofName path with
  | .document =>
    match files.lookup name with
    | some text => return some (← ofText text)
    | none => throw .fileMissing
  | .arrays => throw .fileMissing
  | .unsupported ending =>
    passOver allowed path ending
    return none

/-- The Hamiltonians of all files of a folder. -/
def ofFolder (files : List (String × String)) (folder : String) (allowed : Bool) :
    Except Failure (List (List Term)) := do
  return (← files.mapM fun file => ofFile files folder allowed file.1).filterMap id

end QuantumResources.Hamiltonian
