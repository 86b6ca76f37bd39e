import QuantumResources.Circuit.Rules
import QuantumResources.Graph
import QuantumResources.Tensor

/-! Values that pass between this library and an engine that computes something for it. -/

namespace QuantumResources

/-- Something that an engine keeps. People know it by its name; things of one name are told apart
by their numbers. -/
structure Handle where
  name : String
  number : Nat := 0
  deriving DecidableEq, Repr

inductive Datum where
  | scalar (value : Scalar)
  | list (items : List Datum)
  | record (fields : List (String × Datum))
  | array (values : Tensor Float)
  | handle (handle : Handle)
  /-- Something of which only the kind is told. -/
  | thing (kind : String)
  | circuit (circuit : Circuit Scalar)
  | operation (operation : Operation Scalar)
  | rule (rule : Rule)
  | graph (graph : Graph)
  | stabilizers (rows : List (List Bool))
  /-- An opened file: arrays by name, and what is said about them. -/
  | file (arrays : List (String × Tensor Float)) (attributes : List (String × Datum))

namespace Datum

def whole (n : Int) : Datum := scalar (.whole n)

def real (x : Float) : Datum := scalar (.real x)

def flag (b : Bool) : Datum := scalar (.flag b)

def text (t : String) : Datum := scalar (.text t)

def unset : Datum := scalar .unset

def isUnset : Datum → Bool
  | scalar .unset => true
  | _ => false

/-- The parts of an array along its first axis. -/
def slices (values : Tensor Float) : Except Failure (List Datum) :=
  match values.shape with
  | [] => .error .wrongKind
  | [_] => .ok (values.entries.map real)
  | size :: rest => .ok ((List.range size).map fun i =>
      array (.generate rest fun index => values.getD (i :: index) 0.0))

/-- The parts of a value, one by one. -/
def elements : Datum → Except Failure (List Datum)
  | list items => .ok items
  | scalar (.text t) => .ok (t.toList.map fun c => text (String.ofList [c]))
  | record fields => .ok (fields.map fun field => text field.1)
  | array values => slices values
  | stabilizers rows => .ok (rows.map fun row => list (row.map flag))
  | _ => .error .wrongKind

/-- Exactly so many parts. -/
def unpack (count : Nat) (datum : Datum) : Except Failure (List Datum) := do
  let parts ← datum.elements
  if parts.length = count then return parts
  throw .noValue

def pair (datum : Datum) : Except Failure (Datum × Datum) := do
  match ← datum.unpack 2 with
  | [a, b] => return (a, b)
  | _ => throw .noValue

def triple (datum : Datum) : Except Failure (Datum × Datum × Datum) := do
  match ← datum.unpack 3 with
  | [a, b, c] => return (a, b, c)
  | _ => throw .noValue

def length (datum : Datum) : Except Failure Nat := do return (← datum.elements).length

/-- The part at a place. -/
def item (place : Nat) (datum : Datum) : Except Failure Datum :=
  match datum with
  | record _ => .error .noSuchKey
  | _ => do
    match (← datum.elements)[place]? with
    | some part => return part
    | none => throw .indexOutOfRange

/-- The part under a key. -/
def field (key : String) : Datum → Except Failure Datum
  | record fields =>
    match fields.lookup key with
    | some value => .ok value
    | none => .error .noSuchKey
  | file arrays _ =>
    match arrays.lookup key with
    | some value => .ok (array value)
    | none => .error .noSuchKey
  | _ => .error .wrongKind

/-- Whether a value counts as nothing. What an engine keeps is always something. -/
def isNothing : Datum → Except Failure Bool
  | scalar (.text t) => .ok t.isEmpty
  | scalar .unset => .ok true
  | scalar value => .ok value.isNothing
  | list items => .ok items.isEmpty
  | record fields => .ok fields.isEmpty
  | stabilizers rows => .ok rows.isEmpty
  | array values =>
    match values.entries with
    | [] => .ok true
    | [x] => .ok (x == 0.0)
    | _ => .error .noValue
  | _ => .ok false

/-- A value as a number that can be calculated with. -/
def number : Datum → Except Failure Scalar
  | scalar value => .ok value
  | _ => .error .wrongKind

def toWhole (datum : Datum) : Except Failure Int := do (← datum.number).truncate

def toReal (datum : Datum) : Except Failure Float := do
  match ← (← datum.number).toReal with
  | .real x => return x
  | _ => throw .wrongKind

mutual
/-- A value as an array: lists have an axis, anything else has none. -/
def toArray : Datum → Except Failure (Tensor Float)
  | array values => .ok values
  | list items => do Tensor.stack (← toArrays items)
  | scalar value => do return .single (← (scalar value).toReal)
  | _ => .ok (.single (0.0 / 0.0))
def toArrays : List Datum → Except Failure (List (Tensor Float))
  | [] => .ok []
  | item :: rest => do
    let first ← toArray item
    return first :: (← toArrays rest)
end

/-- Whether a value is the number one. -/
def isOne : Datum → Bool
  | scalar value => value.eq (.whole 1)
  | _ => false

end Datum

end QuantumResources
