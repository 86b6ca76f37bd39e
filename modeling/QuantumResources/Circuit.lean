/-! Quantum circuits as lists of operations.

Angles may be of any kind; most of the library only passes them on. -/

namespace QuantumResources

inductive Gate (θ : Type) where
  /-- A gate known by its name, with its angles. -/
  | named (name : String) (angles : List θ)
  | controlled (gate : Gate θ) (controls : Int) (name : String)
  /-- The adjoint that a gate gives of itself. -/
  | adjoint (gate : Gate θ)
  /-- A gate put into a wrapper that inverts it. -/
  | inverted (gate : Gate θ)
  deriving DecidableEq, Repr

namespace Gate

variable {θ : Type}

def name : Gate θ → String
  | named name _ => name
  | controlled _ _ name => name
  | adjoint gate => gate.name ++ "_Dagger"
  | inverted gate => gate.name ++ "_Dagger"

/-- The angles of the gate inside. -/
def angles : Gate θ → List θ
  | named _ angles => angles
  | controlled gate _ _ => gate.angles
  | adjoint gate => gate.angles
  | inverted gate => gate.angles

/-- A gate without angles. -/
def plain (name : String) : Gate θ := named name []

def controlName : String := "Control"

def withControls (gate : Gate θ) (controls : Int) : Gate θ := controlled gate controls controlName

end Gate

/-- A gate applied to qubits. -/
structure GateOperation (θ : Type) where
  gate : Gate θ
  qubits : List Int
  deriving DecidableEq, Repr

inductive Operation (θ : Type) where
  | gate (operation : GateOperation θ)
  | reset
  /-- An operation that is neither a gate nor a reset. -/
  | other
  deriving DecidableEq, Repr

structure Circuit (θ : Type) where
  qubits : Int
  operations : List (Operation θ)
  /-- The number of qubits is not given with the circuit, and engines count them. -/
  isCounted : Bool := false
  deriving DecidableEq, Repr

variable {θ : Type}

namespace Circuit

/-- A circuit on a number of qubits that is given with it. -/
def on (qubits : Int) (operations : List (Operation θ)) : Circuit θ := { qubits, operations }

/-- A circuit whose qubits are counted from its operations; there are `qubits` of them. -/
def counted (qubits : Int) (operations : List (Operation θ)) : Circuit θ :=
  { qubits, operations, isCounted := true }

@[simp] theorem qubits_on (qubits : Int) (operations : List (Operation θ)) :
    (on qubits operations).qubits = qubits := rfl

@[simp] theorem operations_on (qubits : Int) (operations : List (Operation θ)) :
    (on qubits operations).operations = operations := rfl

@[simp] theorem operations_counted (qubits : Int) (operations : List (Operation θ)) :
    (counted qubits operations).operations = operations := rfl

/-- A circuit taken over, on the number of qubits that it is known to have. -/
def imported (circuit : Circuit θ) : Option Int → Circuit θ
  | none => circuit
  | some qubits => on qubits circuit.operations

end Circuit

/-- The name under which an operation is counted. -/
def Operation.countedAs : Operation θ → Option String
  | .gate operation => some operation.gate.name
  | .reset => some "ResetOperation"
  | .other => none

/-- The number of operations whose names are wanted. -/
def Circuit.count (wanted : String → Bool) (circuit : Circuit θ) : Nat :=
  circuit.operations.countP fun operation => operation.countedAs.any wanted

end QuantumResources
