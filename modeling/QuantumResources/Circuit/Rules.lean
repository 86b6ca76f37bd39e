import QuantumResources.Circuit
import QuantumResources.Number.Arithmetic

/-! Rules that replace gates by native ones.

The native gates are Clifford gates, T gates and rotations around Z. A rule says to which
operations it applies and what it puts in their place. -/

namespace QuantumResources

/-- The rules in the order in which they are used. -/
inductive Rule where
  | cczToT
  | ccxToT
  | u3ToRz
  | rxToRz
  | ryToRz
  | standardRz
  deriving DecidableEq, Repr

/-- Angles at which a rotation around Z is a product of simple gates. -/
inductive StandardAngle where
  | zero
  | quarter
  | half
  | threeQuarters
  | straight
  | minusQuarter
  | minusHalf
  | minusThreeQuarters
  deriving DecidableEq, Repr

namespace StandardAngle

def pi : Float := 3.141592653589793

/-- Whether a double is within the tolerance `1e-8 + 1e-5 * |target|` of a target. -/
def isClose (x target : Float) : Bool := (x - target).abs ≤ 1e-8 + 1e-5 * target.abs

/-- The first standard angle that a double is close to. -/
def ofFloat? (x : Float) : Option StandardAngle :=
  if isClose x 0.0 then some zero
  else if isClose x (pi / 4.0) then some quarter
  else if isClose x (pi / 2.0) then some half
  else if isClose x (3.0 * pi / 4.0) then some threeQuarters
  else if isClose x pi || isClose x (-pi) then some straight
  else if isClose x (-pi / 4.0) then some minusQuarter
  else if isClose x (-pi / 2.0) then some minusHalf
  else if isClose x (-3.0 * pi / 4.0) then some minusThreeQuarters
  else none

/-- The gates in the order in which they act. -/
def gates {θ : Type} : StandardAngle → List (Gate θ)
  | zero => [.plain "I"]
  | quarter => [.plain "T"]
  | half => [.plain "S"]
  | threeQuarters => [.plain "S", .plain "T"]
  | straight => [.plain "Z"]
  | minusQuarter => [.adjoint (.plain "T")]
  | minusHalf => [.adjoint (.plain "S")]
  | minusThreeQuarters => [.adjoint (.plain "S"), .adjoint (.plain "T")]

end StandardAngle

namespace Rule

def all : List Rule := [cczToT, ccxToT, u3ToRz, rxToRz, ryToRz, standardRz]

variable {θ : Type}

/-- Whether a gate, or the gate that it controls, has a name. -/
def isOrControls (name : String) : Gate θ → Bool
  | .controlled gate _ own => own == name || gate.name == name
  | gate => gate.name == name

/-- Whether a gate is a doubly controlled `single`, or a singly controlled `double`. A gate that
only bears the name of a controlled one is refused. -/
def isDoublyControlled (single double : String) (gate : Gate θ) : Calc Bool :=
  if gate.name == Gate.controlName then
    match gate with
    | .controlled inner controls _ =>
      .ok ((inner.name == single && controls == 2) || (inner.name == double && controls == 1))
    | _ => .error .conditionViolated
  else .ok false

/-- Whether a rule applies; angles are read as doubles. -/
def applies (toFloat : θ → Calc Float) (rule : Rule) (operation : GateOperation θ) :
    Calc Bool := do
  let gate := operation.gate
  match rule with
  | cczToT => isDoublyControlled "Z" "CZ" gate
  | ccxToT => isDoublyControlled "X" "CNOT" gate
  | u3ToRz => return isOrControls "U3" gate
  | rxToRz => return isOrControls "RX" gate
  | ryToRz => return isOrControls "RY" gate
  | standardRz =>
    match gate.angles with
    | [] => if gate.name == "RZ" then .error .wrongKind else return false
    | angle :: _ =>
      let x ← toFloat angle
      return gate.name == "RZ" && (StandardAngle.ofFloat? x).isSome

def angle (gate : Gate θ) (place : Nat) : Calc θ :=
  match gate.angles[place]? with
  | some value => .ok value
  | none => .error .indexOutOfRange

/-- Gates on the qubits of an operation, with its controls. -/
def spread (operation : GateOperation θ) (gates : List (Gate θ)) : List (GateOperation θ) :=
  let lift (gate : Gate θ) : Gate θ :=
    match operation.gate with
    | .controlled _ controls _ => gate.withControls controls
    | _ => gate
  gates.map fun gate => ⟨lift gate, operation.qubits⟩

def on (gate : Gate θ) (qubits : List Int) : GateOperation θ := ⟨gate, qubits⟩

def rz (angle : θ) : Gate θ := .named "RZ" [angle]

/-- The phase of two controls and a target that are all one, from seven T gates. -/
def phaseOfThree (a b c : Int) : List (GateOperation θ) :=
  let cnot (control target : Int) : GateOperation θ := on (.plain "CNOT") [control, target]
  let t (qubit : Int) : GateOperation θ := on (.plain "T") [qubit]
  let tInverse (qubit : Int) : GateOperation θ := on (.adjoint (.plain "T")) [qubit]
  [cnot b c, tInverse c, cnot a c, t c, cnot b c, tInverse c, cnot a c, t b, t c]

def phaseOfControls (a b : Int) : List (GateOperation θ) :=
  let cnot : GateOperation θ := on (.plain "CNOT") [a, b]
  [cnot, on (.adjoint (.plain "T")) [b], on (.plain "T") [a], cnot]

def doublyControlledZ (a b c : Int) : List (GateOperation θ) :=
  phaseOfThree a b c ++ phaseOfControls a b

def toffoli (a b c : Int) : List (GateOperation θ) :=
  on (.plain "H") [c] :: phaseOfThree a b c ++ on (.plain "H") [c] :: phaseOfControls a b

def threeQubits (build : Int → Int → Int → List (GateOperation θ)) :
    List Int → Calc (List (GateOperation θ))
  | [a, b, c] => .ok (build a b c)
  | _ => .error .noValue

/-- What stands in for an operation, in the order in which it acts. -/
def produce (toFloat : θ → Calc Float) (rule : Rule) (operation : GateOperation θ) :
    Calc (List (GateOperation θ)) := do
  let gate := operation.gate
  match rule with
  | cczToT => threeQubits doublyControlledZ operation.qubits
  | ccxToT => threeQubits toffoli operation.qubits
  | u3ToRz =>
    let first ← angle gate 0
    let second ← angle gate 1
    let third ← angle gate 2
    return spread operation [rz third, .plain "SX", .plain "Z", rz second, .plain "SX", .plain "Z",
      rz first]
  | rxToRz => return spread operation [.plain "H", rz (← angle gate 0), .plain "H"]
  | ryToRz =>
    return spread operation [.plain "S", .plain "H", rz (← angle gate 0), .plain "H",
      .inverted (.plain "S")]
  | standardRz =>
    match StandardAngle.ofFloat? (← toFloat (← angle gate 0)) with
    | some standard => return standard.gates.map fun g => on g operation.qubits
    | none => .error .ruleMisapplied

end Rule

end QuantumResources
