/-! Pauli operators on one and two qubits, and how Clifford operations move them. -/

namespace QuantumResources

inductive Pauli where
  | i | x | y | z
  deriving DecidableEq, Repr

namespace Pauli

def all : List Pauli := [i, x, y, z]

def label : Pauli → String
  | i => "I"
  | x => "X"
  | y => "Y"
  | z => "Z"

def ofLabel? (text : String) : Option Pauli := all.find? (·.label == text)

/-- The product without its phase. -/
def mul : Pauli → Pauli → Pauli
  | i, p | p, i => p
  | x, x | y, y | z, z => i
  | x, y | y, x => z
  | x, z | z, x => y
  | y, z | z, y => x

/-- The phase of the product, in quarter turns. -/
def turns : Pauli → Pauli → Nat
  | x, y | y, z | z, x => 1
  | y, x | z, y | x, z => 3
  | _, _ => 0

/-- Whether the operator moves basis states. -/
def flips : Pauli → Bool
  | x | y => true
  | i | z => false

def commutes (p q : Pauli) : Bool := turns p q == 0

end Pauli

/-- A Pauli operator on two qubits with a phase in quarter turns. -/
structure PauliPair where
  turns : Nat
  first : Pauli
  second : Pauli
  deriving DecidableEq, Repr

namespace PauliPair

def mul (a b : PauliPair) : PauliPair where
  turns := (a.turns + b.turns + Pauli.turns a.first b.first + Pauli.turns a.second b.second) % 4
  first := a.first.mul b.first
  second := a.second.mul b.second

def xFirst : PauliPair := ⟨0, .x, .i⟩

def xSecond : PauliPair := ⟨0, .i, .x⟩

/-- Conjugation by the controlled phase: an operator that moves the states of one qubit puts a
`Z` on the other. -/
def throughCz (p : PauliPair) : PauliPair :=
  let partner (q : Pauli) : Pauli := if q.flips then .z else .i
  mul ⟨p.turns, p.first, partner p.first⟩ ⟨0, partner p.second, p.second⟩

end PauliPair

/-- Generators of the Clifford operations on one qubit. -/
inductive CliffordGenerator where
  | h | s
  deriving DecidableEq, Repr

/-- Conjugation of a Pauli operator; the flag tells whether its sign changes. -/
def CliffordGenerator.move : CliffordGenerator → Pauli → Bool × Pauli
  | _, .i => (false, .i)
  | h, .x => (false, .z)
  | h, .y => (true, .y)
  | h, .z => (false, .x)
  | s, .x => (false, .y)
  | s, .y => (true, .x)
  | s, .z => (false, .z)

/-- The Clifford operations on one qubit up to Pauli operators, as products of generators. -/
inductive Symplectic where
  | i | s | h | hsh | sh | hs
  deriving DecidableEq, Repr

namespace Symplectic

def all : List Symplectic := [i, s, h, hsh, sh, hs]

def label : Symplectic → String
  | i => "I"
  | s => "S"
  | h => "H"
  | hsh => "HSH"
  | sh => "SH"
  | hs => "HS"

def ofLabel? (text : String) : Option Symplectic := all.find? (·.label == text)

/-- The factors of the product; the last one acts first. -/
def factors : Symplectic → List CliffordGenerator
  | i => []
  | s => [.s]
  | h => [.h]
  | hsh => [.h, .s, .h]
  | sh => [.s, .h]
  | hs => [.h, .s]

def move (operation : Symplectic) (p : Pauli) : Bool × Pauli :=
  operation.factors.foldr (fun generator (negated, q) =>
    let (changed, moved) := generator.move q
    (negated ^^ changed, moved)) (false, p)

/-- Diagonal operations commute with the controlled phase. -/
def isDiagonal (operation : Symplectic) : Bool := operation = i || operation = s

end Symplectic

/-- A Clifford operation on one qubit: a Pauli operator after one of the six. -/
structure LocalOperator where
  symplectic : Symplectic
  pauli : Pauli
  deriving DecidableEq, Repr

namespace LocalOperator

def all : List LocalOperator :=
  Symplectic.all.flatMap fun symplectic => Pauli.all.map fun pauli => ⟨symplectic, pauli⟩

def move (operation : LocalOperator) (p : Pauli) : Bool × Pauli :=
  let (negated, moved) := operation.symplectic.move p
  (negated ^^ !operation.pauli.commutes moved, moved)

end LocalOperator

/-- Conjugation by one operation on each qubit. -/
def PauliPair.through (a b : LocalOperator) (p : PauliPair) : PauliPair :=
  let (negated, first) := a.move p.first
  let (negated', second) := b.move p.second
  ⟨(p.turns + if negated ^^ negated' then 2 else 0) % 4, first, second⟩

end QuantumResources
