import QuantumResources.Number.Arithmetic
import QuantumResources.Tensor

/-! The Hamiltonian of a quadratic form in bits.

A bit `x` is `(1 - z) / 2` for the value `z` of a Pauli `Z`. So the form is a sum of products of
at most two such operators. -/

namespace QuantumResources.Quadratic

open Arithmetic

/-- A number times the product of the `Z` operators on some qubits. -/
structure ZTerm (α : Type) where
  qubits : List Nat
  coefficient : α
  deriving DecidableEq, Repr

namespace ZTerm

/-- No qubits at all are written as the identity on the first one. -/
def operator {α : Type} (term : ZTerm α) : String :=
  match term.qubits with
  | [] => "I0"
  | qubits => " * ".intercalate (qubits.map fun qubit => "Z" ++ Digits.ofNat qubit)

end ZTerm

variable {α : Type} [Arithmetic α]

/-- An entry of the symmetric part of the form. -/
def symmetricPart (entry : Nat → Nat → α) (i j : Nat) : Calc α :=
  ((entry i j : Calc α) + (entry j i : Calc α)) / (constant 2 0 : α)

def halved (x : α) : Calc α := (x : Calc α) / (constant 2 0 : α)

def negated (x : α) : Calc α := (0 : Calc α) - (x : Calc α)

/-- The terms for the square of a bit. -/
def diagonal (q : α) (i : Nat) : Calc (List (ZTerm α)) := do
  let half ← halved q
  return [⟨[], half⟩, ⟨[i], ← negated half⟩]

/-- The terms for the product of two bits. -/
def mixed (q : α) (i j : Nat) : Calc (List (ZTerm α)) := do
  let half ← halved q
  let minus ← negated half
  return [⟨[], half⟩, ⟨[i], minus⟩, ⟨[j], minus⟩, ⟨[i, j], half⟩]

/-- The terms of a row: its square, then its products with the bits before it. -/
def row (entry : Nat → Nat → α) (i : Nat) : Calc (List (ZTerm α)) := do
  let square ← diagonal (← symmetricPart entry i i) i
  let products ← (List.range i).mapM fun j => do mixed (← symmetricPart entry i j) i j
  return square ++ products.flatten

def terms (size : Nat) (entry : Nat → Nat → α) : Calc (List (ZTerm α)) := do
  return (← (List.range size).mapM (row entry)).flatten

/-- The terms of the form with a given matrix, which has to be square. -/
def ofMatrix (matrix : Tensor α) : Calc (List (ZTerm α)) :=
  match matrix.shape with
  | [rows, columns] =>
    if rows = columns then terms rows fun i j => matrix.getD [i, j] (int 0)
    else .error .conditionViolated
  | [] | [_] => .error .indexOutOfRange
  | rows :: columns :: _ => .error (if rows = columns then .noValue else .conditionViolated)

end QuantumResources.Quadratic
