import QuantumResources.Number.Eigenvalues
import QuantumResources.Number.Summation
import QuantumResources.Tensor

/-! Integrals of a molecule: one-electron integrals in a matrix, electron repulsion in an array with
four axes, and the norms that its factorisations give to the Hamiltonian. -/

namespace QuantumResources.Integrals

abbrev Values := Tensor Float

/-- Stops unless exchanging the two electrons keeps the repulsion. -/
def requireSymmetric (repulsion : Values) : Except Failure Unit :=
  match repulsion.shape with
  | [a, b, c, d] => do
    let exchanged := Tensor.generate [c, d, a, b] fun
      | [i, j, k, l] => repulsion.getD [k, l, i, j] 0.0
      | _ => 0.0
    if ← exchanged.isNearAll repulsion then return ()
    throw .asymmetricIntegrals
  | _ => .error .noValue

def sumOver (size : Nat) (term : Nat → Float) : Float :=
  Summation.sequential ((List.range size).map term)

/-- A matrix of sums along two axes that run together. -/
def contracted (rows columns m n : Nat) (term : Nat → Nat → Nat → Float) :
    Except Failure Values :=
  if m = n then
    .ok (.generate [rows, columns] fun
      | [i, j] => sumOver m (term i j)
      | _ => 0.0)
  else .error .noValue

/-- The sum over equal second and third axes. -/
def inner (repulsion : Values) : Except Failure Values :=
  match repulsion.shape with
  | [a, b, c, d] => contracted a d b c fun i j k => repulsion.getD [i, k, k, j] 0.0
  | _ => .error .noValue

/-- The sum over equal third and fourth axes. -/
def last (repulsion : Values) : Except Failure Values :=
  match repulsion.shape with
  | [a, b, c, d] => contracted a b c d fun i j k => repulsion.getD [i, j, k, k] 0.0
  | _ => .error .noValue

/-- The sum over equal first and second axes. -/
def first (repulsion : Values) : Except Failure Values :=
  match repulsion.shape with
  | [a, b, c, d] => contracted c d a b fun i j k => repulsion.getD [k, k, i, j] 0.0
  | _ => .error .noValue

/-- The one-electron operator with the repulsion that acts like it. -/
def effective (core exchange direct : Values) : Except Failure Values := do
  (← core.sub (exchange.scale 0.5)).add direct

/-- The sum of the absolute eigenvalues of a matrix, of which the lower triangle is read. -/
def spectralNorm (rows columns : Nat) (value : Nat → Nat → Float) : Except Failure Float :=
  if rows = columns then
    .ok (Summation.pairwise ((Eigenvalues.ofLower rows value).map (·.abs)))
  else .error .notAMatrix

/-- Of an array with more axes, all its matrices are taken. -/
def spectralNormAll (values : Values) : Except Failure Float :=
  match values.shape.reverse with
  | columns :: rows :: outer =>
    (Tensor.indices outer.reverse).foldlM (fun total index => do
      return total + (← spectralNorm rows columns fun i j =>
        values.getD (index ++ [i, j]) 0.0)) 0.0
  | _ => .error .notAMatrix

/-- The norm of the Hamiltonian whose repulsion is a sum of squares of the factors. -/
def singleFactorizedNorm (core repulsion factors : Values) : Except Failure Float := do
  let operator ← effective core (← inner repulsion) (← last repulsion)
  let oneBody := Summation.pairwise (operator.entries.map (·.abs))
  match factors.shape with
  | [rows, columns, rank] =>
    let parts := (Tensor.indices [rows, columns]).map fun index =>
      (List.range rank).map fun v => (factors.getD (index ++ [v]) 0.0).abs
    return oneBody + 0.25 * Summation.grandSum parts
  | _ => throw .noValue

/-- The norm of the Hamiltonian whose factors are diagonalised in turn. -/
def doubleFactorizedNorm (core repulsion factors : Values) : Except Failure Float := do
  let operator ← effective core (← inner repulsion) (← first repulsion)
  let oneBody ← spectralNormAll operator
  match factors.shape with
  | rows :: columns :: rank :: outer =>
    let twoBody ← (List.range rank).foldlM (fun total v => do
      let part := Tensor.generate (rows :: columns :: outer) fun
        | i :: j :: rest => factors.getD (i :: j :: v :: rest) 0.0
        | _ => 0.0
      let norm ← spectralNormAll part
      return total + 0.25 * (norm * norm)) 0.0
    return oneBody + twoBody
  | _ => throw .indexOutOfRange

end QuantumResources.Integrals
