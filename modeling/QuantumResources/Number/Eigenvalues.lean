/-! Eigenvalues of symmetric matrices, by plane rotations.

Each rotation makes one entry beside the diagonal vanish; after a few rounds over all of them the
eigenvalues stand on the diagonal. -/

namespace QuantumResources.Eigenvalues

abbrev Matrix := Array (Array Float)

def entry (matrix : Matrix) (i j : Nat) : Float := ((matrix[i]?).bind (·[j]?)).getD 0.0

def ofFunction (size : Nat) (f : Nat → Nat → Float) : Matrix :=
  Array.ofFn fun (i : Fin size) => Array.ofFn fun (j : Fin size) => f i j

/-- The symmetric matrix with a given lower triangle. -/
def symmetric (size : Nat) (lower : Nat → Nat → Float) : Matrix :=
  ofFunction size fun i j => if j ≤ i then lower i j else lower j i

/-- Cosine and sine of the rotation that clears an entry. -/
def rotation (first second mixed : Float) : Float × Float :=
  let slope := (second - first) / (2.0 * mixed)
  let tangent :=
    (if slope < 0.0 then -1.0 else 1.0) / (slope.abs + (slope * slope + 1.0).sqrt)
  let cosine := 1.0 / (tangent * tangent + 1.0).sqrt
  (cosine, tangent * cosine)

/-- Rotates the plane of two axes. -/
def rotate (size p q : Nat) (matrix : Matrix) : Matrix :=
  let mixed := entry matrix p q
  if mixed == 0.0 then matrix
  else
    let (c, s) := rotation (entry matrix p p) (entry matrix q q) mixed
    let half := ofFunction size fun i j =>
      if j = p then c * entry matrix i p - s * entry matrix i q
      else if j = q then s * entry matrix i p + c * entry matrix i q
      else entry matrix i j
    ofFunction size fun i j =>
      if (i = p ∧ j = q) ∨ (i = q ∧ j = p) then 0.0
      else if i = p then c * entry half p j - s * entry half q j
      else if i = q then s * entry half p j + c * entry half q j
      else entry half i j

def pairs (size : Nat) : List (Nat × Nat) :=
  (List.range size).flatMap fun p => (List.range p).map fun q => (q, p)

def isDiagonal (size : Nat) (matrix : Matrix) : Bool :=
  (pairs size).all fun (p, q) => entry matrix p q == 0.0

def rounds (size : Nat) : Nat → Matrix → Matrix
  | 0, matrix => matrix
  | count + 1, matrix =>
    if isDiagonal size matrix then matrix
    else rounds size count ((pairs size).foldl (fun m (p, q) => rotate size p q m) matrix)

/-- The eigenvalues of the symmetric matrix with a given lower triangle. -/
def ofLower (size : Nat) (lower : Nat → Nat → Float) : List Float :=
  let diagonal := rounds size 50 (symmetric size lower)
  (List.range size).map fun i => entry diagonal i i

end QuantumResources.Eigenvalues
