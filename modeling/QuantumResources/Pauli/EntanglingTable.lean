import QuantumResources.Pauli

/-! Two-qubit graph states that a controlled phase can be absorbed into.

A state is given by whether its two nodes are joined and by the local operations that act on them.
Two descriptions are of the same state if their stabilizers agree up to order. -/

namespace QuantumResources

structure PairState where
  joined : Bool
  first : LocalOperator
  second : LocalOperator
  deriving DecidableEq, Repr

namespace PairState

/-- Two generators and their product. -/
def group (a b : PauliPair) : List PauliPair := [a, b, a.mul b]

/-- The stabilizers of the state. -/
def stabilizers (state : PairState) : List PauliPair :=
  let joined (p : PauliPair) : PauliPair := if state.joined then p.throughCz else p
  let image (p : PauliPair) : PauliPair := (joined p).through state.first state.second
  group (image .xFirst) (image .xSecond)

/-- All descriptions: first those of unjoined nodes. -/
def all : List PairState :=
  [false, true].flatMap fun joined => LocalOperator.all.flatMap fun first =>
    LocalOperator.all.map fun second => ⟨joined, first, second⟩

/-- The orders in which three stabilizers may stand. -/
def orders {β : Type} : List β → List (List β)
  | [a, b, c] => [[a, b, c], [a, c, b], [b, a, c], [b, c, a], [c, a, b], [c, b, a]]
  | items => [items]

/-- The descriptions with given stabilizers, each as often as it has an order that fits. -/
def matching (wanted : List PauliPair) : List PairState :=
  all.flatMap fun state =>
    ((orders state.stabilizers).filter (· == wanted)).map fun _ => state

end PairState

namespace BellTable

/-- The state that both local Hadamards make of a joined pair. -/
def target : PairState := ⟨true, ⟨.h, .i⟩, ⟨.h, .i⟩⟩

def flagText (flag : Bool) : String := if flag then "True" else "False"

def line (state : PairState) : String :=
  " ".intercalate [flagText state.joined, state.first.symplectic.label, state.first.pauli.label,
    state.second.symplectic.label, state.second.pauli.label]

/-- All descriptions of the Bell state. -/
def lines : List String := (PairState.matching target.stabilizers).map line

end BellTable

namespace EntanglingTable

/-- How much an operation is wanted in a description. -/
def symplecticScore : Symplectic → Nat
  | .i | .s => 400
  | .hsh | .hs => 200
  | .h | .sh => 100

def pauliScore : Pauli → Nat
  | .i => 5
  | .x | .z => 1
  | .y => 0

/-- The stabilizers after the controlled phase has acted, Pauli operators left aside. -/
def wanted (joined : Bool) (first second : Symplectic) : List PauliPair :=
  let start (p : PauliPair) : PauliPair := if joined then p.throughCz else p
  let image (p : PauliPair) : PauliPair := ((start p).through ⟨first, .i⟩ ⟨second, .i⟩).throughCz
  PairState.group (image .xFirst) (image .xSecond)

/-- A node whose operation commutes with the controlled phase keeps such an operation. -/
def mayBecome (given : Symplectic) (operation : LocalOperator) : Bool :=
  !given.isDiagonal || (operation.symplectic.isDiagonal && !operation.pauli.flips)

/-- The Pauli operators of the pair after the controlled phase has passed them. -/
def passed (first second : Pauli) : Pauli × Pauli :=
  let pair := (PauliPair.mk 0 first second).throughCz
  (pair.first, pair.second)

/-- A description with the Pauli operators that came through the phase multiplied in. -/
def absorbed (pair : Pauli × Pauli) (state : PairState) : PairState :=
  ⟨state.joined, ⟨state.first.symplectic, pair.1.mul state.first.pauli⟩,
    ⟨state.second.symplectic, pair.2.mul state.second.pauli⟩⟩

def score (state : PairState) : Nat :=
  symplecticScore state.first.symplectic + symplecticScore state.second.symplectic +
    pauliScore state.first.pauli + pauliScore state.second.pauli

/-- The first of the highest scores. -/
def best (states : List PairState) : Option PairState :=
  states.foldl (fun found state =>
    match found with
    | some top => if score top < score state then some state else found
    | none => if 0 < score state then some state else none) none

/-- What the controlled phase makes of a pair. -/
def entry (joined : Bool) (first second : LocalOperator) : Option PairState :=
  let fitting := (PairState.matching (wanted joined first.symplectic second.symplectic)).filter
    fun state => mayBecome first.symplectic state.first && mayBecome second.symplectic state.second
  best (fitting.map (absorbed (passed first.pauli second.pauli)))

def entryText (state : PairState) : String :=
  let node (operation : LocalOperator) : String :=
    "(" ++ operation.pauli.label ++ "_code_internal, " ++ operation.symplectic.label ++ "_code)"
  "(" ++ (if state.joined then "1" else "0") ++ ", " ++ node state.first ++ ", " ++
    node state.second ++ ") "

def heading (joined : Bool) (first second : LocalOperator) : String :=
  "CZ on " ++ first.symplectic.label ++ " x " ++ first.pauli.label ++ "   " ++
    second.symplectic.label ++ " x " ++ second.pauli.label ++ " with " ++
    BellTable.flagText joined ++ " on diagonal:"

/-- The headings of all pairs, then a row for each first operation, then two empty lines. -/
def half (firsts seconds : List LocalOperator) (joined : Bool) : List String :=
  let headings := firsts.flatMap fun first => seconds.map fun second => heading joined first second
  let row (first : LocalOperator) : String :=
    String.join (seconds.map fun second => ((entry joined first second).map entryText).getD "")
  headings ++ firsts.map row ++ ["", "", ""]

/-- The table for unjoined and for joined pairs. -/
def lines (firsts seconds : List LocalOperator) : List String :=
  half firsts seconds false ++ half firsts seconds true

end EntanglingTable

end QuantumResources
