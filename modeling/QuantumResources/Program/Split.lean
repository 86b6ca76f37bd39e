import QuantumResources.Program

/-! Splitting long subroutines into pieces of a bounded size. -/

namespace QuantumResources.Program

variable {θ : Type}

/-- Pieces of `size` items; the last one may be shorter. -/
def chunks {β : Type} (size : Nat) : Nat → List β → List (List β)
  | 0, _ => []
  | _ + 1, [] => []
  | fuel + 1, items => items.take size :: chunks size fuel (items.drop size)

/-- A piece ends with an identity on the last qubit, so that all of them are counted. -/
def piece (qubits : Int) (operations : List (Operation θ)) : Circuit θ :=
  .counted qubits (operations ++ [.gate ⟨.plain "I", [qubits - 1]⟩])

/-- The pieces of a circuit that is too long. -/
def cut (size : Int) (qubits : Int) (circuit : Circuit θ) : Calc (List (Circuit θ)) :=
  if size = 0 then .error .noValue
  else if size < 0 then .ok []
  else
    .ok ((chunks size.toNat circuit.operations.length circuit.operations).map (piece qubits))

/-- The subroutines after the split, and for every old subroutine the places that stand for it. -/
structure SplitState (θ : Type) where
  circuits : List (Circuit θ) := []
  places : List (List Int) := []
  pieces : Int := 0

/-- A circuit within the size keeps its place. The pieces of a longer one are numbered on from the
last old subroutine. -/
def splitStep (size : Int) (program : Program θ) (state : SplitState θ) (circuit : Circuit θ) :
    Calc (SplitState θ) := do
  if size < circuit.operations.length then
    let pieces ← cut size program.dataQubits circuit
    let start := (program.subroutines.length : Int) - 1 + state.pieces
    let places := (List.range pieces.length).map fun (j : Nat) => start + j
    return ⟨state.circuits ++ pieces, state.places ++ [places], state.pieces + pieces.length⟩
  else
    return { state with
      circuits := state.circuits ++ [circuit]
      places := state.places ++ [[(state.places.length : Int)]] }

/-- The program with every subroutine longer than `size` cut into pieces. -/
def split (size : Int) (program : Program θ) : Calc (Program θ) := do
  let state ← program.subroutines.foldlM (splitStep size program) {}
  let order : Order := fun steps => do
    return (← (← program.order steps).mapM (pick state.places)).flatten
  make state.circuits program.steps order

end QuantumResources.Program
