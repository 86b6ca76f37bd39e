import QuantumResources.CompiledProgram
import QuantumResources.Layout

/-! The schedule of a compiled program in cycles of the surface code.

While the graph state of a layer is prepared the first T states are distilled. Then rounds of T
measurements follow; each round after the first waits for a distillation. A rotation takes its
measurements one after the other, so its node stays until its count is used up. -/

namespace QuantumResources.Schedule

/-- Takes one off the first positive entries. The number of entries that may change runs down to
zero from a positive start; from any other start it never gets there. -/
def consumeWith {β : Type} (isPositive : β → Bool) (decrement : β → β) : Int → List β → List β
  | _, [] => []
  | available, entry :: rest =>
    if isPositive entry then
      if available = 1 then decrement entry :: rest
      else decrement entry :: consumeWith isPositive decrement (available - 1) rest
    else entry :: consumeWith isPositive decrement available rest

/-- One round of T measurements on the counts that the nodes still need. -/
def consume (parallel : Int) (remaining : List Int) : List Int :=
  consumeWith (fun n => decide (0 < n)) (· - 1) parallel remaining

def roundsFrom (parallel : Int) : Nat → List Int → Nat
  | 0, _ => 0
  | fuel + 1, remaining =>
    if 0 < tally remaining then roundsFrom parallel fuel (consume parallel remaining) + 1 else 0

/-- Rounds until the counts no longer add up to something positive. Every round lowers the sum of
the positive counts. -/
def rounds (parallel : Int) (remaining : List Int) : Nat :=
  roundsFrom parallel ((remaining.map Int.toNat).foldr (· + ·) 0) remaining

/-- Measurements that the nodes of a layer need: rotations first, then T gates. -/
def needed (tStates rotations perRotation : Int) : List Int :=
  List.replicate rotations.toNat perRotation ++ List.replicate tStates.toNat 1

variable {α : Type} [Arithmetic α]

/-- How many T measurements run in parallel. -/
def parallelMeasurements (optimization : Optimization) (factory : MagicStateFactory α)
    (tStates rotations : Int) : Calc Int :=
  match optimization with
  | .space => .ok factory.statesPerRound
  | .time => .ok (max (tStates + rotations) factory.statesPerRound)
  | .other name => .error (.unknownOptimization name)

/-- Distillations, each followed by T measurements. -/
def logRounds (distillation measurement : α) : Nat → Allocation.Step α Unit
  | 0 => pure ()
  | count + 1 => do
    Allocation.log distillation [Allocation.distillation]
    Allocation.log measurement [Allocation.tMeasurement]
    logRounds distillation measurement count

/-- The entry of a layer. -/
def ofLayer (entries : List Int) (layer : Nat) : Calc Int := pick entries layer

/-- A layer that consumes T states. The first of them are distilled while its graph state is
prepared. -/
def logBusyLayer (optimization : Optimization) (distance : α) (factory : MagicStateFactory α)
    (perRotation tStates : Int) (subroutine : CompiledSubroutine) (layer : Nat) :
    Allocation.Step α Unit := do
  match optimization with
  | .other name => throw (.unknownOptimization name)
  | _ => pure ()
  let rotations ← ofLayer subroutine.rotations layer
  let parallel ← parallelMeasurements optimization factory tStates rotations
  let tocks ← ofLayer subroutine.tocks layer
  let preparation ← Arithmetic.mul (Arithmetic.ofInt tocks) distance
  Allocation.logParallel [factory.cycles, preparation]
    [Allocation.distillation, Allocation.graphStatePrep]
  let measurement ← Arithmetic.mul (Arithmetic.ofInt 2) distance
  Allocation.log measurement [Allocation.tMeasurement]
  let remaining := consume parallel (needed tStates rotations perRotation)
  logRounds factory.cycles measurement (rounds parallel remaining)

def logLayer (optimization : Optimization) (distance : α)
    (factory : Option (MagicStateFactory α)) (perRotation : Int)
    (subroutine : CompiledSubroutine) (layer : Nat) : Allocation.Step α Unit := do
  let tStates ← ofLayer subroutine.tStates layer
  let idle ← if tStates = 0 then (return (← ofLayer subroutine.rotations layer) == 0)
    else pure false
  if idle then
    let tocks ← ofLayer subroutine.tocks layer
    Allocation.log (← Arithmetic.mul (Arithmetic.ofInt tocks) distance) [Allocation.graphStatePrep]
  else
    let some factory := factory | throw .factoryNeeded
    logBusyLayer optimization distance factory perRotation tStates subroutine layer

def subroutineAllocation (optimization : Optimization) (distance : α)
    (factory : Option (MagicStateFactory α)) (perRotation : Int)
    (subroutine : CompiledSubroutine) : Calc (Allocation α) := do
  let layers := (List.range subroutine.layerCount.toNat).forM
    (logLayer optimization distance factory perRotation subroutine)
  let (outcome, allocation) := layers.run Allocation.cycles
  outcome
  return allocation

/-- Cycles of a whole program: those of its subroutines, in the order in which they run. -/
def allocation (program : CompiledProgram) (optimization : Optimization) (layout : Layout α)
    (perRotation : Int) : Calc (Allocation α) := do
  let some distance := layout.distance | .error .distanceNeeded
  let each ← program.subroutines.mapM
    (subroutineAllocation optimization distance layout.factory perRotation)
  (← program.sequence).foldlM (fun total place => do Allocation.sum total (← pick each place))
    Allocation.cycles

end QuantumResources.Schedule
