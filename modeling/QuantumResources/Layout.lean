import QuantumResources.Allocation
import QuantumResources.Factory

/-! Logical layouts: how many patches of which size, which factories, and what runs on them.

A layout is filled in step by step, so each part may still be missing. -/

namespace QuantumResources

structure FailureRates (α : Type) where
  totalRotation : Option α := none
  totalDistillation : Option α := none
  totalCorrection : Option α := none
  perRotation : Option α := none
  perTGate : Option α := none
  perCell : Option α := none

structure Layout (α : Type) where
  dataQubits : Option α := none
  busQubits : Option α := none
  distance : Option α := none
  factoryCount : Option α := none
  factory : Option (MagicStateFactory α) := none
  allocation : Option (Allocation α) := none
  failureRates : Option (FailureRates α) := none

variable {α : Type} [Arithmetic α]

/-- Rates that are not known count as zero. -/
def FailureRates.total (rates : FailureRates α) : Calc α := do
  let known : Option α → Calc α
    | some rate => Arithmetic.toReal rate
    | none => .ok (Arithmetic.ofInt 0)
  let rotation ← known rates.totalRotation
  let distillation ← known rates.totalDistillation
  let correction ← known rates.totalCorrection
  (rotation + distillation + correction : Calc α)

namespace Layout

def wholeOrZero (failure : Failure) : Option α → Calc α
  | none => .ok (Arithmetic.ofInt 0)
  | some count => if Arithmetic.isWhole count then .ok count else .error failure

/-- Data and bus qubits together. -/
def logicalQubits (layout : Layout α) : Calc α := do
  let data ← wholeOrZero .dataQubitsNotWhole layout.dataQubits
  let bus ← wholeOrZero .busQubitsNotWhole layout.busQubits
  Arithmetic.add data bus

/-- Space-time volume in cells: one logical qubit over as many cycles as the distance. -/
def volume (layout : Layout α) : Calc α := do
  let some allocation := layout.allocation | .error .volumeNeedsAllocation
  let some distance := layout.distance | .error .volumeNeedsDistance
  (allocation.total * layout.logicalQubits / distance : Calc α)

end Layout

end QuantumResources
