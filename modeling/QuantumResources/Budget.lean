import QuantumResources.Number.Arithmetic

/-! Failure tolerance split by the source of failure. -/

namespace QuantumResources

/-- What may go wrong in the algorithm itself, in the approximation by native gates, and in the
hardware after error correction. -/
structure ErrorBudget (α : Type) where
  algorithm : α
  transpilation : α
  hardware : α
  deriving DecidableEq, Repr

namespace ErrorBudget

variable {α : Type} [Arithmetic α]

def total (budget : ErrorBudget α) : Calc α :=
  budget.algorithm + budget.transpilation + budget.hardware

/-- Splits a total in proportion to three weights. -/
def ofWeights (total : α) (algorithm transpilation hardware : α) : Calc (ErrorBudget α) := do
  let weights ← (algorithm + hardware + transpilation : Calc α)
  return {
    algorithm := ← (total * algorithm / weights : Calc α)
    transpilation := ← (total * transpilation / weights : Calc α)
    hardware := ← (total * hardware / weights : Calc α) }

def evenSplit (total : α) : Calc (ErrorBudget α) :=
  ofWeights total (Arithmetic.ofInt 1) (Arithmetic.ofInt 1) (Arithmetic.ofInt 1)

end ErrorBudget

end QuantumResources
