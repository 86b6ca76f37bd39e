import QuantumResources.Number.Arithmetic

/-! Magic state factories and the choice of one.

A factory is chosen among those whose states are good enough, by the least cost for one state.
Factories may be made one by one while the choice goes on, and making one may fail. -/

namespace QuantumResources

structure MagicStateFactory (α : Type) where
  name : String
  /-- Error rate of a distilled state. -/
  errorRate : α
  /-- Width and height of the footprint. -/
  space : Option (List Int)
  qubits : α
  cycles : α
  /-- States made in one distillation. -/
  statesPerRound : Int
  deriving Repr

/-- What a choice of factory or a layout is to save. -/
inductive Optimization where
  | space
  | time
  | other (name : String)
  deriving DecidableEq, Repr

def Optimization.ofName : String → Optimization
  | "Space" => .space
  | "Time" => .time
  | name => .other name

/-- Factories in the order in which they come; an entry may be the failure to make one. -/
abbrev FactorySource (α : Type) := List (Calc (MagicStateFactory α))

def FactorySource.ofList {α : Type} (factories : List (MagicStateFactory α)) : FactorySource α :=
  factories.map .ok

namespace MagicStateFactory

variable {α : Type} [Arithmetic α]

/-- Cost of one state: qubits or cycles divided by the number of states made in one round. -/
def cost (optimization : Optimization) (factory : MagicStateFactory α) : Calc α :=
  match optimization with
  | .space => Arithmetic.div factory.qubits (Arithmetic.ofInt factory.statesPerRound)
  | .time => Arithmetic.div factory.cycles (Arithmetic.ofInt factory.statesPerRound)
  | .other name => .error (.unknownOptimization name)

/-- The best factory so far, with its cost. -/
abbrev Best (α : Type) := Option (MagicStateFactory α × α)

/-- Only a strictly lower cost replaces the best factory; the first has to be below infinity. -/
def improves (key : α) : Best α → Calc Bool
  | none => Arithmetic.isBounded key
  | some (_, least) => Arithmetic.lt key least

def selectStep (tolerance : α) (optimization : Optimization) (best : Best α)
    (factory : MagicStateFactory α) : Calc (Best α) := do
  if ← Arithmetic.le factory.errorRate tolerance then
    let key ← factory.cost optimization
    if ← improves key best then return some (factory, key) else return best
  else return best

/-- The first factory of least cost among those within the tolerance. -/
def select (tolerance : α) (optimization : Optimization) (source : FactorySource α) :
    Calc (Option (MagicStateFactory α)) := do
  let best ← source.foldlM (fun best entry => do selectStep tolerance optimization best (← entry))
    none
  return best.map (·.1)

end MagicStateFactory

end QuantumResources
