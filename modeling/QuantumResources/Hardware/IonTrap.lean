import QuantumResources.Binomial
import QuantumResources.Layout
import QuantumResources.Run

/-! Ion traps joined by photonic links.

Every logical qubit and every factory sits in a unit of its own. Entanglement between units
succeeds at random, so a unit holds enough communication ions for a failure to be rare. -/

namespace QuantumResources.IonTrap

/-- The ions and links of one unit. -/
structure LogicUnit (α : Type) where
  power : Option α := none
  ports : Option Int := none
  secondSwitch : Option Bool := none
  communicationIons : Option Int := none
  memoryIons : Option Int := none
  computationalIons : Option α := none
  crossConnectLayers : Option Int := none
  unitsPerCrossConnect : Option Int := none

structure Inventory (α : Type) where
  dataUnits : Option α
  dataUnit : LogicUnit α
  busUnits : Option α
  busUnit : LogicUnit α
  distillationUnits : Option α
  distillationUnit : LogicUnit α

section

variable {α : Type} [Arithmetic α]

/-- Pairs to distill so that one edge of a patch almost surely gets all its pairs. A
distillation succeeds with probability 0.76. -/
def pairsWith (cdf : Int → Int → α → Calc α) (distance : Int) : Calc Int :=
  Binomial.leastTrials cdf 2 (2 * distance - 1) (Arithmetic.constant 76 2)

/-- Communication ions that almost surely give four raw pairs for every pair to distill. One
attempt succeeds with probability 0.000218. -/
def communicationIonsWith (cdf : Int → Int → α → Calc α) (distance attempts : Int) :
    Calc Int := do
  let pairs ← pairsWith cdf distance
  let failure ← (1 - (Arithmetic.constant 218 6 : α) : Calc α)
  let success ← (1 - Arithmetic.pow failure attempts : Calc α)
  Binomial.leastTrials cdf 4588 (4 * pairs) success

end

def pairs : Int → Calc Int := pairsWith Binomial.cdf

def standardAttempts : Int := 1000

def communicationIons : Int → Int → Calc Int := communicationIonsWith Binomial.cdf

/-- Ports to the switch, and whether they need a second one. -/
def ports (distance : Int) : Calc (Int × Bool) := do
  let ions ← communicationIons distance standardAttempts
  return (ions, 500 < ions)

def kilowattsPerUnit : Scalar := .real 5.0

/-- Links that no count has been worked out for. -/
def uncounted : Int := -1

/-- A unit with its links and memory, before it is given ions to compute with. -/
def emptyUnit (distance : Int) : Calc (LogicUnit Scalar) := do
  let (count, second) ← ports distance
  let memory := 4 * (← pairs distance) + 2 * distance - 1
  return {
    power := some kilowattsPerUnit
    ports := some count
    secondSwitch := some second
    communicationIons := some count
    memoryIons := some memory }

def LogicUnit.holding (unit : LogicUnit Scalar) (ions : Scalar) : LogicUnit Scalar :=
  { unit with computationalIons := some ions }

/-- The ions of one patch. -/
def patchIons (distance : Int) : Int := (2 * distance - 1) * (2 * distance - 1)

/-- The ions of a patch and one more row. -/
def busIons (distance : Int) : Int := patchIons distance + (2 * distance - 1)

/-- A data unit holds one patch. -/
def dataUnit (distance : Int) : Calc (LogicUnit Scalar) := do
  return (← emptyUnit distance).holding (.whole (patchIons distance))

/-- A bus unit holds a patch and one more row. -/
def busUnit (distance : Int) : Calc (LogicUnit Scalar) := do
  return (← emptyUnit distance).holding (.whole (busIons distance))

/-- Without a factory the unit is blank, which the user is told. -/
def distillationFrom (empty : Calc (LogicUnit Scalar)) :
    Option (MagicStateFactory Scalar) → Run (LogicUnit Scalar)
  | none => do
    Run.print ("Warning: magic_state_factory is None. " ++
      "Returning empty ELUResourceInfo object.\n")
    return {}
  | some factory => do return (← empty).holding factory.qubits

def distillationUnit (distance : Int) :
    Option (MagicStateFactory Scalar) → Run (LogicUnit Scalar) :=
  distillationFrom (emptyUnit distance)

/-- The units of a layout. Its distance has to be whole. -/
def inventory (layout : Layout Scalar) : Run (Inventory Scalar) := do
  let some distance := layout.distance.bind Scalar.whole? | throw .distanceNotWhole
  let empty ← emptyUnit distance
  let distillation ← distillationFrom (.ok empty) layout.factory
  return {
    dataUnits := layout.dataQubits
    dataUnit := empty.holding (.whole (patchIons distance))
    busUnits := layout.busQubits
    busUnit := empty.holding (.whole (busIons distance))
    distillationUnits := layout.factoryCount
    distillationUnit := distillation }

/-- No model of the switches between units exists. -/
def switchNetwork : Calc (Inventory Scalar) := .error .switchNetworkMissing

end QuantumResources.IonTrap
