import QuantumResources.Architecture
import QuantumResources.Estimate
import QuantumResources.Factory.Table
import QuantumResources.Program

/-! Estimates for programs compiled into graph states.

The tolerance for hardware failures is halved between distillation and error correction. A
factory is chosen for the first half, the least code distance for the second. -/

namespace QuantumResources.GraphEstimate

/-- How a logical architecture lays out a program, and how many physical qubits that takes. -/
structure Planner (α : Type) where
  leastLayout : CompiledProgram → Optimization → (perRotation : Int) → (tolerance : α) →
    Option (MagicStateFactory α) → Hardware α → Run (Layout α)
  physicalQubits : Layout α → Calc α

variable {α : Type} [Arithmetic α]

def Planner.ofArchitecture (code : SurfaceCode α) (architecture : Architecture) : Planner α where
  leastLayout program optimization perRotation tolerance factory hardware :=
    architecture.leastLayout code program optimization perRotation tolerance factory hardware
      3 200
  physicalQubits := Architecture.physicalQubits code

/-- A planner that has already made up its mind about the layout, and maybe about its size. -/
def Planner.fixed (code : SurfaceCode α) (layout : Layout α) (qubits : Option α) : Planner α where
  leastLayout _ _ _ _ _ _ := pure layout
  physicalQubits found :=
    match qubits with
    | some count => .ok count
    | none => Architecture.physicalQubits code found

/-- What the T states of a program have to be like. -/
structure StateDemand (α : Type) where
  perRotation : Int
  rotationTolerance : α
  states : Int
  factory : Option (MagicStateFactory α)

/-- A demand for some states, with a factory that spreads the tolerance evenly over them. -/
def demandStates (perRotation : Int) (rotationTolerance : α) (states : Int) (stateTolerance : α)
    (optimization : Optimization) (factories : FactorySource α) : Calc (StateDemand α) := do
  let perState ← Arithmetic.div stateTolerance (Arithmetic.ofInt states)
  let factory ← MagicStateFactory.select perState optimization factories
  return ⟨perRotation, rotationTolerance, states, factory⟩

/-- Splits the tolerances over the gates and chooses a factory. A program without T states takes
none. -/
def demand (tGatesPerRotation : α → Calc Int) (program : CompiledProgram)
    (rotationTolerance stateTolerance : α) (optimization : Optimization)
    (factories : FactorySource α) : Calc (StateDemand α) := do
  let zero ← Arithmetic.toDecimal (Arithmetic.ofInt 0 : α)
  let tGates ← program.tGates
  let rotations ← program.rotationGates
  if tGates = 0 ∧ rotations = 0 then return ⟨0, zero, 0, none⟩
  else if rotations = 0 then
    demandStates 0 zero tGates stateTolerance optimization factories
  else
    let tolerance ← CompiledProgram.rotationTolerance rotationTolerance rotations
    let perRotation ← tGatesPerRotation tolerance
    demandStates perRotation tolerance (tGates + rotations * perRotation) stateTolerance
      optimization factories

/-- The failure rate of one distilled state and that of all of them. -/
def distillationRates (demand : StateDemand α) : Calc (α × α) :=
  match demand.factory with
  | none => do
    let zero ← Arithmetic.toReal (Arithmetic.ofInt 0 : α)
    return (zero, zero)
  | some factory => do
    let all ← Arithmetic.mul factory.errorRate (Arithmetic.ofInt demand.states)
    return (factory.errorRate, all)

/-- The failure rates of a layout, completed by those of rotations and distillation. -/
def completeRates (program : CompiledProgram) (demand : StateDemand α) (rates : FailureRates α) :
    Calc (FailureRates α) := do
  let rotations ← program.rotationGates
  let total ← Arithmetic.mul demand.rotationTolerance (Arithmetic.ofInt rotations)
  let (perState, distillation) ← distillationRates demand
  return { rates with
    perRotation := some demand.rotationTolerance
    totalRotation := some total
    perTGate := some perState
    totalDistillation := some distillation }

/-- What decoding takes, where there is a decoder. -/
def decoding (decoder : Option (Decoder α)) (hardware : Hardware α) (distance volume qubits : α) :
    Run (Option (DecoderReport α)) :=
  match decoder with
  | none => pure none
  | some made => made.report hardware distance volume qubits

/-- The parts of the hardware, where it is described in such detail. -/
def parts (inventory : Layout α → Run (IonTrap.Inventory α)) (hardware : Hardware α)
    (layout : Layout α) : Run (Option (IonTrap.Inventory α)) :=
  if hardware.isDetailed then some <$> inventory layout else pure none

/-- The estimate for given models of synthesis, architecture and hardware parts. -/
def estimateWith (tGatesPerRotation : α → Calc Int) (planner : Planner α)
    (inventory : Layout α → Run (IonTrap.Inventory α)) (optimization : Optimization)
    (implementation : CompiledImplementation α) (hardware : Hardware α)
    (decoder : Option (Decoder α)) (factories : FactorySource α) : Run (Estimate α) := do
  let program := implementation.program
  let half ← Arithmetic.div implementation.hardwareTolerance (Arithmetic.ofInt 2)
  let demand ← demand tGatesPerRotation program implementation.transpilationTolerance half
    optimization factories
  let layout ← planner.leastLayout program optimization demand.perRotation half demand.factory
    hardware
  let some allocation := layout.allocation | throw (.notSet .allocation)
  let perCircuit ← (allocation.total * hardware.cycleTime : Calc α)
  let time ← Arithmetic.mul perCircuit implementation.shots
  let qubits ← planner.physicalQubits layout
  let some known := layout.failureRates | throw (.notSet .failureRates)
  let rates ← completeRates program demand known
  let some distance := layout.distance | throw (.notSet .distance)
  let complete := { layout with failureRates := some rates }
  let volume ← complete.volume
  let logicalQubits ← complete.logicalQubits
  let decoder ← decoding decoder hardware distance volume logicalQubits
  let failureRate ← rates.total
  let inventory ← parts inventory hardware complete
  return {
    physicalQubits := some qubits
    totalTime := some time
    totalFailureRate := some failureRate
    layout := some complete
    inventory
    decoder
    optimization
    origin := .compiledProgram }

/-- The estimate of the library. Where no factories are given, those of small space-time volume
for the error rate of the hardware are used. -/
def estimate (planner : Planner Scalar) (optimization : Optimization)
    (implementation : CompiledImplementation Scalar) (hardware : Hardware Scalar)
    (decoder : Option (Decoder Scalar)) (factories : FactorySource Scalar) :
    Run (Estimate Scalar) := do
  let source : FactorySource Scalar ←
    if factories.isEmpty then do
      let rate ← hardware.errorRate
      pure (FactorySource.ofList (← FactoryTable.smallVolume rate))
    else pure factories
  estimateWith Synthesis.tGatesPerRotation planner IonTrap.inventory optimization implementation
    hardware decoder source

/-- Adds the counts of the program before it was compiled. -/
def withSource {θ : Type} (program : Program θ) (estimate : Estimate Scalar) :
    Run (Estimate Scalar) := do
  let tGates ← program.tGates
  return { estimate with
    abstractQubits := some (.whole program.dataQubits)
    tGates := some tGates
    abstractResources := some ⟨program.dataQubits, tGates⟩ }

end QuantumResources.GraphEstimate
