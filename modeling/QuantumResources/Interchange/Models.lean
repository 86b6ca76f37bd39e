import QuantumResources.Budget
import QuantumResources.Decoder.Csv
import QuantumResources.Estimate.GateCounts
import QuantumResources.Estimate.Graph
import QuantumResources.Factory.AutoCcz
import QuantumResources.Interchange.Values

/-! Models of budgets, factories, decoders, hardware and layouts from JSON.

Making a model may fail for the reasons of the model itself, so what is read is a computation. -/

namespace QuantumResources.Interchange

def getBudget (j : Json) : Decoded (Calc (ErrorBudget Scalar)) := do
  if has "total" j then
    let total ← field getScalar "total" j
    match j.field? "weights" with
    | none => return ErrorBudget.evenSplit total
    | some weights =>
      let given ← getScalars weights
      let weight (i : Nat) : Scalar := given.getD i (.whole 1)
      return ErrorBudget.ofWeights total (weight 0) (weight 1) (weight 2)
  else
    return .ok ⟨← field getScalar "algorithm" j, ← field getScalar "transpilation" j,
      ← field getScalar "hardware" j⟩

def ofBudget (budget : ErrorBudget Scalar) : Json :=
  .object [("algorithm_failure_tolerance", ofScalar budget.algorithm),
    ("transpilation_failure_tolerance", ofScalar budget.transpilation),
    ("hardware_failure_tolerance", ofScalar budget.hardware)]

def getFactory (j : Json) : Decoded (MagicStateFactory Scalar) := do
  return {
    name := ← fieldOr "factory" getString "name" j
    errorRate := ← fieldOr .unset getScalar "error" j
    space := ← optional getInts "space" j
    qubits := ← fieldOr .unset getScalar "qubits" j
    cycles := ← fieldOr .unset getScalar "cycles" j
    statesPerRound := ← fieldOr 1 getInt "t" j }

/-- Factories that are listed, or named with a physical error rate. -/
def getFactories (j : Json) : Decoded (Calc (FactorySource Scalar)) := do
  match j with
  | .list items => return .ok (FactorySource.ofList (← items.mapM getFactory))
  | .null => return .error .wrongKind
  | _ =>
    let p ← field getScalar "p" j
    match ← field getString "named" j with
    | "autoccz" => return .ok (AutoCcz.source p)
    | "openfermion" => return .ok (AutoCcz.allSource p)
    | "litinski" => return (FactoryTable.smallVolume p).map FactorySource.ofList
    | "small_footprint" => return (FactoryTable.smallFootprint p).map FactorySource.ofList
    | "two_level" => return (AutoCcz.twoLevel p).map fun factory => [.ok factory]
    | name => .error ("unknown factories " ++ name)

def getFactories? (j : Json) : Decoded (Calc (FactorySource Scalar)) := do
  match ← optional getFactories "factories" j with
  | none => return .ok []
  | some made => return made

def getTable (j : Json) : Decoded (List (Int × Scalar)) := do
  (← getList j).mapM fun entry => do
    match ← getList entry with
    | [distance, value] => return (← getInt distance, ← getScalar value)
    | _ => .error "not a table entry"

def getDecoder (j : Json) : Decoded (Calc (Decoder Scalar)) := do
  match j.field? "csv" with
  | some text => return Decoder.read Decoder.Csv.cells (← getString text)
  | none =>
    return .ok {
      power := ← field getTable "power" j
      area := ← field getTable "area" j
      delay := ← field getTable "delay" j
      highestDistance := ← fieldOr 31 getInt "highest" j }

/-- A decoder if there is one. -/
def getDecoder? (key : String) (j : Json) : Decoded (Calc (Option (Decoder Scalar))) := do
  match ← optional getDecoder key j with
  | none => return .ok none
  | some made => return made.map some

def failureRateFields : List String :=
  ["total_rotation_failure_rate", "total_distillation_failure_rate", "total_qec_failure_rate",
    "per_rotation_failure_rate", "per_t_gate_failure_rate", "per_qec_failure_rate"]

def getFailureRates (j : Json) : Decoded (FailureRates Scalar) := do
  return {
    totalRotation := ← optional getScalar "total_rotation_failure_rate" j
    totalDistillation := ← optional getScalar "total_distillation_failure_rate" j
    totalCorrection := ← optional getScalar "total_qec_failure_rate" j
    perRotation := ← optional getScalar "per_rotation_failure_rate" j
    perTGate := ← optional getScalar "per_t_gate_failure_rate" j
    perCell := ← optional getScalar "per_qec_failure_rate" j }

/-- An amount for processes that run at the same time. -/
def getUse (j : Json) : Decoded (Scalar × List String) := do
  match ← getList j with
  | [amount, processes] => return (← getScalar amount, ← getStrings processes)
  | _ => .error "not a log entry"

/-- Logs uses in turn. -/
def getLogged (fresh : Allocation Scalar) (j : Json) : Decoded (Calc (Allocation Scalar)) := do
  let uses ← (← getList j).mapM getUse
  let logged := (uses.forM fun use => Allocation.log use.1 use.2).run fresh
  return do
    logged.1
    return logged.2

def getLayout (j : Json) : Decoded (Calc (Layout Scalar)) := do
  let allocation ← optional (getLogged Allocation.cycles) "qec_cycle_allocation" j
  let layout : Layout Scalar := {
    dataQubits := ← optional getScalar "num_logical_data_qubits" j
    busQubits := ← optional getScalar "num_logical_bus_qubits" j
    distance := ← optional getScalar "data_and_bus_code_distance" j
    factoryCount := ← optional getScalar "num_magic_state_factories" j
    factory := ← optional getFactory "magic_state_factory" j
    failureRates := ← optional getFailureRates "logical_failure_rate_info" j }
  match allocation with
  | none => return .ok layout
  | some made => return do return { layout with allocation := some (← made) }

def getHardware (j : Json) : Decoded (Hardware Scalar) := do
  let described (technology : Technology) : Decoded (Hardware Scalar) := do
    return .described technology (← fieldOr technology.standardErrorRate getScalar "p" j)
      (← fieldOr technology.standardCycleTime getScalar "cycle" j)
  match ← field getString "model" j with
  | "ion" => described .ionTrap
  | "sc" => described .superconducting
  | "detailed" => described .networkedIonTrap
  | "basic" => return .undescribed
  | name => .error ("unknown hardware " ++ name)

def getArchitecture (j : Json) : Decoded Architecture := do
  match ← getString j with
  | "all_to_all" => return .allToAll
  | "two_row_bus" => return .twoRowBus
  | "base" => return .undescribed
  | name => .error ("unknown architecture " ++ name)

/-- A planner that is named, or that is given by its answer. -/
def getPlanner (j : Json) : Decoded (Calc (GraphEstimate.Planner Scalar)) := do
  match j.field? "info" with
  | none => return .ok (.ofArchitecture SurfaceCode.compounded (← getArchitecture j))
  | some info =>
    let layout ← getLayout info
    let qubits ← optional getScalar "physical_qubits" j
    return do return .fixed SurfaceCode.compounded (← layout) qubits

def getCostParameters (factory : MagicStateFactory Scalar) (j : Json) :
    Decoded (GateCounts.Parameters Scalar) := do
  return {
    physicalErrorRate := ← field getScalar "physical_error_rate" j
    cycleTime := ← field getScalar "surface_code_cycle_time" j
    distance := ← field getScalar "logical_data_qubit_distance" j
    factory
    logicalQubits := ← field getScalar "max_allocated_logical_qubits" j
    factoryCount := ← field getScalar "factory_count" j
    routingOverhead := ← field getScalar "routing_overhead_proportion" j
    toffoliGates := ← fieldOr (.whole 0) getScalar "toffoli_count" j
    tGates := ← fieldOr (.whole 0) getScalar "t_count" j
    boxPortion := ← fieldOr (.whole 1) getScalar "proportion_of_bounding_box" j }

def getTask (j : Json) : Decoded (GateCounts.Task Scalar) := do
  return {
    logicalQubits := ← field getScalar "num_logical_qubits" j
    toffoliGates := ← fieldOr (.whole 0) getScalar "num_toffoli" j
    tGates := ← fieldOr (.whole 0) getScalar "num_t" j
    cycleTime := ← fieldOr (.real 1e-6) getScalar "surface_code_cycle_time" j
    physicalErrorRate := ← fieldOr (.real 1e-3) getScalar "physical_error_rate" j
    boxPortion := ← fieldOr (.real 1.0) getScalar "portion_of_bounding_box" j
    routingOverhead := ← fieldOr (.real 0.5) getScalar "routing_overhead_proportion" j
    tolerance := ← fieldOr (.real 1e-3) getScalar "hardware_failure_tolerance" j
    factoryCount := ← fieldOr (.whole 4) getScalar "factory_count" j }

end QuantumResources.Interchange
