import QuantumResources.Estimate
import QuantumResources.Factory.AutoCcz

/-! Estimates from counts of Toffoli and T gates.

Distillation is taken to be the bottleneck: the factories run all the time, and the data qubits
wait for them. Every factory is tried with every odd code distance from 7 to 99. -/

namespace QuantumResources.GateCounts

structure Parameters (α : Type) where
  physicalErrorRate : α
  cycleTime : α
  distance : α
  factory : MagicStateFactory α
  logicalQubits : α
  factoryCount : α
  routingOverhead : α
  toffoliGates : α
  tGates : α
  /-- The part of the bounding box that is in use. -/
  boxPortion : α

structure Cost (α : Type) where
  physicalQubits : α
  duration : α
  failureProbability : α
  factoryName : String

variable {α : Type} [Arithmetic α]

def isZero (x : α) : Bool := Arithmetic.eq x (Arithmetic.ofInt 0)

/-- A distillation serves one Toffoli gate or two T gates. -/
def distillations (toffoliGates tGates : α) : Calc α := do
  let pairs ← Arithmetic.ceil (← Arithmetic.div tGates (Arithmetic.ofInt 2))
  Arithmetic.add toffoliGates (Arithmetic.ofInt pairs)

def cost (code : SurfaceCode α) (p : Parameters α) : Calc (Cost α) := do
  if isZero p.tGates && isZero p.toffoliGates then .error .nothingToDistill
  let patches ← Arithmetic.ceil
    (← (p.logicalQubits * (1 + (p.routingOverhead : Calc α)) : Calc α))
  let computing ← ((Arithmetic.num patches : Calc α) * code.physicalQubits p.distance : Calc α)
  let distilling ← (p.factoryCount * p.factory.qubits : Calc α)
  let count ← distillations p.toffoliGates p.tGates
  let cycles ← Arithmetic.truncate (← (count / p.factoryCount * p.factory.cycles : Calc α))
  let distillationFailure ← Arithmetic.mul p.factory.errorRate count
  let volume ← (p.boxPortion * computing * (Arithmetic.num cycles : Calc α) : Calc α)
  let dataFailure ← (code.cellFailureRate p.physicalErrorRate p.distance * volume : Calc α)
  let qubits ← Arithmetic.add computing distilling
  let duration ← ((Arithmetic.num cycles : Calc α) * p.cycleTime : Calc α)
  let one ← Arithmetic.toReal (Arithmetic.ofInt 1 : α)
  let failure ← Arithmetic.minimum one (← Arithmetic.add dataFailure distillationFailure)
  return ⟨qubits, duration, failure, p.factory.name⟩

abbrev Candidate (α : Type) := Cost α × Parameters α

/-- Space-time volume in qubit seconds. -/
def Cost.volume (cost : Cost α) : Calc α := Arithmetic.mul cost.physicalQubits cost.duration

/-- Takes a candidate that is good enough and has a smaller volume than the best one. -/
def improve (code : SurfaceCode α) (tolerance : α) (best : Option (Candidate α))
    (p : Parameters α) : Calc (Option (Candidate α)) := do
  let found ← cost code p
  if ← Arithmetic.le found.failureProbability tolerance then
    match best with
    | none => return some (found, p)
    | some (known, _) =>
      if ← Arithmetic.lt (← found.volume) (← known.volume) then return some (found, p)
      else return best
  else return best

def distances : List Int := (List.range 47).map fun (i : Nat) => 2 * (i : Int) + 7

/-- The candidate of least volume: of all factories in order, with the distances going up. -/
def search (code : SurfaceCode α) (tolerance : α)
    (candidate : MagicStateFactory α → α → Parameters α) (factories : FactorySource α) :
    Calc (Candidate α) := do
  let best ← factories.foldlM (fun best entry => do
    let factory ← entry
    distances.foldlM (fun best distance =>
      improve code tolerance best (candidate factory (Arithmetic.ofInt distance))) best) none
  match best with
  | some found => return found
  | none => .error .noAcceptableParameters

/-- A circuit given by its gate counts, with the freedom of choice that is left to the search. -/
structure Task (α : Type) where
  logicalQubits : α
  toffoliGates : α
  tGates : α
  cycleTime : α
  physicalErrorRate : α
  boxPortion : α
  routingOverhead : α
  tolerance : α
  factoryCount : α

def Task.parameters (task : Task α) (factory : MagicStateFactory α) (distance : α) :
    Parameters α where
  physicalErrorRate := task.physicalErrorRate
  cycleTime := task.cycleTime
  distance
  factory
  logicalQubits := task.logicalQubits
  factoryCount := task.factoryCount
  routingOverhead := task.routingOverhead
  toffoliGates := task.toffoliGates
  tGates := task.tGates
  boxPortion := task.boxPortion

def Task.best (code : SurfaceCode α) (task : Task α) (factories : FactorySource α) :
    Calc (Candidate α) := do
  if isZero task.tGates && isZero task.toffoliGates then .error .nothingToDistill
  search code task.tolerance task.parameters factories

/-- The estimate for the best candidate. -/
def estimateWith (code : SurfaceCode α) (task : Task α) (hardware : Hardware α)
    (decoder : Option (Decoder α)) (factories : FactorySource α) : Run (Estimate α) := do
  let (found, p) ← task.best code factories
  let volume ← found.volume
  let decoding ←
    match decoder with
    | none => pure none
    | some made => made.report hardware p.distance volume p.logicalQubits
  return {
    physicalQubits := some found.physicalQubits
    totalTime := some found.duration
    totalFailureRate := some found.failureProbability
    optimization := .space
    abstractQubits := some p.logicalQubits
    decoder := decoding
    origin := .gateCounts {
      stateErrorRate := p.factory.errorRate
      cycles := p.factory.cycles
      cycleTime := p.cycleTime
      physicalErrorRate := p.physicalErrorRate
      distance := p.distance
      failureRate := found.failureProbability
      factoryName := p.factory.name } }

/-- The task on a hardware model; the whole bounding box is in use. -/
def Task.on (task : Task Scalar) (hardware : Hardware Scalar) : Calc (Task Scalar) := do
  return { task with
    physicalErrorRate := ← hardware.errorRate
    cycleTime := ← hardware.cycleTime
    boxPortion := .real 1.0 }

open Reported

def Cost.record (cost : Cost Scalar) : Record Reported :=
  .ofFields [("physical_qubit_count", scalarField cost.physicalQubits),
    ("duration", scalarField cost.duration),
    ("algorithm_failure_probability", scalarField cost.failureProbability),
    ("magic_state_factory_name", textField cost.factoryName)]

def Parameters.record (p : Parameters Scalar) : Record Reported :=
  .ofFields [("physical_error_rate", scalarField p.physicalErrorRate),
    ("surface_code_cycle_time", scalarField p.cycleTime),
    ("logical_data_qubit_distance", scalarField p.distance),
    ("magic_state_factory", .record p.factory.record),
    ("max_allocated_logical_qubits", scalarField p.logicalQubits),
    ("factory_count", scalarField p.factoryCount),
    ("routing_overhead_proportion", scalarField p.routingOverhead),
    ("toffoli_count", scalarField p.toffoliGates),
    ("t_count", scalarField p.tGates),
    ("proportion_of_bounding_box", scalarField p.boxPortion)]

end QuantumResources.GateCounts
