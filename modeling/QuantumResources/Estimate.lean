import QuantumResources.Decoder
import QuantumResources.Hardware.IonTrap
import QuantumResources.Record

/-! The results of an estimate, and their form as records. -/

namespace QuantumResources

/-- Counts of the program before it is compiled. -/
structure AbstractResources where
  qubits : Int
  tGates : Int
  deriving DecidableEq, Repr

/-- The choices behind an estimate from gate counts. -/
structure DistillationDetails (α : Type) where
  stateErrorRate : α
  cycles : α
  cycleTime : α
  physicalErrorRate : α
  distance : α
  failureRate : α
  factoryName : String

/-- What an estimate was made from. -/
inductive Origin (α : Type) where
  | compiledProgram
  | gateCounts (details : DistillationDetails α)

structure Estimate (α : Type) where
  abstractQubits : Option α := none
  physicalQubits : Option α := none
  tGates : Option Int := none
  /-- Seconds. -/
  totalTime : Option α := none
  totalFailureRate : Option α := none
  abstractResources : Option AbstractResources := none
  layout : Option (Layout α) := none
  inventory : Option (IonTrap.Inventory α) := none
  decoder : Option (DecoderReport α) := none
  optimization : Optimization
  origin : Origin α

/-- A value in a report. -/
inductive Reported where
  | scalar (value : Scalar)
  | sizes (values : List Int)
  | allocation (value : Allocation Scalar)
  /-- Something that is only named. -/
  | object (kind : String)

def Optimization.name : Optimization → String
  | .space => "Space"
  | .time => "Time"
  | .other name => name

namespace Reported

def scalarField (value : Scalar) : Field Reported := .value (.scalar value)

def absent : Field Reported := scalarField .unset

def intField (n : Int) : Field Reported := scalarField (.whole n)

def textField (text : String) : Field Reported := scalarField (.text text)

def optionField {β : Type} (field : β → Field Reported) : Option β → Field Reported
  | some value => field value
  | none => absent

def boolField (b : Bool) : Field Reported := scalarField (.flag b)

end Reported

open Reported

def MagicStateFactory.record (factory : MagicStateFactory Scalar) : Record Reported :=
  .ofFields [("name", textField factory.name),
    ("distilled_magic_state_error_rate", scalarField factory.errorRate),
    ("space", optionField (fun sizes => .value (.sizes sizes)) factory.space),
    ("qubits", scalarField factory.qubits),
    ("distillation_time_in_cycles", scalarField factory.cycles),
    ("t_gates_per_distillation", intField factory.statesPerRound)]

def FailureRates.record (rates : FailureRates Scalar) : Record Reported :=
  .ofFields [("total_rotation_failure_rate", optionField scalarField rates.totalRotation),
    ("total_distillation_failure_rate", optionField scalarField rates.totalDistillation),
    ("total_qec_failure_rate", optionField scalarField rates.totalCorrection),
    ("per_rotation_failure_rate", optionField scalarField rates.perRotation),
    ("per_t_gate_failure_rate", optionField scalarField rates.perTGate),
    ("per_qec_failure_rate", optionField scalarField rates.perCell)]

def Layout.record (layout : Layout Scalar) : Record Reported :=
  .ofFields [("num_logical_data_qubits", optionField scalarField layout.dataQubits),
    ("num_logical_bus_qubits", optionField scalarField layout.busQubits),
    ("data_and_bus_code_distance", optionField scalarField layout.distance),
    ("num_magic_state_factories", optionField scalarField layout.factoryCount),
    ("magic_state_factory", optionField (fun f => .record f.record) layout.factory),
    ("qec_cycle_allocation", optionField (fun a => .value (.allocation a)) layout.allocation),
    ("logical_failure_rate_info", optionField (fun r => .record r.record) layout.failureRates)]

def IonTrap.LogicUnit.record (u : IonTrap.LogicUnit Scalar) : Record Reported :=
  .ofFields [("power_consumed_per_elu_in_kilowatts", optionField scalarField u.power),
    ("num_communication_ports_per_elu", optionField intField u.ports),
    ("second_switch_per_elu_necessary", optionField boolField u.secondSwitch),
    ("num_communication_ions_per_elu", optionField intField u.communicationIons),
    ("num_memory_ions_per_elu", optionField intField u.memoryIons),
    ("num_computational_ions_per_elu", optionField scalarField u.computationalIons),
    ("num_optical_cross_connect_layers", optionField intField u.crossConnectLayers),
    ("num_ELUs_per_optical_cross_connect", optionField intField u.unitsPerCrossConnect)]

def IonTrap.Inventory.record (i : IonTrap.Inventory Scalar) : Record Reported :=
  .ofFields [("num_data_elus", optionField scalarField i.dataUnits),
    ("data_elu_resource_info", .record i.dataUnit.record),
    ("num_bus_elus", optionField scalarField i.busUnits),
    ("bus_elu_resource_info", .record i.busUnit.record),
    ("num_distillation_elus", optionField scalarField i.distillationUnits),
    ("distillation_elu_resource_info", .record i.distillationUnit.record)]

def DecoderReport.record (report : DecoderReport Scalar) : Record Reported :=
  .ofFields [("total_energy_in_joules", scalarField report.energy),
    ("power_in_watts", scalarField report.power),
    ("area_in_micrometers_squared", scalarField report.area),
    ("max_decodable_distance", intField report.maxDistance)]

def AbstractResources.record (resources : AbstractResources) : Record Reported :=
  .ofFields [("n_abstract_logical_qubits", intField resources.qubits),
    ("n_t_gates", intField resources.tGates)]

def Origin.record : Origin Scalar → Record Reported
  | .compiledProgram =>
    .ofFields [("implementation", .value (.object "CompiledAlgorithmImplementation"))]
  | .gateCounts details =>
    .ofFields [("fail_rate_msFactory", scalarField details.stateErrorRate),
      ("rounds_magicstateFactory", scalarField details.cycles),
      ("scc_time", scalarField details.cycleTime),
      ("physical_qubit_error_rate", scalarField details.physicalErrorRate),
      ("code_distance", scalarField details.distance),
      ("logical_error_rate", scalarField details.failureRate),
      ("magic_state_factory_name", textField details.factoryName)]

def Estimate.record (estimate : Estimate Scalar) : Record Reported :=
  .ofFields [("n_abstract_logical_qubits", optionField scalarField estimate.abstractQubits),
    ("n_physical_qubits", optionField scalarField estimate.physicalQubits),
    ("n_t_gates", optionField intField estimate.tGates),
    ("total_time_in_seconds", optionField scalarField estimate.totalTime),
    ("total_circuit_failure_rate", optionField scalarField estimate.totalFailureRate),
    ("abstract_logical_resource_info",
      optionField (fun r => .record r.record) estimate.abstractResources),
    ("logical_architecture_resource_info",
      optionField (fun l => .record l.record) estimate.layout),
    ("hardware_resource_info", optionField (fun i => .record i.record) estimate.inventory),
    ("decoder_info", optionField (fun d => .record d.record) estimate.decoder),
    ("optimization", textField estimate.optimization.name),
    ("extra", .record estimate.origin.record)]

end QuantumResources
