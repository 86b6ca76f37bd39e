import QuantumResources.Number.Decimal

/-! Causes for which a computation of the library stops, and the texts that go with them. -/

namespace QuantumResources

/-- Optional parts of a layout that a report cannot do without. -/
inductive LayoutPart where
  | allocation
  | distance
  | failureRates
  deriving DecidableEq, Repr

inductive Failure where
  /-- A whole or real number was divided by zero. -/
  | divisionByZero
  /-- Decimal arithmetic stopped. -/
  | decimal (signal : DecimalSignal)
  /-- A number is too large for the kind of number it was to become. -/
  | outOfRange
  /-- There is no such value: the largest of nothing, the logarithm of zero, a text that is no
  number, an array of the wrong shape. -/
  | noValue
  /-- An operand or a field is of a kind the operation does not take, or is missing. -/
  | wrongKind
  | indexOutOfRange
  | noSuchKey
  /-- A stated condition does not hold. -/
  | conditionViolated
  /-- Something was asked of an absent record. -/
  | absentRecord
  /-- A value is used that no branch has set. -/
  | neverSet
  | notAMatrix
  /-- There is nothing to draw, or no place to draw it at. -/
  | notAGraph
  | unknownOptimization (name : String)
  | factoryNeeded
  | distanceNeeded
  | notSet (part : LayoutPart)
  | volumeNeedsAllocation
  | volumeNeedsDistance
  | dataQubitsNotWhole
  | busQubitsNotWhole
  | layoutNotDescribed
  | hardwareNotDescribed
  | distanceNotWhole
  | notALayout
  | switchNetworkMissing
  | noHigherDistance
  | malformedDecoderTable
  | qubitCountsDiffer
  | nothingToDistill
  | noAcceptableParameters
  | unsupportedCircuit (kind : String)
  | ruleMisapplied
  | asymmetricIntegrals
  | unsupportedFile (file extension : String)
  | unrecognisedFile (file : String)
  | fileMissing
  | malformedDocument
  | openShellCorrelation
  | frozenOrbitalsTwice
  | meanFieldUnsupported
  | workspaceNeeded
  | callbackTaken
  | meanFieldDiverged
  | axesWithoutSubplot
  | unknownLocalOperation (label : String)
  | malformedVersion (text : String)
  | packageMissing (name : String)
  deriving DecidableEq, Repr

def LayoutPart.field : LayoutPart → String
  | .allocation => "qec_cycle_allocation"
  | .distance => "data_and_bus_code_distance"
  | .failureRates => "logical_failure_rate_info"

namespace Failure

/-- The text that a report shows for a cause; causes that speak for themselves have none. -/
def message : Failure → Option String
  | divisionByZero | decimal _ | outOfRange | noValue | wrongKind | indexOutOfRange | noSuchKey
  | conditionViolated | absentRecord | neverSet | notAMatrix | notAGraph | fileMissing | malformedDocument
  | packageMissing _ => none
  | meanFieldDiverged => some ""
  | unknownOptimization name =>
    some ("Unknown optimization: " ++ name ++ ". Should be either 'Time' or 'Space'.")
  | factoryNeeded => some "magic_state_factory cannot be None when T gates are needed"
  | distanceNeeded => some "data_and_bus_code_distance cannot be None"
  | notSet part => some ("log_arch_info." ++ part.field ++ " was not set.")
  | volumeNeedsAllocation => some "qec_cycle_allocation must not be None"
  | volumeNeedsDistance => some "data_and_bus_code_distance must not be None"
  | dataQubitsNotWhole => some "num_logical_data_qubits must be an integer"
  | busQubitsNotWhole => some "num_logical_bus_qubits must be an integer"
  | layoutNotDescribed => some "Subclasses should implement this method."
  | hardwareNotDescribed => some "This method should be overridden by subclasses"
  | distanceNotWhole => some "code_distance must be an integer"
  | notALayout => some "Set bus_architecture_resource_info to LogicalArchitectureResourceInfo"
  | switchNetworkMissing => some "model_switch_network is not implemented yet"
  | noHigherDistance => some "No higher distance found."
  | malformedDecoderTable =>
    some "Data for creating DecoderModel doesn't comply to the required format."
  | qubitCountsDiffer => some "All subroutines must have the same number of qubits"
  | nothingToDistill => some "Circuit must contain T gates and/or Toffoli gates."
  | noAcceptableParameters =>
    some ("Failed to find parameters that yield an acceptable failure probability. " ++
      "You must decrease the number of T gates and/or Toffolis in your circuit")
  | unsupportedCircuit kind => some ("Circuit type " ++ kind ++ " not supported")
  | ruleMisapplied =>
    some ("This shouldn't happen! It means there's a bug in DecomposeStandardRZ function.")
  | asymmetricIntegrals => some "ERI do not have (ij | kl) == (kl | ij) symmetry."
  | unsupportedFile file extension =>
    some ("Hamiltonian extraction failed for " ++ file ++ ". File format " ++ extension ++
      " is not supported.")
  | unrecognisedFile file =>
    some ("Hamiltonian extraction failed for " ++ file ++ ". File format is not recognized. " ++
      "Please use formatting from either Guoming Wang's QAOA implementation or " ++
      "Alex Kunitsa's molecule implementation.")
  | openShellCorrelation => some "RO-MP2 is not available."
  | frozenOrbitalsTwice =>
    some ("Both freeze core and occupied_indices were set!" ++
      "Those options are exclusive. Please select either one.")
  | meanFieldUnsupported =>
    some ("Generating the meanfield object for application instances with active and occupied " ++
      "indices, as well as with the FNO approach   is not currently supported.")
  | workspaceNeeded => some "orq_workspace_id must be set if mlflow_experiment_name is set."
  | callbackTaken =>
    some ("scf_options should not contain a 'callback' key if" ++
      "mlflow_experiment_name is set.")
  | axesWithoutSubplot => some "Axes can only be provided the plot is a subplot"
  | unknownLocalOperation label => some ("lco " ++ label ++ " not supported.")
  | malformedVersion text => some ("Can't parse version string '" ++ text ++ "'")

end Failure

end QuantumResources
