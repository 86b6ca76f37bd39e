import QuantumResources.Budget
import QuantumResources.Estimate
import QuantumResources.Json

/-! What is handed to an experiment tracker.

Numbers are logged as metrics, everything else as parameters, and what is missing as a word. -/

namespace QuantumResources.Tracking

inductive Call where
  | parameter (key : String) (value : Reported)
  | parameters (entries : List (String × Reported))
  | metric (key : String) (value : Reported)

def isNumber : Reported → Bool
  | .scalar (.whole _) | .scalar (.flag _) | .scalar (.real _) | .scalar (.complex _ _)
  | .scalar (.decimal _) => true
  | _ => false

/-- A missing value is logged as a word. -/
def orNone : Reported → Reported
  | .scalar .unset => .scalar (.text "None")
  | value => value

def estimateCalls (estimate : Record Reported) : List Call :=
  estimate.flatten.map fun entry =>
    if isNumber entry.2 then .metric entry.1 entry.2 else .parameter entry.1 (orNone entry.2)

open Reported

def implementationRecord (budget : ErrorBudget Scalar) (shots : Scalar) : Record Reported :=
  .ofFields [("program", .value (.object "QuantumProgram")),
    ("error_budget", .record (.ofFields [
      ("algorithm_failure_tolerance", scalarField budget.algorithm),
      ("transpilation_failure_tolerance", scalarField budget.transpilation),
      ("hardware_failure_tolerance", scalarField budget.hardware)])),
    ("n_shots", scalarField shots)]

/-- Only simple hardware can be written down by its two numbers. -/
def hardwareRecord : Hardware Scalar → Calc (Record Reported)
  | .described .networkedIonTrap _ _ | .undescribed => .error .wrongKind
  | .described _ errorRate cycleTime =>
    .ok (.ofFields [("physical_qubit_error_rate", scalarField errorRate),
      ("surface_code_cycle_time_in_seconds", scalarField cycleTime)])

def tableRecord (table : List (Int × Scalar)) : Record Reported :=
  .ofFields (table.map fun entry => (Digits.ofInt entry.1, scalarField entry.2))

def decoderRecord (decoder : Decoder Scalar) : Record Reported :=
  .ofFields [("power_table", .record (tableRecord decoder.power)),
    ("area_table", .record (tableRecord decoder.area)),
    ("delay_table", .record (tableRecord decoder.delay)),
    ("highest_calculated_distance", intField decoder.highestDistance)]

/-- The inputs of an estimate. -/
def inputCalls (budget : ErrorBudget Scalar) (shots name : Scalar) (hardware : Hardware Scalar)
    (decoder : Option (Decoder Scalar)) : Calc (List Call) := do
  let implementation := (implementationRecord budget shots).flatten.map fun entry =>
    Call.parameter entry.1 (orNone entry.2)
  let machine ← hardwareRecord hardware
  let decoding :=
    match decoder with
    | some made => Call.parameters (decoderRecord made).flatten
    | none => .parameter "decoder_model" (.scalar (.text "None"))
  return implementation ++ [.parameter "algorithm_name" (.scalar name),
    .parameters machine.flatten, decoding]

/-- An item of a list or a character of a text. -/
def item (place : Nat) : Option Json → Calc Json
  | some (.list items) =>
    match items[place]? with
    | some value => .ok value
    | none => .error .indexOutOfRange
  | some (.string text) =>
    match text.toList[place]? with
    | some c => .ok (.string (String.ofList [c]))
    | none => .error .indexOutOfRange
  | some (.object _) => .error .noSuchKey
  | _ => .error .wrongKind

/-- The metrics of one iteration of a self-consistent field calculation. -/
def iterationMetrics (state : Json) : Calc (List (String × Json)) := do
  let get (key : String) : Json := (state.field? key).getD .null
  let first ← item 0 (state.field? "cput0")
  let second ← item 1 (state.field? "cput0")
  return [("last_hf_e", get "last_hf_e"), ("norm_gorb", get "norm_gorb"),
    ("norm_ddm", get "norm_ddm"), ("cond", get "cond"), ("cput0_0", first), ("cput0_1", second)]

end QuantumResources.Tracking
