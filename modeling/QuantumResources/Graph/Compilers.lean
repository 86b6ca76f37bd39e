import QuantumResources.CompiledProgram
import QuantumResources.Engine.Dialogue

/-! Compilers from circuits to graph states: engines do the work, with these settings. -/

namespace QuantumResources.GraphCompiler

/-- What a compiler reports about a subroutine. -/
def reportKeys : List String :=
  ["num_logical_qubits", "num_layers", "graph_creation_tocks_per_layer", "t_states_per_layer",
    "rotations_per_layer"]

abbrev Report := List (String × Datum)

/-- A report without anything else that the engine may say. -/
def report (reply : Datum) : Except Failure Report :=
  reportKeys.mapM fun key => do return (key, ← reply.field key)

def wholes (datum : Datum) : Except Failure (List Int) := do
  (← datum.elements).mapM (·.toWhole)

/-- The subroutine that a reply describes. -/
def subroutine (reply : Datum) : Except Failure CompiledSubroutine := do
  return {
    logicalQubits := ← (← reply.field "num_logical_qubits").toWhole
    layerCount := ← (← reply.field "num_layers").toWhole
    tocks := ← wholes (← reply.field "graph_creation_tocks_per_layer")
    tStates := ← wholes (← reply.field "t_states_per_layer")
    rotations := ← wholes (← reply.field "rotations_per_layer") }

/-- Options with their standard values. -/
abbrev Settings := List (String × Datum)

/-- Standard values replaced by given ones; there are no other options. -/
def Settings.override (standard given : Settings) : Except Failure Settings :=
  if given.all fun option => standard.any (·.1 == option.1) then
    .ok (standard.map fun (key, value) => (key, (given.lookup key).getD value))
  else .error .wrongKind

/-- What every compilation is told besides its circuit. -/
structure Target where
  architecture : Datum
  optimization : Datum
  verbose : Datum

/-- A target for which all parts are given. -/
def Target.full : List Datum → Except Failure Target
  | [architecture, optimization, verbose] => .ok ⟨architecture, optimization, verbose⟩
  | _ => .error .wrongKind

/-- A target for which later parts may be left out. -/
def Target.partly : List Datum → Except Failure Target
  | [] => .ok ⟨.text "two_row_bus", .text "Space", .flag false⟩
  | [architecture] => .ok ⟨architecture, .text "Space", .flag false⟩
  | [architecture, optimization] => .ok ⟨architecture, optimization, .flag false⟩
  | arguments => full arguments

def Target.settings (target : Target) : Settings :=
  [("verbose", target.verbose), ("logical_architecture_name", target.architecture),
    ("optimization", target.optimization)]

/-- The compiler that grows the graph gate by gate. -/
def growing (settings : Settings) (circuit : Circuit Scalar) (target : Target) :
    Dialogue Report := do
  let reply ← Dialogue.ask "jl.run_ruby_slippers" [.circuit circuit] (target.settings ++ settings)
  let (found, _) ← reply.pair
  report found

def growingStandard : Settings :=
  [("takes_graph_input", .flag true), ("gives_graph_output", .flag true),
    ("max_num_qubits", .whole 1), ("optimal_dag_density", .whole 1),
    ("use_fully_optimized_dag", .flag false), ("teleportation_threshold", .whole 40),
    ("teleportation_distance", .whole 4), ("min_neighbor_degree", .whole 6),
    ("max_num_neighbors_to_search", .whole 100000), ("decomposition_strategy", .whole 0),
    ("max_graph_size", .whole 10000000)]

/-- The compiler that works through stabilizers. -/
def stabilizing (timeout : Datum) (circuit : Circuit Scalar) (target : Target) :
    Dialogue Report := do
  let named :=
    match target.architecture with
    | .scalar (.text name) => name == "Time"
    | _ => false
  Dialogue.sayIf named "deepest\n"
  let reply ← Dialogue.ask "jl.run_jabalizer"
    [.circuit circuit, target.architecture, target.optimization, target.verbose, timeout]
  report reply

def stabilizingStandard : Settings := [("space_optimal_timeout", .whole 60)]

/-- Which compiler is taken. -/
inductive Choice where
  | standard
  | growing
  | stabilizing
  deriving DecidableEq, Repr

/-- Compiles with the options of a choice and the arguments of a target. -/
def compile (choice : Choice) (options : Settings) (circuit : Circuit Scalar)
    (arguments : List Datum) : Dialogue Report := do
  match choice with
  | .standard => growing [] circuit (← Target.full arguments)
  | .growing =>
    let settings ← growingStandard.override options
    growing settings circuit (← Target.full arguments)
  | .stabilizing =>
    let settings ← stabilizingStandard.override options
    stabilizing ((settings.lookup "space_optimal_timeout").getD .unset) circuit
      (← Target.partly arguments)

def rowsOf : Datum → Except Failure (List (List Bool))
  | .stabilizers rows => .ok rows
  | _ => .error .wrongKind

/-- The graph state of a circuit with its measurements: the graph, then three parts that the
engine gives. -/
def graphState (circuit : Circuit Scalar) : Dialogue (List Datum) := do
  let reply ← Dialogue.ask "jl.run_jabalizer" [.circuit circuit]
  match ← reply.unpack 4 with
  | stabilizers :: rest => return .graph (← Graph.ofStabilizers (← rowsOf stabilizers)) :: rest
  | [] => .failed .noValue

end QuantumResources.GraphCompiler
