import QuantumResources.Circuit.Native
import QuantumResources.Graph.Compilers
import QuantumResources.Program.Split

/-! Compilation of whole programs, subroutine by subroutine, as tasks that may run elsewhere. -/

namespace QuantumResources.ProgramCompiler

/-- Where the tasks run. -/
structure Place where
  destination : String
  config : Datum
  workspace : Datum
  project : Datum

/-- Starts the tasks; there are three destinations. -/
def Place.start (place : Place) : Dialogue Unit := do
  let run (arguments : List Datum) (named : List (String × Datum)) : Dialogue Unit := do
    let _ ← Dialogue.ask "run" arguments named
  match place.destination with
  | "single-thread" => run [.text "in_process"] []
  | "local" => run [.text "ray"] []
  | "remote" =>
    run [place.config] [("workspace_id", place.workspace), ("project_id", place.project)]
  | _ => .failed .neverSet

/-- How results come back: all together, or the first one by itself. -/
inductive Delivery where
  | together
  | firstAlone
  deriving DecidableEq, Repr

def Delivery.deliver {β : Type} : Delivery → List β → Except Failure (List β)
  | together, results => .ok results
  | firstAlone, result :: _ => .ok [result]
  | firstAlone, [] => .error .indexOutOfRange

/-- Makes a compiled subroutine of a native circuit. -/
abbrev Compiler := Circuit Scalar → Dialogue CompiledSubroutine

/-- One task: the circuit is made native and then compiled. -/
def task (compiler : Compiler) (verbose : Bool) (count place : Nat) (circuit : Circuit Scalar) :
    Dialogue CompiledSubroutine := do
  Dialogue.sayIf verbose ("\nCompiling subroutine " ++ Digits.ofNat (place + 1) ++ " of " ++
    Digits.ofNat count ++ "...\n")
  let native ← Native.circuit verbose circuit
  Dialogue.sayIf verbose "Transferring Data to Julia...\n"
  compiler native

/-- Compiles the parts of a program that is split to a size. -/
def compiledParts (compiler : Compiler) (size : Datum) (verbose : Bool) (program : Program Scalar) :
    Dialogue (List CompiledSubroutine) := do
  let split ← program.split (← size.toWhole)
  split.subroutines.zipIdx.mapM fun (circuit, place) =>
    task compiler verbose program.subroutines.length place circuit

/-- Compiles a program. The results are put together by the order of the program that was given,
which has to have as many subroutines as there are results. -/
def compile (compiler : Compiler) (place : Place) (delivery : Delivery) (size : Datum)
    (verbose : Bool) (program : Program Scalar) : Dialogue CompiledProgram := do
  Dialogue.sayIf verbose "Beginning compilation...\n"
  place.start
  let results ← compiledParts compiler size verbose program
  let delivered ← delivery.deliver results
  Dialogue.sayIf verbose "Compilation complete.\n"
  program.withCompiled delivered

/-- Standard values of the options. -/
def standard : GraphCompiler.Settings :=
  [("max_subroutine_size", .whole 1000000), ("destination", .text "single-thread"),
    ("num_cores", .whole 3), ("config_name", .text "darpa-ta1"),
    ("workspace_id", .text "darpa-phase-ii-gsc-resource-estimates-8a7c3b"),
    ("project_id", .text "migration")]

/-- A compiler that the engine has. It is told the size of the circuit and the target, but not a
number of qubits that it counts itself. -/
def engineCompiler (target : GraphCompiler.Target) : Compiler := fun circuit => do
  let qubits : Datum := if circuit.isCounted then .unset else .whole circuit.qubits
  let reply ← Dialogue.ask "circuit_compiler" [qubits, .whole circuit.operations.length,
    target.architecture, target.optimization, target.verbose]
  GraphCompiler.subroutine reply

/-- Compiles a program with options by name and the parts of a target. -/
def compileWith (options : GraphCompiler.Settings) (arguments : List Datum) (delivery : Delivery)
    (program : Program Scalar) : Dialogue CompiledProgram := do
  let settings ← standard.override options
  let setting (key : String) : Datum := (settings.lookup key).getD .unset
  let target ← GraphCompiler.Target.partly arguments
  let destination :=
    match setting "destination" with
    | .scalar (.text name) => name
    | _ => ""
  let place : Place :=
    ⟨destination, setting "config_name", setting "workspace_id", setting "project_id"⟩
  let verbose := !(← target.verbose.isNothing)
  compile (engineCompiler target) place delivery (setting "max_subroutine_size") verbose program

end QuantumResources.ProgramCompiler
