import QuantumResources.Engine.Dialogue
import QuantumResources.Timing

/-! The preparation of a graph state in steps, as an engine schedules it. -/

namespace QuantumResources.Scheduling

def scheduler : String := "graph_state_generation.substrate_scheduler.TwoRowSubstrateScheduler"

/-- A function of the scheduler's, to be handed to it. -/
def optimizer (name : String) : Datum := .handle ⟨"graph_state_generation.optimizers." ++ name, 0⟩

/-- How the scheduler is set up: fast, or for fewer steps. -/
def settings? (preset : String) : Option (List (String × Datum)) :=
  let greedy := ("stabilizer_scheduler", optimizer "greedy_stabilizer_measurement_scheduler")
  if preset = "fast" then some [greedy]
  else if preset = "optimized" then
    some [("pre_mapping_optimizer",
      optimizer "fast_maximal_independent_set_stabilizer_reduction"), greedy]
  else none

/-- The graph that is scheduled: nodes without neighbours need no preparation. -/
def graph (rows : List (List Int)) : Graph := (Graph.ofAdjacency rows).withoutIsolated.2

/-- The number of steps in which a graph state is measured. -/
def stepCount (rows : List (List Int)) (preset : Option String) (verbose : Bool) (clock : Clock) :
    Dialogue Nat := do
  Dialogue.sayIf verbose "starting substrate scheduler\n"
  match preset.bind settings? with
  | none => .failed .neverSet
  | some settings =>
    let schedule ← Dialogue.ask scheduler [.graph (graph rows)] settings
    let _ ← Dialogue.method schedule "run"
    let seconds ← (Timing.measure clock).1.total
    Dialogue.sayIf verbose ("substrate scheduler took " ++ seconds.display ++ " seconds\n")
    let steps ← Dialogue.property schedule "measurement_steps"
    steps.length

end QuantumResources.Scheduling
