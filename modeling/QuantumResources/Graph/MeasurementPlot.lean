import QuantumResources.Graph

/-! The picture of a graph whose nodes are coloured by the step that measures them. -/

namespace QuantumResources

/-- A step measures nodes, each in a basis. -/
abbrev MeasurementStep := List Int

structure MeasurementPlot where
  graph : Graph
  /-- The step that gives each node its colour. -/
  groups : List Nat
  deriving DecidableEq, Repr

namespace MeasurementPlot

def nodeSize : Int := 10

/-- The first step that measures a node. -/
def step? (steps : List MeasurementStep) (node : Int) : Option Nat :=
  steps.findIdx? (·.contains node)

/-- Colours are given in the order of the nodes: one for each, a single one for all, or none. -/
def spread (count : Nat) (colours : List Nat) : Except Failure (List Nat) :=
  match colours with
  | [] => .ok []
  | [colour] => .ok (List.replicate count colour)
  | _ => if colours.length = count then .ok colours else .error .noValue

/-- The nodes are the ends of edges in the order in which the rows name them. -/
def drawn (rows : List (List Int)) : Graph := (Graph.ofEdges rows).withoutIsolated.2

def make (rows : List (List Int)) (steps : List MeasurementStep) :
    Except Failure MeasurementPlot := do
  let graph := drawn rows
  return ⟨graph, ← spread graph.nodes.length (graph.nodes.filterMap (step? steps))⟩

end MeasurementPlot

end QuantumResources
