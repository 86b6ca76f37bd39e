import QuantumResources.Graph.MeasurementPlot
import QuantumResources.Graph.StatePlot
import QuantumResources.Interchange.Values

/-! Graphs and their pictures as JSON. -/

namespace QuantumResources.Interchange

def getRows (j : Json) : Decoded (List (List Int)) := do (← getList j).mapM getInts

/-- Rows of values that are tested for being something. -/
def getStabilizers (j : Json) : Decoded (List (List Bool)) := do
  (← getList j).mapM fun row => do return (← getList row).map (!·.isNothing)

/-- Each step is a list of nodes with their bases. -/
def getSteps (j : Json) : Decoded (List MeasurementStep) := do
  (← getList j).mapM fun step => do
    (← getList step).mapM fun measured =>
      match measured with
      | .list (node :: _) => getInt node
      | _ => .error "not a measurement"

def graphFields (graph : Graph) : List (String × Json) :=
  [("nodes", ofInts graph.nodes),
    ("edges", ofList (fun e => ofInts [e.1, e.2]) graph.sortedEdges)]

def ofGraph (graph : Graph) : Json := .object (graphFields graph)

def ofMeasurementPlot (plot : MeasurementPlot) : Json :=
  .object [("graph", ofGraph plot.graph),
    ("groups", ofList (fun (n : Nat) => .int n) plot.groups),
    ("node_size", .int MeasurementPlot.nodeSize)]

def ofStatePlot (plot : StatePlot) : Json :=
  let positions := ofList (fun p => ofInts [p.node, p.column, p.row]) plot.positions
  let flow (flow : Flow) : Json :=
    .object [("nodes", ofInts flow.nodes),
      ("edges", ofList (fun e => .list [.int e.1, .int e.2, .string flow.colour])
        flow.sortedEdges),
      ("positions", positions)]
  .object [("graph", ofGraph plot.graph),
    ("nodes", ofList (fun n => .list [.int n.node, .string n.marker, ofOption .string n.colour])
      plot.nodes),
    ("flows", ofList flow plot.flows),
    ("titles", ofList .string StatePlot.titles),
    ("legends", ofList (ofList .string) StatePlot.legends),
    ("lines", ofList (ofList fun p => .list [ofFloat p.1, ofFloat p.2]) plot.segments)]

end QuantumResources.Interchange
