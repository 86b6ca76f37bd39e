import QuantumResources.Graph
import QuantumResources.Number.Arithmetic
import QuantumResources.Pauli

/-! The picture of a graph state beside the flow of its Pauli corrections. -/

namespace QuantumResources

namespace Symplectic

/-- The order of the codes of local operations, which start with 1. -/
def byCode : List Symplectic := [i, s, h, hsh, hs, sh]

def colour : Symplectic → String
  | i => "grey"
  | s => "lime"
  | h => "red"
  | hsh => "magenta"
  | hs => "cyan"
  | sh => "orange"

def ofCode (code : Scalar) : Except Failure Symplectic :=
  match byCode.zipIdx.find? fun entry => Scalar.eq code (.whole (entry.2 + 1)) with
  | some entry => .ok entry.1
  | none => .error (.unknownLocalOperation code.display)

end Symplectic

/-- What a node of a graph state is for. -/
inductive NodeRole where
  | input | output | intermediate
  deriving DecidableEq, Repr

namespace NodeRole

def marker : NodeRole → String
  | input => "s"
  | output => "d"
  | intermediate => "o"

def ofNode (inputs outputs : List Int) (node : Int) : NodeRole :=
  if inputs.contains node then input
  else if outputs.contains node then output
  else intermediate

end NodeRole

/-- Arrows between the nodes of a picture. -/
structure Flow where
  nodes : List Int
  edges : List (Int × Int)
  colour : String
  deriving DecidableEq, Repr

namespace Flow

def arrow (flow : Flow) (source target : Int) : Flow :=
  { flow with
    nodes := Graph.addNew target (Graph.addNew source flow.nodes)
    edges := Graph.addNew (source, target) flow.edges }

/-- Adds a node and the arrows that end in it. -/
def receive (flow : Flow) (node : Int) (sources : List Int) : Flow :=
  sources.foldl (arrow · · node) { flow with nodes := Graph.addNew node flow.nodes }

def sortedEdges (flow : Flow) : List (Int × Int) := flow.edges.mergeSort Graph.edgeBefore

end Flow

/-- A node with its place in a picture. -/
structure Position where
  node : Int
  column : Int
  row : Int
  deriving DecidableEq, Repr

/-- A node as it is drawn. -/
structure DrawnNode where
  node : Int
  marker : String
  colour : Option String
  deriving DecidableEq, Repr

structure StatePlot where
  graph : Graph
  nodes : List DrawnNode
  flows : List Flow
  positions : List Position
  /-- Heights of the lines between layers. -/
  lines : List Float
  width : Nat

namespace StatePlot

def titles : List String := ["Graph State", "Pauli Flow"]

def legends : List (List String) :=
  [Symplectic.byCode.map (·.label) ++ ["Input", "Intermediate", "Output"], ["X", "Z"]]

/-- A neighbour counts from the end if it is negative. -/
def neighbour (size : Nat) (place : Int) : Except Failure Int :=
  if 0 ≤ place ∧ place < size then .ok place
  else if place < 0 ∧ -place ≤ size then .ok (place + size)
  else .error .indexOutOfRange

def stateGraph (rows : List (List Int)) : Except Failure Graph := do
  let rows' ← rows.mapM (·.mapM (neighbour rows.length))
  if rows'.isEmpty then throw .notAGraph
  return Graph.ofAdjacency rows'

/-- The nodes of one role are drawn together: with a colour each, or one or none for all. -/
def drawnTogether (colours : List String) (role : NodeRole) (nodes : List Int) :
    Except Failure (List DrawnNode) :=
  let found := nodes.filterMap fun node => colours[node.toNat]?
  match found with
  | [] => .ok (nodes.map fun node => ⟨node, role.marker, none⟩)
  | [colour] => .ok (nodes.map fun node => ⟨node, role.marker, some colour⟩)
  | _ =>
    if found.length = nodes.length then
      .ok (nodes.zipWith (fun node colour => ⟨node, role.marker, some colour⟩) found)
    else .error .noValue

def drawnNodes (graph : Graph) (colours : List String) (inputs outputs : List Int) :
    Except Failure (List DrawnNode) := do
  let groups ← [NodeRole.input, .output, .intermediate].mapM fun role =>
    drawnTogether colours role (graph.nodes.filter (NodeRole.ofNode inputs outputs · == role))
  return groups.flatten.mergeSort (·.node ≤ ·.node)

/-- The sources of the corrections of one kind. -/
def sources (corrections : List (List Int)) (kind : Nat) : Except Failure (List Int) :=
  match corrections[kind]? with
  | some found => .ok found
  | none => .error .indexOutOfRange

/-- The flows of X and of Z corrections. -/
def flowsOf (corrections : List (List (List Int))) : Except Failure (List Flow) := do
  let (x, z) ← corrections.zipIdx.foldlM (fun (flows : Flow × Flow) (received, place) => do
    return (flows.1.receive place (← sources received 0),
      flows.2.receive place (← sources received 1)))
    ((⟨[], [], "red"⟩, ⟨[], [], "blue"⟩) : Flow × Flow)
  return [x, z]

/-- The place of a node is where the layering names it last. -/
def positionsOf (layering : List (List Int)) : List Position :=
  let all : List Position := layering.zipIdx.flatMap fun (layer, i) =>
    layer.zipIdx.map fun (node, j) => ⟨node, j, -(i : Int)⟩
  let last := all.foldl (fun kept p => kept.filter (·.node ≠ p.node) ++ [p]) []
  last.mergeSort (·.node ≤ ·.node)

def requirePlaced (positions : List Position) (flow : Flow) : Except Failure Unit :=
  if flow.nodes.all fun node => positions.any (·.node == node) then .ok ()
  else .error .notAGraph

def make (rows : List (List Int)) (codes : List Scalar) (inputs outputs : List Int)
    (corrections : List (List (List Int))) (layering : List (List Int)) :
    Except Failure StatePlot := do
  let graph ← stateGraph rows
  let operations ← codes.mapM Symplectic.ofCode
  let nodes ← drawnNodes graph (operations.map (·.colour)) inputs outputs
  let flows ← flowsOf corrections
  let positions := positionsOf layering
  flows.forM (requirePlaced positions)
  let some width := (layering.map (·.length)).max? | throw .noValue
  let lines := (List.range (layering.length - 1)).map fun layer => 0.5 - (layer + 1).toFloat
  return { graph, nodes, flows, positions, lines, width }

/-- Both ends of each line. -/
def segments (plot : StatePlot) : List (List (Float × Float)) :=
  plot.lines.map fun height => [(-0.5, height), (plot.width.toFloat - 0.5, height)]

end StatePlot

end QuantumResources
