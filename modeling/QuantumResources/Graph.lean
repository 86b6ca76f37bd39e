import QuantumResources.Failure

/-! Undirected graphs whose nodes keep the order in which they came. -/

namespace QuantumResources

/-- Each edge stands once, its lower end first. -/
structure Graph where
  nodes : List Int
  edges : List (Int × Int)
  deriving DecidableEq, Repr

namespace Graph

def empty : Graph := ⟨[], []⟩

/-- The nodes from 0 on, without edges. -/
def discrete (size : Nat) : Graph := ⟨(List.range size).map (fun (n : Nat) => (n : Int)), []⟩

/-- The one spelling of an edge. -/
def edge (u v : Int) : Int × Int := (min u v, max u v)

/-- A new item goes to the end. -/
def addNew {β : Type} [BEq β] (item : β) (items : List β) : List β :=
  if items.contains item then items else items ++ [item]

def addNode (node : Int) (graph : Graph) : Graph :=
  { graph with nodes := addNew node graph.nodes }

/-- Joins two nodes, which come into the graph if they are not in it. -/
def connect (graph : Graph) (u v : Int) : Graph where
  nodes := addNew v (addNew u graph.nodes)
  edges := addNew (edge u v) graph.edges

def connectAll (graph : Graph) (u : Int) (neighbours : List Int) : Graph :=
  neighbours.foldl (connect · u) graph

/-- Joins the node of each place with the neighbours that stand there. -/
def connectRows (graph : Graph) (rows : List (List Int)) : Graph :=
  rows.zipIdx.foldl (fun graph (neighbours, place) => graph.connectAll place neighbours) graph

/-- The graph of an adjacency list: a node for each place, whether or not it has neighbours. -/
def ofAdjacency (rows : List (List Int)) : Graph := (discrete rows.length).connectRows rows

/-- The graph of the edges alone. -/
def ofEdges (rows : List (List Int)) : Graph := empty.connectRows rows

/-- Whether the operator of a row acts on a later qubit. -/
def actsOn (row : List Bool) (place : Nat) : Except Failure Bool :=
  match row[place]? with
  | some acts => .ok acts
  | none => .error .indexOutOfRange

/-- The graph of stabilizer rows: a row is joined with the later qubits on which it acts. -/
def ofStabilizers (rows : List (List Bool)) : Except Failure Graph :=
  rows.zipIdx.foldlM (fun graph (row, place) => do
    let later := (List.range rows.length).drop (place + 1)
    let joined ← later.filterM (actsOn row)
    return graph.connectAll place (joined.map (fun (n : Nat) => (n : Int)))) empty

def touches (node : Int) (edge : Int × Int) : Bool := edge.1 == node || edge.2 == node

def isIsolated (graph : Graph) (node : Int) : Bool := !graph.edges.any (touches node)

/-- The place of a node, which is its number after renumbering. -/
def number (graph : Graph) (node : Int) : Int := graph.nodes.idxOf node

def renumbered (graph : Graph) : Graph where
  nodes := (discrete graph.nodes.length).nodes
  edges := graph.edges.map fun e => edge (graph.number e.1) (graph.number e.2)

/-- The nodes that have an edge, under their old names. -/
def connected (graph : Graph) : Graph :=
  { graph with nodes := graph.nodes.filter (!graph.isIsolated ·) }

/-- How many nodes are isolated, and the graph of the others with new numbers. -/
def withoutIsolated (graph : Graph) : Nat × Graph :=
  ((graph.nodes.filter graph.isIsolated).length, graph.connected.renumbered)

def edgeBefore (a b : Int × Int) : Bool := a.1 < b.1 || (a.1 == b.1 && a.2 ≤ b.2)

def sortedEdges (graph : Graph) : List (Int × Int) := graph.edges.mergeSort edgeBefore

end Graph

end QuantumResources
