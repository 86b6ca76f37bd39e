import Mathlib.Data.List.Nodup
import QuantumResources.Graph

/-! Graphs made from rows of neighbours.

The rows ask for one join after another. The nodes of the graph are those that it had, followed by
the ends of the joins in the order in which they are named first; a node has an edge if and only if
it is such an end. If the rows name only nodes that have a row, the nodes with edges stand in the
order of their rows. -/

namespace QuantumResources.Graph

/-! ## Items in the order in which they come -/

section Items

variable {β : Type} [BEq β] [LawfulBEq β]

/-- Adds those items that are new, each once. -/
def addAll (items seen : List β) : List β := items.foldl (fun seen item => addNew item seen) seen

theorem mem_addNew {item other : β} {seen : List β} :
    other ∈ addNew item seen ↔ other ∈ seen ∨ other = item := by
  unfold addNew
  split
  · next present =>
    rw [List.contains_iff_mem] at present
    constructor
    · exact .inl
    · rintro (member | rfl)
      · exact member
      · exact present
  · simp

theorem mem_addAll {other : β} {items seen : List β} :
    other ∈ addAll items seen ↔ other ∈ seen ∨ other ∈ items := by
  unfold addAll
  induction items generalizing seen with
  | nil => simp
  | cons item rest ih => rw [List.foldl_cons, ih, mem_addNew, List.mem_cons, or_assoc]

theorem nodup_addNew {item : β} {seen : List β} (nodup : seen.Nodup) :
    (addNew item seen).Nodup := by
  unfold addNew
  split
  · exact nodup
  · next absent =>
    rw [List.contains_iff_mem] at absent
    exact nodup.append (List.nodup_singleton item)
      (List.disjoint_singleton.mpr absent)

theorem nodup_addAll {items seen : List β} (nodup : seen.Nodup) : (addAll items seen).Nodup := by
  unfold addAll
  induction items generalizing seen with
  | nil => exact nodup
  | cons item rest ih => exact ih (nodup_addNew nodup)

theorem addAll_of_forall_mem {items seen : List β} (known : ∀ item ∈ items, item ∈ seen) :
    addAll items seen = seen := by
  unfold addAll
  induction items with
  | nil => rfl
  | cons item rest ih =>
    have present : seen.contains item = true :=
      List.contains_iff_mem.mpr (known item (by simp))
    rw [List.foldl_cons, addNew, if_pos present]
    exact ih fun other member => known other (List.mem_cons_of_mem _ member)

omit [LawfulBEq β] in
theorem addAll_concat (items : List β) (item : β) (seen : List β) :
    addAll (items ++ [item]) seen = addNew item (addAll items seen) := by
  rw [addAll, List.foldl_append]
  rfl

end Items

/-! ## Joins -/

/-- The joins that rows ask for, in order, if the first of them stands at a place. -/
def joinsFrom (start : Nat) (rows : List (List Int)) : List (Int × Int) :=
  (rows.zipIdx start).flatMap fun (neighbours, place) =>
    neighbours.map fun neighbour => ((place : Int), neighbour)

def joins (rows : List (List Int)) : List (Int × Int) := joinsFrom 0 rows

/-- The nodes that joins name, in order and with repetition. -/
def ends (pairs : List (Int × Int)) : List Int := pairs.flatMap fun pair => [pair.1, pair.2]

def connectPairs (graph : Graph) (pairs : List (Int × Int)) : Graph :=
  pairs.foldl (fun graph pair => graph.connect pair.1 pair.2) graph

theorem connectRows_eq (graph : Graph) (rows : List (List Int)) :
    graph.connectRows rows = graph.connectPairs (joins rows) := by
  unfold connectRows connectPairs joins joinsFrom
  rw [List.foldl_flatMap]
  refine List.foldl_ext _ _ _ fun graph row _ => ?_
  rw [List.foldl_map]
  rfl

theorem joinsFrom_cons (start : Nat) (row : List Int) (rest : List (List Int)) :
    joinsFrom start (row :: rest) =
      (row.map fun neighbour => ((start : Int), neighbour)) ++ joinsFrom (start + 1) rest := by
  rw [joinsFrom, List.zipIdx_cons, List.flatMap_cons]
  rfl

theorem mem_joinsFrom {start : Nat} {rows : List (List Int)} {pair : Int × Int}
    (member : pair ∈ joinsFrom start rows) :
    (start : Int) ≤ pair.1 ∧ pair.1 < start + rows.length := by
  induction rows generalizing start with
  | nil => cases member
  | cons row rest ih =>
    rw [List.length_cons]
    rw [joinsFrom_cons] at member
    rcases List.mem_append.mp member with inRow | later
    · obtain ⟨neighbour, _, rfl⟩ := List.mem_map.mp inRow
      exact ⟨Int.le_refl _, by omega⟩
    · have bounds := ih later
      omega

/-- Rows are gone through in order. -/
theorem pairwise_joinsFrom (start : Nat) (rows : List (List Int)) :
    (joinsFrom start rows).Pairwise fun first second => first.1 ≤ second.1 := by
  induction rows generalizing start with
  | nil => exact .nil
  | cons row rest ih =>
    rw [joinsFrom_cons, List.pairwise_append]
    refine ⟨?_, ih (start + 1), ?_⟩
    · rw [List.pairwise_map]
      exact List.pairwise_of_forall fun _ _ => Int.le_refl _
    · intro first inRow second later
      obtain ⟨neighbour, _, rfl⟩ := List.mem_map.mp inRow
      have bounds := mem_joinsFrom later
      omega

theorem mem_ends {node : Int} {pairs : List (Int × Int)} :
    node ∈ ends pairs ↔ ∃ pair ∈ pairs, node = pair.1 ∨ node = pair.2 := by
  simp [ends]

theorem nodes_connectPairs (graph : Graph) (pairs : List (Int × Int)) :
    (graph.connectPairs pairs).nodes = addAll (ends pairs) graph.nodes := by
  unfold connectPairs ends addAll
  induction pairs generalizing graph with
  | nil => rfl
  | cons pair rest ih =>
    rw [List.foldl_cons, ih, List.flatMap_cons, List.foldl_append]
    rfl

theorem edges_connectPairs (graph : Graph) (pairs : List (Int × Int)) :
    (graph.connectPairs pairs).edges =
      addAll (pairs.map fun pair => edge pair.1 pair.2) graph.edges := by
  unfold connectPairs addAll
  induction pairs generalizing graph with
  | nil => rfl
  | cons pair rest ih =>
    rw [List.foldl_cons, ih, List.map_cons, List.foldl_cons]
    rfl

theorem touches_edge (node u v : Int) : touches node (edge u v) = true ↔ node = u ∨ node = v := by
  unfold touches edge
  rw [Bool.or_eq_true, beq_iff_eq, beq_iff_eq]
  omega

/-- A node has an edge if and only if some join names it. -/
theorem not_isIsolated_iff (graph : Graph) (bare : graph.edges = []) (pairs : List (Int × Int))
    (node : Int) : (graph.connectPairs pairs).isIsolated node = false ↔ node ∈ ends pairs := by
  rw [isIsolated, Bool.not_eq_false', List.any_eq_true, mem_ends, edges_connectPairs, bare]
  constructor
  · rintro ⟨made, member, touched⟩
    rcases mem_addAll.mp member with impossible | listed
    · cases impossible
    · obtain ⟨pair, isPair, rfl⟩ := List.mem_map.mp listed
      exact ⟨pair, isPair, (touches_edge _ _ _).mp touched⟩
  · rintro ⟨pair, isPair, isEnd⟩
    exact ⟨edge pair.1 pair.2, mem_addAll.mpr (.inr (List.mem_map.mpr ⟨pair, isPair, rfl⟩)),
      (touches_edge _ _ _).mpr isEnd⟩

/-! ## Rows in range -/

theorem mem_joins_iff {rows : List (List Int)} {pair : Int × Int} :
    pair ∈ joins rows ↔ ∃ (place : Nat) (row : List Int),
      rows[place]? = some row ∧ pair.1 = place ∧ pair.2 ∈ row := by
  simp only [joins, joinsFrom, List.mem_flatMap, Prod.exists, List.mk_mem_zipIdx_iff_getElem?,
    List.mem_map]
  constructor
  · rintro ⟨row, place, found, neighbour, member, rfl⟩
    exact ⟨place, row, found, rfl, member⟩
  · rintro ⟨place, row, found, first, member⟩
    exact ⟨row, place, found, pair.2, member, Prod.ext first.symm rfl⟩

/-- The rows name only nodes that have a row of their own. -/
def InRange (rows : List (List Int)) : Prop :=
  ∀ row ∈ rows, ∀ neighbour ∈ row, 0 ≤ neighbour ∧ neighbour < rows.length

instance (rows : List (List Int)) : Decidable (InRange rows) :=
  inferInstanceAs (Decidable (∀ row ∈ rows, ∀ neighbour ∈ row, _))

theorem mem_discrete {size : Nat} {node : Int} :
    node ∈ (discrete size).nodes ↔ 0 ≤ node ∧ node < size := by
  rw [discrete, List.mem_map]
  constructor
  · rintro ⟨place, inside, rfl⟩
    have bound := List.mem_range.mp inside
    omega
  · rintro ⟨low, high⟩
    exact ⟨node.toNat, List.mem_range.mpr (by omega), by omega⟩

theorem pairwise_discrete (size : Nat) : (discrete size).nodes.Pairwise (· < ·) := by
  rw [discrete, List.pairwise_map]
  exact List.pairwise_lt_range.imp fun less => by omega

section Rows

variable {rows : List (List Int)} (inRange : InRange rows)

include inRange

theorem mem_discrete_of_mem_ends {node : Int} (member : node ∈ ends (joins rows)) :
    node ∈ (discrete rows.length).nodes := by
  rw [mem_discrete]
  obtain ⟨pair, isJoin, rfl | rfl⟩ := mem_ends.mp member
  · have bounds := mem_joinsFrom isJoin
    omega
  · obtain ⟨place, row, found, _, named⟩ := mem_joins_iff.mp isJoin
    exact inRange row (List.mem_of_getElem? found) pair.2 named

/-- Every node has been there from the start. -/
theorem nodes_ofAdjacency : (ofAdjacency rows).nodes = (discrete rows.length).nodes := by
  rw [ofAdjacency, connectRows_eq, nodes_connectPairs,
    addAll_of_forall_mem fun node member => mem_discrete_of_mem_ends inRange member]

theorem nodes_connected :
    (ofAdjacency rows).connected.nodes =
      (discrete rows.length).nodes.filter (· ∈ ends (joins rows)) := by
  rw [connected, nodes_ofAdjacency inRange]
  refine List.filter_congr fun node _ => ?_
  rw [ofAdjacency, connectRows_eq, Bool.eq_iff_iff, Bool.not_eq_true',
    not_isIsolated_iff (discrete rows.length) rfl, decide_eq_true_iff]

theorem pairwise_connected : (ofAdjacency rows).connected.nodes.Pairwise (· < ·) := by
  rw [nodes_connected inRange]
  exact (pairwise_discrete rows.length).filter _

theorem mem_connected {node : Int} :
    node ∈ (ofAdjacency rows).connected.nodes ↔ node ∈ ends (joins rows) := by
  rw [nodes_connected inRange, List.mem_filter, decide_eq_true_iff]
  exact ⟨And.right, fun member => ⟨mem_discrete_of_mem_ends inRange member, member⟩⟩

end Rows

end QuantumResources.Graph
