import Mathlib.Data.Fintype.Card
import Mathlib.Data.List.NodupEquivFin
import QuantumResources.Proofs.Graph

/-! Graphs without their isolated nodes.

The nodes that are kept get the numbers of their places among each other. In a graph whose edges
join nodes of its own this keeps all edges and leaves no isolated node, so there is nothing to
remove a second time. The nodes of an adjacency list stand in order, hence the new numbers keep the
order of the old ones. -/

namespace QuantumResources.Graph

/-- Two nodes are joined by an edge. -/
def Adjacent (graph : Graph) (u v : Int) : Prop := edge u v ∈ graph.edges

/-- Nodes and edges stand once, and every edge joins two nodes, the lower one first. -/
structure WellFormed (graph : Graph) : Prop where
  nodup_nodes : graph.nodes.Nodup
  nodup_edges : graph.edges.Nodup
  ends_le : ∀ e ∈ graph.edges, e.1 ≤ e.2
  ends_mem : ∀ e ∈ graph.edges, e.1 ∈ graph.nodes ∧ e.2 ∈ graph.nodes

/-! ## Edges -/

theorem edge_eq_iff (u v x y : Int) : edge u v = edge x y ↔ u = x ∧ v = y ∨ u = y ∧ v = x := by
  rw [edge, edge, Prod.mk.injEq]
  omega

theorem edge_cases (u v : Int) : edge u v = (u, v) ∨ edge u v = (v, u) := by
  rcases le_total u v with ordered | ordered
  · exact .inl (Prod.ext (min_eq_left ordered) (max_eq_right ordered))
  · exact .inr (Prod.ext (min_eq_right ordered) (max_eq_left ordered))

theorem edge_of_le {e : Int × Int} (ordered : e.1 ≤ e.2) : edge e.1 e.2 = e :=
  Prod.ext (min_eq_left ordered) (max_eq_right ordered)

theorem isIsolated_eq_false_iff {graph : Graph} {node : Int} :
    graph.isIsolated node = false ↔ ∃ e ∈ graph.edges, node = e.1 ∨ node = e.2 := by
  rw [isIsolated, Bool.not_eq_false', List.any_eq_true]
  simp only [touches, Bool.or_eq_true, beq_iff_eq, @eq_comm _ node]

theorem wellFormed_discrete (size : Nat) : (discrete size).WellFormed where
  nodup_nodes := (pairwise_discrete size).nodup
  nodup_edges := List.nodup_nil
  ends_le _ impossible := by cases impossible
  ends_mem _ impossible := by cases impossible

theorem WellFormed.connect {graph : Graph} (wellFormed : graph.WellFormed) (u v : Int) :
    (graph.connect u v).WellFormed where
  nodup_nodes := nodup_addNew (nodup_addNew wellFormed.nodup_nodes)
  nodup_edges := nodup_addNew wellFormed.nodup_edges
  ends_le := by
    intro e member
    rcases mem_addNew.mp member with before | rfl
    · exact wellFormed.ends_le e before
    · exact min_le_max
  ends_mem := by
    intro e member
    simp only [Graph.connect, mem_addNew]
    rcases mem_addNew.mp member with before | rfl
    · obtain ⟨first, second⟩ := wellFormed.ends_mem e before
      exact ⟨.inl (.inl first), .inl (.inl second)⟩
    · simp only [edge]
      omega

theorem WellFormed.connectPairs {graph : Graph} (wellFormed : graph.WellFormed)
    (pairs : List (Int × Int)) : (graph.connectPairs pairs).WellFormed := by
  induction pairs generalizing graph with
  | nil => exact wellFormed
  | cons pair rest ih => exact ih (wellFormed.connect pair.1 pair.2)

theorem wellFormed_ofAdjacency (rows : List (List Int)) : (ofAdjacency rows).WellFormed := by
  rw [ofAdjacency, connectRows_eq]
  exact (wellFormed_discrete rows.length).connectPairs _

/-! ## Nodes that are kept -/

theorem WellFormed.connected {graph : Graph} (wellFormed : graph.WellFormed) :
    graph.connected.WellFormed where
  nodup_nodes := wellFormed.nodup_nodes.filter _
  nodup_edges := wellFormed.nodup_edges
  ends_le := wellFormed.ends_le
  ends_mem := by
    intro e member
    obtain ⟨first, second⟩ := wellFormed.ends_mem e member
    have kept : ∀ node, node = e.1 ∨ node = e.2 → (!graph.isIsolated node) = true := by
      intro node isEnd
      have linked : graph.isIsolated node = false :=
        isIsolated_eq_false_iff.mpr ⟨e, member, isEnd⟩
      rw [linked]
      rfl
    exact ⟨List.mem_filter.mpr ⟨first, kept _ (.inl rfl)⟩,
      List.mem_filter.mpr ⟨second, kept _ (.inr rfl)⟩⟩

theorem connected_eq_self {graph : Graph}
    (linked : ∀ node ∈ graph.nodes, graph.isIsolated node = false) : graph.connected = graph := by
  have all : graph.nodes.filter (!graph.isIsolated ·) = graph.nodes := by
    rw [List.filter_eq_self]
    intro node member
    rw [linked node member]
    rfl
  rw [Graph.connected, all]

theorem length_connected_add (graph : Graph) :
    graph.connected.nodes.length + graph.withoutIsolated.1 = graph.nodes.length := by
  rw [List.length_eq_length_filter_add (l := graph.nodes) graph.isIsolated]
  exact Nat.add_comm _ _

/-! ## New numbers -/

section Numbers

variable {graph : Graph} {u v : Int}

theorem number_inj (member : u ∈ graph.nodes) : graph.number u = graph.number v ↔ u = v := by
  rw [number, number, Int.natCast_inj, List.idxOf_inj member]

theorem edge_number_inj {x y : Int} (first : u ∈ graph.nodes) (second : v ∈ graph.nodes) :
    edge (graph.number u) (graph.number v) = edge (graph.number x) (graph.number y) ↔
      edge u v = edge x y := by
  simp only [edge_eq_iff, number_inj first, number_inj second]

theorem number_mem (member : u ∈ graph.nodes) : graph.number u ∈ graph.renumbered.nodes := by
  rw [renumbered, mem_discrete, number]
  have inside := List.idxOf_lt_length_of_mem member
  omega

theorem isIsolated_number (linked : graph.isIsolated u = false) :
    graph.renumbered.isIsolated (graph.number u) = false := by
  obtain ⟨e, member, isEnd⟩ := isIsolated_eq_false_iff.mp linked
  refine isIsolated_eq_false_iff.mpr ⟨_, List.mem_map.mpr ⟨e, member, rfl⟩, ?_⟩
  rcases edge_cases (graph.number e.1) (graph.number e.2) with kept | swapped
  · rw [kept]
    exact isEnd.imp (congrArg graph.number) (congrArg graph.number)
  · rw [swapped]
    exact (isEnd.imp (congrArg graph.number) (congrArg graph.number)).symm

variable (wellFormed : graph.WellFormed)

include wellFormed

theorem WellFormed.exists_number {node : Int} (member : node ∈ graph.renumbered.nodes) :
    ∃ u ∈ graph.nodes, graph.number u = node := by
  obtain ⟨low, high⟩ := mem_discrete.mp member
  have inside : node.toNat < graph.nodes.length := by omega
  refine ⟨graph.nodes[node.toNat], List.getElem_mem inside, ?_⟩
  rw [number, wellFormed.nodup_nodes.idxOf_getElem]
  omega

/-- New numbers keep the edges. -/
theorem WellFormed.adjacent_number :
    graph.renumbered.Adjacent (graph.number u) (graph.number v) ↔ graph.Adjacent u v := by
  rw [Adjacent, Adjacent, renumbered, List.mem_map]
  constructor
  · rintro ⟨e, member, same⟩
    obtain ⟨low, high⟩ := wellFormed.ends_mem e member
    rw [edge_number_inj low high, edge_of_le (wellFormed.ends_le e member)] at same
    exact same ▸ member
  · intro member
    obtain ⟨low, high⟩ := wellFormed.ends_mem _ member
    exact ⟨_, member, (edge_number_inj low high).mpr (edge_of_le (wellFormed.ends_le _ member))⟩

theorem WellFormed.renumbered : graph.renumbered.WellFormed where
  nodup_nodes := (pairwise_discrete _).nodup
  nodup_edges := by
    refine wellFormed.nodup_edges.map_on fun e member other alsoMember same => ?_
    obtain ⟨low, high⟩ := wellFormed.ends_mem e member
    rwa [edge_number_inj low high, edge_of_le (wellFormed.ends_le e member),
      edge_of_le (wellFormed.ends_le other alsoMember)] at same
  ends_le := by
    intro e member
    obtain ⟨old, _, rfl⟩ := List.mem_map.mp member
    exact min_le_max
  ends_mem := by
    intro e member
    obtain ⟨old, isOld, rfl⟩ := List.mem_map.mp member
    obtain ⟨low, high⟩ := wellFormed.ends_mem old isOld
    rcases edge_cases (graph.number old.1) (graph.number old.2) with kept | swapped
    · rw [kept]
      exact ⟨number_mem low, number_mem high⟩
    · rw [swapped]
      exact ⟨number_mem high, number_mem low⟩

/-- Nodes that are their own numbers keep them. -/
theorem WellFormed.renumbered_eq_self {size : Nat}
    (isDiscrete : graph.nodes = (discrete size).nodes) : graph.renumbered = graph := by
  have length : graph.nodes.length = size := by
    rw [isDiscrete, discrete, List.length_map, List.length_range]
  have own : ∀ node ∈ graph.nodes, graph.number node = node := by
    intro node member
    obtain ⟨low, high⟩ := mem_discrete.mp (isDiscrete ▸ member)
    have inside : node.toNat < graph.nodes.length := by omega
    have found : graph.nodes[node.toNat] = node := by
      simp only [isDiscrete, discrete, List.getElem_map, List.getElem_range]
      omega
    have place := wellFormed.nodup_nodes.idxOf_getElem node.toNat inside
    rw [found] at place
    rw [number, place]
    omega
  have edges : graph.edges.map (fun e => edge (graph.number e.1) (graph.number e.2)) =
      graph.edges := by
    refine (List.map_congr_left fun e member => ?_).trans (List.map_id _)
    obtain ⟨low, high⟩ := wellFormed.ends_mem e member
    rw [own _ low, own _ high, edge_of_le (wellFormed.ends_le e member)]
    rfl
  rw [Graph.renumbered, edges, length, ← isDiscrete]

end Numbers

/-! ## Removing isolated nodes -/

section Removing

variable {graph : Graph} (wellFormed : graph.WellFormed)

include wellFormed

theorem WellFormed.withoutIsolated : graph.withoutIsolated.2.WellFormed :=
  wellFormed.connected.renumbered

theorem WellFormed.none_isolated (node : Int) (member : node ∈ graph.withoutIsolated.2.nodes) :
    graph.withoutIsolated.2.isIsolated node = false := by
  obtain ⟨u, kept, rfl⟩ := wellFormed.connected.exists_number member
  have linked := (List.mem_filter.mp kept).2
  rw [Bool.not_eq_true'] at linked
  exact isIsolated_number linked

/-- There is nothing to remove a second time. -/
theorem WellFormed.withoutIsolated_twice :
    graph.withoutIsolated.2.withoutIsolated = (0, graph.withoutIsolated.2) := by
  have linked := wellFormed.none_isolated
  have none : graph.withoutIsolated.2.nodes.filter graph.withoutIsolated.2.isIsolated = [] := by
    rw [List.filter_eq_nil_iff]
    intro node member
    rw [linked node member]
    exact Bool.false_ne_true
  rw [Graph.withoutIsolated, none, connected_eq_self linked,
    wellFormed.withoutIsolated.renumbered_eq_self rfl]
  rfl

end Removing

/-! ## Adjacency lists -/

/-- The row of one of two nodes names the other. -/
def Linked (rows : List (List Int)) (u v : Fin rows.length) : Prop :=
  ((v : Nat) : Int) ∈ rows[u] ∨ ((u : Nat) : Int) ∈ rows[v]

instance (rows : List (List Int)) (u v : Fin rows.length) : Decidable (Linked rows u v) :=
  inferInstanceAs (Decidable (_ ∨ _))

section Lists

variable {rows : List (List Int)}

theorem mem_row_iff (u v : Fin rows.length) :
    ((v : Nat) : Int) ∈ rows[u] ↔ (((u : Nat) : Int), ((v : Nat) : Int)) ∈ joins rows := by
  rw [mem_joins_iff]
  constructor
  · intro named
    exact ⟨u, rows[u], List.getElem?_eq_getElem u.isLt, rfl, named⟩
  · rintro ⟨place, row, found, same, named⟩
    obtain rfl : (u : Nat) = place := Int.natCast_inj.mp same
    rw [List.getElem?_eq_getElem u.isLt, Option.some.injEq] at found
    exact found ▸ named

theorem linked_iff (u v : Fin rows.length) :
    Linked rows u v ↔ (((u : Nat) : Int), ((v : Nat) : Int)) ∈ joins rows ∨
      (((v : Nat) : Int), ((u : Nat) : Int)) ∈ joins rows :=
  or_congr (mem_row_iff u v) (mem_row_iff v u)

/-- Two nodes are joined if one of them names the other. -/
theorem adjacent_ofAdjacency_iff (u v : Fin rows.length) :
    (ofAdjacency rows).Adjacent (u : Nat) (v : Nat) ↔ Linked rows u v := by
  rw [Adjacent, ofAdjacency, connectRows_eq, edges_connectPairs, mem_addAll, linked_iff,
    List.mem_map]
  constructor
  · rintro (impossible | ⟨⟨first, second⟩, isJoin, same⟩)
    · cases impossible
    · rcases (edge_eq_iff _ _ _ _).mp same with ⟨rfl, rfl⟩ | ⟨rfl, rfl⟩
      · exact .inl isJoin
      · exact .inr isJoin
  · rintro (isJoin | isJoin)
    · exact .inr ⟨_, isJoin, rfl⟩
    · exact .inr ⟨_, isJoin, (edge_eq_iff _ _ _ _).mpr (.inr ⟨rfl, rfl⟩)⟩

variable (inRange : InRange rows)

include inRange

theorem mem_connected_iff (u : Fin rows.length) :
    ((u : Nat) : Int) ∈ (ofAdjacency rows).connected.nodes ↔ ∃ v, Linked rows u v := by
  rw [mem_connected inRange, mem_ends]
  constructor
  · rintro ⟨⟨first, second⟩, isJoin, isEnd⟩
    have place : ∀ node, node = first ∨ node = second →
        ∃ v : Fin rows.length, node = (v : Nat) := by
      intro node named
      obtain ⟨low, high⟩ :=
        mem_discrete.mp (mem_discrete_of_mem_ends inRange (mem_ends.mpr ⟨_, isJoin, named⟩))
      exact ⟨⟨node.toNat, by omega⟩, by simp only; omega⟩
    rcases isEnd with rfl | rfl
    · obtain ⟨v, rfl⟩ := place second (.inr rfl)
      exact ⟨v, (linked_iff u v).mpr (.inl isJoin)⟩
    · obtain ⟨v, rfl⟩ := place first (.inl rfl)
      exact ⟨v, (linked_iff u v).mpr (.inr isJoin)⟩
  · rintro ⟨v, linked⟩
    rcases (linked_iff u v).mp linked with isJoin | isJoin
    · exact ⟨_, isJoin, .inl rfl⟩
    · exact ⟨_, isJoin, .inr rfl⟩

/-- The nodes that are linked are those that are kept. -/
def linkedIso : {u // ∃ v, Linked rows u v} ≃o
    {node // node ∈ (ofAdjacency rows).connected.nodes} where
  toFun u := ⟨(u.1 : Nat), (mem_connected_iff inRange u.1).mpr u.2⟩
  invFun node :=
    have bounds := mem_discrete.mp (mem_discrete_of_mem_ends inRange
      ((mem_connected inRange).mp node.2))
    have place : ((node.1.toNat : Nat) : Int) = node.1 := Int.toNat_of_nonneg bounds.1
    ⟨⟨node.1.toNat, by omega⟩, (mem_connected_iff inRange _).mp (place.symm ▸ node.2)⟩
  left_inv u := Subtype.ext (Fin.ext (Int.toNat_natCast _))
  right_inv node := by
    have bounds := mem_discrete.mp (mem_discrete_of_mem_ends inRange
      ((mem_connected inRange).mp node.2))
    exact Subtype.ext (Int.toNat_of_nonneg bounds.1)
  map_rel_iff' := Int.ofNat_le

theorem length_connected :
    (ofAdjacency rows).connected.nodes.length + (ofAdjacency rows).withoutIsolated.1 =
      rows.length := by
  rw [length_connected_add, nodes_ofAdjacency inRange, discrete, List.length_map, List.length_range]

/-- The new numbers keep the order of the nodes. -/
theorem exists_numbering : ∃ numbering : {u // ∃ v, Linked rows u v} ≃o
      Fin (rows.length - (ofAdjacency rows).withoutIsolated.1),
    ∀ u, ((numbering u : Nat) : Int) = (ofAdjacency rows).connected.number (u.1 : Nat) :=
  ⟨(linkedIso inRange).trans
    (((pairwise_connected inRange).sortedLT.getIso _).symm.trans
      (Fin.castOrderIso (Nat.eq_sub_of_add_eq (length_connected inRange)))), fun _ => rfl⟩

theorem card_unlinked : Fintype.card {u // ∀ v, ¬ Linked rows u v} =
    (ofAdjacency rows).withoutIsolated.1 := by
  obtain ⟨numbering, _⟩ := exists_numbering inRange
  have kept := Fintype.card_congr numbering.toEquiv
  have removed := Fintype.card_subtype_compl fun u => ∃ v, Linked rows u v
  have parts := length_connected inRange
  simp only [not_exists] at removed
  rw [removed, kept, Fintype.card_fin, Fintype.card_fin]
  omega

end Lists

/-- From the graph of an adjacency list exactly the nodes are removed that neither name a neighbour
nor are named by one. The others get the lowest numbers in the order in which they stand, two of
them are joined as before, none of them is isolated, and nothing changes when isolated nodes are
removed once more. -/
theorem withoutIsolated_isomorphic {rows : List (List Int)} (inRange : InRange rows) :
    ∃ (count : Nat) (rest : Graph)
      (numbering : {u // ∃ v, Linked rows u v} ≃o Fin (rows.length - count)),
      (ofAdjacency rows).withoutIsolated = (count, rest) ∧
      count = Fintype.card {u // ∀ v, ¬ Linked rows u v} ∧
      rest.WellFormed ∧
      rest.nodes = (List.range (rows.length - count)).map Nat.cast ∧
      (∀ u v : Fin rows.length, (ofAdjacency rows).Adjacent (u : Nat) (v : Nat) ↔ Linked rows u v) ∧
      (∀ u v, (ofAdjacency rows).Adjacent (u.1 : Nat) (v.1 : Nat) ↔
        rest.Adjacent (numbering u : Nat) (numbering v : Nat)) ∧
      (∀ node ∈ rest.nodes, rest.isIsolated node = false) ∧
      rest.withoutIsolated = (0, rest) := by
  have wellFormed := wellFormed_ofAdjacency rows
  obtain ⟨numbering, isNumber⟩ := exists_numbering inRange
  refine ⟨_, _, numbering, rfl, (card_unlinked inRange).symm, wellFormed.withoutIsolated,
    ?_, adjacent_ofAdjacency_iff, ?_, wellFormed.none_isolated, wellFormed.withoutIsolated_twice⟩
  · rw [← Nat.eq_sub_of_add_eq (length_connected inRange)]
    rfl
  · intro u v
    rw [isNumber, isNumber]
    exact wellFormed.connected.adjacent_number.symm

/-- Nodes 0 and 2 have no neighbours, node 4 names itself and node 1 twice, and node 3 is only
named. -/
theorem withoutIsolated_isomorphic_gaps :
    InRange [[], [3], [], [], [4, 1, 1]] ∧
      (ofAdjacency [[], [3], [], [], [4, 1, 1]]).withoutIsolated =
        (2, ⟨[0, 1, 2], [(0, 1), (2, 2), (0, 2)]⟩) ∧
      Fintype.card {u // ∀ v, ¬ Linked [[], [3], [], [], [4, 1, 1]] u v} = 2 ∧
      (⟨[0, 1, 2], [(0, 1), (2, 2), (0, 2)]⟩ : Graph).withoutIsolated =
        (0, ⟨[0, 1, 2], [(0, 1), (2, 2), (0, 2)]⟩) := by
  have inRange : InRange [[], [3], [], [], [4, 1, 1]] := by decide
  have removed : (ofAdjacency [[], [3], [], [], [4, 1, 1]]).withoutIsolated =
      (2, ⟨[0, 1, 2], [(0, 1), (2, 2), (0, 2)]⟩) := by decide
  obtain ⟨count, rest, _, isRest, isCount, -, -, -, -, -, again⟩ :=
    withoutIsolated_isomorphic inRange
  obtain ⟨rfl, rfl⟩ := Prod.mk.inj (removed.symm.trans isRest)
  exact ⟨inRange, removed, isCount.symm, again⟩

end QuantumResources.Graph
