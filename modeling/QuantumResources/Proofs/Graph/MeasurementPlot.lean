import Mathlib.Algebra.Ring.Parity
import Mathlib.Data.List.Induction
import Mathlib.Data.List.Sort
import QuantumResources.Graph.MeasurementPlot
import QuantumResources.Graph.Scheduling
import QuantumResources.Proofs.Graph

/-! Colours of the picture of a schedule.

The scheduler numbers the nodes that have neighbours by their places, the picture by the order in
which the joins name them. A step means nodes by the scheduler's numbers and colours nodes by those
of the picture, so the colours are right for every schedule if and only if the two numberings agree.
-/

namespace QuantumResources

namespace Graph

/-! ## First mention -/

theorem getElem?_concat_iff {β : Type} {items : List β} {last item : β} {place : Nat} :
    (items ++ [last])[place]? = some item ↔
      place < items.length ∧ items[place]? = some item ∨ place = items.length ∧ item = last := by
  rw [List.getElem?_append]
  split
  · next inside =>
    constructor
    · exact fun found => .inl ⟨inside, found⟩
    · rintro (⟨_, found⟩ | ⟨outside, _⟩)
      · exact found
      · omega
  · next outside =>
    rw [List.getElem?_singleton]
    constructor
    · intro found
      split at found
      · next first => exact .inr ⟨by omega, (Option.some.inj found).symm⟩
      · cases found
    · rintro (⟨inside, _⟩ | ⟨rfl, rfl⟩)
      · exact absurd inside outside
      · rw [if_pos (by omega)]

/-- Every item that is lower than another one stands before it. -/
def LowerFirst (items : List Int) : Prop :=
  ∀ place item, items[place]? = some item → ∀ lower ∈ items, lower < item →
    lower ∈ items.take place

theorem lowerFirst_concat (items : List Int) (last : Int) :
    LowerFirst (items ++ [last]) ↔
      LowerFirst items ∧ (last ∈ items ∨ ∀ item ∈ items, item < last) := by
  have shorter : ∀ place, place ≤ items.length →
      (items ++ [last]).take place = items.take place :=
    fun place inside => List.take_append_of_le_length inside
  constructor
  · intro ordered
    have within : ∀ place item, items[place]? = some item →
        ∀ lower ∈ items ++ [last], lower < item → lower ∈ items.take place := by
      intro place item found lower member less
      have inside := (List.getElem?_eq_some_iff.mp found).1
      rw [← shorter place inside.le]
      exact ordered place item (getElem?_concat_iff.mpr (.inl ⟨inside, found⟩)) lower member less
    refine ⟨fun place item found lower member less => within place item found lower
      (List.mem_append_left _ member) less, ?_⟩
    by_contra neither
    push Not at neither
    obtain ⟨new, item, listed, notBelow⟩ := neither
    obtain ⟨place, found⟩ := List.mem_iff_getElem?.mp listed
    have different : last ≠ item := fun same => new (same ▸ listed)
    exact new (List.mem_of_mem_take
      (within place item found last (by simp) (lt_of_le_of_ne notBelow different)))
  · rintro ⟨ordered, knownOrHighest⟩ place item found lower member less
    rcases getElem?_concat_iff.mp found with ⟨inside, earlier⟩ | ⟨rfl, rfl⟩
    · rw [shorter place inside.le]
      rcases List.mem_append.mp member with before | same
      · exact ordered place item earlier lower before less
      · obtain rfl := List.mem_singleton.mp same
        rcases knownOrHighest with known | highest
        · exact ordered place item earlier lower known less
        · exact absurd less (highest item (List.mem_of_getElem? earlier)).asymm
    · rw [shorter _ (Nat.le_refl _), List.take_length]
      rcases List.mem_append.mp member with before | same
      · exact before
      · exact absurd (List.mem_singleton.mp same) less.ne

theorem pairwise_addAll_iff (items : List Int) :
    (addAll items []).Pairwise (· < ·) ↔ LowerFirst items := by
  induction items using List.reverseRecOn with
  | nil => simp [addAll, LowerFirst]
  | append_singleton items last ih =>
    have listed : ∀ item, item ∈ addAll items [] ↔ item ∈ items := by simp [mem_addAll]
    rw [addAll_concat, addNew, lowerFirst_concat]
    by_cases known : last ∈ items
    · rw [if_pos (List.contains_iff_mem.mpr ((listed last).mpr known)), ih]
      exact ⟨fun ordered => ⟨ordered, .inl known⟩, And.left⟩
    · have absent : ¬ (addAll items []).contains last = true := by
        rwa [List.contains_iff_mem, listed]
      rw [if_neg absent, List.pairwise_append, ih]
      simp [listed, known]

theorem getElem?_ends (pairs : List (Int × Int)) (index : Nat) :
    (ends pairs)[2 * index]? = pairs[index]?.map (·.1) ∧
      (ends pairs)[2 * index + 1]? = pairs[index]?.map (·.2) := by
  induction pairs generalizing index with
  | nil => simp [ends]
  | cons pair rest ih =>
    cases index with
    | zero => exact ⟨rfl, rfl⟩
    | succ index => exact ih index

theorem take_ends (pairs : List (Int × Int)) (index : Nat) :
    (ends pairs).take (2 * index) = ends (pairs.take index) := by
  induction pairs generalizing index with
  | nil => simp [ends]
  | cons pair rest ih =>
    cases index with
    | zero => rfl
    | succ index => exact congrArg (pair.1 :: pair.2 :: ·) (ih index)

/-! ## Symmetric rows -/

/-- Each of two neighbours names the other one, and none names itself. -/
structure Symmetric (rows : List (List Int)) : Prop where
  swap_mem : ∀ pair ∈ joins rows, (pair.2, pair.1) ∈ joins rows
  ne : ∀ pair ∈ joins rows, pair.1 ≠ pair.2

/-- When a row names a node, those between them that have neighbours have been named before. -/
def NamedInOrder (rows : List (List Int)) : Prop :=
  ∀ index pair, (joins rows)[index]? = some pair → ∀ other ∈ joins rows,
    pair.1 < other.1 → other.1 < pair.2 → other.1 ∈ ((joins rows).take index).map (·.2)

theorem take_drop_joins {rows : List (List Int)} {index : Nat} {pair : Int × Int}
    (found : (joins rows)[index]? = some pair) :
    joins rows = (joins rows).take index ++ pair :: (joins rows).drop (index + 1) := by
  obtain ⟨inside, rfl⟩ := List.getElem?_eq_some_iff.mp found
  rw [List.getElem_cons_drop, List.take_append_drop]

theorem le_of_mem_take {rows : List (List Int)} {index : Nat} {pair earlier : Int × Int}
    (found : (joins rows)[index]? = some pair) (member : earlier ∈ (joins rows).take index) :
    earlier.1 ≤ pair.1 := by
  have ordered := pairwise_joinsFrom 0 rows
  rw [← joins, take_drop_joins found, List.pairwise_append] at ordered
  exact ordered.2.2 earlier member pair (by simp)

theorem mem_take_of_lt {rows : List (List Int)} {index : Nat} {pair other : Int × Int}
    (found : (joins rows)[index]? = some pair) (member : other ∈ joins rows)
    (less : other.1 < pair.1) : other ∈ (joins rows).take index := by
  have ordered := pairwise_joinsFrom 0 rows
  rw [← joins, take_drop_joins found, List.pairwise_append, List.pairwise_cons] at ordered
  rw [take_drop_joins found] at member
  rcases List.mem_append.mp member with before | after
  · exact before
  · rcases List.mem_cons.mp after with rfl | later
    · exact absurd less (lt_irrefl _)
    · exact absurd (ordered.2.1.1 other later) (not_le.mpr less)

/-- With symmetric rows, every node that has neighbours has a row of its own. -/
theorem Symmetric.exists_join {rows : List (List Int)} (symmetric : Symmetric rows) {node : Int}
    (member : node ∈ ends (joins rows)) : ∃ pair ∈ joins rows, pair.1 = node := by
  obtain ⟨pair, isJoin, rfl | rfl⟩ := mem_ends.mp member
  · exact ⟨pair, isJoin, rfl⟩
  · exact ⟨_, symmetric.swap_mem pair isJoin, rfl⟩

theorem Symmetric.inRange {rows : List (List Int)} (symmetric : Symmetric rows) : InRange rows := by
  intro row member neighbour named
  obtain ⟨place, found⟩ := List.mem_iff_getElem?.mp member
  have isJoin : ((place : Int), neighbour) ∈ joins rows :=
    mem_joins_iff.mpr ⟨place, row, found, rfl, named⟩
  have bounds := mem_joinsFrom (symmetric.swap_mem _ isJoin)
  dsimp only at bounds
  omega

theorem pairwise_ends_iff {rows : List (List Int)} (symmetric : Symmetric rows) :
    (addAll (ends (joins rows)) []).Pairwise (· < ·) ↔ NamedInOrder rows := by
  rw [pairwise_addAll_iff]
  constructor
  · intro ordered index pair found other member above below
    have second : (ends (joins rows))[2 * index + 1]? = some pair.2 := by
      rw [(getElem?_ends _ _).2, found]
      rfl
    have before := ordered _ _ second other.1 (mem_ends.mpr ⟨other, member, .inl rfl⟩) below
    rw [List.take_add_one, take_ends, (getElem?_ends _ _).1, found, List.mem_append] at before
    rcases before with earlier | same
    · obtain ⟨join, isEarlier, isFirst | isSecond⟩ := mem_ends.mp earlier
      · have bound := le_of_mem_take found isEarlier
        omega
      · exact List.mem_map.mpr ⟨join, isEarlier, isSecond.symm⟩
    · have isFirst : other.1 = pair.1 := by simpa using same
      omega
  · intro named place item found lower member less
    -- the node of an earlier row has been named with the joins of that row
    have ofEarlierRow : ∀ index pair, (joins rows)[index]? = some pair → lower < pair.1 →
        lower ∈ ends ((joins rows).take index) := by
      intro index pair isPair below
      obtain ⟨join, isJoin, rfl⟩ := symmetric.exists_join member
      exact mem_ends.mpr ⟨join, mem_take_of_lt isPair isJoin below, .inl rfl⟩
    rcases Nat.even_or_odd' place with ⟨index, rfl | rfl⟩
    · rw [(getElem?_ends _ _).1] at found
      obtain ⟨pair, isPair, rfl⟩ := Option.map_eq_some_iff.mp found
      rw [take_ends]
      exact ofEarlierRow index pair isPair less
    · rw [(getElem?_ends _ _).2] at found
      obtain ⟨pair, isPair, rfl⟩ := Option.map_eq_some_iff.mp found
      rw [List.take_add_one, take_ends, (getElem?_ends _ _).1, isPair, List.mem_append]
      rcases lt_trichotomy lower pair.1 with below | same | above
      · exact .inl (ofEarlierRow index pair isPair below)
      · exact .inr (by simp [same])
      · obtain ⟨join, isJoin, rfl⟩ := symmetric.exists_join member
        obtain ⟨earlier, isEarlier, isNamed⟩ :=
          List.mem_map.mp (named index pair isPair join isJoin above less)
        exact .inl (mem_ends.mpr ⟨earlier, isEarlier, .inr isNamed.symm⟩)

/-! ## Two numberings -/

/-- The number that the picture gives to a node. -/
def drawnNumber (rows : List (List Int)) (node : Int) : Int := (ofEdges rows).connected.number node

/-- The number that the scheduler gives to a node. -/
def scheduledNumber (rows : List (List Int)) (node : Int) : Int :=
  (ofAdjacency rows).connected.number node

theorem nodes_drawn (rows : List (List Int)) :
    (ofEdges rows).connected.nodes = addAll (ends (joins rows)) [] := by
  have all : (ofEdges rows).nodes = addAll (ends (joins rows)) [] := by
    rw [ofEdges, connectRows_eq, nodes_connectPairs]
    rfl
  rw [connected, List.filter_eq_self.mpr, all]
  intro node member
  have isEnd : node ∈ ends (joins rows) := by
    rw [all] at member
    exact (mem_addAll.mp member).resolve_left (by simp)
  rw [ofEdges, connectRows_eq, (not_isIsolated_iff empty rfl _ node).mpr isEnd]
  rfl

section Numberings

variable {rows : List (List Int)} (symmetric : Symmetric rows)

include symmetric

/-- Both graphs have the nodes that have neighbours. -/
theorem perm_drawn_scheduled :
    (ofEdges rows).connected.nodes.Perm (ofAdjacency rows).connected.nodes := by
  have nodup : (ofEdges rows).connected.nodes.Nodup := by
    rw [nodes_drawn]
    exact nodup_addAll List.nodup_nil
  refine (List.perm_ext_iff_of_nodup nodup (pairwise_connected symmetric.inRange).nodup).mpr ?_
  intro node
  rw [mem_connected symmetric.inRange, nodes_drawn, mem_addAll]
  simp

/-- The numbers agree if and only if the order of first mention is that of the places. -/
theorem number_eq_iff :
    (∀ node ∈ (ofAdjacency rows).connected.nodes,
      drawnNumber rows node = scheduledNumber rows node) ↔ NamedInOrder rows := by
  have sorted := pairwise_connected symmetric.inRange
  have perm := perm_drawn_scheduled symmetric
  rw [← pairwise_ends_iff symmetric, ← nodes_drawn]
  constructor
  · intro agree
    suffices same : (ofEdges rows).connected.nodes = (ofAdjacency rows).connected.nodes by
      rw [same]
      exact sorted
    refine List.ext_getElem perm.length_eq fun index inside alsoInside => ?_
    have nodup : (ofEdges rows).connected.nodes.Nodup := perm.nodup_iff.mpr sorted.nodup
    have member := perm.mem_iff.mp (List.getElem_mem inside)
    have number := agree _ member
    rw [drawnNumber, scheduledNumber, Graph.number, Graph.number, nodup.idxOf_getElem,
      Int.natCast_inj] at number
    have found := List.getElem_idxOf (List.idxOf_lt_length_of_mem member)
    simp only [← number] at found
    exact found.symm
  · intro ordered node _
    have same : (ofEdges rows).connected.nodes = (ofAdjacency rows).connected.nodes :=
      perm.eq_of_pairwise' (ordered.imp le_of_lt) (sorted.imp le_of_lt)
    rw [drawnNumber, scheduledNumber, Graph.number, Graph.number, same]

end Numberings

end Graph

namespace MeasurementPlot

open QuantumResources.Graph

/-! ## Colours -/

/-- A step that measures a node stands at a place. -/
def MeasuredAt (steps : List MeasurementStep) (place : Nat) (node : Int) : Prop :=
  ∃ step, steps[place]? = some step ∧ node ∈ step

/-- Every node of a graph is measured in exactly one step. -/
def Assigns (steps : List MeasurementStep) (graph : Graph) : Prop :=
  ∀ node ∈ graph.nodes, ∃! place, MeasuredAt steps place node

/-- Every node that has neighbours is drawn in the colour of the step that measures it. -/
def Faithful (rows : List (List Int)) (steps : List MeasurementStep) : Prop :=
  ∃ plot, make rows steps = .ok plot ∧ ∀ node ∈ (ofAdjacency rows).connected.nodes,
    ∀ place, MeasuredAt steps place (scheduledNumber rows node) →
      plot.groups[(drawnNumber rows node).toNat]? = some place

theorem step?_eq_some {steps : List MeasurementStep} {node : Int} {place : Nat}
    (found : step? steps node = some place) : MeasuredAt steps place node := by
  obtain ⟨inside, measured, _⟩ := List.findIdx?_eq_some_iff_getElem.mp found
  exact ⟨steps[place], List.getElem?_eq_getElem inside, List.contains_iff_mem.mp measured⟩

section Assigned

variable {steps : List MeasurementStep} {graph : Graph} (assigns : Assigns steps graph) {node : Int}
  (member : node ∈ graph.nodes)

include assigns member

theorem Assigns.step?_eq_some_iff (place : Nat) :
    step? steps node = some place ↔ MeasuredAt steps place node := by
  refine ⟨step?_eq_some, fun measured => ?_⟩
  cases found : step? steps node with
  | none =>
    obtain ⟨step, isStep, isMeasured⟩ := measured
    have unmeasured := List.findIdx?_eq_none_iff.mp found step (List.mem_of_getElem? isStep)
    rw [List.contains_iff_mem.mpr isMeasured] at unmeasured
    cases unmeasured
  | some other => rw [(assigns node member).unique (step?_eq_some found) measured]

theorem Assigns.exists_step : ∃ place, step? steps node = some place := by
  obtain ⟨place, measured, _⟩ := assigns node member
  exact ⟨place, (assigns.step?_eq_some_iff member place).mpr measured⟩

end Assigned

/-- One colour for each node is taken as it stands. -/
theorem spread_self (colours : List Nat) : spread colours.length colours = .ok colours := by
  match colours with
  | [] => rfl
  | [colour] => rfl
  | _ :: _ :: _ => exact if_pos rfl

/-- Measuring each node alone is a schedule. -/
theorem assigns_alone {graph : Graph} (nodup : graph.nodes.Nodup) :
    Assigns (graph.nodes.map ([·])) graph := by
  intro node member
  have measured : ∀ place, MeasuredAt (graph.nodes.map ([·])) place node ↔
      graph.nodes[place]? = some node := by
    intro place
    rw [MeasuredAt, List.getElem?_map]
    cases graph.nodes[place]? <;> simp [eq_comm]
  simp only [measured]
  obtain ⟨place, found⟩ := List.mem_iff_getElem?.mp member
  refine ⟨place, found, fun other alsoFound => ?_⟩
  have inside := (List.getElem?_eq_some_iff.mp found).1
  exact ((List.getElem?_inj inside nodup).mp (found.trans alsoFound.symm)).symm

theorem eq_of_measuredAt_alone {nodes : List Int} {place : Nat} {node other : Int}
    (measured : MeasuredAt (nodes.map ([·])) place node)
    (alsoMeasured : MeasuredAt (nodes.map ([·])) place other) : node = other := by
  obtain ⟨step, isStep, member⟩ := measured
  obtain ⟨same, alsoStep, alsoMember⟩ := alsoMeasured
  rw [isStep, Option.some.injEq] at alsoStep
  subst alsoStep
  rw [List.getElem?_map] at isStep
  obtain ⟨single, _, rfl⟩ := Option.map_eq_some_iff.mp isStep
  rw [List.mem_singleton.mp member, List.mem_singleton.mp alsoMember]

theorem scheduledNumber_mem {rows : List (List Int)} {node : Int}
    (member : node ∈ (ofAdjacency rows).connected.nodes) :
    scheduledNumber rows node ∈ (Scheduling.graph rows).nodes :=
  List.mem_map_of_mem (List.mem_range.mpr (List.idxOf_lt_length_of_mem member))

section Pictures

variable {rows : List (List Int)} (symmetric : Symmetric rows)

include symmetric

theorem nodes_drawn_eq : (drawn rows).nodes = (Scheduling.graph rows).nodes := by
  change (discrete (ofEdges rows).connected.nodes.length).nodes =
    (discrete (ofAdjacency rows).connected.nodes.length).nodes
  rw [(perm_drawn_scheduled symmetric).length_eq]

theorem getElem?_drawnNumber {node : Int} (member : node ∈ (ofAdjacency rows).connected.nodes) :
    (drawn rows).nodes[(drawnNumber rows node).toNat]? = some (drawnNumber rows node) := by
  have isDrawn := (perm_drawn_scheduled symmetric).mem_iff.mpr member
  have inside := List.idxOf_lt_length_of_mem isDrawn
  change ((List.range _).map _)[Int.toNat ((ofEdges rows).connected.nodes.idxOf node : Nat)]? = _
  rw [Int.toNat_natCast, List.getElem?_map, List.getElem?_range inside]
  rfl

/-- The picture of a schedule has a colour for every node. -/
theorem make_of_assigns {steps : List MeasurementStep}
    (assigns : Assigns steps (Scheduling.graph rows)) :
    make rows steps =
      .ok ⟨drawn rows, (drawn rows).nodes.map fun node => (step? steps node).getD 0⟩ := by
  have coloured : (drawn rows).nodes.filterMap (step? steps) =
      (drawn rows).nodes.map fun node => (step? steps node).getD 0 := by
    rw [← List.filterMap_eq_map]
    refine List.filterMap_congr fun node member => ?_
    rw [nodes_drawn_eq symmetric] at member
    obtain ⟨place, found⟩ := assigns.exists_step member
    rw [Function.comp_apply, found]
    rfl
  have taken := spread_self ((drawn rows).nodes.map fun node => (step? steps node).getD 0)
  rw [List.length_map] at taken
  rw [make, coloured, taken]
  rfl

theorem faithful_iff {steps : List MeasurementStep}
    (assigns : Assigns steps (Scheduling.graph rows)) :
    Faithful rows steps ↔ ∀ node ∈ (ofAdjacency rows).connected.nodes,
      step? steps (drawnNumber rows node) = step? steps (scheduledNumber rows node) := by
  have lookup : ∀ node ∈ (ofAdjacency rows).connected.nodes, ∀ place,
      ((drawn rows).nodes.map fun node => (step? steps node).getD 0)[(drawnNumber rows node).toNat]?
        = some place ↔ step? steps (drawnNumber rows node) = some place := by
    intro node member place
    have isDrawn := getElem?_drawnNumber symmetric member
    obtain ⟨own, found⟩ :=
      assigns.exists_step (nodes_drawn_eq symmetric ▸ List.mem_of_getElem? isDrawn)
    rw [List.getElem?_map, isDrawn, Option.map_some, found]
    rfl
  constructor
  · rintro ⟨plot, made, right⟩ node member
    rw [make_of_assigns symmetric assigns] at made
    obtain rfl := Except.ok.inj made
    obtain ⟨place, found⟩ := assigns.exists_step (scheduledNumber_mem member)
    rw [found]
    exact (lookup node member place).mp (right node member place (step?_eq_some found))
  · intro agree
    refine ⟨_, make_of_assigns symmetric assigns, fun node member place measured => ?_⟩
    rw [lookup node member place, agree node member]
    exact (assigns.step?_eq_some_iff (scheduledNumber_mem member) place).mpr measured

end Pictures

/-- The nodes of every schedule are drawn in the colours of their steps if and only if the picture
numbers the nodes as the scheduler does, which is so if and only if the rows name them in order. -/
theorem schedules_coloured_iff {rows : List (List Int)} (symmetric : Symmetric rows) :
    ((∀ steps, Assigns steps (Scheduling.graph rows) → Faithful rows steps) ↔ NamedInOrder rows) ∧
      ((∀ node ∈ (ofAdjacency rows).connected.nodes,
        drawnNumber rows node = scheduledNumber rows node) ↔ NamedInOrder rows) := by
  refine ⟨?_, number_eq_iff symmetric⟩
  rw [← number_eq_iff symmetric]
  constructor
  · intro coloured node member
    -- a schedule that measures each node alone tells any two numbers apart
    have nodup : (Scheduling.graph rows).nodes.Nodup :=
      List.nodup_range.map fun _ _ same => Int.ofNat.inj same
    have assigns := assigns_alone nodup
    have agree := (faithful_iff symmetric assigns).mp (coloured _ assigns) node member
    obtain ⟨place, found⟩ := assigns.exists_step (scheduledNumber_mem member)
    exact eq_of_measuredAt_alone (step?_eq_some (agree.trans found)) (step?_eq_some found)
  · intro same steps assigns
    rw [faithful_iff symmetric assigns]
    intro node member
    rw [same node member]

/-- A node with two neighbours, all of them in order. -/
theorem schedules_coloured_star :
    Symmetric [[1, 2], [0], [0]] ∧
      ∀ steps, Assigns steps (Scheduling.graph [[1, 2], [0], [0]]) →
        Faithful [[1, 2], [0], [0]] steps := by
  have symmetric : Symmetric [[1, 2], [0], [0]] := ⟨by decide, by decide⟩
  have coloured := schedules_coloured_iff symmetric
  exact ⟨symmetric, coloured.1.mpr (coloured.2.mp (by decide))⟩

/-- Here the last node is named before the second one, and the two change their colours. -/
theorem schedule_miscoloured_path :
    Symmetric [[2], [2], [0, 1]] ∧ Assigns [[0], [1], [2]] (Scheduling.graph [[2], [2], [0, 1]]) ∧
      (make [[2], [2], [0, 1]] [[0], [1], [2]]).map (·.groups) = .ok [0, 1, 2] ∧
      drawnNumber [[2], [2], [0, 1]] 2 = 1 ∧ scheduledNumber [[2], [2], [0, 1]] 2 = 2 ∧
      ¬ Faithful [[2], [2], [0, 1]] [[0], [1], [2]] := by
  have symmetric : Symmetric [[2], [2], [0, 1]] := ⟨by decide, by decide⟩
  have assigns : Assigns [[0], [1], [2]] (Scheduling.graph [[2], [2], [0, 1]]) :=
    assigns_alone (by decide)
  refine ⟨symmetric, assigns, by decide, by decide, by decide, ?_⟩
  rw [faithful_iff symmetric assigns]
  decide

end MeasurementPlot

end QuantumResources
