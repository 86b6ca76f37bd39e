import QuantumResources.Proofs.Schedule.Layers
import QuantumResources.Proofs.Schedule.Rounds

/-! The layers that a compiled program executes, and its gates counted by layer. -/

namespace QuantumResources

theorem sum_flatMap {R β γ : Type} [AddMonoid R] (items : List β) (expand : β → List γ)
    (amount : γ → R) :
    ((items.flatMap expand).map amount).sum =
      (items.map fun item => ((expand item).map amount).sum).sum := by
  rw [List.map_flatMap, List.flatMap_def, List.sum_flatten, List.map_map]
  rfl

theorem tally_flatMap {β γ : Type} (items : List β) (expand : β → List γ) (count : γ → Int) :
    tally ((items.flatMap expand).map count) =
      tally (items.map fun item => tally ((expand item).map count)) :=
  sum_flatMap items expand count

theorem tally_eq_zero_iff (counts : List Int) (nonneg : ∀ count ∈ counts, 0 ≤ count) :
    tally counts = 0 ↔ ∀ count ∈ counts, count = 0 := by
  induction counts with
  | nil => simp
  | cons count rest ih =>
    have restNonneg : ∀ other ∈ rest, 0 ≤ other := fun other member =>
      nonneg other (List.mem_cons_of_mem _ member)
    have first := nonneg count (by simp)
    have later := Schedule.tally_nonneg rest restNonneg
    rw [tally_cons, List.forall_mem_cons, ← ih restNonneg]
    omega

namespace CompiledSubroutine

variable {subroutine : CompiledSubroutine}

theorem layers_tStates (wellFormed : subroutine.WellFormed) :
    subroutine.layers.map (·.tStates) = subroutine.tStates := by
  have tStates := wellFormed.tStates_length
  have rotations := wellFormed.rotations_length
  have tocks := wellFormed.tocks_length
  rw [layers, List.map_map]
  exact List.map_fst_zip (by rw [List.length_zip]; omega)

theorem layers_rotations (wellFormed : subroutine.WellFormed) :
    subroutine.layers.map (·.rotations) = subroutine.rotations := by
  have tStates := wellFormed.tStates_length
  have rotations := wellFormed.rotations_length
  have tocks := wellFormed.tocks_length
  have second : (subroutine.tStates.zip (subroutine.rotations.zip subroutine.tocks)).map (·.2) =
      subroutine.rotations.zip subroutine.tocks :=
    List.map_snd_zip (by rw [List.length_zip]; omega)
  calc subroutine.layers.map (·.rotations)
    _ = ((subroutine.tStates.zip (subroutine.rotations.zip subroutine.tocks)).map (·.2)).map
        (·.1) := by simp [layers]
    _ = (subroutine.rotations.zip subroutine.tocks).map (·.1) := by rw [second]
    _ = subroutine.rotations := List.map_fst_zip (by omega)

theorem layers_widths (wellFormed : subroutine.WellFormed) :
    List.zipWith (· + ·) subroutine.tStates subroutine.rotations =
      subroutine.layers.map fun layer => layer.tStates + layer.rotations := by
  conv_lhs => rw [← layers_tStates wellFormed, ← layers_rotations wellFormed]
  rw [List.zipWith_map, List.zipWith_self]

end CompiledSubroutine

namespace CompiledProgram

variable {program : CompiledProgram}

/-- The layers in the order in which they are executed, those of a subroutine every time it runs. -/
def executed (program : CompiledProgram) : Calc (List Layer) := do
  let running ← (← program.sequence).mapM (pick program.subroutines)
  return running.flatMap (·.layers)

/-- All layers have their counts, and the order names only subroutines that there are. -/
structure Schedulable (program : CompiledProgram) : Prop where
  wellFormed : ∀ subroutine ∈ program.subroutines, subroutine.WellFormed
  layered : ∀ subroutine ∈ program.subroutines, 1 ≤ subroutine.layerCount
  ordered : ∃ sequence, program.sequence = .ok sequence ∧
    ∀ place ∈ sequence, ValidPlace program.subroutines.length place

theorem Schedulable.executes (schedulable : program.Schedulable) :
    ∃ layers, program.executed = .ok layers := by
  obtain ⟨sequence, ordered, valid⟩ := schedulable.ordered
  obtain ⟨running, found⟩ := mapM_pick program.subroutines sequence valid
  refine ⟨running.flatMap (·.layers), ?_⟩
  simp only [executed, ordered, found, Calc.ok_bind]
  rfl

theorem executed_eq_ok {layers : List Layer} :
    program.executed = .ok layers ↔
      ∃ sequence running, program.sequence = .ok sequence ∧
        sequence.mapM (pick program.subroutines) = .ok running ∧
        running.flatMap (·.layers) = layers := by
  unfold executed
  rw [Calc.bind_eq_ok]
  simp only [Calc.bind_eq_ok, pure, Except.pure, Except.ok.injEq]
  constructor
  · rintro ⟨sequence, ordered, running, found, same⟩
    exact ⟨sequence, running, ordered, found, same⟩
  · rintro ⟨sequence, running, ordered, found, same⟩
    exact ⟨sequence, ordered, running, found, same⟩

/-- A program whose gates can be counted can be executed. -/
theorem executed_of_tGates {count : Int} (counted : program.tGates = .ok count) :
    ∃ layers, program.executed = .ok layers := by
  unfold tGates at counted
  obtain ⟨sequence, ordered, summed⟩ := Calc.bind_eq_ok.mp counted
  obtain ⟨counts, picked, _⟩ := Calc.bind_eq_ok.mp summed
  rw [mapM_pick_map] at picked
  cases found : sequence.mapM (pick program.subroutines) with
  | error failure =>
    rw [found] at picked
    cases picked
  | ok running => exact ⟨_, executed_eq_ok.mpr ⟨sequence, running, ordered, found, rfl⟩⟩

theorem mem_executed {layers : List Layer} (executes : program.executed = .ok layers)
    {layer : Layer} (member : layer ∈ layers) :
    ∃ subroutine ∈ program.subroutines, layer ∈ subroutine.layers := by
  obtain ⟨sequence, running, _, found, rfl⟩ := executed_eq_ok.mp executes
  obtain ⟨subroutine, runs, inside⟩ := List.mem_flatMap.mp member
  obtain ⟨place, _, picked⟩ := (Calc.mem_of_mapM found).mp runs
  exact ⟨subroutine, List.mem_of_getElem? ((pick_eq_ok_iff _ _ _).mp picked).2, inside⟩

/-- Some T gate or rotation is executed. -/
def NeedsStates (program : CompiledProgram) : Prop :=
  ¬ (program.tGates = .ok 0 ∧ program.rotationGates = .ok 0)

section Executed

variable {layers : List Layer} (executes : program.executed = .ok layers)
  (wellFormed : ∀ subroutine ∈ program.subroutines, subroutine.WellFormed)

include executes

theorem countAlong_executed (counts : CompiledSubroutine → List Int) (count : Layer → Int)
    (listed : ∀ subroutine ∈ program.subroutines, subroutine.layers.map count = counts subroutine) :
    program.sequence >>=
        countAlong (program.subroutines.map fun subroutine => tally (counts subroutine)) =
      .ok (tally (layers.map count)) := by
  obtain ⟨sequence, running, ordered, found, rfl⟩ := executed_eq_ok.mp executes
  have sums : (running.map fun subroutine => tally (counts subroutine)) =
      running.map fun subroutine => tally (subroutine.layers.map count) := by
    apply List.map_congr_left
    intro subroutine runs
    obtain ⟨place, _, picked⟩ := (Calc.mem_of_mapM found).mp runs
    rw [listed subroutine (List.mem_of_getElem? ((pick_eq_ok_iff _ _ _).mp picked).2)]
  rw [ordered, tally_flatMap, ← sums]
  simp only [Calc.ok_bind, countAlong, mapM_pick_map, found]
  rfl

include wellFormed

theorem layer_nonneg_executed (layer : Layer) (member : layer ∈ layers) : layer.Nonneg := by
  obtain ⟨subroutine, inside, isLayer⟩ := mem_executed executes member
  exact Schedule.layer_nonneg subroutine (wellFormed subroutine inside) layer isLayer

theorem tGates_executed : program.tGates = .ok (tally (layers.map (·.tStates))) :=
  countAlong_executed executes (·.tStates) (·.tStates) fun subroutine member =>
    CompiledSubroutine.layers_tStates (wellFormed subroutine member)

theorem rotationGates_executed :
    program.rotationGates = .ok (tally (layers.map (·.rotations))) :=
  countAlong_executed executes (·.rotations) (·.rotations) fun subroutine member =>
    CompiledSubroutine.layers_rotations (wellFormed subroutine member)

/-- A program needs no T states if and only if none of the layers that it executes does. -/
theorem idle_iff :
    (program.tGates = .ok 0 ∧ program.rotationGates = .ok 0) ↔
      ∀ layer ∈ layers, layer.Idle := by
  have nonneg := layer_nonneg_executed executes wellFormed
  have tStates := tally_eq_zero_iff (layers.map (·.tStates)) (by
    intro count member
    obtain ⟨layer, inside, rfl⟩ := List.mem_map.mp member
    exact (nonneg layer inside).tStates)
  have rotations := tally_eq_zero_iff (layers.map (·.rotations)) (by
    intro count member
    obtain ⟨layer, inside, rfl⟩ := List.mem_map.mp member
    exact (nonneg layer inside).rotations)
  rw [tGates_executed executes wellFormed, rotationGates_executed executes wellFormed,
    Except.ok.injEq, Except.ok.injEq, tStates, rotations]
  simp only [List.forall_mem_map]
  exact forall₂_and.symm

theorem needsStates_iff : program.NeedsStates ↔ ¬ ∀ layer ∈ layers, layer.Idle :=
  not_congr (idle_iff executes wellFormed)

end Executed

end CompiledProgram

end QuantumResources
