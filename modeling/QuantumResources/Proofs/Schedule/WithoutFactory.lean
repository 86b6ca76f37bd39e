import QuantumResources.Proofs.Architecture.Space
import QuantumResources.Proofs.Schedule.ClosedForm

/-! Schedules without a factory.

Whether a layout needs a factory is read off the gates that are executed. The schedule looks at all
subroutines, also at those that never run, and stops at the first layer that consumes T states. -/

namespace QuantumResources

/-- No layer consumes T states. -/
def CompiledSubroutine.Idle (subroutine : CompiledSubroutine) : Prop :=
  ∀ layer ∈ subroutine.layers, layer.Idle

instance (subroutine : CompiledSubroutine) : Decidable subroutine.Idle :=
  inferInstanceAs (Decidable (∀ _ ∈ _, _))

namespace Schedule

open Allocation

/-- Cycles that the graph states of some layers take. -/
def preparation (distance : Int) (layers : List Layer) : Int :=
  tally (layers.map fun layer => layer.tocks * distance)

section Stopping

variable {α : Type} [Arithmetic α] [ExactWholes α] (optimization : Optimization)
  (distance perRotation : Int) (distancePos : 1 ≤ distance)

section Layers

variable (layers : List Layer) (nonneg : ∀ layer ∈ layers, layer.Nonneg)

include distancePos nonneg

theorem logged_idle_spends (layer : Layer) (member : layer ∈ layers) (idle : layer.Idle) :
    Spends (logged (α := α) optimization distance none perRotation layer)
      (portion (layer.tocks * distance) [graphStatePrep]) := by
  rw [logged_idle _ _ _ _ _ idle]
  exact log_spends (R := Int) _ _ (Int.mul_nonneg (nonneg layer member).tocks (by omega))
    (by decide)

theorem idle_layers_spend (idle : ∀ layer ∈ layers, layer.Idle) :
    Spends (layers.forM (logged (α := α) optimization distance none perRotation))
      (portion (preparation distance layers) [graphStatePrep]) := by
  have spends := spends_forM layers (logged (α := α) optimization distance none perRotation)
    (fun layer => portion (layer.tocks * distance) [graphStatePrep])
    fun layer member => logged_idle_spends optimization distance perRotation distancePos layers
      nonneg layer member (idle layer member)
  simp only [portion_sum] at spends
  exact spends

theorem busy_layer_stops (busy : ¬ ∀ layer ∈ layers, layer.Idle) (amount : List String → Int) :
    (Step.run (layers.forM (logged (α := α) optimization distance none perRotation))
      (exactCycles amount)).1 = .error .factoryNeeded := by
  induction layers generalizing amount with
  | nil => simp at busy
  | cons layer rest ih =>
    change (Step.run (logged optimization distance none perRotation layer >>= fun _ =>
      rest.forM (logged optimization distance none perRotation)) (exactCycles amount)).1 = _
    rw [run_bind]
    by_cases idle : layer.Idle
    · rw [logged_idle_spends optimization distance perRotation distancePos _ nonneg layer
        (by simp) idle]
      refine ih (fun other member => nonneg other (List.mem_cons_of_mem _ member)) ?_ _
      intro others
      exact busy (List.forall_mem_cons.mpr ⟨idle, others⟩)
    · rw [logged_without _ _ _ _ idle]
      rfl

end Layers

include distancePos

theorem subroutineAllocation_without (chosen : optimization = .space ∨ optimization = .time)
    (subroutine : CompiledSubroutine) (wellFormed : subroutine.WellFormed) :
    subroutineAllocation (α := α) optimization (Arithmetic.ofInt distance) none perRotation
        subroutine =
      if subroutine.Idle then
        .ok (exactCycles (portion (preparation distance subroutine.layers) [graphStatePrep]))
      else .error .factoryNeeded := by
  have nonneg := layer_nonneg subroutine wellFormed
  rw [subroutineAllocation_layers _ _ _ _ _ wellFormed chosen, cycles_eq Int]
  split
  · next idle =>
    rw [idle_layers_spend optimization distance perRotation distancePos _ nonneg idle]
    simp only [Int.zero_add]
    rfl
  · next busy =>
    have stopped := busy_layer_stops (α := α) optimization distance perRotation distancePos _ nonneg
      busy fun _ => 0
    simp only [stopped]
    rfl

theorem allocation_without (chosen : optimization = .space ∨ optimization = .time)
    (program : CompiledProgram) (layout : Layout α) (layers : List Layer)
    (wellFormed : ∀ subroutine ∈ program.subroutines, subroutine.WellFormed)
    (executes : program.executed = .ok layers)
    (atDistance : layout.distance = some (Arithmetic.ofInt distance))
    (without : layout.factory = none) :
    allocation program optimization layout perRotation =
      if ∀ subroutine ∈ program.subroutines, subroutine.Idle then
        .ok (wholeCycles (share (preparation distance layers) [graphStatePrep]))
      else .error .factoryNeeded := by
  obtain ⟨sequence, running, ordered, found, rfl⟩ := CompiledProgram.executed_eq_ok.mp executes
  have each := Calc.mapM_eq_ite program.subroutines
    (subroutineAllocation (α := α) optimization (Arithmetic.ofInt distance) none perRotation)
    (fun subroutine => exactCycles
      (portion (preparation distance subroutine.layers) [graphStatePrep]))
    CompiledSubroutine.Idle .factoryNeeded fun subroutine member =>
      subroutineAllocation_without optimization distance perRotation distancePos chosen subroutine
        (wellFormed subroutine member)
  rw [allocation, atDistance, without]
  simp only [each, ordered]
  split
  · have added := foldlM_sum_exactCycles (α := α) program.subroutines running sequence
      (fun subroutine => portion (preparation distance subroutine.layers) [graphStatePrep])
      (fun _ => 0) found
    simp only [Int.zero_add, portion_sum] at added
    rw [preparation, tally_flatMap, Calc.ok_bind, Calc.ok_bind, cycles_eq Int, wholeCycles_eq,
      share_eq]
    exact added
  · rfl

end Stopping

/-- A program whose executed layers need no T states always has a layout without a factory. It has a
schedule if and only if no subroutine needs T states, whether it runs or not; then only graph states
are prepared. -/
theorem allocation_without_factory (architecture : Architecture) (program : CompiledProgram)
    (optimization : Optimization) (distance perRotation : Int)
    (described : architecture ≠ .undescribed)
    (wellFormed : ∀ subroutine ∈ program.subroutines, subroutine.WellFormed)
    (chosen : optimization = .space ∨ optimization = .time) (distancePos : 1 ≤ distance)
    (noStates : program.tGates = .ok 0) (noRotations : program.rotationGates = .ok 0) :
    ∃ (layout : Layout Scalar) (layers : List Layer),
      architecture.layout program optimization (some (.whole distance)) none = .ok layout ∧
      program.executed = .ok layers ∧
      allocation program optimization layout perRotation =
        if ∀ subroutine ∈ program.subroutines, subroutine.Idle then
          .ok (wholeCycles (share (preparation distance layers) [graphStatePrep]))
        else .error .factoryNeeded := by
  obtain ⟨layers, executes⟩ := CompiledProgram.executed_of_tGates noStates
  have idle := (CompiledProgram.idle_iff executes wellFormed).mp ⟨noStates, noRotations⟩
  have counted := Architecture.factoryCount_idle (α := Scalar) executes wellFormed optimization none
    idle
  refine ⟨_, layers, Architecture.layout_eq architecture program optimization _ none 0 described
    counted, executes, ?_⟩
  exact allocation_without optimization distance perRotation distancePos chosen program _ layers
    wellFormed executes rfl rfl

/-- Two idle subroutines, of which one runs twice. -/
theorem allocation_without_factory_twoIdle :
    ∃ (layout : Layout Scalar) (layers : List Layer),
      Architecture.layout .twoRowBus ⟨[⟨2, 1, [4], [0], [0]⟩, ⟨3, 1, [5], [0], [0]⟩], 1,
        fun _ => .ok [1, 1]⟩ .time (some (.whole 3)) none = .ok layout ∧
      CompiledProgram.executed ⟨[⟨2, 1, [4], [0], [0]⟩, ⟨3, 1, [5], [0], [0]⟩], 1,
        fun _ => .ok [1, 1]⟩ = .ok layers ∧
      allocation ⟨[⟨2, 1, [4], [0], [0]⟩, ⟨3, 1, [5], [0], [0]⟩], 1, fun _ => .ok [1, 1]⟩ .time
          layout 10 =
        .ok (wholeCycles (share (preparation 3 layers) [graphStatePrep])) ∧
      preparation 3 layers = 30 := by
  obtain ⟨layout, layers, described, executes, scheduled⟩ := allocation_without_factory .twoRowBus
    ⟨[⟨2, 1, [4], [0], [0]⟩, ⟨3, 1, [5], [0], [0]⟩], 1, fun _ => .ok [1, 1]⟩ .time 3 10
    (by decide) (by decide) (Or.inr rfl) (by decide) rfl rfl
  rw [if_pos (by decide)] at scheduled
  have two : layers = [⟨0, 0, 5⟩, ⟨0, 0, 5⟩] := Except.ok.inj (executes.symm.trans rfl)
  refine ⟨layout, layers, described, executes, scheduled, ?_⟩
  rw [two]
  decide

/-- Of two subroutines only the idle one runs, yet the other one asks for a factory. -/
theorem unused_subroutine_needs_factory :
    CompiledProgram.tGates ⟨[⟨2, 1, [4], [0], [0]⟩, ⟨2, 1, [5], [1], [0]⟩], 1,
        fun _ => .ok [0]⟩ = .ok 0 ∧
      CompiledProgram.rotationGates ⟨[⟨2, 1, [4], [0], [0]⟩, ⟨2, 1, [5], [1], [0]⟩], 1,
        fun _ => .ok [0]⟩ = .ok 0 ∧
      ∃ layout : Layout Scalar,
        Architecture.layout .twoRowBus ⟨[⟨2, 1, [4], [0], [0]⟩, ⟨2, 1, [5], [1], [0]⟩], 1,
          fun _ => .ok [0]⟩ .time (some (.whole 3)) none = .ok layout ∧
        allocation ⟨[⟨2, 1, [4], [0], [0]⟩, ⟨2, 1, [5], [1], [0]⟩], 1, fun _ => .ok [0]⟩ .time
          layout 1 = .error .factoryNeeded :=
  ⟨rfl, rfl, _, rfl, rfl⟩

end Schedule

end QuantumResources
