import Mathlib.Data.List.Iterate
import QuantumResources.Proofs.Architecture.Space
import QuantumResources.Proofs.Schedule.ClosedForm

/-! The factories of a layout supply its schedule.

How many factories there are is worked out for the program as a whole, how many measurements run in
parallel for each layer on its own. No round serves more nodes than the factories have states for,
and over all rounds every measurement gets its state. -/

namespace QuantumResources.Schedule

open Allocation Architecture

/-! ## The nodes that a round serves -/

/-- How many nodes a round of measurements takes one off. -/
def served (parallel : Int) (remaining : List Int) : Nat :=
  (remaining.zip (consume parallel remaining)).countP fun node => decide (node.2 < node.1)

@[simp] theorem length_consume (parallel : Int) (remaining : List Int) :
    (consume parallel remaining).length = remaining.length := by
  induction remaining generalizing parallel with
  | nil => rfl
  | cons entry rest ih =>
    by_cases positive : 0 < entry
    · rw [consume_cons_pos _ _ _ positive]
      split <;> simp [ih]
    · rw [consume_cons_nonpos _ _ _ positive]
      simp [ih]

theorem served_cons_pos (parallel entry : Int) (rest : List Int) (positive : 0 < entry) :
    served parallel (entry :: rest) =
      1 + if parallel = 1 then 0 else served (parallel - 1) rest := by
  unfold served
  rw [consume_cons_pos _ _ _ positive]
  split
  · have unchanged : (rest.zip rest).countP (fun node => decide (node.2 < node.1)) = 0 := by
      rw [List.zip, List.zipWith_self, List.countP_map]
      simp [Function.comp_def]
    simp [unchanged]
  · simp [Nat.add_comm]

theorem served_cons_nonpos (parallel entry : Int) (rest : List Int) (spent : ¬ 0 < entry) :
    served parallel (entry :: rest) = served parallel rest := by
  unfold served
  rw [consume_cons_nonpos _ _ _ spent]
  simp

theorem served_le_parallel (parallel : Int) (remaining : List Int) (capacity : 1 ≤ parallel) :
    (served parallel remaining : Int) ≤ parallel := by
  induction remaining generalizing parallel with
  | nil =>
    have none : served parallel [] = 0 := rfl
    omega
  | cons entry rest ih =>
    by_cases positive : 0 < entry
    · rw [served_cons_pos _ _ _ positive]
      split
      · omega
      · have later := ih (parallel - 1) (by omega)
        omega
    · rw [served_cons_nonpos _ _ _ positive]
      exact ih parallel capacity

theorem served_le_length (parallel : Int) (remaining : List Int) :
    served parallel remaining ≤ remaining.length := by
  apply Nat.le_trans List.countP_le_length
  simp

/-- A round takes off what it serves. -/
theorem tally_consume (parallel : Int) (remaining : List Int) :
    tally (consume parallel remaining) + served parallel remaining = tally remaining := by
  induction remaining generalizing parallel with
  | nil => rfl
  | cons entry rest ih =>
    by_cases positive : 0 < entry
    · rw [consume_cons_pos _ _ _ positive, served_cons_pos _ _ _ positive]
      split
      · simp only [tally_cons]
        omega
      · have later := ih (parallel - 1)
        simp only [tally_cons]
        omega
    · have later := ih parallel
      rw [consume_cons_nonpos _ _ _ positive, served_cons_nonpos _ _ _ positive]
      simp only [tally_cons]
      omega

/-! ## All rounds of a layer -/

theorem tally_iterate (parallel : Int) (count : Nat) (nodes : List Int) :
    tally ((consume parallel)^[count] nodes) +
        ((List.iterate (consume parallel) nodes count).map (served parallel)).sum =
      tally nodes := by
  induction count generalizing nodes with
  | zero => simp
  | succ count ih =>
    have later := ih (consume parallel nodes)
    have now := tally_consume parallel nodes
    rw [Function.iterate_succ_apply, List.iterate, List.map_cons, List.sum_cons, Nat.cast_add]
    omega

theorem tally_after_rounds (parallel : Int) (count : Nat) (nodes : List Int)
    (counted : rounds parallel nodes = count) : tally ((consume parallel)^[count] nodes) ≤ 0 := by
  induction count generalizing nodes with
  | zero =>
    rw [rounds_eq] at counted
    split at counted
    · omega
    · rw [Function.iterate_zero, id]
      omega
  | succ count ih =>
    rw [rounds_eq] at counted
    split at counted
    · rw [Function.iterate_succ_apply]
      exact ih _ (by omega)
    · omega

theorem length_iterate_consume (parallel : Int) (count : Nat) (nodes : List Int) :
    ((consume parallel)^[count] nodes).length = nodes.length := by
  induction count generalizing nodes with
  | zero => rfl
  | succ count ih => rw [Function.iterate_succ_apply, ih, length_consume]

theorem tally_needed (perRotation : Int) (layer : Layer) (nonneg : layer.Nonneg) :
    tally (needed layer.tStates layer.rotations perRotation) =
      layer.tStates + perRotation * layer.rotations := by
  rw [needed, tally_append, tally_replicate, tally_replicate, Int.toNat_of_nonneg nonneg.tStates,
    Int.toNat_of_nonneg nonneg.rotations]
  ring

theorem length_needed (perRotation : Int) (layer : Layer) (nonneg : layer.Nonneg) :
    ((needed layer.tStates layer.rotations perRotation).length : Int) =
      layer.tStates + layer.rotations := by
  have tStates := nonneg.tStates
  have rotations := nonneg.rotations
  simp only [needed, List.length_append, List.length_replicate]
  omega

theorem sum_served_le (parallel bound : Int) (states : List (List Int))
    (each : ∀ nodes ∈ states, (served parallel nodes : Int) ≤ bound) :
    ((states.map (served parallel)).sum : Int) ≤ states.length * bound := by
  induction states with
  | nil => simp
  | cons nodes rest ih =>
    have later := ih fun other member => each other (List.mem_cons_of_mem _ member)
    have first := each nodes (by simp)
    rw [List.map_cons, List.sum_cons, List.length_cons, Nat.cast_add, Nat.cast_succ]
    linarith

/-- What the nodes of a layer still need before each of its rounds. The first round is made in any
case, the others while something is needed. -/
def layerRounds (optimization : Optimization) (statesPerRound perRotation : Int) (layer : Layer) :
    List (List Int) :=
  if layer.Idle then []
  else
    let parallel := parallelIn optimization statesPerRound layer
    let nodes := needed layer.tStates layer.rotations perRotation
    List.iterate (consume parallel) nodes (rounds parallel (consume parallel nodes) + 1)

section Layers

variable (optimization : Optimization) (statesPerRound perRotation : Int) {layer : Layer}
  (nonneg : layer.Nonneg)

include nonneg

theorem length_layerRounds (capacity : 1 ≤ statesPerRound) (perRotationNonneg : 0 ≤ perRotation)
    (busy : ¬ layer.Idle) :
    ((layerRounds optimization statesPerRound perRotation layer).length : Int) =
      roundCount (parallelIn optimization statesPerRound layer) perRotation layer := by
  have counted := rounds_needed (parallelIn optimization statesPerRound layer) perRotation layer
    (parallelIn_pos _ _ _ capacity) perRotationNonneg nonneg.tStates nonneg.rotations
  rw [layerRounds, if_neg busy, List.length_iterate]
  push_cast
  omega

/-- Over its rounds a layer gets every measurement that it needs. -/
theorem needed_le_served :
    layer.tStates + perRotation * layer.rotations ≤
      ((layerRounds optimization statesPerRound perRotation layer).map
        (served (parallelIn optimization statesPerRound layer))).sum := by
  rw [← tally_needed perRotation layer nonneg]
  by_cases idle : layer.Idle
  · rw [layerRounds, if_pos idle, idle.1, idle.2]
    simp [needed]
  · rw [layerRounds, if_neg idle]
    dsimp only
    generalize parallelIn optimization statesPerRound layer = parallel
    generalize needed layer.tStates layer.rotations perRotation = nodes
    have spent := tally_iterate parallel (rounds parallel (consume parallel nodes) + 1) nodes
    have after := tally_after_rounds parallel _ (consume parallel nodes) rfl
    rw [Function.iterate_succ_apply] at spent
    omega

theorem served_le_width (capacity : 1 ≤ statesPerRound) (nodes : List Int)
    (member : nodes ∈ layerRounds optimization statesPerRound perRotation layer) :
    ¬ layer.Idle ∧
      (served (parallelIn optimization statesPerRound layer) nodes : Int) ≤
        min (parallelIn optimization statesPerRound layer) (layer.tStates + layer.rotations) := by
  unfold layerRounds at member
  split at member
  · simp at member
  · next busy =>
    refine ⟨busy, le_min (served_le_parallel _ _ (parallelIn_pos _ _ _ capacity)) ?_⟩
    obtain ⟨count, _, rfl⟩ := List.mem_iterate.mp member
    rw [← length_needed perRotation layer nonneg,
      ← length_iterate_consume (parallelIn optimization statesPerRound layer) count]
    exact Int.ofNat_le.mpr (served_le_length _ _)

end Layers

/-! ## Factories -/

/-- Without rounding, the factories have enough states for as many measurements as any executed
layer can use at once. -/
theorem exists_factoryCount (program : CompiledProgram) (optimization : Optimization)
    (factory : MagicStateFactory Rat) (layers : List Layer) (schedulable : program.Schedulable)
    (executes : program.executed = .ok layers)
    (chosen : optimization = .space ∨ optimization = .time)
    (capacity : 1 ≤ factory.statesPerRound) :
    ∃ count, factoryCount program optimization (some factory) = .ok count ∧
      ∀ layer ∈ layers, ¬ layer.Idle →
        min (parallelIn optimization factory.statesPerRound layer)
          (layer.tStates + layer.rotations) ≤ count * factory.statesPerRound := by
  have wellFormed := schedulable.wellFormed
  by_cases idle : ∀ layer ∈ layers, layer.Idle
  · refine ⟨0, factoryCount_idle executes wellFormed _ _ idle, ?_⟩
    intro layer member busy
    exact absurd (idle layer member) busy
  · obtain ⟨widest, isWidest⟩ := exists_widest program schedulable
    rcases chosen with rfl | rfl
    · have one := (factoryCount_busy executes wellFormed factory widest isWidest.computed idle).1
      refine ⟨1, one, ?_⟩
      intro layer _ _
      rw [Int.one_mul]
      exact min_le_left _ _
    · have positive : (0 : Rat) < factory.statesPerRound := by exact_mod_cast capacity
      refine ⟨_, factoryCount_time_exact executes wellFormed factory widest isWidest.computed idle
        capacity, ?_⟩
      intro layer member _
      obtain ⟨subroutine, inside, isLayer⟩ := CompiledProgram.mem_executed executes member
      have covered := isWidest.covers subroutine inside layer isLayer
      have rounded : (widest : Rat) ≤
          ((widest : Rat) / factory.statesPerRound).ceil * factory.statesPerRound :=
        (div_le_iff₀ positive).mp Rat.le_ceil
      have whole : widest ≤
          ((widest : Rat) / factory.statesPerRound).ceil * factory.statesPerRound := by
        exact_mod_cast rounded
      exact Int.le_trans (min_le_right _ _) (Int.le_trans covered whole)

/-! ## The schedule -/

/-- Rounds of measurements of all layers together. -/
def totalRounds (optimization : Optimization) (statesPerRound perRotation : Int)
    (layers : List Layer) : Nat :=
  (layers.map fun layer => (layerRounds optimization statesPerRound perRotation layer).length).sum

theorem totals_within (optimization : Optimization) (statesPerRound perRotation supply : Int)
    (layers : List Layer)
    (each : ∀ layer ∈ layers, layer.tStates + perRotation * layer.rotations ≤
      (layerRounds optimization statesPerRound perRotation layer).length * supply) :
    tally (layers.map (·.tStates)) + perRotation * tally (layers.map (·.rotations)) ≤
      totalRounds optimization statesPerRound perRotation layers * supply := by
  induction layers with
  | nil => simp [totalRounds]
  | cons layer rest ih =>
    have later := ih fun other member => each other (List.mem_cons_of_mem _ member)
    have first := each layer (by simp)
    simp only [totalRounds, List.map_cons, tally_cons, List.sum_cons] at later ⊢
    push_cast at later ⊢
    linarith

theorem layerCost_measurement (optimization : Optimization) (distance : Int) (cycles : Rat)
    (statesPerRound perRotation : Int) (layer : Layer) (nonneg : layer.Nonneg)
    (capacity : 1 ≤ statesPerRound) (perRotationNonneg : 0 ≤ perRotation) :
    layerCost optimization distance cycles statesPerRound perRotation layer [tMeasurement] =
      2 * distance * (layerRounds optimization statesPerRound perRotation layer).length := by
  have preparation : sameProcesses [graphStatePrep] [tMeasurement] = false := by decide
  have together : sameProcesses [distillation, graphStatePrep] [tMeasurement] = false := by decide
  have distilled : sameProcesses [distillation] [tMeasurement] = false := by decide
  have measured : sameProcesses [tMeasurement] [tMeasurement] = true := by decide
  simp only [layerCost, portion, preparation, together, distilled, measured]
  split
  · next idle => simp [layerRounds, idle]
  · next busy =>
    rw [← length_layerRounds optimization statesPerRound perRotation nonneg capacity
      perRotationNonneg busy]
    simp

theorem sum_measurement (optimization : Optimization) (distance : Int) (cycles : Rat)
    (statesPerRound perRotation : Int) (layers : List Layer)
    (nonneg : ∀ layer ∈ layers, layer.Nonneg) (capacity : 1 ≤ statesPerRound)
    (perRotationNonneg : 0 ≤ perRotation) :
    (layers.map fun layer => layerCost optimization distance cycles statesPerRound perRotation layer
        [tMeasurement]).sum =
      2 * distance * totalRounds optimization statesPerRound perRotation layers := by
  induction layers with
  | nil => simp [totalRounds]
  | cons layer rest ih =>
    have later := ih fun other member => nonneg other (List.mem_cons_of_mem _ member)
    have first := layerCost_measurement optimization distance cycles statesPerRound perRotation
      layer (nonneg layer (by simp)) capacity perRotationNonneg
    rw [List.map_cons, List.sum_cons, later, first]
    simp only [totalRounds, List.map_cons, List.sum_cons]
    push_cast
    ring

/-- The factories that a layout has for a program supply its schedule, without rounding. No round
serves more nodes than they have states for; the rounds of every executed layer have enough states
for its T gates and rotations, and so have all rounds for the whole program. The schedule has just
these rounds, each with its measurements of twice the distance. -/
theorem factories_supply_schedule (program : CompiledProgram) (optimization : Optimization)
    (factory : MagicStateFactory Rat) (perRotation : Int) (schedulable : program.Schedulable)
    (chosen : optimization = .space ∨ optimization = .time)
    (capacity : 1 ≤ factory.statesPerRound) (perRotationNonneg : 0 ≤ perRotation) :
    ∃ (layers : List Layer) (count tGates rotationGates : Int),
      program.executed = .ok layers ∧
      factoryCount program optimization (some factory) = .ok count ∧
      program.tGates = .ok tGates ∧ program.rotationGates = .ok rotationGates ∧
      (∀ layer ∈ layers,
        let parallel := parallelIn optimization factory.statesPerRound layer
        let states := layerRounds optimization factory.statesPerRound perRotation layer
        (∀ nodes ∈ states, (served parallel nodes : Int) ≤ count * factory.statesPerRound) ∧
          layer.tStates + perRotation * layer.rotations ≤
            states.length * (count * factory.statesPerRound)) ∧
      tGates + perRotation * rotationGates ≤
        totalRounds optimization factory.statesPerRound perRotation layers *
          (count * factory.statesPerRound) ∧
      ∀ (layout : Layout Rat) (distance : Int), layout.distance = some (distance : Rat) →
        1 ≤ distance → layout.factory = some factory → 0 ≤ factory.cycles →
        (allocation program optimization layout perRotation >>= exclusive [tMeasurement]) =
          .ok (2 * distance *
            totalRounds optimization factory.statesPerRound perRotation layers) := by
  obtain ⟨layers, executes⟩ := schedulable.executes
  have wellFormed := schedulable.wellFormed
  have nonneg := CompiledProgram.layer_nonneg_executed executes wellFormed
  obtain ⟨count, counted, enough⟩ := exists_factoryCount program optimization factory layers
    schedulable executes chosen capacity
  have rounds : ∀ layer ∈ layers,
      ∀ nodes ∈ layerRounds optimization factory.statesPerRound perRotation layer,
        (served (parallelIn optimization factory.statesPerRound layer) nodes : Int) ≤
          count * factory.statesPerRound := by
    intro layer member nodes inside
    obtain ⟨busy, within⟩ := served_le_width optimization factory.statesPerRound perRotation
      (nonneg layer member) capacity nodes inside
    exact Int.le_trans within (enough layer member busy)
  have each : ∀ layer ∈ layers, layer.tStates + perRotation * layer.rotations ≤
      (layerRounds optimization factory.statesPerRound perRotation layer).length *
        (count * factory.statesPerRound) := by
    intro layer member
    apply Int.le_trans (needed_le_served optimization factory.statesPerRound perRotation
      (nonneg layer member))
    exact sum_served_le _ _ _ (rounds layer member)
  refine ⟨layers, count, _, _, executes, counted,
    CompiledProgram.tGates_executed executes wellFormed,
    CompiledProgram.rotationGates_executed executes wellFormed,
    fun layer member => ⟨rounds layer member, each layer member⟩,
    totals_within _ _ _ _ _ each, ?_⟩
  intro layout distance atDistance distancePos equipped cyclesNonneg
  rw [allocation_executed optimization factory distance perRotation factory.cycles distancePos rfl
    cyclesNonneg capacity perRotationNonneg program layout layers wellFormed executes chosen
    atDistance equipped, Calc.ok_bind, exclusive_measurement,
    sum_measurement _ _ _ _ _ _ nonneg capacity perRotationNonneg]
  rfl

/-- Three rotations of four states each and a T gate, run twice: two factories of three states serve
four nodes at once. -/
theorem two_factories_supply_schedule :
    ∃ layers : List Layer,
      CompiledProgram.executed ⟨[⟨3, 2, [4, 1], [1, 0], [3, 0]⟩], 1, fun _ => .ok [0, -1]⟩ =
        .ok layers ∧
      factoryCount ⟨[⟨3, 2, [4, 1], [1, 0], [3, 0]⟩], 1, fun _ => .ok [0, -1]⟩ .time
        (some (⟨"factory", 0, none, 10, 11, 3⟩ : MagicStateFactory Rat)) = .ok 2 ∧
      (∀ layer ∈ layers, ∀ nodes ∈ layerRounds .time 3 4 layer,
        (served (parallelIn .time 3 layer) nodes : Int) ≤ 2 * 3) ∧
      (2 : Int) + 4 * 6 ≤ totalRounds .time 3 4 layers * (2 * 3) ∧
      (allocation ⟨[⟨3, 2, [4, 1], [1, 0], [3, 0]⟩], 1, fun _ => .ok [0, -1]⟩ .time
        { distance := some (5 : Rat), factory := some ⟨"factory", 0, none, 10, 11, 3⟩ } 4 >>=
          exclusive [tMeasurement]) = .ok (2 * 5 * totalRounds .time 3 4 layers) := by
  obtain ⟨layers, count, tGates, rotationGates, executes, counted, states, rotations, each, totals,
      scheduled⟩ :=
    factories_supply_schedule ⟨[⟨3, 2, [4, 1], [1, 0], [3, 0]⟩], 1, fun _ => .ok [0, -1]⟩ .time
      ⟨"factory", 0, none, 10, 11, 3⟩ 4
      ⟨by decide, by decide, [0, -1], rfl, by decide⟩
      (Or.inr rfl) (by decide) (by decide)
  have two : count = 2 := by
    have computed : factoryCount ⟨[⟨3, 2, [4, 1], [1, 0], [3, 0]⟩], 1, fun _ => .ok [0, -1]⟩ .time
        (some (⟨"factory", 0, none, 10, 11, 3⟩ : MagicStateFactory Rat)) = .ok 2 := by
      decide +kernel
    exact Except.ok.inj (counted.symm.trans computed)
  cases Except.ok.inj (states.symm.trans rfl)
  cases Except.ok.inj (rotations.symm.trans rfl)
  subst two
  exact ⟨layers, executes, counted, fun layer member => (each layer member).1, totals,
    scheduled { distance := some 5, factory := some ⟨"factory", 0, none, 10, 11, 3⟩ } 5 rfl
      (by decide) rfl (by decide)⟩

end QuantumResources.Schedule
