import QuantumResources.Proofs.Allocation.Spending
import QuantumResources.Schedule

/-! What the schedule logs for each layer of a compiled subroutine.

The counts of a layer stand in three lists of its subroutine. Once they are read, what is logged
depends on the layer alone, so a subroutine logs its layers one after the other. -/

namespace QuantumResources

/-- What one layer of a compiled subroutine prepares and consumes. -/
structure Layer where
  tStates : Int
  rotations : Int
  tocks : Int
  deriving DecidableEq, Repr

/-- A layer that consumes no T states. -/
abbrev Layer.Idle (layer : Layer) : Prop := layer.tStates = 0 ∧ layer.rotations = 0

structure Layer.Nonneg (layer : Layer) : Prop where
  tStates : 0 ≤ layer.tStates
  rotations : 0 ≤ layer.rotations
  tocks : 0 ≤ layer.tocks

namespace CompiledSubroutine

def layers (subroutine : CompiledSubroutine) : List Layer :=
  (subroutine.tStates.zip (subroutine.rotations.zip subroutine.tocks)).map fun entry =>
    ⟨entry.1, entry.2.1, entry.2.2⟩

/-- Every layer has its three counts, and none of them is negative. -/
structure WellFormed (subroutine : CompiledSubroutine) : Prop where
  tStates_length : (subroutine.tStates.length : Int) = subroutine.layerCount
  rotations_length : (subroutine.rotations.length : Int) = subroutine.layerCount
  tocks_length : (subroutine.tocks.length : Int) = subroutine.layerCount
  tStates_nonneg : ∀ count ∈ subroutine.tStates, 0 ≤ count
  rotations_nonneg : ∀ count ∈ subroutine.rotations, 0 ≤ count
  tocks_nonneg : ∀ count ∈ subroutine.tocks, 0 ≤ count

instance (subroutine : CompiledSubroutine) : Decidable subroutine.WellFormed :=
  decidable_of_iff (_ ∧ _ ∧ _ ∧ _ ∧ _ ∧ _)
    ⟨fun all => ⟨all.1, all.2.1, all.2.2.1, all.2.2.2.1, all.2.2.2.2.1, all.2.2.2.2.2⟩,
      fun formed => ⟨formed.1, formed.2, formed.3, formed.4, formed.5, formed.6⟩⟩

theorem layers_length (subroutine : CompiledSubroutine) (wellFormed : subroutine.WellFormed) :
    subroutine.layers.length = subroutine.layerCount.toNat := by
  have tStates := wellFormed.tStates_length
  have rotations := wellFormed.rotations_length
  have tocks := wellFormed.tocks_length
  simp only [layers, List.length_map, List.length_zip]
  omega

theorem layers_getElem? (subroutine : CompiledSubroutine) (place : Nat) (layer : Layer)
    (found : subroutine.layers[place]? = some layer) :
    subroutine.tStates[place]? = some layer.tStates ∧
      subroutine.rotations[place]? = some layer.rotations ∧
      subroutine.tocks[place]? = some layer.tocks := by
  rw [layers, List.getElem?_map] at found
  obtain ⟨entry, zipped, rfl⟩ := Option.map_eq_some_iff.mp found
  obtain ⟨tStates, later⟩ := List.getElem?_zip_eq_some.mp zipped
  obtain ⟨rotations, tocks⟩ := List.getElem?_zip_eq_some.mp later
  exact ⟨tStates, rotations, tocks⟩

end CompiledSubroutine

namespace Schedule

open Allocation

/-! ## Reading a layer -/

/-- The counts of a layer are read from the three lists of its subroutine. -/
structure Reads (subroutine : CompiledSubroutine) (place : Nat) (layer : Layer) : Prop where
  tStates : ofLayer subroutine.tStates place = .ok layer.tStates
  rotations : ofLayer subroutine.rotations place = .ok layer.rotations
  tocks : ofLayer subroutine.tocks place = .ok layer.tocks
  tStates_nonneg : 0 ≤ layer.tStates
  rotations_nonneg : 0 ≤ layer.rotations
  tocks_nonneg : 0 ≤ layer.tocks

theorem reads_layer (subroutine : CompiledSubroutine) (wellFormed : subroutine.WellFormed)
    (place : Nat) (layer : Layer) (found : subroutine.layers[place]? = some layer) :
    Reads subroutine place layer := by
  obtain ⟨tStates, rotations, tocks⟩ := subroutine.layers_getElem? place layer found
  exact {
    tStates := pick_natCast _ _ _ tStates
    rotations := pick_natCast _ _ _ rotations
    tocks := pick_natCast _ _ _ tocks
    tStates_nonneg := wellFormed.tStates_nonneg _ (List.mem_of_getElem? tStates)
    rotations_nonneg := wellFormed.rotations_nonneg _ (List.mem_of_getElem? rotations)
    tocks_nonneg := wellFormed.tocks_nonneg _ (List.mem_of_getElem? tocks) }

theorem layer_nonneg (subroutine : CompiledSubroutine) (wellFormed : subroutine.WellFormed)
    (layer : Layer) (member : layer ∈ subroutine.layers) : layer.Nonneg := by
  obtain ⟨place, found⟩ := List.getElem?_of_mem member
  have reads := reads_layer subroutine wellFormed place layer found
  exact ⟨reads.tStates_nonneg, reads.rotations_nonneg, reads.tocks_nonneg⟩

/-- How many T measurements of a layer run in parallel. -/
def parallelIn (optimization : Optimization) (statesPerRound : Int) (layer : Layer) : Int :=
  match optimization with
  | .time => max (layer.tStates + layer.rotations) statesPerRound
  | _ => statesPerRound

theorem parallelIn_pos (optimization : Optimization) (statesPerRound : Int) (layer : Layer)
    (capacity : 1 ≤ statesPerRound) : 1 ≤ parallelIn optimization statesPerRound layer := by
  unfold parallelIn
  split <;> omega

theorem parallelMeasurements_eq {α : Type} (optimization : Optimization)
    (factory : MagicStateFactory α) (layer : Layer)
    (chosen : optimization = .space ∨ optimization = .time) :
    parallelMeasurements optimization factory layer.tStates layer.rotations =
      .ok (parallelIn optimization factory.statesPerRound layer) := by
  rcases chosen with rfl | rfl <;> rfl

/-! ## Logging a layer -/

variable {α : Type} [Arithmetic α]

/-- What is logged for a layer, once its counts have been read. -/
def logged (optimization : Optimization) (distance : Int) (factory : Option (MagicStateFactory α))
    (perRotation : Int) (layer : Layer) : Step α Unit :=
  if layer.Idle then
    log (Arithmetic.ofInt (layer.tocks * distance)) [graphStatePrep]
  else
    match factory with
    | none => throw .factoryNeeded
    | some factory => do
      let parallel := parallelIn optimization factory.statesPerRound layer
      let nodes := needed layer.tStates layer.rotations perRotation
      logParallel [factory.cycles, Arithmetic.ofInt (layer.tocks * distance)]
        [distillation, graphStatePrep]
      log (Arithmetic.ofInt (2 * distance)) [tMeasurement]
      logRounds factory.cycles (Arithmetic.ofInt (2 * distance))
        (rounds parallel (consume parallel nodes))

theorem logged_idle (optimization : Optimization) (distance : Int)
    (factory : Option (MagicStateFactory α)) (perRotation : Int) (layer : Layer)
    (idle : layer.Idle) :
    logged optimization distance factory perRotation layer =
      log (Arithmetic.ofInt (layer.tocks * distance)) [graphStatePrep] := by
  unfold logged
  rw [if_pos idle]

theorem logged_without (optimization : Optimization) (distance perRotation : Int) (layer : Layer)
    (busy : ¬ layer.Idle) :
    logged (α := α) optimization distance none perRotation layer = throw .factoryNeeded := by
  unfold logged
  rw [if_neg busy]

variable [ExactWholes α]

theorem logBusyLayer_eq (optimization : Optimization) (distance : Int)
    (factory : MagicStateFactory α) (perRotation : Int) (subroutine : CompiledSubroutine)
    (place : Nat) (layer : Layer) (reads : Reads subroutine place layer)
    (chosen : optimization = .space ∨ optimization = .time)
    (busy : ¬ layer.Idle) :
    logBusyLayer optimization (Arithmetic.ofInt distance) factory perRotation layer.tStates
        subroutine place = logged optimization distance (some factory) perRotation layer := by
  unfold logBusyLayer logged
  rw [if_neg busy]
  rcases chosen with rfl | rfl
  all_goals
    dsimp only
    rw [lift_bind _ reads.rotations,
      lift_bind _ (parallelMeasurements_eq _ factory layer (by simp)), lift_bind _ reads.tocks,
      lift_bind _ (ExactWholes.mul_ofInt layer.tocks distance),
      lift_bind _ (ExactWholes.mul_ofInt 2 distance)]

theorem logLayer_eq (optimization : Optimization) (distance : Int)
    (factory : Option (MagicStateFactory α)) (perRotation : Int) (subroutine : CompiledSubroutine)
    (place : Nat) (layer : Layer) (reads : Reads subroutine place layer)
    (chosen : optimization = .space ∨ optimization = .time) :
    logLayer optimization (Arithmetic.ofInt distance) factory perRotation subroutine place =
      logged optimization distance factory perRotation layer := by
  unfold logLayer
  rw [lift_bind _ reads.tStates]
  by_cases noStates : layer.tStates = 0
  · simp only [if_pos noStates, bind_assoc, pure_bind]
    rw [lift_bind _ reads.rotations]
    by_cases noRotations : layer.rotations = 0
    · simp only [noRotations, beq_self_eq_true, ↓reduceIte]
      rw [lift_bind _ reads.tocks, lift_bind _ (ExactWholes.mul_ofInt layer.tocks distance),
        logged_idle _ _ _ _ _ ⟨noStates, noRotations⟩]
    · have notIdle : (layer.rotations == 0) = false := beq_false_of_ne noRotations
      have busy : ¬ layer.Idle := fun both => noRotations both.2
      simp only [notIdle, Bool.false_eq_true, ↓reduceIte]
      cases factory with
      | none => exact (logged_without _ _ _ _ busy).symm
      | some factory => exact logBusyLayer_eq _ _ _ _ _ _ _ reads chosen busy
  · have busy : ¬ layer.Idle := fun both => noStates both.1
    simp only [if_neg noStates, pure_bind, Bool.false_eq_true, ↓reduceIte]
    cases factory with
    | none => exact (logged_without _ _ _ _ busy).symm
    | some factory => exact logBusyLayer_eq _ _ _ _ _ _ _ reads chosen busy

/-- The layers are logged one after the other, and nothing else is. -/
theorem subroutineAllocation_layers (optimization : Optimization) (distance : Int)
    (factory : Option (MagicStateFactory α)) (perRotation : Int) (subroutine : CompiledSubroutine)
    (wellFormed : subroutine.WellFormed)
    (chosen : optimization = .space ∨ optimization = .time) :
    subroutineAllocation optimization (Arithmetic.ofInt distance) factory perRotation subroutine =
      let ended := Step.run
        (subroutine.layers.forM (logged optimization distance factory perRotation)) cycles
      ended.1.map fun _ => ended.2 := by
  have layers := forM_range subroutine.layers
    (logLayer optimization (Arithmetic.ofInt distance) factory perRotation subroutine)
    (logged optimization distance factory perRotation)
    fun place layer found => logLayer_eq _ _ _ _ _ _ _
      (reads_layer subroutine wellFormed place layer found) chosen
  rw [subroutine.layers_length wellFormed] at layers
  simp only [subroutineAllocation, layers]
  rcases Step.run _ cycles with ⟨outcome | outcome, after⟩ <;> rfl

end Schedule

end QuantumResources
