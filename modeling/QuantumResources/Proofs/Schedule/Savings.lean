import Mathlib.Algebra.Order.BigOperators.Group.List
import QuantumResources.Proofs.Schedule.ClosedForm

/-! How long a schedule is that saves time.

When all nodes of a layer are measured at once, its rounds are those of a rotation, whatever a
factory makes in one round. No other number of parallel measurements takes fewer rounds. A longer
distillation then makes the schedule longer, unless it is hidden behind the preparation of graph
states. -/

namespace QuantumResources.Schedule

/-! ## Rounds -/

theorem ceilQuotient_le (dividend divisor bound : Int) (positive : 1 ≤ divisor)
    (within : dividend ≤ divisor * bound) : ceilQuotient dividend divisor ≤ bound := by
  unfold ceilQuotient
  apply Int.le_of_lt_add_one
  apply (Int.ediv_lt_iff_lt_mul (by omega)).mpr
  linarith [Int.mul_comm divisor bound]

theorem ceilQuotient_nonneg (dividend divisor : Int) (positive : 1 ≤ divisor)
    (nonneg : 0 ≤ dividend) : 0 ≤ ceilQuotient dividend divisor :=
  Int.ediv_nonneg (by omega) (by omega)

/-- Rounds of a layer all of whose nodes are measured at once. -/
def fewestRounds (perRotation : Int) (layer : Layer) : Int :=
  if 0 < layer.rotations then max 1 perRotation else 1

theorem one_le_fewestRounds (perRotation : Int) (layer : Layer) :
    1 ≤ fewestRounds perRotation layer := by
  unfold fewestRounds
  split <;> omega

section Rounds

variable (parallel perRotation : Int) {layer : Layer} (nonneg : layer.Nonneg)
  (capacity : 1 ≤ parallel) (perRotationNonneg : 0 ≤ perRotation)

include nonneg capacity perRotationNonneg

theorem roundCount_of_wide (wide : layer.tStates + layer.rotations ≤ parallel) :
    roundCount parallel perRotation layer = fewestRounds perRotation layer := by
  obtain ⟨tStates, rotations, tocks⟩ := layer
  have states : 0 ≤ tStates := nonneg.tStates
  have many : 0 ≤ rotations := nonneg.rotations
  dsimp only at wide
  simp only [roundCount, fewestRounds]
  rcases Int.lt_or_eq_of_le (show rotations ≤ parallel by omega) with part | full
  · rw [Int.ediv_eq_zero_of_lt many part, Int.emod_eq_of_lt many part, Int.zero_mul, Int.zero_add]
    by_cases some : 0 < rotations
    · have product : rotations * perRotation + tStates ≤ parallel * max 1 perRotation := by
        have least : 1 ≤ max 1 perRotation := Int.le_max_left _ _
        calc rotations * perRotation + tStates
          _ ≤ rotations * max 1 perRotation + tStates * max 1 perRotation := by
            have first := Int.mul_le_mul_of_nonneg_left (Int.le_max_right 1 perRotation) many
            have second := Int.mul_le_mul_of_nonneg_left least states
            omega
          _ = (tStates + rotations) * max 1 perRotation := by ring
          _ ≤ parallel * max 1 perRotation := Int.mul_le_mul_of_nonneg_right wide (by omega)
      have bound := ceilQuotient_le _ _ _ capacity product
      rw [if_pos some, if_pos some]
      omega
    · have bound := ceilQuotient_le tStates parallel 1 capacity (by omega)
      rw [if_neg some, if_neg some]
      omega
  · have none : tStates = 0 := by omega
    have zero : ceilQuotient 0 parallel = 0 :=
      Int.le_antisymm (ceilQuotient_le _ _ _ capacity (by omega))
        (ceilQuotient_nonneg _ _ capacity (by omega))
    subst full none
    rw [Int.ediv_self (by omega), Int.emod_self, if_neg (by omega), if_pos (by omega), zero,
      Int.one_mul, Int.add_zero]

theorem fewestRounds_le :
    fewestRounds perRotation layer ≤ roundCount parallel perRotation layer := by
  have blocksNonneg : 0 ≤ layer.rotations / parallel :=
    Int.ediv_nonneg nonneg.rotations (by omega)
  have blockRounds : 0 ≤ layer.rotations / parallel * perRotation :=
    Int.mul_nonneg blocksNonneg perRotationNonneg
  have stateRounds := ceilQuotient_nonneg layer.tStates parallel capacity nonneg.tStates
  simp only [roundCount, fewestRounds]
  by_cases part : 0 < layer.rotations % parallel
  · rw [if_pos part]
    split <;> omega
  · rw [if_neg part]
    split
    · next some =>
      -- Without a rest there is a full block, and it takes the rounds of a rotation.
      have blocks : 1 ≤ layer.rotations / parallel := by
        have divided := Int.mul_ediv_add_emod layer.rotations parallel
        have rest := Int.emod_nonneg layer.rotations (show parallel ≠ 0 by omega)
        by_contra few
        have empty : layer.rotations / parallel = 0 := by omega
        rw [empty] at divided
        omega
      have oneBlock := Int.mul_le_mul_of_nonneg_right blocks perRotationNonneg
      omega
    · omega

end Rounds

theorem roundCount_time (statesPerRound perRotation : Int) {layer : Layer} (nonneg : layer.Nonneg)
    (capacity : 1 ≤ statesPerRound) (perRotationNonneg : 0 ≤ perRotation) :
    roundCount (parallelIn .time statesPerRound layer) perRotation layer =
      fewestRounds perRotation layer :=
  roundCount_of_wide _ _ nonneg (parallelIn_pos _ _ _ capacity) perRotationNonneg
    (Int.le_max_left _ _)

/-! ## Cycles of a layer -/

variable {R : Type} [CommRing R] [LinearOrder R] [IsStrictOrderedRing R] (distance : Int)
  (perRotation : Int) (distancePos : 1 ≤ distance) (perRotationNonneg : 0 ≤ perRotation)

section Layers

variable {layer : Layer} (nonneg : layer.Nonneg)

include perRotationNonneg nonneg

omit [IsStrictOrderedRing R] in
theorem layerTotal_time (cycles : R) (statesPerRound : Int) (capacity : 1 ≤ statesPerRound)
    (busy : ¬ layer.Idle) :
    layerTotal .time distance cycles statesPerRound perRotation layer =
      max cycles ((layer.tocks * distance : Int) : R) +
        ((fewestRounds perRotation layer : R) - 1) * cycles +
        2 * distance * (fewestRounds perRotation layer : R) := by
  simp only [layerTotal]
  rw [if_neg busy, roundCount_time _ _ nonneg capacity perRotationNonneg]

include distancePos in
theorem layerTotal_time_le (optimization : Optimization) (cycles : R) (statesPerRound : Int)
    (capacity : 1 ≤ statesPerRound) (cyclesNonneg : 0 ≤ cycles) :
    layerTotal .time distance cycles statesPerRound perRotation layer ≤
      layerTotal optimization distance cycles statesPerRound perRotation layer := by
  simp only [layerTotal]
  split
  · exact le_rfl
  · have fewer : (roundCount (parallelIn .time statesPerRound layer) perRotation layer : R) ≤
        roundCount (parallelIn optimization statesPerRound layer) perRotation layer := by
      rw [roundCount_time _ _ nonneg capacity perRotationNonneg]
      exact_mod_cast fewestRounds_le _ _ nonneg (parallelIn_pos _ _ _ capacity) perRotationNonneg
    have measurement : (0 : R) ≤ 2 * distance := by
      have positive : (0 : R) ≤ distance := by exact_mod_cast Int.le_of_lt distancePos
      linarith
    have distilled := mul_le_mul_of_nonneg_right fewer cyclesNonneg
    have measured := mul_le_mul_of_nonneg_left fewer measurement
    linarith

/-- The distillation of a layer ends before its graph state is ready, and there is one round. -/
def Hidden (distance perRotation : Int) (cycles : R) (layer : Layer) : Prop :=
  fewestRounds perRotation layer = 1 ∧ cycles ≤ ((layer.tocks * distance : Int) : R)

variable (cycles other : R) (statesPerRound otherStates : Int) (capacity : 1 ≤ statesPerRound)
  (otherCapacity : 1 ≤ otherStates)

include capacity otherCapacity

theorem layerTotal_time_mono (order : cycles ≤ other) :
    layerTotal .time distance cycles statesPerRound perRotation layer ≤
      layerTotal .time distance other otherStates perRotation layer := by
  by_cases idle : layer.Idle
  · simp only [layerTotal, if_pos idle, le_refl]
  · rw [layerTotal_time _ _ perRotationNonneg nonneg _ _ capacity idle,
      layerTotal_time _ _ perRotationNonneg nonneg _ _ otherCapacity idle]
    have later : (0 : R) ≤ (fewestRounds perRotation layer : R) - 1 := by
      rw [sub_nonneg]
      exact_mod_cast one_le_fewestRounds perRotation layer
    have first := max_le_max_right ((layer.tocks * distance : Int) : R) order
    have repeated := mul_le_mul_of_nonneg_left order later
    linarith

theorem layerTotal_time_lt (order : other < cycles)
    (busy : ¬ layer.Idle)
    (shown : ¬ Hidden distance perRotation cycles layer) :
    layerTotal .time distance other otherStates perRotation layer <
      layerTotal .time distance cycles statesPerRound perRotation layer := by
  rw [layerTotal_time _ _ perRotationNonneg nonneg _ _ capacity busy,
    layerTotal_time _ _ perRotationNonneg nonneg _ _ otherCapacity busy]
  have first := max_le_max_right ((layer.tocks * distance : Int) : R) order.le
  have least := one_le_fewestRounds perRotation layer
  rcases Int.lt_or_eq_of_le least with several | one
  · have later : (0 : R) < (fewestRounds perRotation layer : R) - 1 := by
      rw [sub_pos]
      exact_mod_cast several
    have repeated := mul_lt_mul_of_pos_left order later
    linarith
  · have waits : ((layer.tocks * distance : Int) : R) < cycles := by
      by_contra within
      exact shown ⟨one.symm, not_lt.mp within⟩
    have longer : max other ((layer.tocks * distance : Int) : R) <
        max cycles ((layer.tocks * distance : Int) : R) :=
      lt_of_lt_of_le (max_lt order waits) (le_max_left _ _)
    rw [← one]
    simp only [Int.cast_one, sub_self, zero_mul]
    linarith

omit [IsStrictOrderedRing R] in
theorem layerTotal_time_hidden (order : other ≤ cycles)
    (hidden : ¬ layer.Idle →
      Hidden distance perRotation cycles layer) :
    layerTotal .time distance cycles statesPerRound perRotation layer =
      layerTotal .time distance other otherStates perRotation layer := by
  by_cases idle : layer.Idle
  · simp only [layerTotal, if_pos idle]
  · obtain ⟨one, within⟩ := hidden idle
    rw [layerTotal_time _ _ perRotationNonneg nonneg _ _ capacity idle,
      layerTotal_time _ _ perRotationNonneg nonneg _ _ otherCapacity idle, one,
      max_eq_right within, max_eq_right (order.trans within)]
    simp

end Layers

/-! ## Cycles of a schedule -/

/-- Of two factories, the one with the shorter distillation has the shorter schedule, and the other
one as short a schedule only where its distillation is hidden in every layer. -/
theorem sum_time_le_iff (layers : List Layer) (nonneg : ∀ layer ∈ layers, layer.Nonneg)
    (perRotationNonneg : 0 ≤ perRotation) (cycles other : R) (statesPerRound otherStates : Int)
    (capacity : 1 ≤ statesPerRound) (otherCapacity : 1 ≤ otherStates) :
    (layers.map (layerTotal .time distance cycles statesPerRound perRotation)).sum ≤
        (layers.map (layerTotal .time distance other otherStates perRotation)).sum ↔
      cycles ≤ other ∨ ∀ layer ∈ layers, ¬ layer.Idle →
        Hidden distance perRotation cycles layer := by
  constructor
  · intro within
    by_contra neither
    obtain ⟨longer, shown⟩ := not_or.mp neither
    have order : other < cycles := not_le.mp longer
    push Not at shown
    obtain ⟨layer, member, busy, visible⟩ := shown
    have strict : (layers.map (layerTotal .time distance other otherStates perRotation)).sum <
        (layers.map (layerTotal .time distance cycles statesPerRound perRotation)).sum := by
      apply List.sum_lt_sum
      · intro layer member
        exact layerTotal_time_mono distance perRotation perRotationNonneg (nonneg layer member)
          other cycles otherStates statesPerRound otherCapacity capacity order.le
      · exact ⟨layer, member, layerTotal_time_lt distance perRotation perRotationNonneg
          (nonneg layer member) cycles other statesPerRound otherStates capacity otherCapacity order
          busy visible⟩
    exact absurd within (not_le.mpr strict)
  · intro either
    apply List.sum_le_sum
    intro layer member
    rcases le_total cycles other with order | order
    · exact layerTotal_time_mono distance perRotation perRotationNonneg (nonneg layer member)
        cycles other statesPerRound otherStates capacity otherCapacity order
    · rcases either with also | hidden
      · rw [le_antisymm also order]
        exact layerTotal_time_mono distance perRotation perRotationNonneg (nonneg layer member)
          other other statesPerRound otherStates capacity otherCapacity le_rfl
      · exact (layerTotal_time_hidden distance perRotation perRotationNonneg (nonneg layer member)
          cycles other statesPerRound otherStates capacity otherCapacity order
          (hidden layer member)).le

end QuantumResources.Schedule
