import QuantumResources.Proofs.CompiledProgram

/-! The cycles of a compiled program in closed form.

Each layer costs a fixed number of cycles for every combination of processes. The schedule of a
program is the sum of these over the subroutines that run and over their layers, and it is as long
as the layers are one after the other. -/

namespace QuantumResources

namespace Schedule

open Allocation

/-! ## The closed form -/

/-- The least whole number not below a quotient. -/
def ceilQuotient (dividend divisor : Int) : Int := (dividend + divisor - 1) / divisor

/-- Rounds of T measurements in a layer. There is always one. -/
def roundCount (parallel perRotation : Int) (layer : Layer) : Int :=
  let blocks := layer.rotations / parallel
  let left := layer.rotations % parallel
  max 1 (blocks * perRotation +
    if 0 < left then
      max perRotation (ceilQuotient (left * perRotation + layer.tStates) parallel)
    else ceilQuotient layer.tStates parallel)

/-- Cycles of a layer during which exactly the processes of a combination run. -/
def layerCycles (optimization : Optimization) (distance distillationTime statesPerRound
    perRotation : Int) (layer : Layer) (combination : List String) : Int :=
  let preparation := layer.tocks * distance
  if layer.tStates = 0 ∧ layer.rotations = 0 then share preparation [graphStatePrep] combination
  else
    let count := roundCount (parallelIn optimization statesPerRound layer) perRotation layer
    share (min distillationTime preparation) [distillation, graphStatePrep] combination +
      share (max (preparation - distillationTime) 0) [graphStatePrep] combination +
      share (max (distillationTime - preparation) 0 + (count - 1) * distillationTime)
        [distillation] combination +
      share (2 * distance * count) [tMeasurement] combination

/-- Cycles of all layers of a subroutine. -/
def subroutineCycles (optimization : Optimization) (distance distillationTime statesPerRound
    perRotation : Int) (subroutine : CompiledSubroutine) (combination : List String) : Int :=
  tally (subroutine.layers.map fun layer =>
    layerCycles optimization distance distillationTime statesPerRound perRotation layer combination)

/-! ## Rounds -/

theorem natCast_ceilDiv (count parallel : Nat) (capacity : 0 < parallel) :
    ((count ⌈/⌉ parallel : Nat) : Int) = ceilQuotient count parallel := by
  rw [Nat.ceilDiv_eq_add_pred_div, ceilQuotient, Int.natCast_ediv]
  congr 1
  omega

theorem rounds_needed (parallel perRotation : Int) (layer : Layer) (capacity : 1 ≤ parallel)
    (perRotationNonneg : 0 ≤ perRotation) (tStatesNonneg : 0 ≤ layer.tStates)
    (rotationsNonneg : 0 ≤ layer.rotations) :
    (rounds parallel (consume parallel (needed layer.tStates layer.rotations perRotation)) : Int) =
      roundCount parallel perRotation layer - 1 := by
  obtain ⟨width, rfl⟩ := Int.eq_ofNat_of_zero_le (show 0 ≤ parallel by omega)
  obtain ⟨each, rfl⟩ := Int.eq_ofNat_of_zero_le perRotationNonneg
  obtain ⟨tStates, rotations, tocks⟩ := layer
  obtain ⟨single, rfl⟩ := Int.eq_ofNat_of_zero_le tStatesNonneg
  obtain ⟨many, rfl⟩ := Int.eq_ofNat_of_zero_le rotationsNonneg
  have widthPos : 0 < width := by omega
  have nonneg : ∀ entry ∈ needed single many each, 0 ≤ entry := by
    intro entry member
    rcases List.mem_append.mp member with rotation | gate
    · rw [List.eq_of_mem_replicate rotation]
      omega
    · rw [List.eq_of_mem_replicate gate]
      decide
  have first := rounds_consume width (needed single many each) nonneg
  have all : rounds width (needed single many each) = _ :=
    rounds_layer width single many each widthPos
  rw [all] at first
  have count : ((rounds width (consume width (needed single many each)) + 1 : Nat) : Int) =
      roundCount width each ⟨single, many, tocks⟩ := by
    rw [first, roundCount]
    push_cast
    by_cases part : 0 < many % width
    · have castPart : 0 < (many : Int) % (width : Int) := by omega
      rw [if_pos part, if_pos castPart]
      push_cast [natCast_ceilDiv _ _ widthPos]
      rfl
    · have castPart : ¬ 0 < (many : Int) % (width : Int) := by omega
      rw [if_neg part, if_neg castPart]
      push_cast [natCast_ceilDiv _ _ widthPos]
      rfl
  rw [← count]
  push_cast
  exact (Int.add_sub_cancel _ 1).symm

/-! ## Layers -/

variable {R α : Type} [CommRing R] [LinearOrder R] [IsStrictOrderedRing R] [Arithmetic α]
  [Exact R α]

/-- Cycles of a layer for every combination, where a distillation takes any exact time. -/
def layerCost (optimization : Optimization) (distance : Int) (cycles : R)
    (statesPerRound perRotation : Int) (layer : Layer) (combination : List String) : R :=
  let preparation : R := ((layer.tocks * distance : Int) : R)
  if layer.Idle then portion preparation [graphStatePrep] combination
  else
    let count : R := roundCount (parallelIn optimization statesPerRound layer) perRotation layer
    portion (min cycles preparation) [distillation, graphStatePrep] combination +
      portion (max (preparation - cycles) 0) [graphStatePrep] combination +
      portion (max (cycles - preparation) 0 + (count - 1) * cycles) [distillation] combination +
      portion (2 * distance * count) [tMeasurement] combination

theorem layerCycles_eq (optimization : Optimization) (distance distillationTime statesPerRound
    perRotation : Int) (layer : Layer) :
    layerCycles optimization distance distillationTime statesPerRound perRotation layer =
      layerCost optimization distance distillationTime statesPerRound perRotation layer := by
  funext combination
  simp only [layerCycles, layerCost, share_eq, Int.cast_id]

/-- Cycles of a layer: the first states are distilled while its graph state is prepared, and each
further round waits for a distillation. -/
def layerTotal (optimization : Optimization) (distance : Int) (cycles : R)
    (statesPerRound perRotation : Int) (layer : Layer) : R :=
  let preparation : R := ((layer.tocks * distance : Int) : R)
  if layer.Idle then preparation
  else
    let count : R := roundCount (parallelIn optimization statesPerRound layer) perRotation layer
    max cycles preparation + (count - 1) * cycles + 2 * distance * count

theorem overall_layerCost (optimization : Optimization) (distance : Int) (cycles : R)
    (statesPerRound perRotation : Int) (layer : Layer) :
    overall (layerCost optimization distance cycles statesPerRound perRotation layer) =
      layerTotal optimization distance cycles statesPerRound perRotation layer := by
  unfold layerCost layerTotal
  by_cases idle : layer.Idle
  · simp only [if_pos idle]
    exact overall_portion _ _ (by decide)
  · simp only [if_neg idle, overall_add]
    rw [overall_portion _ _ (by decide), overall_portion _ _ (by decide),
      overall_portion _ _ (by decide), overall_portion _ _ (by decide)]
    rcases le_total cycles ((layer.tocks * distance : Int) : R) with less | more
    · rw [min_eq_left less, max_eq_right less, max_eq_left (sub_nonneg.mpr less),
        max_eq_right (sub_nonpos.mpr less)]
      ring
    · rw [min_eq_right more, max_eq_left more, max_eq_right (sub_nonpos.mpr more),
        max_eq_left (sub_nonneg.mpr more)]
      ring

theorem logRounds_spends (cycles measurement : R) (count : Nat) (cyclesNonneg : 0 ≤ cycles)
    (measurementNonneg : 0 ≤ measurement) :
    Spends (logRounds (Exact.embed cycles : α) (Exact.embed measurement) count)
      fun combination =>
        portion (count * cycles) [distillation] combination +
          portion (count * measurement) [tMeasurement] combination := by
  induction count with
  | zero =>
    simp only [Nat.cast_zero, zero_mul, portion_zero, add_zero]
    exact spends_pure
  | succ count ih =>
    have distilled := log_spends (α := α) cycles [distillation] cyclesNonneg (by decide)
    have measured := log_spends (α := α) measurement [tMeasurement] measurementNonneg (by decide)
    have costs : (fun combination =>
        portion cycles [distillation] combination +
          (portion measurement [tMeasurement] combination +
            (portion (count * cycles) [distillation] combination +
              portion (count * measurement) [tMeasurement] combination))) =
        fun combination =>
          portion (((count + 1 : Nat) : R) * cycles) [distillation] combination +
            portion (((count + 1 : Nat) : R) * measurement) [tMeasurement] combination := by
      funext combination
      rw [Nat.cast_succ, add_mul, add_mul, portion_add, portion_add, one_mul, one_mul]
      ring
    rw [← costs]
    exact distilled.andThen (measured.andThen ih)

section Program

variable (optimization : Optimization) (factory : MagicStateFactory α) (distance perRotation : Int)
  (cycles : R) (distancePos : 1 ≤ distance) (timed : factory.cycles = Exact.embed cycles)
  (cyclesNonneg : 0 ≤ cycles) (capacity : 1 ≤ factory.statesPerRound)
  (perRotationNonneg : 0 ≤ perRotation)

include distancePos timed cyclesNonneg capacity perRotationNonneg

theorem logged_spends (layer : Layer) (nonneg : layer.Nonneg) :
    Spends (logged optimization distance (some factory) perRotation layer)
      (layerCost optimization distance cycles factory.statesPerRound perRotation layer) := by
  let parallel := parallelIn optimization factory.statesPerRound layer
  let preparation : R := ((layer.tocks * distance : Int) : R)
  let later := rounds parallel (consume parallel (needed layer.tStates layer.rotations perRotation))
  have preparationNonneg : 0 ≤ preparation :=
    Int.cast_nonneg (Int.mul_nonneg nonneg.tocks (by omega))
  have measurementNonneg : (0 : R) ≤ ((2 * distance : Int) : R) := Int.cast_nonneg (by omega)
  unfold logged
  by_cases idle : layer.Idle
  · have costs : layerCost optimization distance cycles factory.statesPerRound perRotation layer =
        portion preparation [graphStatePrep] := by
      funext combination
      rw [layerCost, if_pos idle]
    rw [if_pos idle, costs, ← Exact.embed_intCast (R := R)]
    exact log_spends _ _ preparationNonneg (by decide)
  · have together := logParallel_pair_spends (α := α) cycles preparation distillation
      graphStatePrep cyclesNonneg preparationNonneg (by decide) (by decide) (by decide)
    have measured := log_spends (α := α) _ [tMeasurement] measurementNonneg (by decide)
    have repeated := logRounds_spends (α := α) cycles _ later cyclesNonneg measurementNonneg
    have counted : (later : Int) = roundCount parallel perRotation layer - 1 :=
      rounds_needed parallel perRotation layer (parallelIn_pos _ _ _ capacity) perRotationNonneg
        nonneg.tStates nonneg.rotations
    have count : (roundCount parallel perRotation layer : R) = later + 1 := by
      rw [← sub_eq_iff_eq_add]
      exact_mod_cast (congrArg (Int.cast : Int → R) counted).symm
    have costs : layerCost optimization distance cycles factory.statesPerRound perRotation layer =
        fun combination =>
          portion (min cycles preparation) [distillation, graphStatePrep] combination +
            portion (max (preparation - cycles) 0) [graphStatePrep] combination +
            portion (max (cycles - preparation) 0) [distillation] combination +
            (portion ((2 * distance : Int) : R) [tMeasurement] combination +
              (portion (later * cycles) [distillation] combination +
                portion (later * ((2 * distance : Int) : R)) [tMeasurement] combination)) := by
      funext combination
      have measurements : 2 * (distance : R) * roundCount parallel perRotation layer =
          ((2 * distance : Int) : R) + later * ((2 * distance : Int) : R) := by
        rw [count, Int.cast_mul, Int.cast_ofNat]
        ring
      rw [layerCost, if_neg idle]
      change _ + portion (_ + ((roundCount parallel perRotation layer : R) - 1) * _) _ _ +
        portion (2 * (distance : R) * roundCount parallel perRotation layer) _ _ = _
      rw [measurements, count, add_sub_cancel_right, portion_add, portion_add]
      ring
    rw [if_neg idle, costs]
    simp only [timed, ← Exact.embed_intCast (R := R)]
    exact together.andThen (measured.andThen repeated)

/-! ## Subroutines and programs -/

variable [ExactWholes α]

theorem subroutineAllocation_eq (subroutine : CompiledSubroutine)
    (wellFormed : subroutine.WellFormed) (chosen : optimization = .space ∨ optimization = .time) :
    subroutineAllocation optimization (Arithmetic.ofInt distance : α) (some factory) perRotation
        subroutine =
      .ok (exactCycles fun combination => (subroutine.layers.map fun layer =>
        layerCost optimization distance cycles factory.statesPerRound perRotation layer
          combination).sum) := by
  have spent := spends_forM subroutine.layers
    (logged optimization distance (some factory) perRotation : Layer → Step α Unit) _
    fun layer member => logged_spends optimization factory distance perRotation cycles distancePos
      timed cyclesNonneg capacity perRotationNonneg layer
      (layer_nonneg subroutine wellFormed layer member)
  rw [subroutineAllocation_layers _ _ _ _ _ wellFormed chosen, cycles_eq R, spent]
  simp only [zero_add]
  rfl

omit distancePos timed cyclesNonneg capacity perRotationNonneg [ExactWholes α] in
/-- Adding up the allocations of the subroutines that run. -/
theorem foldlM_sum_exactCycles (subroutines running : List CompiledSubroutine)
    (sequence : List Int) (cost : CompiledSubroutine → List String → R)
    (amount : List String → R) (found : sequence.mapM (pick subroutines) = .ok running) :
    sequence.foldlM (fun (total : Allocation α) place => do
        Allocation.sum total
          (← pick (subroutines.map fun subroutine => exactCycles (cost subroutine)) place))
        (exactCycles amount) =
      .ok (exactCycles fun combination => amount combination +
        (running.map fun subroutine => cost subroutine combination).sum) := by
  induction sequence generalizing running amount with
  | nil =>
    cases found
    simp [pure, Except.pure]
  | cons place rest ih =>
    obtain ⟨first, later, picked, remaining, rfl⟩ := Calc.mapM_eq_ok_cons found
    rw [List.foldlM_cons, pick_map, picked]
    simp only [Functor.map, Except.map, Calc.ok_bind, sum_exactCycles]
    rw [ih later _ remaining]
    simp only [List.map_cons, List.sum_cons, add_assoc]

theorem allocation_executed (program : CompiledProgram) (layout : Layout α) (layers : List Layer)
    (wellFormed : ∀ subroutine ∈ program.subroutines, subroutine.WellFormed)
    (executes : program.executed = .ok layers)
    (chosen : optimization = .space ∨ optimization = .time)
    (atDistance : layout.distance = some (Arithmetic.ofInt distance))
    (equipped : layout.factory = some factory) :
    allocation program optimization layout perRotation =
      .ok (exactCycles fun combination => (layers.map fun layer =>
        layerCost optimization distance cycles factory.statesPerRound perRotation layer
          combination).sum) := by
  obtain ⟨sequence, running, ordered, found, rfl⟩ := CompiledProgram.executed_eq_ok.mp executes
  have each := Calc.mapM_eq_ok_map program.subroutines _ _ fun subroutine member =>
    subroutineAllocation_eq optimization factory distance perRotation cycles distancePos timed
      cyclesNonneg capacity perRotationNonneg subroutine (wellFormed subroutine member) chosen
  have added := foldlM_sum_exactCycles (α := α) program.subroutines running sequence
    (fun subroutine combination => (subroutine.layers.map fun layer =>
      layerCost optimization distance cycles factory.statesPerRound perRotation layer
        combination).sum) (fun _ => 0) found
  simp only [zero_add] at added
  rw [allocation, atDistance, equipped]
  simp only [each, ordered, Calc.ok_bind, cycles_eq R, sum_flatMap]
  exact added

/-- The cycles of the whole schedule. -/
theorem allocation_total (program : CompiledProgram) (layout : Layout α) (layers : List Layer)
    (wellFormed : ∀ subroutine ∈ program.subroutines, subroutine.WellFormed)
    (executes : program.executed = .ok layers)
    (chosen : optimization = .space ∨ optimization = .time)
    (atDistance : layout.distance = some (Arithmetic.ofInt distance))
    (equipped : layout.factory = some factory) :
    allocation program optimization layout perRotation >>= Allocation.total =
      .ok (Exact.embed (layers.map (layerTotal optimization distance cycles factory.statesPerRound
        perRotation)).sum) := by
  rw [allocation_executed optimization factory distance perRotation cycles distancePos timed
    cyclesNonneg capacity perRotationNonneg program layout layers wellFormed executes chosen
    atDistance equipped, Calc.ok_bind, total_exactCycles, overall_sum]
  simp only [overall_layerCost]

end Program

theorem allocation_eq [ExactWholes α] (program : CompiledProgram) (optimization : Optimization)
    (layout : Layout α) (factory : MagicStateFactory α)
    (distance distillationTime perRotation : Int) (sequence : List Int)
    (wellFormed : ∀ subroutine ∈ program.subroutines, subroutine.WellFormed)
    (ordered : program.sequence = .ok sequence)
    (valid : ∀ place ∈ sequence, ValidPlace program.subroutines.length place)
    (chosen : optimization = .space ∨ optimization = .time)
    (atDistance : layout.distance = some (Arithmetic.ofInt distance)) (distancePos : 1 ≤ distance)
    (equipped : layout.factory = some factory)
    (timed : factory.cycles = Arithmetic.ofInt distillationTime)
    (timeNonneg : 0 ≤ distillationTime) (capacity : 1 ≤ factory.statesPerRound)
    (perRotationNonneg : 0 ≤ perRotation) :
    ∃ running, sequence.mapM (pick program.subroutines) = .ok running ∧
      allocation program optimization layout perRotation =
        .ok (wholeCycles fun combination =>
          tally (running.map fun subroutine =>
            subroutineCycles optimization distance distillationTime factory.statesPerRound
              perRotation subroutine combination)) := by
  obtain ⟨running, found⟩ := mapM_pick program.subroutines sequence valid
  refine ⟨running, found, ?_⟩
  have executes : program.executed = .ok (running.flatMap (·.layers)) :=
    CompiledProgram.executed_eq_ok.mpr ⟨sequence, running, ordered, found, rfl⟩
  rw [allocation_executed optimization factory distance perRotation distillationTime distancePos
    timed timeNonneg capacity perRotationNonneg program layout _ wellFormed executes chosen
    atDistance equipped]
  simp only [wholeCycles_eq, subroutineCycles, layerCycles_eq, ← tally_flatMap]
  rfl

/-- For whole distances and distillation times, the schedule that the library computes is the sum
of the cycles of every layer of every subroutine that runs. -/
theorem allocation_closed_form (program : CompiledProgram) (optimization : Optimization)
    (layout : Layout Scalar) (factory : MagicStateFactory Scalar)
    (distance distillationTime perRotation : Int) (sequence : List Int)
    (wellFormed : ∀ subroutine ∈ program.subroutines, subroutine.WellFormed)
    (ordered : program.sequence = .ok sequence)
    (valid : ∀ place ∈ sequence, ValidPlace program.subroutines.length place)
    (chosen : optimization = .space ∨ optimization = .time)
    (atDistance : layout.distance = some (.whole distance)) (distancePos : 1 ≤ distance)
    (equipped : layout.factory = some factory)
    (timed : factory.cycles = .whole distillationTime) (timeNonneg : 0 ≤ distillationTime)
    (capacity : 1 ≤ factory.statesPerRound) (perRotationNonneg : 0 ≤ perRotation) :
    ∃ running, sequence.mapM (pick program.subroutines) = .ok running ∧
      allocation program optimization layout perRotation =
        .ok (wholeCycles fun combination =>
          tally (running.map fun subroutine =>
            tally (subroutine.layers.map fun layer =>
              layerCycles optimization distance distillationTime factory.statesPerRound
                perRotation layer combination))) :=
  allocation_eq program optimization layout factory distance distillationTime perRotation sequence
    wellFormed ordered valid chosen atDistance distancePos equipped timed timeNonneg capacity
    perRotationNonneg

/-- Two runs of a busy layer and an idle one. The three rotations take a full block and then share
their rounds with the T gate. -/
theorem allocation_closed_form_two_runs :
    ∃ found : Allocation Scalar,
      allocation ⟨[⟨3, 2, [4, 1], [1, 0], [3, 0]⟩], 1, fun _ => .ok [0, -1]⟩ .space
        { distance := some (.whole 5)
          factory := some ⟨"factory", .whole 0, none, .whole 10, .whole 11, 2⟩ } 4 = .ok found ∧
      found.amounts.map (·.2) = [154, 160, 28, 0, 22, 0, 0].map Scalar.whole := by
  obtain ⟨running, found, computed⟩ := allocation_closed_form
    ⟨[⟨3, 2, [4, 1], [1, 0], [3, 0]⟩], 1, fun _ => .ok [0, -1]⟩ .space
    { distance := some (.whole 5)
      factory := some ⟨"factory", .whole 0, none, .whole 10, .whole 11, 2⟩ }
    ⟨"factory", .whole 0, none, .whole 10, .whole 11, 2⟩ 5 11 4 [0, -1]
    (by
      intro subroutine member
      rw [List.mem_singleton.mp member]
      constructor <;> decide)
    rfl (by decide) (by decide) rfl (by decide) rfl rfl (by decide) (by decide) (by decide)
  cases Except.ok.inj (found.symm.trans rfl)
  exact ⟨_, computed, rfl⟩

end Schedule

end QuantumResources
