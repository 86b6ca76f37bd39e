import QuantumResources.Architecture
import QuantumResources.Proofs.CompiledProgram

/-! The space of a layout: how many factories, and how many physical qubits. -/

namespace QuantumResources.Architecture

/-! ## The widest layer -/

/-- The number of T states that suffices for any layer. -/
structure Widest (program : CompiledProgram) (widest : Int) : Prop where
  computed : maxParallel program = .ok widest
  nonneg : 0 ≤ widest
  covers : ∀ subroutine ∈ program.subroutines, ∀ layer ∈ subroutine.layers,
    layer.tStates + layer.rotations ≤ widest

theorem exists_widest (program : CompiledProgram) (schedulable : program.Schedulable) :
    ∃ widest, Widest program widest := by
  let top (subroutine : CompiledSubroutine) : Int :=
    (subroutine.layers.map fun layer => layer.tStates + layer.rotations).foldl max 0
  refine ⟨(program.subroutines.map top).foldl max 0, ?_, ?_, ?_⟩
  · unfold maxParallel
    rw [Calc.mapM_eq_ok_map program.subroutines _ top]
    · rfl
    intro subroutine member
    have wellFormed := schedulable.wellFormed subroutine member
    have layered := schedulable.layered subroutine member
    have length := subroutine.layers_length wellFormed
    rw [CompiledSubroutine.layers_widths wellFormed]
    cases layers : subroutine.layers with
    | nil =>
      rw [layers, List.length_nil] at length
      omega
    | cons layer rest =>
      have nonneg := Schedule.layer_nonneg subroutine wellFormed layer (by simp [layers])
      have first : max 0 (layer.tStates + layer.rotations) = layer.tStates + layer.rotations :=
        max_eq_right (Int.add_nonneg nonneg.tStates nonneg.rotations)
      simp [top, layers, first]
  · exact ((foldl_max_le_iff _ _ _).mp le_rfl).1
  · intro subroutine member layer inside
    have all := ((foldl_max_le_iff (program.subroutines.map top) 0 _).mp le_rfl).2
    have layers := (foldl_max_le_iff (subroutine.layers.map fun layer =>
      layer.tStates + layer.rotations) 0 _).mp (all _ (List.mem_map_of_mem member))
    exact layers.2 _ (List.mem_map_of_mem inside)

/-! ## Factories -/

variable {α : Type} [Arithmetic α]

section Factories

variable {program : CompiledProgram} {layers : List Layer}
  (executes : program.executed = .ok layers)
  (wellFormed : ∀ subroutine ∈ program.subroutines, subroutine.WellFormed)

include executes wellFormed

theorem factoryCount_idle (optimization : Optimization) (factory : Option (MagicStateFactory α))
    (idle : ∀ layer ∈ layers, layer.Idle) :
    factoryCount program optimization factory = .ok 0 := by
  obtain ⟨noStates, noRotations⟩ :=
    (CompiledProgram.idle_iff executes wellFormed).mpr idle
  unfold factoryCount
  rw [noStates, noRotations]
  rfl

theorem factoryCount_busy (factory : MagicStateFactory α) (widest : Int)
    (computed : maxParallel program = .ok widest)
    (busy : ¬ ∀ layer ∈ layers, layer.Idle) :
    factoryCount program .space (some factory) = .ok 1 ∧
      factoryCount program .time (some factory) =
        Arithmetic.div (Arithmetic.ofInt widest : α) (Arithmetic.ofInt factory.statesPerRound) >>=
          Arithmetic.ceil := by
  have tStates := CompiledProgram.tGates_executed executes wellFormed
  have rotations := CompiledProgram.rotationGates_executed executes wellFormed
  have idle := CompiledProgram.idle_iff executes wellFormed
  rw [tStates, rotations] at idle
  unfold factoryCount
  rw [tStates, rotations]
  by_cases noStates : tally (layers.map (·.tStates)) = 0
  · have someRotations : tally (layers.map (·.rotations)) ≠ 0 := by
      intro noRotations
      exact busy (idle.mp ⟨by rw [noStates], by rw [noRotations]⟩)
    constructor
    · simp [noStates, someRotations, pure, Except.pure]
    · simp [noStates, someRotations, computed]
  · constructor
    · simp [noStates, pure, Except.pure]
    · simp [noStates, computed]

/-- Without rounding, the factories of a layout that saves time are just enough. -/
theorem factoryCount_time_exact (factory : MagicStateFactory Rat) (widest : Int)
    (computed : maxParallel program = .ok widest)
    (busy : ¬ ∀ layer ∈ layers, layer.Idle)
    (capacity : 1 ≤ factory.statesPerRound) :
    factoryCount program .time (some factory) =
      .ok ((widest : Rat) / factory.statesPerRound).ceil := by
  rw [(factoryCount_busy executes wellFormed factory widest computed busy).2,
    div_count _ _ capacity]
  rfl

theorem one_le_widest {widest : Int} (isWidest : Widest program widest)
    (busy : ¬ ∀ layer ∈ layers, layer.Idle) : 1 ≤ widest := by
  by_contra narrow
  apply busy
  intro layer member
  obtain ⟨subroutine, inside, isLayer⟩ := CompiledProgram.mem_executed executes member
  have covered := isWidest.covers subroutine inside layer isLayer
  have nonneg := CompiledProgram.layer_nonneg_executed executes wellFormed layer member
  have states := nonneg.tStates
  have rotations := nonneg.rotations
  omega

end Factories

/-! ## Physical qubits -/

/-- Bus qubits where they are described. -/
def busCount : Architecture → (data factories : Int) → Int
  | twoRowBus, data, factories => data + factories
  | _, _, _ => 0

theorem busQubits_eq (architecture : Architecture) (data factories : Int)
    (described : architecture ≠ .undescribed) :
    architecture.busQubits data factories = .ok (architecture.busCount data factories) := by
  cases architecture with
  | allToAll => rfl
  | twoRowBus => rfl
  | undescribed => exact absurd rfl described

theorem layout_error (architecture : Architecture) (program : CompiledProgram)
    (optimization : Optimization) (distance : Option α) (factory : Option (MagicStateFactory α))
    (failure : Failure) (described : architecture ≠ .undescribed)
    (failed : factoryCount program optimization factory = .error failure) :
    architecture.layout program optimization distance factory = .error failure := by
  unfold layout
  simp [described, failed]

theorem layout_eq (architecture : Architecture) (program : CompiledProgram)
    (optimization : Optimization) (distance : Option α) (factory : Option (MagicStateFactory α))
    (count : Int) (described : architecture ≠ .undescribed)
    (counted : factoryCount program optimization factory = .ok count) :
    architecture.layout program optimization distance factory =
      .ok { dataQubits := some (Arithmetic.ofInt (dataQubits program))
            busQubits := some (Arithmetic.ofInt (architecture.busCount (dataQubits program) count))
            distance
            factoryCount := some (Arithmetic.ofInt count)
            factory } := by
  unfold layout
  simp [described, counted, busQubits_eq architecture _ _ described, pure, Except.pure]

theorem physicalQubits_layout {R : Type} [CommRing R] [LinearOrder R] [IsStrictOrderedRing R]
    [ExactWholes α] [Exact R α] (code : SurfaceCode α) (architecture : Architecture)
    (program : CompiledProgram) (optimization : Optimization) (distance : α)
    (factory : MagicStateFactory α) (count : Int) (patch qubits : R)
    (described : architecture ≠ .undescribed)
    (counted : factoryCount program optimization (some factory) = .ok count)
    (sized : code.physicalQubits distance = .ok (Exact.embed patch))
    (housed : factory.qubits = Exact.embed qubits) :
    architecture.layout program optimization (some distance) (some factory) >>=
        physicalQubits code =
      .ok (Exact.embed (patch * ((dataQubits program : R) +
        (architecture.busCount (dataQubits program) count : R)) + qubits * (count : R))) := by
  have patches : ((Exact.embed patch : α) : Calc α) *
      (((Arithmetic.ofInt (dataQubits program) : α) : Calc α) +
        (Arithmetic.ofInt (architecture.busCount (dataQubits program) count) : α)) =
      .ok (Exact.embed (patch * ((dataQubits program : R) +
        (architecture.busCount (dataQubits program) count : R)))) := by
    rw [← Exact.embed_intCast (R := R), ← Exact.embed_intCast (R := R)]
    change Arithmetic.add _ _ >>= _ = _
    rw [Exact.add_embed, Calc.ok_bind, Exact.mul_embed]
  rw [layout_eq architecture program optimization _ _ count described counted, Calc.ok_bind]
  unfold physicalQubits
  simp only [Arithmetic.required, sized, Calc.ok_bind, patches, Option.any_some,
    ExactWholes.eq_ofInt]
  by_cases none : count = 0
  · simp [none, Exact.ofInt_zero R]
  · have some : ¬ 0 = count := fun zero => none zero.symm
    simp only [some, decide_false, Bool.false_eq_true, ↓reduceIte, housed]
    change Arithmetic.mul _ _ >>= _ = _
    rw [← Exact.embed_intCast (R := R), Exact.mul_embed, Calc.ok_bind, Exact.add_embed]

end QuantumResources.Architecture
