import QuantumResources.Factory.Table
import QuantumResources.Proofs.Architecture.Space
import QuantumResources.Proofs.Factory.Selection
import QuantumResources.Proofs.Schedule.Savings

/-! What a layout pays for the factory that is chosen.

The choice ranks factories by the cost of one state. A layout that saves space has one whole
factory, and a schedule that saves time waits for whole distillations, so both pay for a factory and
not for its states. The two orders agree on factories that make equally many states. -/

namespace QuantumResources.MagicStateFactory

/-! ## The least cost of one state -/

variable {optimization : Optimization} (chosen : optimization = .space ∨ optimization = .time)

include chosen in
/-- Without rounding, the choice finds a factory if there is one, and none costs less a state. -/
theorem select_least (tolerance : Rat) (factories : List (MagicStateFactory Rat))
    (capacity : ∀ factory ∈ factories, 1 ≤ factory.statesPerRound) :
    ∃ best, select tolerance optimization (.ofList factories) = .ok best ∧
      (best = none → ∀ factory ∈ factories, ¬ factory.errorRate ≤ tolerance) ∧
      ∀ factory, best = some factory → factory ∈ factories ∧ factory.errorRate ≤ tolerance ∧
        ∀ other ∈ factories, other.errorRate ≤ tolerance →
          factory.perState optimization ≤ other.perState optimization := by
  obtain ⟨best, selected, found⟩ := select_finds chosen tolerance factories capacity
  refine ⟨best, selected, found.eq_none_iff.mp, fun factory isBest => ?_⟩
  have first := (found.eq_some_iff factory).mp isBest
  exact ⟨first.mem, first.fits, fun other member within => first.le member within⟩

include chosen in
theorem exists_selected (tolerance : Rat) (factories : List (MagicStateFactory Rat))
    (capacity : ∀ factory ∈ factories, 1 ≤ factory.statesPerRound)
    (factory : MagicStateFactory Rat) (member : factory ∈ factories)
    (within : factory.errorRate ≤ tolerance) :
    ∃ best ∈ factories, best.errorRate ≤ tolerance ∧
      select tolerance optimization (.ofList factories) = .ok (some best) := by
  obtain ⟨found, searched, absent, lowest⟩ := select_least chosen tolerance factories
    capacity
  cases found with
  | none => exact absurd within (absent rfl factory member)
  | some best =>
    obtain ⟨isListed, good, _⟩ := lowest best rfl
    exact ⟨best, isListed, good, searched⟩

/-- Among factories that make no more states, the least cost of a state is the least cost. -/
theorem resource_le_of_perState (optimization : Optimization) {best other : MagicStateFactory Rat}
    (bestCapacity : 1 ≤ best.statesPerRound) (otherCapacity : 1 ≤ other.statesPerRound)
    (nonneg : 0 ≤ other.resource optimization)
    (lower : best.perState optimization ≤ other.perState optimization)
    (fewer : best.statesPerRound ≤ other.statesPerRound) :
    best.resource optimization ≤ other.resource optimization := by
  have bestPos : (0 : Rat) < best.statesPerRound := by exact_mod_cast bestCapacity
  have otherPos : (0 : Rat) < other.statesPerRound := by exact_mod_cast otherCapacity
  have states : (best.statesPerRound : Rat) ≤ other.statesPerRound := by exact_mod_cast fewer
  apply le_of_mul_le_mul_right _ otherPos
  calc best.resource optimization * other.statesPerRound
    _ ≤ other.resource optimization * best.statesPerRound :=
      (div_le_div_iff₀ bestPos otherPos).mp lower
    _ ≤ other.resource optimization * other.statesPerRound :=
      mul_le_mul_of_nonneg_left states nonneg

/-! ## What a layout pays -/

/-- A factory that could be built. -/
structure Sound (factory : MagicStateFactory Rat) : Prop where
  qubits : 0 ≤ factory.qubits
  cycles : 0 ≤ factory.cycles
  statesPerRound : 1 ≤ factory.statesPerRound

section Charges

variable {α : Type} [Arithmetic α]

/-- Physical qubits of the layout that saves space. -/
def spaceCharge (code : SurfaceCode α) (architecture : Architecture) (program : CompiledProgram)
    (distance : α) (factory : MagicStateFactory α) : Calc α := do
  let layout ← architecture.layout program .space (some distance) (some factory)
  Architecture.physicalQubits code layout

/-- Cycles of the schedule that saves time. -/
def timeCharge (architecture : Architecture) (program : CompiledProgram) (perRotation : Int)
    (distance : α) (factory : MagicStateFactory α) : Calc α := do
  let layout ← architecture.layout program .time (some distance) (some factory)
  (← Schedule.allocation program .time layout perRotation).total

/-- Both charges are computed, and the first is no more than the second. -/
def NoMore (first second : Calc Rat) : Prop :=
  ∃ low high, first = .ok low ∧ second = .ok high ∧ low ≤ high

end Charges

section Programs

variable (architecture : Architecture) (described : architecture ≠ .undescribed)
  (program : CompiledProgram) (schedulable : program.Schedulable) (needy : program.NeedsStates)

include described schedulable needy

/-- One factory is paid for, whichever it is. -/
theorem spaceCharge_eq (code : SurfaceCode Rat) (distance patch : Rat)
    (sized : code.physicalQubits distance = .ok patch) (factory : MagicStateFactory Rat) :
    spaceCharge code architecture program distance factory =
      .ok (patch * ((Architecture.dataQubits program : Rat) +
        (architecture.busCount (Architecture.dataQubits program) 1 : Rat)) + factory.qubits) := by
  obtain ⟨layers, executes⟩ := schedulable.executes
  obtain ⟨widest, isWidest⟩ := Architecture.exists_widest program schedulable
  have wellFormed := schedulable.wellFormed
  have busy := (CompiledProgram.needsStates_iff executes wellFormed).mp needy
  have counted := (Architecture.factoryCount_busy executes wellFormed factory widest
    isWidest.computed busy).1
  have qubits := Architecture.physicalQubits_layout (R := Rat) code architecture program .space
    distance factory 1 patch factory.qubits described counted sized rfl
  rw [Int.cast_one, mul_one] at qubits
  exact qubits

theorem timeCharge_eq (layers : List Layer) (executes : program.executed = .ok layers)
    (distance perRotation : Int) (distancePos : 1 ≤ distance) (perRotationNonneg : 0 ≤ perRotation)
    (factory : MagicStateFactory Rat) (cyclesNonneg : 0 ≤ factory.cycles)
    (capacity : 1 ≤ factory.statesPerRound) :
    timeCharge architecture program perRotation (distance : Rat) factory =
      .ok (layers.map (Schedule.layerTotal .time distance factory.cycles factory.statesPerRound
        perRotation)).sum := by
  obtain ⟨widest, isWidest⟩ := Architecture.exists_widest program schedulable
  have wellFormed := schedulable.wellFormed
  have busy := (CompiledProgram.needsStates_iff executes wellFormed).mp needy
  have counted := Architecture.factoryCount_time_exact executes wellFormed factory widest
    isWidest.computed busy capacity
  unfold timeCharge
  rw [Architecture.layout_eq architecture program .time _ _ _ described counted, Calc.ok_bind]
  exact Schedule.allocation_total .time factory distance perRotation factory.cycles distancePos rfl
    cyclesNonneg capacity perRotationNonneg program _ layers wellFormed executes (.inr rfl) rfl rfl

theorem spaceCharge_noMore_iff (code : SurfaceCode Rat) (distance patch : Rat)
    (sized : code.physicalQubits distance = .ok patch) (best other : MagicStateFactory Rat) :
    NoMore (spaceCharge code architecture program distance best)
        (spaceCharge code architecture program distance other) ↔
      best.qubits ≤ other.qubits := by
  rw [spaceCharge_eq architecture described program schedulable needy code distance patch sized,
    spaceCharge_eq architecture described program schedulable needy code distance patch sized]
  constructor
  · rintro ⟨low, high, isLow, isHigh, order⟩
    cases isLow
    cases isHigh
    exact le_of_add_le_add_left order
  · intro order
    exact ⟨_, _, rfl, rfl, add_le_add_right order _⟩

theorem timeCharge_noMore_iff (layers : List Layer) (executes : program.executed = .ok layers)
    (distance perRotation : Int) (distancePos : 1 ≤ distance) (perRotationNonneg : 0 ≤ perRotation)
    (best other : MagicStateFactory Rat) (sound : best.Sound) (otherSound : other.Sound) :
    NoMore (timeCharge architecture program perRotation (distance : Rat) best)
        (timeCharge architecture program perRotation (distance : Rat) other) ↔
      best.cycles ≤ other.cycles ∨
        ∀ layer ∈ layers, ¬ layer.Idle →
          Schedule.Hidden distance perRotation best.cycles layer := by
  have nonneg := CompiledProgram.layer_nonneg_executed executes schedulable.wellFormed
  rw [← Schedule.sum_time_le_iff distance perRotation layers nonneg perRotationNonneg best.cycles
      other.cycles best.statesPerRound other.statesPerRound sound.statesPerRound
      otherSound.statesPerRound,
    timeCharge_eq architecture described program schedulable needy layers executes distance
      perRotation distancePos perRotationNonneg best sound.cycles sound.statesPerRound,
    timeCharge_eq architecture described program schedulable needy layers executes distance
      perRotation distancePos perRotationNonneg other otherSound.cycles otherSound.statesPerRound]
  constructor
  · rintro ⟨low, high, isLow, isHigh, order⟩
    cases isLow
    cases isHigh
    exact order
  · intro order
    exact ⟨_, _, rfl, rfl, order⟩

end Programs

/-- Without rounding, the choice finds a factory if one is good enough. By qubits of the layout that
saves space, it is no worse than another one if and only if it has no more qubits itself; by cycles
of the schedule that saves time, if and only if its distillation takes no longer or is hidden
throughout. Both hold of every factory that makes at least as many states. A looser tolerance never
raises the qubits for one state, and the qubits only with the number of states. -/
theorem chosen_factory_charge_iff (code : SurfaceCode Rat) (architecture : Architecture)
    (factories : List (MagicStateFactory Rat)) (tolerance patch : Rat) (distance perRotation : Int)
    (described : architecture ≠ .undescribed)
    (sized : code.physicalQubits (distance : Rat) = .ok patch) (distancePos : 1 ≤ distance)
    (perRotationNonneg : 0 ≤ perRotation) (sound : ∀ factory ∈ factories, factory.Sound) :
    (∀ optimization, optimization = .space ∨ optimization = .time →
      (∃ factory ∈ factories, factory.errorRate ≤ tolerance) →
      ∃ best ∈ factories, best.errorRate ≤ tolerance ∧
        select tolerance optimization (.ofList factories) = .ok (some best)) ∧
    (∀ best, select tolerance .space (.ofList factories) = .ok (some best) →
      ∀ other ∈ factories, other.errorRate ≤ tolerance →
        (best.statesPerRound ≤ other.statesPerRound → best.qubits ≤ other.qubits) ∧
        ∀ program : CompiledProgram, program.Schedulable → program.NeedsStates →
          (NoMore (spaceCharge code architecture program distance best)
              (spaceCharge code architecture program distance other) ↔
            best.qubits ≤ other.qubits)) ∧
    (∀ best, select tolerance .time (.ofList factories) = .ok (some best) →
      ∀ other ∈ factories, other.errorRate ≤ tolerance →
        (best.statesPerRound ≤ other.statesPerRound → best.cycles ≤ other.cycles) ∧
        ∀ (program : CompiledProgram) (layers : List Layer), program.Schedulable →
          program.NeedsStates → program.executed = .ok layers →
          (NoMore (timeCharge architecture program perRotation distance best)
              (timeCharge architecture program perRotation distance other) ↔
            best.cycles ≤ other.cycles ∨
              ∀ layer ∈ layers, ¬ layer.Idle →
                Schedule.Hidden distance perRotation best.cycles layer)) ∧
    ∀ looser best, tolerance ≤ looser →
      select tolerance .space (.ofList factories) = .ok (some best) →
      ∃ loose, select looser .space (.ofList factories) = .ok (some loose) ∧
        loose.perState .space ≤ best.perState .space ∧
        (loose.statesPerRound ≤ best.statesPerRound → loose.qubits ≤ best.qubits) := by
  have capacity := fun factory member => (sound factory member).statesPerRound
  have least : ∀ (bound : Rat) (optimization : Optimization) (best : MagicStateFactory Rat),
      optimization = .space ∨ optimization = .time →
      select bound optimization (.ofList factories) = .ok (some best) →
      best ∈ factories ∧ best.errorRate ≤ bound ∧ ∀ other ∈ factories, other.errorRate ≤ bound →
        best.perState optimization ≤ other.perState optimization := by
    intro bound optimization best chosen selected
    obtain ⟨found, searched, _, lowest⟩ := select_least chosen bound factories capacity
    exact lowest best (Except.ok.inj (searched.symm.trans selected))
  refine ⟨?_, ?_, ?_, ?_⟩
  · rintro optimization chosen ⟨factory, member, within⟩
    exact exists_selected chosen tolerance factories capacity factory member within
  · intro best selected other member within
    obtain ⟨isListed, _, lowest⟩ := least tolerance .space best (.inl rfl) selected
    refine ⟨?_, ?_⟩
    · exact resource_le_of_perState .space (capacity best isListed)
        (capacity other member) (sound other member).qubits (lowest other member within)
    · intro program schedulable needy
      exact spaceCharge_noMore_iff architecture described program schedulable needy code distance
        patch sized best other
  · intro best selected other member within
    obtain ⟨isListed, _, lowest⟩ := least tolerance .time best (.inr rfl) selected
    refine ⟨?_, ?_⟩
    · exact resource_le_of_perState .time (capacity best isListed)
        (capacity other member) (sound other member).cycles (lowest other member within)
    · intro program layers schedulable needy executes
      exact timeCharge_noMore_iff architecture described program schedulable needy layers executes
        distance perRotation distancePos perRotationNonneg best other (sound best isListed)
        (sound other member)
  · intro looser best order selected
    obtain ⟨isListed, within, _⟩ := least tolerance .space best (.inl rfl) selected
    obtain ⟨loose, looseListed, _, looseSelected⟩ := exists_selected (.inl rfl) looser
      factories capacity best isListed (within.trans order)
    obtain ⟨_, _, lowest⟩ := least looser .space loose (.inl rfl) looseSelected
    have lower := lowest best isListed (within.trans order)
    exact ⟨loose, looseSelected, lower, resource_le_of_perState .space
      (capacity loose looseListed) (capacity best isListed) (sound best isListed).qubits lower⟩

/-- A factory of one state and one of four for a program with one T gate: the first is chosen to
save space and is the smaller one, the second is chosen to save time and takes longer. -/
theorem chosen_factory_charge_oneGate :
    let code : SurfaceCode Rat :=
      ⟨fun _ _ => .ok 0, fun _ _ _ => .ok 0, fun distance => .ok (distance ^ 2 * 2)⟩
    let program : CompiledProgram := ⟨[⟨1, 1, [0], [1], [0]⟩], 1, fun _ => .ok [0]⟩
    let one : MagicStateFactory Rat := ⟨"one", 2, none, 4620, 42, 1⟩
    let four : MagicStateFactory Rat := ⟨"four", 1, none, 43300, 130, 4⟩
    NoMore (spaceCharge code .twoRowBus program 3 one)
        (spaceCharge code .twoRowBus program 3 four) ∧
      ¬ NoMore (timeCharge .twoRowBus program 1 3 four)
        (timeCharge .twoRowBus program 1 3 one) := by
  intro code program one four
  have schedulable : program.Schedulable := by
    exact ⟨by decide, by decide, [0], rfl, by decide⟩
  have needy : program.NeedsStates := by
    rintro ⟨none, _⟩
    cases none
  have sound : ∀ factory ∈ [one, four], factory.Sound := by
    intro factory member
    rcases List.mem_pair.mp member with rfl | rfl <;> constructor <;> decide
  have small : select 2 .space (.ofList [one, four]) = .ok (some one) := by
    norm_num [one, four, select, FactorySource.ofList, selectStep, cost, improves, Arithmetic.le,
      Arithmetic.div, Arithmetic.lt, Arithmetic.ofInt, Arithmetic.isBounded, pure, Except.pure]
  have quick : select 2 .time (.ofList [one, four]) = .ok (some four) := by
    norm_num [one, four, select, FactorySource.ofList, selectStep, cost, improves, Arithmetic.le,
      Arithmetic.div, Arithmetic.lt, Arithmetic.ofInt, Arithmetic.isBounded, pure, Except.pure]
  obtain ⟨_, space, time, _⟩ := chosen_factory_charge_iff code .twoRowBus [one, four] 2 18 3 1
    (by decide) (congrArg Except.ok (by norm_num)) (by decide) (by decide) sound
  refine ⟨?_, ?_⟩
  · apply ((space one small four (by simp) (by decide)).2 program schedulable needy).mpr
    decide
  · intro noMore
    rcases ((time four quick one (by simp) (by decide)).2 program [⟨1, 0, 0⟩] schedulable needy
      rfl).mp noMore with shorter | hidden
    · exact absurd shorter (by decide)
    · have within := (hidden ⟨1, 0, 0⟩ (by simp) (by decide)).2
      exact absurd within (by decide)

/-- In the table for one error in a thousand, a tolerance of 3e-11 gives a factory of 46800 qubits
to save space, although one of 30700 qubits is good enough and is what 1e-11 gives. To save time,
1e-7 gives a distillation of 130 cycles, although one of 42.6 is good enough. -/
theorem chosen_factory_charges_more :
    let table := FactoryTable.volumeThousandth
    let program : CompiledProgram := ⟨[⟨1, 1, [0], [1], [0]⟩], 1, fun _ => .ok [0]⟩
    (∃ best other, select (.real 3e-11) .space (.ofList table) = .ok (some best) ∧
      select (.real 1e-11) .space (.ofList table) = .ok (some other) ∧
      Arithmetic.le other.errorRate (.real 3e-11) = .ok true ∧
      spaceCharge .compounded .twoRowBus program (.whole 3) best = .ok (.whole 46854) ∧
      spaceCharge .compounded .twoRowBus program (.whole 3) other = .ok (.whole 30754)) ∧
    ∃ best other, select (.real 1e-7) .time (.ofList table) = .ok (some best) ∧
      table[0]? = some other ∧ Arithmetic.le other.errorRate (.real 1e-7) = .ok true ∧
      timeCharge .twoRowBus program 1 (.whole 3) best = .ok (.whole 136) ∧
      (timeCharge .twoRowBus program 1 (.whole 3) other >>= (Arithmetic.lt · (.whole 49))) =
        .ok true :=
  ⟨⟨_, _, rfl, rfl, rfl, rfl, rfl⟩, _, _, rfl, rfl, rfl, rfl, by decide +kernel⟩

end QuantumResources.MagicStateFactory
