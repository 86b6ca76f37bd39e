import Mathlib.Algebra.Order.Field.Basic
import Mathlib.Tactic.FieldSimp
import Mathlib.Tactic.Linarith
import QuantumResources.Estimate.Graph
import QuantumResources.Proofs.Architecture
import QuantumResources.Proofs.Factory

/-! Estimates in exact arithmetic stay within the error budget.

Rotations spend the tolerance for synthesis. Distillation and error correction each stay within
half of the tolerance for hardware failures: the factory is chosen for its half divided by the
number of states, and the distance is searched until the failure rate is below the other half. -/

namespace QuantumResources.GraphEstimate

/-- What rotations may add to the failure rate: the tolerance, if there are rotations at all. -/
def rotationBudget (rotations : Int) (tolerance : Rat) : Rat :=
  if rotations = 0 then 0 else tolerance

theorem rotationTolerance_eq (total : Rat) (rotations : Int) (some : rotations ≠ 0) :
    CompiledProgram.rotationTolerance total rotations = .ok (total * (1 / rotations)) := by
  have notZero : (rotations : Rat) ≠ 0 := by exact_mod_cast some
  have divided : Arithmetic.div (1 : Rat) rotations = .ok (1 / (rotations : Rat)) := if_neg notZero
  unfold CompiledProgram.rotationTolerance
  change (Arithmetic.div (1 : Rat) rotations >>= fun share => Arithmetic.mul total share) = _
  rw [divided]
  rfl

theorem demandStates_spec {perRotation states : Int} {rotationTolerance stateTolerance : Rat}
    {optimization : Optimization} {factories : FactorySource Rat} {found : StateDemand Rat}
    (returned : demandStates perRotation rotationTolerance states stateTolerance optimization
      factories = .ok found) :
    found.rotationTolerance = rotationTolerance ∧
      ∀ factory ∈ found.factory, found.states ≠ 0 ∧
        MagicStateFactory.Qualifies (stateTolerance / found.states) factories factory := by
  unfold demandStates at returned
  obtain ⟨perState, divided, afterDivision⟩ := Calc.bind_eq_ok.mp returned
  obtain ⟨chosen, selected, finished⟩ := Calc.bind_eq_ok.mp afterDivision
  cases finished
  refine ⟨rfl, ?_⟩
  rintro factory rfl
  have someStates : states ≠ 0 := by
    rintro rfl
    cases divided
  have notZero : (states : Rat) ≠ 0 := by exact_mod_cast someStates
  have isQuotient : perState = stateTolerance / states := by
    have divides : Arithmetic.div stateTolerance (states : Rat) = .ok (stateTolerance / states) :=
      if_neg notZero
    exact Except.ok.inj (divided.symm.trans divides)
  rw [isQuotient] at selected
  exact ⟨someStates, MagicStateFactory.select_qualifies selected⟩

theorem demand_spec {tGatesPerRotation : Rat → Calc Int} {program : CompiledProgram}
    {rotationTolerance stateTolerance : Rat} {optimization : Optimization}
    {factories : FactorySource Rat} {found : StateDemand Rat}
    (returned : demand tGatesPerRotation program rotationTolerance stateTolerance optimization
      factories = .ok found) :
    ∃ rotations, program.rotationGates = .ok rotations ∧
      found.rotationTolerance * rotations = rotationBudget rotations rotationTolerance ∧
      ∀ factory ∈ found.factory, found.states ≠ 0 ∧
        MagicStateFactory.Qualifies (stateTolerance / found.states) factories factory := by
  unfold demand at returned
  obtain ⟨zero, isZero, afterZero⟩ := Calc.bind_eq_ok.mp returned
  cases isZero
  obtain ⟨tGates, _, afterT⟩ := Calc.bind_eq_ok.mp afterZero
  obtain ⟨rotations, counted, afterRotations⟩ := Calc.bind_eq_ok.mp afterT
  refine ⟨rotations, counted, ?_⟩
  unfold rotationBudget
  split at afterRotations
  · next nothing =>
    cases afterRotations
    rw [if_pos nothing.2]
    exact ⟨by simp [nothing.2], by simp⟩
  · split at afterRotations
    · next none =>
      obtain ⟨sameTolerance, qualified⟩ := demandStates_spec afterRotations
      rw [if_pos none, none]
      exact ⟨by simp, qualified⟩
    · next some =>
      rw [rotationTolerance_eq _ _ some, Calc.ok_bind] at afterRotations
      obtain ⟨perRotation, _, afterSynthesis⟩ := Calc.bind_eq_ok.mp afterRotations
      obtain ⟨sameTolerance, qualified⟩ := demandStates_spec afterSynthesis
      have notZero : (rotations : Rat) ≠ 0 := by exact_mod_cast some
      rw [if_neg some, sameTolerance]
      exact ⟨by field_simp, qualified⟩

/-- States within their share of the tolerance are together within the tolerance, also when their
number is negative, because then no error rate qualifies. -/
theorem all_states_within {tolerance : Rat} {states : Int} {factories : FactorySource Rat}
    {factory : MagicStateFactory Rat} (tolerancePos : 0 < tolerance) (some : states ≠ 0)
    (qualifies : MagicStateFactory.Qualifies (tolerance / states) factories factory)
    (nonneg : ∀ made, .ok made ∈ factories → 0 ≤ made.errorRate) :
    factory.errorRate * states ≤ tolerance := by
  obtain ⟨member, within⟩ := qualifies
  have errorNonneg := nonneg factory member
  have bounded : factory.errorRate ≤ tolerance / states := by
    simpa [Arithmetic.le] using within
  rcases lt_or_gt_of_ne some with negative | positive
  · have below : (states : Rat) < 0 := by exact_mod_cast negative
    have share : tolerance / states < 0 := div_neg_of_pos_of_neg tolerancePos below
    linarith
  · have above : (0 : Rat) < states := by exact_mod_cast positive
    exact (le_div_iff₀ above).mp bounded

theorem distillationRates_spec {demand : StateDemand Rat} {tolerance : Rat}
    {factories : FactorySource Rat} {perState all : Rat}
    (returned : distillationRates demand = .ok (perState, all)) (tolerancePos : 0 < tolerance)
    (qualified : ∀ factory ∈ demand.factory, demand.states ≠ 0 ∧
      MagicStateFactory.Qualifies (tolerance / demand.states) factories factory)
    (nonneg : ∀ made, .ok made ∈ factories → 0 ≤ made.errorRate) : all ≤ tolerance := by
  unfold distillationRates at returned
  split at returned
  · cases returned
    exact tolerancePos.le
  · next factory chosen =>
    obtain ⟨some, qualifies⟩ := qualified factory chosen
    cases returned
    exact all_states_within tolerancePos some qualifies nonneg

theorem completeRates_spec {program : CompiledProgram} {demand : StateDemand Rat}
    {rates complete : FailureRates Rat}
    (returned : completeRates program demand rates = .ok complete) :
    ∃ rotations perState all, program.rotationGates = .ok rotations ∧
      distillationRates demand = .ok (perState, all) ∧
      complete.totalRotation = some (demand.rotationTolerance * rotations) ∧
      complete.totalDistillation = some all ∧
      complete.totalCorrection = rates.totalCorrection := by
  unfold completeRates at returned
  obtain ⟨rotations, counted, afterCount⟩ := Calc.bind_eq_ok.mp returned
  obtain ⟨total, multiplied, afterTotal⟩ := Calc.bind_eq_ok.mp afterCount
  obtain ⟨⟨perState, all⟩, distilled, finished⟩ := Calc.bind_eq_ok.mp afterTotal
  cases multiplied
  cases finished
  exact ⟨rotations, perState, all, counted, distilled, rfl, rfl, rfl⟩

theorem total_eq {rates : FailureRates Rat} {rotation distillation correction : Rat}
    (isRotation : rates.totalRotation = some rotation)
    (isDistillation : rates.totalDistillation = some distillation)
    (isCorrection : rates.totalCorrection = some correction) :
    rates.total = .ok (rotation + distillation + correction) := by
  unfold FailureRates.total
  rw [isRotation, isDistillation, isCorrection]
  rfl

/-! ## The estimate -/

section Steps

variable {α : Type} [Arithmetic α] {tGatesPerRotation : α → Calc Int} {planner : Planner α}
  {inventory : Layout α → Run (IonTrap.Inventory α)} {optimization : Optimization}
  {implementation : CompiledImplementation α} {hardware : Hardware α}
  {decoder : Option (Decoder α)} {factories : FactorySource α} {estimate : Estimate α}
  {before after : Journal}

/-- What an estimate that has been returned was made of, step by step. -/
theorem estimateWith_steps
    (returned : (estimateWith tGatesPerRotation planner inventory optimization implementation
      hardware decoder factories).Returns before estimate after) :
    ∃ half found layout between known rates distance volume logicalQubits told failureRate,
      Arithmetic.div implementation.hardwareTolerance (Arithmetic.ofInt 2) = .ok half ∧
      demand tGatesPerRotation implementation.program implementation.transpilationTolerance half
        optimization factories = .ok found ∧
      (planner.leastLayout implementation.program optimization found.perRotation half
        found.factory hardware).Returns before layout between ∧
      layout.allocation.isSome ∧ layout.failureRates = some known ∧
      completeRates implementation.program found known = .ok rates ∧
      layout.distance = some distance ∧
      ({ layout with failureRates := some rates } : Layout α).volume = .ok volume ∧
      (decoding decoder hardware distance volume logicalQubits).Returns between estimate.decoder
        told ∧
      rates.total = .ok failureRate ∧
      estimate.layout = some { layout with failureRates := some rates } ∧
      estimate.totalFailureRate = some failureRate := by
  unfold estimateWith at returned
  obtain ⟨half, halved, afterHalf⟩ := Run.returns_lift_bind.mp returned
  obtain ⟨found, demanded, afterDemand⟩ := Run.returns_lift_bind.mp afterHalf
  obtain ⟨layout, between, searched, afterSearch⟩ := Run.returns_bind.mp afterDemand
  cases scheduled : layout.allocation with
  | none =>
    rw [scheduled] at afterSearch
    exact absurd afterSearch Run.not_returns_throw
  | some allocation =>
    rw [scheduled] at afterSearch
    obtain ⟨perCircuit, _, afterTime⟩ := Run.returns_lift_bind.mp afterSearch
    obtain ⟨time, _, afterShots⟩ := Run.returns_lift_bind.mp afterTime
    obtain ⟨qubits, _, afterQubits⟩ := Run.returns_lift_bind.mp afterShots
    cases rated : layout.failureRates with
    | none =>
      rw [rated] at afterQubits
      exact absurd afterQubits Run.not_returns_throw
    | some known =>
      rw [rated] at afterQubits
      obtain ⟨rates, completed, afterRates⟩ := Run.returns_lift_bind.mp afterQubits
      cases measured : layout.distance with
      | none =>
        rw [measured] at afterRates
        exact absurd afterRates Run.not_returns_throw
      | some distance =>
        rw [measured] at afterRates
        obtain ⟨volume, filled, afterVolume⟩ := Run.returns_lift_bind.mp afterRates
        obtain ⟨logicalQubits, _, afterLogical⟩ := Run.returns_lift_bind.mp afterVolume
        obtain ⟨decoded, told, decodes, afterDecoding⟩ := Run.returns_bind.mp afterLogical
        obtain ⟨failureRate, totalled, afterTotal⟩ := Run.returns_lift_bind.mp afterDecoding
        obtain ⟨listed, _, _, finished⟩ := Run.returns_bind.mp afterTotal
        obtain ⟨rfl, _⟩ := Run.returns_pure.mp finished
        refine ⟨half, found, layout, between, known, rates, distance, volume, logicalQubits, told,
          failureRate, halved, demanded, searched, by simp [scheduled], rated, completed, measured,
          ?_, decodes, totalled, ?_, rfl⟩
        · simpa only [scheduled, measured] using filled
        · simp only [scheduled, measured]

/-- The parts of an estimate that has been returned. -/
theorem estimateWith_cases
    (returned : (estimateWith tGatesPerRotation planner inventory optimization implementation
      hardware decoder factories).Returns before estimate after) :
    ∃ half found layout between known rates failureRate,
      Arithmetic.div implementation.hardwareTolerance (Arithmetic.ofInt 2) = .ok half ∧
      demand tGatesPerRotation implementation.program implementation.transpilationTolerance half
        optimization factories = .ok found ∧
      (planner.leastLayout implementation.program optimization found.perRotation half
        found.factory hardware).Returns before layout between ∧
      layout.allocation.isSome ∧ layout.distance.isSome ∧ layout.failureRates = some known ∧
      completeRates implementation.program found known = .ok rates ∧
      rates.total = .ok failureRate ∧
      estimate.layout = some { layout with failureRates := some rates } ∧
      estimate.totalFailureRate = some failureRate := by
  obtain ⟨half, found, layout, between, known, rates, distance, _, _, _, failureRate, halved,
    demanded, searched, scheduled, rated, completed, measured, _, _, totalled, isLayout,
    isTotal⟩ := estimateWith_steps returned
  exact ⟨half, found, layout, between, known, rates, failureRate, halved, demanded, searched,
    scheduled, by simp [measured], rated, completed, totalled, isLayout, isTotal⟩

end Steps

/-- A planner that takes the first distance at which a plan is good enough, whatever the plans. -/
def Planner.searching {α : Type} [Arithmetic α]
    (planAt : CompiledProgram → Optimization → Int → Option (MagicStateFactory α) → Hardware α →
      Int → Calc (Plan α))
    (count : Nat) (low : Int) (physicalQubits : Layout α → Calc α) : Planner α where
  leastLayout program optimization perRotation tolerance factory hardware :=
    Architecture.searchFrom (planAt program optimization perRotation factory hardware) tolerance
      count low {}
  physicalQubits := physicalQubits

theorem Planner.ofArchitecture_eq {α : Type} [Arithmetic α] (code : SurfaceCode α)
    (architecture : Architecture) :
    Planner.ofArchitecture code architecture =
      .searching (architecture.plan code) 99 3 (Architecture.physicalQubits code) := rfl

/-- Failure rates that keep to the budget of an implementation. -/
structure RatesWithin (implementation : CompiledImplementation Rat) (rates : FailureRates Rat) :
    Prop where
  rotation : ∃ rotations, implementation.program.rotationGates = .ok rotations ∧
    rates.totalRotation = some (rotationBudget rotations implementation.transpilationTolerance)
  distillation : ∃ rate ∈ rates.totalDistillation, rate ≤ implementation.hardwareTolerance / 2
  correction : ∃ rate ∈ rates.totalCorrection, rate < implementation.hardwareTolerance / 2

/-- An estimate that is complete and keeps to the budget of its implementation. -/
structure WithinBudget (implementation : CompiledImplementation Rat) (estimate : Estimate Rat) :
    Prop where
  layout : ∃ layout ∈ estimate.layout, layout.distance.isSome ∧ layout.allocation.isSome ∧
    ∃ rates ∈ layout.failureRates, RatesWithin implementation rates
  total : ∃ rate ∈ estimate.totalFailureRate,
    rate < implementation.transpilationTolerance + implementation.hardwareTolerance

theorem rotationBudget_le (rotations : Int) (tolerance : Rat) (nonneg : 0 ≤ tolerance) :
    rotationBudget rotations tolerance ≤ tolerance := by
  unfold rotationBudget
  split
  · exact nonneg
  · exact le_refl tolerance

/-- Every estimate that is returned keeps to its budget, with any way to plan a program at a
distance and any count of T gates for a rotation. -/
theorem estimate_within_budget (tGatesPerRotation : Rat → Calc Int)
    (planAt : CompiledProgram → Optimization → Int → Option (MagicStateFactory Rat) →
      Hardware Rat → Int → Calc (Plan Rat))
    (count : Nat) (low : Int) (physicalQubits : Layout Rat → Calc Rat)
    (inventory : Layout Rat → Run (IonTrap.Inventory Rat)) (optimization : Optimization)
    (implementation : CompiledImplementation Rat) (hardware : Hardware Rat)
    (decoder : Option (Decoder Rat)) (factories : FactorySource Rat) (estimate : Estimate Rat)
    (hardwarePos : 0 < implementation.hardwareTolerance)
    (transpilationNonneg : 0 ≤ implementation.transpilationTolerance)
    (nonneg : ∀ factory, .ok factory ∈ factories → 0 ≤ factory.errorRate)
    (returned : (estimateWith tGatesPerRotation (.searching planAt count low physicalQubits)
      inventory optimization implementation hardware decoder factories).result.1 = .ok estimate) :
    WithinBudget implementation estimate := by
  obtain ⟨after, returns⟩ := Run.exists_returns returned
  obtain ⟨half, found, layout, between, known, rates, failureRate, halved, demanded, searched,
    scheduled, measured, rated, completed, totalled, isLayout, isTotal⟩ :=
    estimateWith_cases returns
  have isHalf : half = implementation.hardwareTolerance / 2 := (Except.ok.inj halved).symm
  have halfPos : 0 < half := by
    rw [isHalf]
    linarith
  obtain ⟨rotations, counted, rotationRate, qualified⟩ := demand_spec demanded
  obtain ⟨sameRotations, perState, distillation, alsoCounted, distilled, isRotation,
    isDistillation, isCorrection⟩ := completeRates_spec completed
  cases counted.symm.trans alsoCounted
  have distillationWithin := distillationRates_spec distilled halfPos qualified nonneg
  -- Without a schedule nothing would have been returned, so the search has succeeded.
  rcases Architecture.searchFrom_cases searched with unscheduled | accepted
  · rw [unscheduled] at scheduled
    cases scheduled
  · obtain ⟨rate, correction, below, converted, accepted⟩ := accepted
    cases converted
    cases rated.symm.trans accepted
    have correctionWithin : rate < half := by simpa [Arithmetic.lt] using below
    rw [rotationRate] at isRotation
    have sum := total_eq isRotation isDistillation isCorrection
    have isSum : failureRate = _ := Except.ok.inj (totalled.symm.trans sum)
    have rotationWithin := rotationBudget_le rotations implementation.transpilationTolerance
      transpilationNonneg
    rw [isHalf] at distillationWithin correctionWithin
    have ratesWithin : RatesWithin implementation rates :=
      ⟨⟨rotations, counted, isRotation⟩, ⟨distillation, isDistillation, distillationWithin⟩,
        ⟨rate, isCorrection, correctionWithin⟩⟩
    refine ⟨⟨_, isLayout, measured, scheduled, rates, rfl, ratesWithin⟩, failureRate, isTotal, ?_⟩
    rw [isSum]
    linarith

/-- One T gate and one rotation on two qubits. -/
def smallImplementation : CompiledImplementation Rat where
  program := ⟨[⟨2, 1, [1], [1], [1]⟩], 1, fun _ => .ok [0]⟩
  transpilationTolerance := 1 / 10
  hardwareTolerance := 1 / 20
  shots := 1

/-- A code whose failure rate falls with the distance. -/
def decliningCode : SurfaceCode Rat where
  cellFailureRate rate distance := Arithmetic.div rate distance
  totalFailureRate rate _ distance := Arithmetic.div rate distance
  physicalQubits distance := .ok (2 * distance * distance)

/-- The distance 3 is too small for the tolerance, and 5 is taken. -/
def smallRun : Run (Estimate Rat) :=
  estimateWith (fun _ => .ok 3) (.ofArchitecture decliningCode .twoRowBus) (fun _ => throw .noValue)
    .time smallImplementation (.described .superconducting (1 / 10) 1) none
    (.ofList [⟨"factory", 1 / 1000, none, 10, 5, 1⟩])

theorem estimate_within_budget_small :
    ∃ estimate, smallRun.result.1 = .ok estimate ∧
      (estimate.layout.bind (·.distance)) = some 5 ∧
      WithinBudget smallImplementation estimate := by
  have distance : (smallRun.result.1.toOption.bind (·.layout)).bind (·.distance) = some 5 := by
    decide +kernel
  cases returned : smallRun.result.1 with
  | error failure =>
    rw [returned] at distance
    cases distance
  | ok estimate =>
    rw [returned] at distance
    refine ⟨estimate, rfl, distance, ?_⟩
    rw [smallRun, Planner.ofArchitecture_eq] at returned
    exact estimate_within_budget _ _ _ _ _ _ _ _ _ _ _ estimate
      (by norm_num [smallImplementation]) (by norm_num [smallImplementation])
      (by simp [FactorySource.ofList]) returned

end QuantumResources.GraphEstimate
