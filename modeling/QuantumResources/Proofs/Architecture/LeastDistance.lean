import QuantumResources.Proofs.Architecture
import QuantumResources.Proofs.Number.Lawful

/-! The search for a code distance finds the least one that is good enough.

Every second distance is assessed anew: its layout, its schedule and the failure rate of its volume.
The search ends at the first rate below the tolerance, and nothing of the distances before it is
left in the layout that it returns. -/

namespace QuantumResources.Architecture

variable {α : Type} [Arithmetic α]

/-! ## Layouts -/

theorem layout_inversion {architecture : Architecture} {program : CompiledProgram}
    {optimization : Optimization} {distance : Option α} {factory : Option (MagicStateFactory α)}
    {layout : Layout α}
    (isLayout : architecture.layout program optimization distance factory = .ok layout) :
    ∃ bus factories : Int, layout =
      { dataQubits := some (Arithmetic.ofInt (dataQubits program))
        busQubits := some (Arithmetic.ofInt bus)
        distance
        factoryCount := some (Arithmetic.ofInt factories)
        factory } := by
  unfold Architecture.layout at isLayout
  by_cases undescribed : architecture = .undescribed
  · rw [if_pos undescribed] at isLayout
    cases isLayout
  · rw [if_neg undescribed] at isLayout
    obtain ⟨factories, _, continued⟩ := Calc.bind_eq_ok.mp isLayout
    obtain ⟨bus, _, finished⟩ := Calc.bind_eq_ok.mp continued
    cases finished
    exact ⟨bus, factories, rfl⟩

/-- A layout without distance, schedule and failure rates. -/
structure Blank (layout : Layout α) : Prop where
  distance : layout.distance = none
  allocation : layout.allocation = none
  failureRates : layout.failureRates = none

/-- The layout of a plan with its schedule and its failure rate. -/
def completed (found : Plan α) (known : α) : Layout α :=
  { found.layout with
    allocation := some found.allocation
    failureRates := some { totalCorrection := some known } }

/-! ## Distances -/

/-- Every second distance from `low` up to but not including `high`. -/
def Tried (low high distance : Int) : Prop :=
  ∃ step : Nat, distance = low + 2 * step ∧ distance < high

theorem Tried.le {low high distance : Int} (tried : Tried low high distance) : low ≤ distance := by
  obtain ⟨step, isStep, _⟩ := tried
  omega

theorem tried_first {low high : Int} (some : low < high) : Tried low high low := ⟨0, by simp, some⟩

theorem Tried.of_next {low high distance : Int} (tried : Tried (low + 2) high distance) :
    Tried low high distance := by
  obtain ⟨step, isStep, below⟩ := tried
  exact ⟨step + 1, by omega, below⟩

theorem Tried.cases {low high distance : Int} (tried : Tried low high distance) :
    distance = low ∨ Tried (low + 2) high distance := by
  obtain ⟨step, isStep, below⟩ := tried
  cases step with
  | zero => exact .inl (by omega)
  | succ step => exact .inr ⟨step, by omega, below⟩

/-! ## Assessments -/

/-- What a search for a distance is given, apart from its tolerance and its bounds. -/
structure Setup (α : Type) where
  code : SurfaceCode α
  architecture : Architecture
  program : CompiledProgram
  optimization : Optimization
  perRotation : Int
  factory : Option (MagicStateFactory α)
  hardware : Hardware α

namespace Setup

variable (setup : Setup α)

def plan (distance : Int) : Calc (Plan α) :=
  Architecture.plan setup.code setup.architecture setup.program setup.optimization
    setup.perRotation setup.factory setup.hardware distance

def leastLayout (tolerance : α) (low high : Int) : Run (Layout α) :=
  Architecture.leastLayout setup.code setup.architecture setup.program setup.optimization
    setup.perRotation tolerance setup.factory setup.hardware low high

/-- What is computed at a distance: the layout, its schedule, its volume as logical qubits times
cycles over the distance, and the failure rate of this volume at this distance. -/
structure Assessed (distance : Int) (found : Plan α) (volume : α) : Prop where
  isLayout : setup.architecture.layout setup.program setup.optimization
    (some (Arithmetic.ofInt distance)) setup.factory = .ok found.layout
  isAllocation : Schedule.allocation setup.program setup.optimization found.layout
    setup.perRotation = .ok found.allocation
  isVolume : (found.layout.logicalQubits * found.allocation.total /
    (Arithmetic.ofInt distance : α) : Calc α) = .ok volume
  isRate : (do
    let rate ← setup.code.totalFailureRate (← setup.hardware.errorRate) volume
      (Arithmetic.ofInt distance)
    Arithmetic.toDecimal rate) = .ok found.failureRate

/-- The failure rate at a distance is below the tolerance. -/
def Below (tolerance : α) (distance : Int) : Prop :=
  ∃ found volume, setup.Assessed distance found volume ∧
    Arithmetic.lt found.failureRate tolerance = .ok true

/-- No step of the assessment of a distance and of its comparison with the tolerance stops. -/
def Completes (tolerance : α) (distance : Int) : Prop :=
  ∃ found volume below, setup.Assessed distance found volume ∧
    Arithmetic.lt found.failureRate tolerance = .ok below ∧
    (below = true → ∃ known, Arithmetic.toReal found.failureRate = .ok known)

/-- The layout that a search returns at a distance. -/
def Chosen (tolerance : α) (distance : Int) (layout : Layout α) : Prop :=
  ∃ found volume known, setup.Assessed distance found volume ∧
    Arithmetic.lt found.failureRate tolerance = .ok true ∧
    Arithmetic.toReal found.failureRate = .ok known ∧ layout = completed found known

/-- No step that a search takes stops it: every distance is assessed until one is below the
tolerance. -/
def NeverStops (tolerance : α) (low high : Int) : Prop :=
  ∀ distance, Tried low high distance →
    (∀ other, Tried low high other → other < distance → ¬ setup.Below tolerance other) →
    setup.Completes tolerance distance

/-- The least distance whose failure rate is below the tolerance. -/
def Least (tolerance : α) (low high distance : Int) : Prop :=
  IsLeast {d | Tried low high d ∧ setup.Below tolerance d} distance

variable {setup}

theorem Chosen.distance {tolerance : α} {distance : Int} {layout : Layout α}
    (chosen : setup.Chosen tolerance distance layout) :
    layout.distance = some (Arithmetic.ofInt distance) := by
  obtain ⟨found, volume, known, assessed, _, _, rfl⟩ := chosen
  obtain ⟨_, _, isLayout⟩ := layout_inversion assessed.isLayout
  exact congrArg Layout.distance isLayout

section Next

variable {tolerance : α} {low high : Int} (notBelow : ¬ setup.Below tolerance low)

include notBelow

theorem NeverStops.next (never : setup.NeverStops tolerance low high) :
    setup.NeverStops tolerance (low + 2) high := by
  intro distance tried earlier
  refine never distance tried.of_next fun other tried' less => ?_
  rcases tried'.cases with rfl | later
  · exact notBelow
  · exact earlier other later less

theorem Least.of_next {distance : Int} (least : setup.Least tolerance (low + 2) high distance) :
    setup.Least tolerance low high distance := by
  refine ⟨⟨least.1.1.of_next, least.1.2⟩, ?_⟩
  rintro other ⟨tried, isBelow⟩
  rcases tried.cases with rfl | later
  · exact absurd isBelow notBelow
  · exact least.2 ⟨later, isBelow⟩

end Next

variable [LawfulArithmetic α]

theorem logicalQubits_eq {distance : Int} {layout : Layout α}
    (isLayout : setup.architecture.layout setup.program setup.optimization
      (some (Arithmetic.ofInt distance)) setup.factory = .ok layout) :
    ∃ qubits : Int, layout.logicalQubits = .ok (Arithmetic.ofInt qubits) ∧
      Arithmetic.add (layout.dataQubits.getD (Arithmetic.ofInt 0))
        (layout.busQubits.getD (Arithmetic.ofInt 0)) = .ok (Arithmetic.ofInt qubits) := by
  obtain ⟨bus, factories, rfl⟩ := layout_inversion isLayout
  refine ⟨dataQubits setup.program + bus, ?_, ExactWholes.add_ofInt _ _⟩
  simp [Layout.logicalQubits, Layout.wholeOrZero, LawfulArithmetic.isWhole_ofInt]

theorem plan_eq_ok_iff {distance : Int} {found : Plan α} :
    setup.plan distance = .ok found ↔ ∃ volume, setup.Assessed distance found volume := by
  constructor
  · intro planned
    obtain ⟨layout, isLayout, planned⟩ := Calc.bind_eq_ok.mp planned
    obtain ⟨allocation, isAllocation, planned⟩ := Calc.bind_eq_ok.mp planned
    obtain ⟨qubits, isSum, planned⟩ := Calc.bind_eq_ok.mp planned
    obtain ⟨volume, isVolume, planned⟩ := Calc.bind_eq_ok.mp planned
    obtain ⟨errorRate, isErrorRate, planned⟩ := Calc.bind_eq_ok.mp planned
    obtain ⟨rate, isRate, planned⟩ := Calc.bind_eq_ok.mp planned
    obtain ⟨decimal, isDecimal, planned⟩ := Calc.bind_eq_ok.mp planned
    cases planned
    obtain ⟨_, counted, added⟩ := logicalQubits_eq isLayout
    cases added.symm.trans isSum
    refine ⟨volume, isLayout, isAllocation, ?_, ?_⟩
    · rw [counted]
      exact isVolume
    · rw [isErrorRate, Calc.ok_bind, isRate]
      exact isDecimal
  · rintro ⟨volume, isLayout, isAllocation, isVolume, isRate⟩
    obtain ⟨qubits, counted, added⟩ := logicalQubits_eq isLayout
    rw [counted] at isVolume
    obtain ⟨errorRate, isErrorRate, isRate⟩ := Calc.bind_eq_ok.mp isRate
    obtain ⟨rate, isRate, isDecimal⟩ := Calc.bind_eq_ok.mp isRate
    unfold plan Architecture.plan
    simp only [isLayout, isAllocation, added, isVolume, isErrorRate, isRate, isDecimal,
      Calc.ok_bind]
    rfl

theorem Assessed.unique {distance : Int} {found other : Plan α} {volume volume' : α}
    (first : setup.Assessed distance found volume)
    (second : setup.Assessed distance other volume') : found = other :=
  Except.ok.inj ((plan_eq_ok_iff.mpr ⟨volume, first⟩).symm.trans
    (plan_eq_ok_iff.mpr ⟨volume', second⟩))

theorem not_below {tolerance : α} {distance : Int} {found : Plan α} {volume : α}
    (assessed : setup.Assessed distance found volume)
    (compared : Arithmetic.lt found.failureRate tolerance = .ok false) :
    ¬ setup.Below tolerance distance := by
  rintro ⟨found', volume', assessed', compared'⟩
  rw [assessed.unique assessed', compared'] at compared
  cases compared

theorem Below.raise {tolerance looser : α} {distance : Int}
    (order : Arithmetic.le tolerance looser = .ok true) (below : setup.Below tolerance distance) :
    setup.Below looser distance := by
  obtain ⟨found, volume, assessed, compared⟩ := below
  exact ⟨found, volume, assessed, LawfulArithmetic.lt_of_lt_of_le compared order⟩

/-- The volume that the rate was taken at is the volume of the layout. -/
theorem Assessed.volume_completed {distance : Int} {found : Plan α} {volume : α}
    (assessed : setup.Assessed distance found volume) (known : α) :
    (completed found known).volume = .ok volume := by
  obtain ⟨qubits, counted, _⟩ := logicalQubits_eq assessed.isLayout
  obtain ⟨_, _, isLayout⟩ := layout_inversion assessed.isLayout
  have isDistance : (completed found known).distance = some (Arithmetic.ofInt distance) :=
    congrArg Layout.distance isLayout
  have isVolume := assessed.isVolume
  rw [counted] at isVolume
  have swapped : (found.allocation.total * found.layout.logicalQubits : Calc α) =
      ((Arithmetic.ofInt qubits : α) : Calc α) * found.allocation.total := by
    rw [counted]
    cases found.allocation.total with
    | error => rfl
    | ok total => exact LawfulArithmetic.mul_whole_comm qubits total
  unfold Layout.volume
  rw [isDistance]
  change (found.allocation.total * found.layout.logicalQubits /
    (Arithmetic.ofInt distance : α) : Calc α) = _
  rw [swapped]
  exact isVolume

/-! ## The search -/

section Step

variable {tolerance : α} {low high : Int} {found : Plan α} {volume : α} {count : Nat}
  {last : Layout α} {before : Journal} (assessed : setup.Assessed low found volume)

include assessed

theorem searchFrom_chosen {known : α}
    (compared : Arithmetic.lt found.failureRate tolerance = .ok true)
    (isKnown : Arithmetic.toReal found.failureRate = .ok known) :
    (searchFrom setup.plan tolerance (count + 1) low last).Returns before
      (completed found known) before := by
  have accepted : accept found = .ok (completed found known) := by
    rw [accept, isKnown]
    rfl
  exact Run.returns_lift_bind.mpr ⟨found, plan_eq_ok_iff.mpr ⟨volume, assessed⟩,
    Run.returns_lift_bind.mpr ⟨true, compared, Run.returns_lift.mpr ⟨accepted, rfl⟩⟩⟩

theorem searchFrom_next {layout : Layout α} {after : Journal}
    (compared : Arithmetic.lt found.failureRate tolerance = .ok false)
    (rest : (searchFrom setup.plan tolerance count (low + 2) found.layout).Returns before layout
      after) :
    (searchFrom setup.plan tolerance (count + 1) low last).Returns before layout after :=
  Run.returns_lift_bind.mpr ⟨found, plan_eq_ok_iff.mpr ⟨volume, assessed⟩,
    Run.returns_lift_bind.mpr ⟨false, compared, rest⟩⟩

end Step

/-- What a search tells when it finds nothing. -/
def warned (before : Journal) : Journal :=
  { before with warnings := before.warnings ++ ["No viable layout found! Returning null results."] }

/-- A search that nothing stops ends at the least distance below the tolerance, or with a warning if
there is none. -/
theorem searchFrom_ends {tolerance : α} {count : Nat} {low high : Int} (last : Layout α)
    (before : Journal) (isCount : count = ((high - low + 1) / 2).toNat)
    (never : setup.NeverStops tolerance low high) :
    (∃ distance layout, setup.Least tolerance low high distance ∧
      setup.Chosen tolerance distance layout ∧
      (searchFrom setup.plan tolerance count low last).Returns before layout before) ∨
    (∀ distance, Tried low high distance → ¬ setup.Below tolerance distance) ∧
      ∃ layout, Blank layout ∧
        (searchFrom setup.plan tolerance count low last).Returns before layout (warned before) := by
  -- The induction is on the number of distances that are left.
  induction count generalizing low last with
  | zero =>
    refine .inr ⟨fun distance tried => ?_, _, ⟨rfl, rfl, rfl⟩, rfl⟩
    obtain ⟨step, isStep, below⟩ := tried
    omega
  | succ count ih =>
    have tried : Tried low high low := tried_first (by omega)
    obtain ⟨found, volume, below, assessed, compared, converts⟩ :=
      never low tried fun other tried less => absurd tried.le (by omega)
    cases below with
    | true =>
      obtain ⟨known, isKnown⟩ := converts rfl
      refine .inl ⟨low, completed found known, ?_,
        ⟨found, volume, known, assessed, compared, isKnown, rfl⟩,
        searchFrom_chosen assessed compared isKnown⟩
      exact ⟨⟨tried, found, volume, assessed, compared⟩, fun other tried => tried.1.le⟩
    | false =>
      have notBelow := not_below assessed compared
      rcases ih found.layout (by omega) (never.next notBelow) with
        ⟨distance, layout, least, chosen, returned⟩ | ⟨nothing, layout, blank, returned⟩
      · exact .inl ⟨distance, layout, least.of_next notBelow, chosen,
          searchFrom_next assessed compared returned⟩
      · refine .inr ⟨fun distance tried => ?_, layout, blank,
          searchFrom_next assessed compared returned⟩
        rcases tried.cases with rfl | later
        · exact notBelow
        · exact nothing distance later

/-- A search that nothing stops returns a layout with a distance just when this is the least one
whose failure rate is below the tolerance. Then the layout is the one of this distance, with its
schedule and its failure rate, and its volume is the one that the rate was taken at. If there is no
such distance, the layout is left blank and a warning is given. A larger tolerance never gives a
larger distance. -/
theorem leastLayout_minimal (setup : Setup α) (tolerance : α) (low high : Int)
    (never : setup.NeverStops tolerance low high) :
    ∃ layout journal, (setup.leastLayout tolerance low high).result = (.ok layout, journal) ∧
      (∀ distance, layout.distance = some (Arithmetic.ofInt distance) ↔
        setup.Least tolerance low high distance) ∧
      (∀ distance, setup.Least tolerance low high distance →
        journal.warnings = [] ∧ ∃ found volume known, setup.Assessed distance found volume ∧
          Arithmetic.toReal found.failureRate = .ok known ∧ layout = completed found known ∧
          layout.volume = .ok volume) ∧
      ((∀ distance, Tried low high distance → ¬ setup.Below tolerance distance) →
        Blank layout ∧
          journal.warnings = ["No viable layout found! Returning null results."]) ∧
      ∀ looser, Arithmetic.le tolerance looser = .ok true → setup.NeverStops looser low high →
        ∀ distance, layout.distance = some (Arithmetic.ofInt distance) →
          ∃ other after nearer, (setup.leastLayout looser low high).result = (.ok other, after) ∧
            other.distance = some (Arithmetic.ofInt nearer) ∧ nearer ≤ distance := by
  rcases searchFrom_ends {} {} rfl never with
    ⟨distance, layout, least, chosen, returned⟩ | ⟨nothing, layout, blank, returned⟩
  · have isDistance (d : Int) : layout.distance = some (Arithmetic.ofInt d) ↔
        setup.Least tolerance low high d := by
      rw [chosen.distance, Option.some.injEq, (ofInt_injective α).eq_iff]
      constructor
      · rintro rfl
        exact least
      · exact least.unique
    refine ⟨layout, {}, returned, isDistance, ?_, ?_, ?_⟩
    · intro d least'
      cases least.unique least'
      obtain ⟨found, volume, known, assessed, _, isKnown, rfl⟩ := chosen
      exact ⟨rfl, found, volume, known, assessed, isKnown, rfl, assessed.volume_completed known⟩
    · intro nothing
      exact absurd least.1.2 (nothing distance least.1.1)
    · intro looser order never' d isD
      have least' := (isDistance d).mp isD
      rcases searchFrom_ends {} {} rfl never' with
        ⟨nearer, other, nearest, chosen', returned'⟩ | ⟨nothing, _⟩
      · exact ⟨other, {}, nearer, returned', chosen'.distance,
          nearest.2 ⟨least'.1.1, least'.1.2.raise order⟩⟩
      · exact absurd (least'.1.2.raise order) (nothing d least'.1.1)
  · refine ⟨layout, _, returned, ?_, ?_, fun _ => ⟨blank, rfl⟩, ?_⟩
    · intro d
      rw [blank.distance]
      exact ⟨nofun, fun least => absurd least.1.2 (nothing d least.1.1)⟩
    · intro d least
      exact absurd least.1.2 (nothing d least.1.1)
    · intro _ _ _ d isD
      rw [blank.distance] at isD
      cases isD

/-- Assesses a distance and tells whether its failure rate is below the tolerance. -/
def outcome (setup : Setup α) (tolerance : α) (distance : Int) : Calc Bool := do
  let found ← setup.plan distance
  let below ← Arithmetic.lt found.failureRate tolerance
  if below then let _ ← Arithmetic.toReal found.failureRate
  return below

theorem completes_of_outcome {tolerance : α} {distance : Int} {below : Bool}
    (isOutcome : setup.outcome tolerance distance = .ok below) :
    setup.Completes tolerance distance ∧ (setup.Below tolerance distance ↔ below = true) := by
  obtain ⟨found, planned, isOutcome⟩ := Calc.bind_eq_ok.mp isOutcome
  obtain ⟨volume, assessed⟩ := plan_eq_ok_iff.mp planned
  obtain ⟨less, compared, isOutcome⟩ := Calc.bind_eq_ok.mp isOutcome
  cases less with
  | false =>
    cases isOutcome
    exact ⟨⟨found, volume, false, assessed, compared, nofun⟩,
      by simpa using not_below assessed compared⟩
  | true =>
    obtain ⟨known, isKnown, isOutcome⟩ := Calc.bind_eq_ok.mp isOutcome
    cases isOutcome
    exact ⟨⟨found, volume, true, assessed, compared, fun _ => ⟨known, isKnown⟩⟩,
      fun _ => rfl, fun _ => ⟨found, volume, assessed, compared⟩⟩

/-- Five T gates and two rotations on ion traps. -/
def ionTraps : Setup Scalar where
  code := .compounded
  architecture := .twoRowBus
  program := ⟨[⟨3, 1, [4], [5], [2]⟩], 1, fun _ => .ok [0]⟩
  optimization := .space
  perRotation := 4
  factory := some ⟨"factory", .whole 0, none, .whole 100, .whole 10, 2⟩
  hardware := .standard .ionTrap

/-- The failure rate falls below a thousandth at the second distance that is tried. -/
theorem leastLayout_minimal_ionTraps :
    ∃ layout journal, (ionTraps.leastLayout (.real 1e-3) 3 200).result = (.ok layout, journal) ∧
      layout.distance = some (.whole 5) ∧ journal.warnings = [] := by
  have atThree : ionTraps.outcome (.real 1e-3) 3 = .ok false := by decide +kernel
  have atFive : ionTraps.outcome (.real 1e-3) 5 = .ok true := by decide +kernel
  obtain ⟨completesThree, belowThree⟩ := completes_of_outcome atThree
  obtain ⟨completesFive, belowFive⟩ := completes_of_outcome atFive
  have tried : Tried 3 200 5 := ⟨1, by decide, by decide⟩
  have split {distance : Int} (tried : Tried 3 200 distance) :
      distance = 3 ∨ distance = 5 ∨ 5 < distance := by
    obtain ⟨step, isStep, _⟩ := tried
    omega
  have never : ionTraps.NeverStops (.real 1e-3) 3 200 := by
    intro distance tried' earlier
    rcases split tried' with rfl | rfl | beyond
    · exact completesThree
    · exact completesFive
    · exact absurd (belowFive.mpr rfl) (earlier 5 tried beyond)
  have least : ionTraps.Least (.real 1e-3) 3 200 5 := by
    refine ⟨⟨tried, belowFive.mpr rfl⟩, ?_⟩
    rintro distance ⟨tried', below⟩
    rcases split tried' with rfl | rfl | beyond
    · cases belowThree.mp below
    · exact le_rfl
    · exact beyond.le
  obtain ⟨layout, journal, returned, isDistance, atLeast, _⟩ :=
    leastLayout_minimal ionTraps (.real 1e-3) 3 200 never
  exact ⟨layout, journal, returned, (isDistance 5).mpr least, (atLeast 5 least).1⟩

end Setup

end QuantumResources.Architecture
