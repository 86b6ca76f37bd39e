import Mathlib.Tactic.Ring
import QuantumResources.Proofs.Estimate.ErrorBudget
import QuantumResources.Proofs.Estimate.GateCounts

/-! The energy for decoding, at two speeds of the clock.

A decoder is paid for a volume. An estimate for a compiled program hands over a volume in cells,
which is a number of cycles and not of seconds, so its energy does not depend on the clock. An
estimate from gate counts hands over qubit seconds, and its energy is in proportion to the time of a
cycle. -/

namespace QuantumResources

namespace Decoder

variable {α : Type} [Arithmetic α]

/-- Joules for decoding a volume at a distance. -/
def energy (decoder : Decoder α) (distance volume : α) : Calc α :=
  volume * lookup decoder.power distance * lookup decoder.delay distance *
    (Arithmetic.constant 1 18 : α)

omit [Arithmetic α] in
theorem not_returns_warn {text : String} {report : DecoderReport α} {before after : Journal} :
    ¬ (do Run.warn text; return none : Run (Option (DecoderReport α))).Returns before (some report)
      after := by
  intro returned
  obtain ⟨_, _, _, finished⟩ := Run.returns_bind.mp returned
  exact absurd (Run.returns_pure.mp finished).1 (by simp)

/-- The energy of a report depends on the distance and the volume only. -/
theorem energy_of_report {decoder : Decoder α} {hardware : Hardware α}
    {distance volume logicalQubits : α} {report : DecoderReport α} {before after : Journal}
    (returned : (decoder.report hardware distance volume logicalQubits).Returns before
      (some report) after) :
    decoder.energy distance volume = .ok report.energy := by
  unfold Decoder.report at returned
  obtain ⟨limit, _, limited⟩ := Run.returns_lift_bind.mp returned
  obtain ⟨uncovered, _, checked⟩ := Run.returns_lift_bind.mp limited
  cases uncovered with
  | true => exact absurd checked not_returns_warn
  | false =>
    obtain ⟨slow, _, decided⟩ := Run.returns_lift_bind.mp checked
    cases slow with
    | true => exact absurd decided not_returns_warn
    | false =>
      obtain ⟨joules, spent, afterEnergy⟩ := Run.returns_lift_bind.mp decided
      obtain ⟨watts, _, afterPower⟩ := Run.returns_lift_bind.mp afterEnergy
      obtain ⟨area, _, finished⟩ := Run.returns_lift_bind.mp afterPower
      obtain ⟨isReport, _⟩ := Run.returns_pure.mp finished
      cases isReport
      exact spent

/-- The energy is in proportion to the volume. -/
theorem energy_proportional (decoder : Decoder Rat) (distance : Rat) :
    ∃ perVolume : Rat, ∀ volume joules, decoder.energy distance volume = .ok joules →
      joules = volume * perVolume := by
  unfold energy
  cases lookup decoder.power distance with
  | error failure => exact ⟨0, fun _ _ impossible => by cases impossible⟩
  | ok power =>
    cases lookup decoder.delay distance with
    | error failure => exact ⟨0, fun _ _ impossible => by cases impossible⟩
    | ok delay =>
      refine ⟨power * delay * Arithmetic.constant 1 18, fun volume joules spent => ?_⟩
      have product : volume * power * delay * Arithmetic.constant 1 18 = joules :=
        Except.ok.inj spent
      rw [← product]
      ring

end Decoder

namespace GraphEstimate

variable {α : Type} [Arithmetic α]

/-- A way to plan that reads the error rate of the hardware and not its clock. -/
def Planner.IgnoresClock (planner : Planner α) : Prop :=
  ∀ program optimization perRotation tolerance factory technology errorRate cycleTime otherTime,
    planner.leastLayout program optimization perRotation tolerance factory
        (.described technology errorRate cycleTime) =
      planner.leastLayout program optimization perRotation tolerance factory
        (.described technology errorRate otherTime)

/-- Neither planner reads the clock. -/
theorem Planner.ofArchitecture_ignoresClock (code : SurfaceCode α) (architecture : Architecture) :
    (Planner.ofArchitecture code architecture).IgnoresClock :=
  fun _ _ _ _ _ _ _ _ _ => rfl

section TwoClocks

variable {tGatesPerRotation : α → Calc Int} {planner : Planner α}
  {inventory : Layout α → Run (IonTrap.Inventory α)} {optimization : Optimization}
  {implementation : CompiledImplementation α} {decoder : Decoder α} {factories : FactorySource α}
  {estimate other : Estimate α} {report otherReport : DecoderReport α} {before : Journal}

/-- The energy of an estimate is that of its layout's volume in cells. -/
theorem energy_eq_of_cells {hardware : Hardware α} {after : Journal}
    (returned : (estimateWith tGatesPerRotation planner inventory optimization implementation
      hardware (some decoder) factories).Returns before estimate after)
    (reported : estimate.decoder = some report) :
    ∃ layout ∈ estimate.layout, ∃ distance ∈ layout.distance, ∃ cells,
      layout.volume = .ok cells ∧ decoder.energy distance cells = .ok report.energy := by
  obtain ⟨_, _, layout, _, _, rates, distance, volume, _, _, _, _, _, _, _, _, _, measured, filled,
    decodes, _, isLayout, _⟩ := estimateWith_steps returned
  rw [reported] at decodes
  exact ⟨_, isLayout, distance, measured, volume, filled, Decoder.energy_of_report decodes⟩

/-- Two estimates that differ in the clock only have the same layout. -/
theorem layout_eq_of_clocks (ignores : planner.IgnoresClock) {technology : Technology}
    {errorRate cycleTime otherTime : α} {after otherAfter : Journal}
    (returned : (estimateWith tGatesPerRotation planner inventory optimization implementation
      (.described technology errorRate cycleTime) (some decoder) factories).Returns before estimate
        after)
    (alsoReturned : (estimateWith tGatesPerRotation planner inventory optimization implementation
      (.described technology errorRate otherTime) (some decoder) factories).Returns before other
        otherAfter) :
    estimate.layout = other.layout := by
  obtain ⟨half, found, layout, between, known, rates, _, _, _, _, _, halved, demanded, searched,
    _, rated, completed, _, _, _, _, isLayout, _⟩ := estimateWith_steps returned
  obtain ⟨sameHalf, sameFound, sameLayout, _, sameKnown, sameRates, _, _, _, _, _, alsoHalved,
    alsoDemanded, alsoSearched, _, alsoRated, alsoCompleted, _, _, _, _, alsoLayout, _⟩ :=
    estimateWith_steps alsoReturned
  cases halved.symm.trans alsoHalved
  cases demanded.symm.trans alsoDemanded
  rw [ignores _ _ _ _ _ _ _ _ otherTime] at searched
  cases searched.symm.trans alsoSearched
  cases rated.symm.trans alsoRated
  cases completed.symm.trans alsoCompleted
  rw [isLayout, alsoLayout]

theorem energy_eq_of_clocks (ignores : planner.IgnoresClock) {technology : Technology}
    {errorRate cycleTime otherTime : α} {after otherAfter : Journal}
    (returned : (estimateWith tGatesPerRotation planner inventory optimization implementation
      (.described technology errorRate cycleTime) (some decoder) factories).Returns before estimate
        after)
    (alsoReturned : (estimateWith tGatesPerRotation planner inventory optimization implementation
      (.described technology errorRate otherTime) (some decoder) factories).Returns before other
        otherAfter)
    (reported : estimate.decoder = some report)
    (alsoReported : other.decoder = some otherReport) : report.energy = otherReport.energy := by
  obtain ⟨layout, isLayout, distance, measured, cells, filled, spent⟩ :=
    energy_eq_of_cells returned reported
  obtain ⟨sameLayout, alsoLayout, sameDistance, alsoMeasured, sameCells, alsoFilled, alsoSpent⟩ :=
    energy_eq_of_cells alsoReturned alsoReported
  rw [layout_eq_of_clocks ignores returned alsoReturned] at isLayout
  cases isLayout.symm.trans alsoLayout
  cases measured.symm.trans alsoMeasured
  cases filled.symm.trans alsoFilled
  exact Except.ok.inj (spent.symm.trans alsoSpent)

end TwoClocks

end GraphEstimate

namespace GateCounts

/-- The energy of an estimate is that of its qubits over its time. -/
theorem energy_eq_of_duration {code : SurfaceCode Rat} {task : Task Rat} {hardware : Hardware Rat}
    {decoder : Decoder Rat} {factories : FactorySource Rat} {estimate : Estimate Rat}
    {report : DecoderReport Rat} {before after : Journal}
    (returned : (estimateWith code task hardware (some decoder) factories).Returns before estimate
      after)
    (reported : estimate.decoder = some report) :
    ∃ found p, task.best code factories = .ok (found, p) ∧
      estimate.physicalQubits = some found.physicalQubits ∧
      estimate.totalTime = some found.duration ∧
      decoder.energy p.distance (found.physicalQubits * found.duration) = .ok report.energy := by
  unfold estimateWith at returned
  obtain ⟨⟨found, p⟩, chosen, afterChoice⟩ := Run.returns_lift_bind.mp returned
  obtain ⟨volume, multiplied, afterVolume⟩ := Run.returns_lift_bind.mp afterChoice
  obtain ⟨decoded, told, decodes, finished⟩ := Run.returns_bind.mp afterVolume
  obtain ⟨rfl, _⟩ := Run.returns_pure.mp finished
  cases multiplied
  cases reported
  exact ⟨found, p, chosen, rfl, rfl, Decoder.energy_of_report decodes⟩

theorem best_needs_gates {code : SurfaceCode Rat} {task : Task Rat}
    {factories : FactorySource Rat} {found : Candidate Rat}
    (chosen : task.best code factories = .ok found) :
    ¬ (task.tGates = 0 ∧ task.toffoliGates = 0) := by
  rintro ⟨noT, noToffoli⟩
  have stops : (isZero task.tGates && isZero task.toffoliGates) = true := by
    simp [noT, noToffoli]
  rw [Task.best, if_pos stops] at chosen
  cases chosen

/-- The energies of two estimates that differ in the clock only are in the ratio of their clocks. -/
theorem energy_ratio {code : SurfaceCode Rat} (task : Task Rat) {decoder : Decoder Rat}
    {factories : FactorySource Rat} {hardware otherHardware : Hardware Rat}
    {s₁ s₂ : Rat} (positive₁ : 0 < s₁) (positive₂ : 0 < s₂) {estimate₁ estimate₂ : Estimate Rat}
    {report₁ report₂ : DecoderReport Rat} {before after otherAfter : Journal}
    (returned₁ : (estimateWith code { task with cycleTime := s₁ } hardware (some decoder)
      factories).Returns before estimate₁ after)
    (returned₂ : (estimateWith code { task with cycleTime := s₂ } otherHardware (some decoder)
      factories).Returns before estimate₂ otherAfter)
    (reported₁ : estimate₁.decoder = some report₁) (reported₂ : estimate₂.decoder = some report₂) :
    report₁.energy * s₂ = report₂.energy * s₁ := by
  obtain ⟨found, p, chosen, _, _, spent⟩ := energy_eq_of_duration returned₁ reported₁
  obtain ⟨other, q, alsoChosen, _, _, alsoSpent⟩ := energy_eq_of_duration returned₂ reported₂
  have needed := best_needs_gates chosen
  have alike : Calc.Alike (SameChoice s₁ s₂)
      (Task.best code { task with cycleTime := s₁ } factories)
      (Task.best code { task with cycleTime := s₂ } factories) :=
    best_alike task code positive₁ positive₂ needed needed rfl factories
  rw [chosen, alsoChosen] at alike
  cases alike with
  | ok choice =>
    obtain ⟨perVolume, proportional⟩ := decoder.energy_proportional p.distance
    have isFirst := proportional _ _ spent
    have isSecond := proportional _ _ (choice.distance ▸ alsoSpent)
    have qubits : found.physicalQubits = other.physicalQubits := choice.physicalQubits
    have durations : found.duration * s₂ = other.duration * s₁ := choice.duration
    calc report₁.energy * s₂
      _ = found.physicalQubits * (found.duration * s₂) * perVolume := by
        rw [isFirst]
        ring
      _ = other.physicalQubits * (other.duration * s₁) * perVolume := by rw [qubits, durations]
      _ = report₂.energy * s₁ := by
        rw [isSecond]
        ring

end GateCounts

/-- Amounts in the ratio of two clocks agree only if the clocks do or there is nothing. -/
theorem eq_iff_of_ratio {x y s₁ s₂ : Rat} (positive : 0 < s₁) (ratio : x * s₂ = y * s₁) :
    x = y ↔ s₁ = s₂ ∨ x = 0 := by
  constructor
  · intro same
    rw [same, mul_eq_mul_left_iff] at ratio
    rcases ratio with clocks | nothing
    · exact .inl clocks.symm
    · exact .inr (same.trans nothing)
  · rintro (rfl | nothing)
    · exact mul_right_cancel₀ positive.ne' ratio
    · rw [nothing, zero_mul, eq_comm, mul_eq_zero] at ratio
      rw [nothing, ratio.resolve_right positive.ne']

/-- The run returns an estimate with a report on its decoder. -/
def Run.Reports {α : Type} (run : Run (Estimate α)) (estimate : Estimate α)
    (report : DecoderReport α) : Prop :=
  run.result.1 = .ok estimate ∧ estimate.decoder = some report

/-- The decoder of a compiled program is paid for the cells of its layout, and its energy is the
same at every clock. The decoder of gate counts is paid for qubits over seconds: its energies are in
the ratio of the clocks, and agree only if the clocks do or nothing is spent at all. -/
theorem decoding_energy_iff (technology : Technology) (errorRate : Rat) (decoder : Decoder Rat)
    (factories : FactorySource Rat) (tGatesPerRotation : Rat → Calc Int)
    (planner : GraphEstimate.Planner Rat) (ignores : planner.IgnoresClock)
    (inventory : Layout Rat → Run (IonTrap.Inventory Rat)) (optimization : Optimization)
    (implementation : CompiledImplementation Rat) (code : SurfaceCode Rat)
    (task : GateCounts.Task Rat) :
    let compiled (cycleTime : Rat) : Run (Estimate Rat) :=
      GraphEstimate.estimateWith tGatesPerRotation planner inventory optimization implementation
        (.described technology errorRate cycleTime) (some decoder) factories
    let counted (cycleTime : Rat) : Run (Estimate Rat) :=
      GateCounts.estimateWith code { task with physicalErrorRate := errorRate, cycleTime }
        (.described technology errorRate cycleTime) (some decoder) factories
    (∀ cycleTime estimate report, (compiled cycleTime).Reports estimate report →
      ∃ layout ∈ estimate.layout, ∃ distance ∈ layout.distance, ∃ cells,
        layout.volume = .ok cells ∧ decoder.energy distance cells = .ok report.energy) ∧
    (∀ s₁ s₂ estimate₁ estimate₂ report₁ report₂, (compiled s₁).Reports estimate₁ report₁ →
      (compiled s₂).Reports estimate₂ report₂ → report₁.energy = report₂.energy) ∧
    (∀ cycleTime estimate report, (counted cycleTime).Reports estimate report →
      ∃ qubits ∈ estimate.physicalQubits, ∃ seconds ∈ estimate.totalTime, ∃ distance,
        decoder.energy distance (qubits * seconds) = .ok report.energy) ∧
    ∀ s₁ s₂ estimate₁ estimate₂ report₁ report₂, 0 < s₁ → 0 < s₂ →
      (counted s₁).Reports estimate₁ report₁ → (counted s₂).Reports estimate₂ report₂ →
      report₁.energy * s₂ = report₂.energy * s₁ ∧
        (report₁.energy = report₂.energy ↔ s₁ = s₂ ∨ report₁.energy = 0) := by
  intro compiled counted
  refine ⟨?_, ?_, ?_, ?_⟩
  · rintro cycleTime estimate report ⟨returned, reported⟩
    obtain ⟨after, returns⟩ := Run.exists_returns returned
    exact GraphEstimate.energy_eq_of_cells returns reported
  · rintro s₁ s₂ estimate₁ estimate₂ report₁ report₂ ⟨returned₁, reported₁⟩ ⟨returned₂, reported₂⟩
    obtain ⟨after₁, returns₁⟩ := Run.exists_returns returned₁
    obtain ⟨after₂, returns₂⟩ := Run.exists_returns returned₂
    exact GraphEstimate.energy_eq_of_clocks ignores returns₁ returns₂ reported₁ reported₂
  · rintro cycleTime estimate report ⟨returned, reported⟩
    obtain ⟨after, returns⟩ := Run.exists_returns returned
    obtain ⟨found, p, _, isQubits, isTime, spent⟩ :=
      GateCounts.energy_eq_of_duration returns reported
    exact ⟨_, isQubits, _, isTime, _, spent⟩
  · rintro s₁ s₂ estimate₁ estimate₂ report₁ report₂ positive₁ positive₂ ⟨returned₁, reported₁⟩
      ⟨returned₂, reported₂⟩
    obtain ⟨after₁, returns₁⟩ := Run.exists_returns returned₁
    obtain ⟨after₂, returns₂⟩ := Run.exists_returns returned₂
    have ratio := GateCounts.energy_ratio { task with physicalErrorRate := errorRate }
      positive₁ positive₂ returns₁ returns₂ reported₁ reported₂
    exact ⟨ratio, eq_iff_of_ratio positive₁ ratio⟩

/-- A decoder for the distances from 3 to 15. -/
def smallDecoder : Decoder Rat where
  power := (List.range 13).map fun (i : Nat) => ((i : Int) + 3, 2)
  area := (List.range 13).map fun (i : Nat) => ((i : Int) + 3, 1)
  delay := (List.range 13).map fun (i : Nat) => ((i : Int) + 3, 5)

def smallCompiled (cycleTime : Rat) : Run (Estimate Rat) :=
  GraphEstimate.estimateWith (fun _ => .ok 3)
    (.ofArchitecture GraphEstimate.decliningCode .twoRowBus) (fun _ => throw .noValue) .time
    GraphEstimate.smallImplementation (.described .superconducting (1 / 1000) cycleTime)
    (some smallDecoder) (.ofList [GateCounts.smallFactory])

/-- One Toffoli gate from one factory. -/
def smallCounted (cycleTime : Rat) : Run (Estimate Rat) :=
  GateCounts.estimateWith GateCounts.additiveFormulas
    { GateCounts.smallTask 1 with toffoliGates := 1, physicalErrorRate := 1 / 1000, cycleTime }
    (.described .superconducting (1 / 1000) cycleTime) (some smallDecoder)
    (.ofList [GateCounts.smallFactory])

/-- The energy for decoding, where there is a report. -/
def Run.energy? (run : Run (Estimate Rat)) : Option Rat :=
  (run.result.1.toOption.bind (·.decoder)).map (·.energy)

theorem Run.reports_of_energy {run : Run (Estimate Rat)} {joules : Rat}
    (spent : run.energy? = some joules) :
    ∃ estimate report, run.Reports estimate report ∧ report.energy = joules := by
  obtain ⟨report, bound, isEnergy⟩ := Option.map_eq_some_iff.mp spent
  obtain ⟨estimate, returned, reported⟩ := Option.bind_eq_some_iff.mp bound
  refine ⟨estimate, report, ⟨?_, reported⟩, isEnergy⟩
  cases outcome : run.result.1 with
  | error failure =>
    rw [outcome] at returned
    cases returned
  | ok found =>
    rw [outcome] at returned
    cases returned
    rfl

/-- Two clocks that both estimators can use. -/
theorem decoding_energy_small :
    ∃ e₁ e₂ f₁ f₂ r₁ r₂ t₁ t₂,
      (smallCompiled 1).Reports e₁ r₁ ∧ (smallCompiled 3).Reports e₂ r₂ ∧
      (smallCounted 1).Reports f₁ t₁ ∧ (smallCounted 3).Reports f₂ t₂ ∧
      r₁.energy = r₂.energy ∧ t₁.energy * 3 = t₂.energy * 1 := by
  have compiled₁ : (smallCompiled 1).energy?.isSome = true := by decide +kernel
  have compiled₃ : (smallCompiled 3).energy?.isSome = true := by decide +kernel
  have counted₁ : (smallCounted 1).energy?.isSome = true := by decide +kernel
  have counted₃ : (smallCounted 3).energy?.isSome = true := by decide +kernel
  obtain ⟨e₁, r₁, reports₁, _⟩ := Run.reports_of_energy (Option.get_mem compiled₁)
  obtain ⟨e₂, r₂, reports₂, _⟩ := Run.reports_of_energy (Option.get_mem compiled₃)
  obtain ⟨f₁, t₁, counts₁, _⟩ := Run.reports_of_energy (Option.get_mem counted₁)
  obtain ⟨f₂, t₂, counts₂, _⟩ := Run.reports_of_energy (Option.get_mem counted₃)
  obtain ⟨_, same, _, ratio⟩ := decoding_energy_iff .superconducting (1 / 1000) smallDecoder
    (.ofList [GateCounts.smallFactory]) (fun _ => .ok 3)
    (.ofArchitecture GraphEstimate.decliningCode .twoRowBus)
    (GraphEstimate.Planner.ofArchitecture_ignoresClock _ _) (fun _ => throw .noValue) .time
    GraphEstimate.smallImplementation GateCounts.additiveFormulas
    { GateCounts.smallTask 1 with toffoliGates := 1 }
  exact ⟨e₁, e₂, f₁, f₂, r₁, r₂, t₁, t₂, reports₁, reports₂, counts₁, counts₂,
    same 1 3 _ _ _ _ reports₁ reports₂,
    (ratio 1 3 _ _ _ _ (by decide) (by decide) counts₁ counts₂).1⟩

/-- A slower clock makes decoding for the same gate counts dearer. -/
theorem decoding_energy_follows_clock :
    ∃ f₁ f₂ t₁ t₂, (smallCounted 1).Reports f₁ t₁ ∧ (smallCounted 3).Reports f₂ t₂ ∧
      t₁.energy < t₂.energy := by
  have counted₁ : (smallCounted 1).energy? = some (5980 * 10 * 10 / 10 ^ 18) := by decide +kernel
  have counted₃ : (smallCounted 3).energy? = some (5980 * 30 * 10 / 10 ^ 18) := by decide +kernel
  obtain ⟨f₁, t₁, counts₁, spent₁⟩ := Run.reports_of_energy counted₁
  obtain ⟨f₂, t₂, counts₂, spent₂⟩ := Run.reports_of_energy counted₃
  refine ⟨f₁, f₂, t₁, t₂, counts₁, counts₂, ?_⟩
  rw [spent₁, spent₂]
  decide +kernel

end QuantumResources
