import QuantumResources.Proofs.Architecture.Space
import QuantumResources.Proofs.Number.Doubles
import QuantumResources.Proofs.Schedule.Savings

/-! Saving time against saving space.

A schedule that saves time is never longer than one that saves space, and its layout is never
smaller, as long as it has a factory. The number of its factories comes from a quotient of doubles,
which is out of range for very wide layers and vanishes for very many states in one round. -/

namespace QuantumResources.Architecture

open Allocation

/-! ## Physical qubits -/

/-- Physical qubits of a layout with some number of factories. -/
def qubitsWith (architecture : Architecture) (data patch qubits count : Int) : Int :=
  patch * (data + architecture.busCount data count) + qubits * count

theorem busCount_mono (architecture : Architecture) (data : Int) {few many : Int}
    (order : few ≤ many) : architecture.busCount data few ≤ architecture.busCount data many := by
  cases architecture with
  | allToAll => exact Int.le_refl 0
  | twoRowBus => exact Int.add_le_add_left order data
  | undescribed => exact Int.le_refl 0

theorem qubitsWith_mono (architecture : Architecture) (data : Int) {patch qubits few many : Int}
    (patchNonneg : 0 ≤ patch) (qubitsNonneg : 0 ≤ qubits) (order : few ≤ many) :
    architecture.qubitsWith data patch qubits few ≤
      architecture.qubitsWith data patch qubits many := by
  have bus := busCount_mono architecture data order
  have patches := Int.mul_le_mul_of_nonneg_left (Int.add_le_add_left bus data) patchNonneg
  have housed := Int.mul_le_mul_of_nonneg_left order qubitsNonneg
  exact Int.add_le_add patches housed

/-- On the bus even a factory without qubits takes a place. -/
theorem twoRowBus_qubitsWith_lt (data : Int) {patch qubits : Int} (patchPos : 0 < patch)
    (qubitsNonneg : 0 ≤ qubits) :
    twoRowBus.qubitsWith data patch qubits 0 < twoRowBus.qubitsWith data patch qubits 1 := by
  have place : patch * (data + (data + 1)) = patch * (data + (data + 0)) + patch := by ring
  simp only [qubitsWith, busCount, place]
  omega

theorem physicalQubits_compounded (distance : Int) :
    SurfaceCode.compounded.physicalQubits (.whole distance) = .ok (.whole (distance ^ 2 * 2)) :=
  rfl

theorem physicalQubits_eq (architecture : Architecture) (program : CompiledProgram)
    (optimization : Optimization) (factory : MagicStateFactory Scalar) (distance qubits count : Int)
    (described : architecture ≠ .undescribed)
    (counted : factoryCount program optimization (some factory) = .ok count)
    (housed : factory.qubits = .whole qubits) :
    architecture.layout program optimization (some (.whole distance)) (some factory) >>=
        physicalQubits .compounded =
      .ok (.whole (architecture.qubitsWith (dataQubits program) (distance ^ 2 * 2) qubits count)) :=
  physicalQubits_layout (R := Int) .compounded architecture program optimization (.whole distance)
    factory count (distance ^ 2 * 2) qubits described counted (physicalQubits_compounded distance)
    housed

section Program

variable {program : CompiledProgram} (schedulable : program.Schedulable)
  (factory : MagicStateFactory Scalar) (distance : Int) (distancePos : 1 ≤ distance)
  (capacity : 1 ≤ factory.statesPerRound)

include schedulable distancePos capacity

/-! ## Schedules -/

theorem time_total_le_space_total (cycles perRotation : Int)
    (timed : factory.cycles = .whole cycles) (cyclesNonneg : 0 ≤ cycles)
    (perRotationNonneg : 0 ≤ perRotation) (layout : Layout Scalar)
    (atDistance : layout.distance = some (.whole distance))
    (equipped : layout.factory = some factory) :
    ∃ quick slow : Int,
      Schedule.allocation program .time layout perRotation >>= total = .ok (.whole quick) ∧
      Schedule.allocation program .space layout perRotation >>= total = .ok (.whole slow) ∧
      quick ≤ slow := by
  obtain ⟨layers, executes⟩ := schedulable.executes
  have wellFormed := schedulable.wellFormed
  have nonneg := CompiledProgram.layer_nonneg_executed executes wellFormed
  have totals := fun optimization chosen => Schedule.allocation_total (R := Int) optimization
    factory distance perRotation cycles distancePos timed cyclesNonneg capacity perRotationNonneg
    program layout layers wellFormed executes chosen atDistance equipped
  refine ⟨_, _, totals .time (.inr rfl), totals .space (.inl rfl), ?_⟩
  apply List.sum_le_sum
  intro layer member
  exact Schedule.layerTotal_time_le distance perRotation distancePos perRotationNonneg
    (nonneg layer member) .space cycles factory.statesPerRound capacity cyclesNonneg

/-! ## Layouts -/

omit distancePos in
/-- To save time there is no layout, or one without a factory, or one with at least the factory of a
layout that saves space. -/
theorem factoryCount_time_cases (widest : Int) (isWidest : Widest program widest)
    (needy : program.NeedsStates) :
    factoryCount program .space (some factory) = .ok 1 ∧
      (Binary64.overflow * factory.statesPerRound ≤ widest ∧
          factoryCount program .time (some factory) = .error .outOfRange ∨
        widest < Binary64.overflow * factory.statesPerRound ∧
          widest * Binary64.vanishing ≤ factory.statesPerRound ∧
          factoryCount program .time (some factory) = .ok 0 ∨
        widest < Binary64.overflow * factory.statesPerRound ∧
          factory.statesPerRound < widest * Binary64.vanishing ∧
          ∃ count, 1 ≤ count ∧ factoryCount program .time (some factory) = .ok count) := by
  obtain ⟨layers, executes⟩ := schedulable.executes
  have wellFormed := schedulable.wellFormed
  have busy := (CompiledProgram.needsStates_iff executes wellFormed).mp needy
  have wide := one_le_widest executes wellFormed isWidest busy
  obtain ⟨space, time⟩ := factoryCount_busy executes wellFormed factory widest isWidest.computed
    busy
  refine ⟨space, ?_⟩
  rw [time]
  obtain ⟨states, isStates⟩ := Int.eq_ofNat_of_zero_le (show 0 ≤ factory.statesPerRound by omega)
  obtain ⟨width, rfl⟩ := Int.eq_ofNat_of_zero_le (show 0 ≤ widest by omega)
  rw [isStates] at capacity ⊢
  obtain ⟨beyond, within⟩ := Binary64.quotient_ceil width states (by omega) (by omega)
  by_cases small : width < Binary64.overflow * states
  · right
    obtain ⟨count, isCount, zero⟩ := within small
    rw [isCount]
    by_cases vanishes : width * Binary64.vanishing ≤ states
    · left
      rw [zero.mpr vanishes]
      exact ⟨by exact_mod_cast small, by exact_mod_cast vanishes, rfl⟩
    · right
      have some : count ≠ 0 := fun none => vanishes (zero.mp none)
      exact ⟨by exact_mod_cast small, by exact_mod_cast Nat.lt_of_not_ge vanishes, count, by omega,
        rfl⟩
  · left
    have large := Nat.le_of_not_lt small
    exact ⟨by exact_mod_cast large, beyond large⟩

/-- Both layouts are computed, and the one that saves space is no larger, on every architecture, if
and only if no T state is needed or the quotient for the number of factories is in range. -/
theorem space_qubits_le_time_qubits_iff (qubits widest : Int)
    (housed : factory.qubits = .whole qubits) (qubitsNonneg : 0 ≤ qubits)
    (isWidest : Widest program widest) :
    (∀ architecture : Architecture, architecture ≠ .undescribed → ∃ small large : Int,
      architecture.layout program .space (some (.whole distance)) (some factory) >>=
          physicalQubits .compounded = .ok (.whole small) ∧
        architecture.layout program .time (some (.whole distance)) (some factory) >>=
          physicalQubits .compounded = .ok (.whole large) ∧ small ≤ large) ↔
      ¬ program.NeedsStates ∨ factory.statesPerRound < widest * Binary64.vanishing ∧
        widest < Binary64.overflow * factory.statesPerRound := by
  have patchPos : 0 < distance ^ 2 * 2 := by positivity
  by_cases needy : program.NeedsStates
  · obtain ⟨space, time⟩ := factoryCount_time_cases schedulable factory capacity widest isWidest
      needy
    have spaceQubits := fun architecture described => physicalQubits_eq architecture program .space
      factory distance qubits 1 described space housed
    rcases time with ⟨beyond, failed⟩ | ⟨within, vanishes, none⟩ |
      ⟨within, visible, count, one, some⟩
    · constructor
      · intro computed
        obtain ⟨_, _, _, layout, _⟩ := computed .twoRowBus (by decide)
        rw [layout_error .twoRowBus program .time _ _ _ (by decide) failed] at layout
        cases layout
      · rintro (idle | ⟨_, within⟩)
        · exact absurd needy idle
        · omega
    · constructor
      · intro computed
        obtain ⟨small, large, isSmall, isLarge, order⟩ := computed .twoRowBus (by decide)
        rw [spaceQubits .twoRowBus (by decide)] at isSmall
        rw [physicalQubits_eq .twoRowBus program .time factory distance qubits 0 (by decide) none
          housed] at isLarge
        cases isSmall
        cases isLarge
        have less := twoRowBus_qubitsWith_lt (dataQubits program) patchPos qubitsNonneg
        omega
      · rintro (idle | ⟨visible, _⟩)
        · exact absurd needy idle
        · omega
    · refine ⟨fun _ => .inr ⟨visible, within⟩, fun _ architecture described => ?_⟩
      exact ⟨_, _, spaceQubits architecture described,
        physicalQubits_eq architecture program .time factory distance qubits count described some
          housed, qubitsWith_mono architecture _ (by omega) qubitsNonneg one⟩
  · refine ⟨fun _ => .inl needy, fun _ architecture described => ?_⟩
    obtain ⟨layers, executes⟩ := schedulable.executes
    have idle := (CompiledProgram.idle_iff executes schedulable.wellFormed).mp (not_not.mp needy)
    have none := fun optimization => factoryCount_idle (α := Scalar) executes schedulable.wellFormed
      optimization (some factory) idle
    exact ⟨_, _, physicalQubits_eq architecture program .space factory distance qubits 0 described
        (none .space) housed,
      physicalQubits_eq architecture program .time factory distance qubits 0 described (none .time)
        housed, Int.le_refl _⟩

end Program

/-- The schedule that saves time is never longer than the one that saves space. The layout that
saves space is never larger than the one that saves time if no T state is needed; otherwise that
holds just as long as the quotient of the widest layer and the states of a round neither vanishes
nor is out of range as a double. -/
theorem time_space_tradeoff_iff (program : CompiledProgram) (factory : MagicStateFactory Scalar)
    (qubits cycles distance perRotation : Int) (schedulable : program.Schedulable)
    (housed : factory.qubits = .whole qubits) (qubitsNonneg : 0 ≤ qubits)
    (timed : factory.cycles = .whole cycles) (cyclesNonneg : 0 ≤ cycles)
    (capacity : 1 ≤ factory.statesPerRound) (distancePos : 1 ≤ distance)
    (perRotationNonneg : 0 ≤ perRotation) :
    (∀ layout : Layout Scalar, layout.distance = some (.whole distance) →
      layout.factory = some factory → ∃ quick slow : Int,
        Schedule.allocation program .time layout perRotation >>= total = .ok (.whole quick) ∧
        Schedule.allocation program .space layout perRotation >>= total = .ok (.whole slow) ∧
        quick ≤ slow) ∧
    ∃ widest : Int, maxParallel program = .ok widest ∧
      ((∀ architecture : Architecture, architecture ≠ .undescribed → ∃ small large : Int,
        architecture.layout program .space (some (.whole distance)) (some factory) >>=
            physicalQubits .compounded = .ok (.whole small) ∧
          architecture.layout program .time (some (.whole distance)) (some factory) >>=
            physicalQubits .compounded = .ok (.whole large) ∧ small ≤ large) ↔
        ¬ program.NeedsStates ∨ factory.statesPerRound < widest * Binary64.vanishing ∧
          widest < Binary64.overflow * factory.statesPerRound) := by
  obtain ⟨widest, isWidest⟩ := exists_widest program schedulable
  refine ⟨?_, widest, isWidest.computed, ?_⟩
  · intro layout atDistance equipped
    exact time_total_le_space_total schedulable factory distance distancePos capacity cycles
      perRotation timed cyclesNonneg perRotationNonneg layout atDistance equipped
  · exact space_qubits_le_time_qubits_iff schedulable factory distance distancePos capacity qubits
      widest housed qubitsNonneg isWidest

/-- Five T gates and two rotations of four states each, with a factory of two states. -/
theorem time_space_tradeoff_sevenNodes :
    let program : CompiledProgram := ⟨[⟨3, 1, [4], [5], [2]⟩], 1, fun _ => .ok [0]⟩
    let factory : MagicStateFactory Scalar :=
      ⟨"factory", .whole 0, none, .whole 100, .whole 10, 2⟩
    let layout : Layout Scalar := { distance := some (.whole 3), factory := some factory }
    (∃ quick slow : Int,
      Schedule.allocation program .time layout 4 >>= total = .ok (.whole quick) ∧
      Schedule.allocation program .space layout 4 >>= total = .ok (.whole slow) ∧ quick ≤ slow) ∧
    ∀ architecture : Architecture, architecture ≠ .undescribed → ∃ small large : Int,
      architecture.layout program .space (some (.whole 3)) (some factory) >>=
          physicalQubits .compounded = .ok (.whole small) ∧
        architecture.layout program .time (some (.whole 3)) (some factory) >>=
          physicalQubits .compounded = .ok (.whole large) ∧ small ≤ large := by
  intro program factory layout
  have schedulable : program.Schedulable := by
    exact ⟨by decide, by decide, [0], rfl, by decide⟩
  obtain ⟨schedules, widest, computed, compared⟩ := time_space_tradeoff_iff program factory 100 10 3
    4 schedulable rfl (by decide) rfl (by decide) (by decide) (by decide) (by decide)
  cases Except.ok.inj (computed.symm.trans rfl)
  refine ⟨schedules layout rfl rfl, compared.mpr (.inr ?_)⟩
  decide +kernel

/-- A factory that makes `10 ^ 400` states in one round leaves the layout that saves time without a
factory. -/
theorem time_layout_without_factory :
    factoryCount ⟨[⟨1, 1, [1], [1], [0]⟩], 1, fun _ => .ok [0]⟩ .time
        (some (⟨"factory", .whole 0, none, .whole 100, .whole 10, 10 ^ 400⟩ :
          MagicStateFactory Scalar)) = .ok 0 ∧
      twoRowBus.layout ⟨[⟨1, 1, [1], [1], [0]⟩], 1, fun _ => .ok [0]⟩ .space (some (.whole 3))
          (some ⟨"factory", .whole 0, none, .whole 100, .whole 10, 10 ^ 400⟩) >>=
        physicalQubits .compounded = .ok (.whole 154) ∧
      twoRowBus.layout ⟨[⟨1, 1, [1], [1], [0]⟩], 1, fun _ => .ok [0]⟩ .time (some (.whole 3))
          (some ⟨"factory", .whole 0, none, .whole 100, .whole 10, 10 ^ 400⟩) >>=
        physicalQubits .compounded = .ok (.whole 36) := by
  have none : factoryCount ⟨[⟨1, 1, [1], [1], [0]⟩], 1, fun _ => .ok [0]⟩ .time
      (some (⟨"factory", .whole 0, none, .whole 100, .whole 10, 10 ^ 400⟩ :
        MagicStateFactory Scalar)) = .ok 0 := by
    decide +kernel
  refine ⟨none, ?_, ?_⟩
  · exact physicalQubits_eq .twoRowBus _ .space _ 3 100 1 (by decide) rfl rfl
  · exact physicalQubits_eq .twoRowBus _ .time _ 3 100 0 (by decide) none rfl

end QuantumResources.Architecture
