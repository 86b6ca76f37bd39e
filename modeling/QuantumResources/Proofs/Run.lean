import QuantumResources.Proofs.Sequence
import QuantumResources.Run

/-! Runs that return a value, step by step. -/

namespace QuantumResources.Run

variable {β γ : Type}

/-- The run returns a value, and its journal has grown from one state to another. -/
def Returns (run : Run β) (before : Journal) (value : β) (after : Journal) : Prop :=
  StateT.run (ExceptT.run run) before = (.ok value, after)

theorem exists_returns {run : Run β} {value : β} (returned : run.result.1 = .ok value) :
    ∃ after, run.Returns {} value after :=
  ⟨run.result.2, Prod.ext returned rfl⟩

theorem returns_pure {value other : β} {before after : Journal} :
    Returns (pure value) before other after ↔ value = other ∧ before = after := by
  constructor
  · intro returned
    cases returned
    exact ⟨rfl, rfl⟩
  · rintro ⟨rfl, rfl⟩
    rfl

theorem not_returns_throw {failure : Failure} {value : β} {before after : Journal} :
    ¬ Returns (throw failure) before value after := by
  intro returned
  cases returned

theorem returns_bind {first : Run β} {next : β → Run γ} {result : γ} {before after : Journal} :
    Returns (first >>= next) before result after ↔
      ∃ value between, first.Returns before value between ∧
        (next value).Returns between result after := by
  unfold Returns
  simp only [ExceptT.run_bind, StateT.run_bind]
  rcases StateT.run (ExceptT.run first) before with ⟨outcome | outcome, between⟩
  · constructor
    · intro returned
      cases returned
    · rintro ⟨value, other, returned, _⟩
      cases returned
  · constructor
    · intro returned
      exact ⟨outcome, between, rfl, returned⟩
    · rintro ⟨value, other, returned, continued⟩
      cases returned
      exact continued

/-- A computation with numbers leaves the journal as it is. -/
theorem returns_lift {computation : Calc β} {value : β} {before after : Journal} :
    Returns (liftM computation) before value after ↔ computation = .ok value ∧ before = after := by
  cases computation with
  | error failure =>
    constructor
    · intro returned
      cases returned
    · rintro ⟨impossible, _⟩
      cases impossible
  | ok found =>
    constructor
    · intro returned
      cases returned
      exact ⟨rfl, rfl⟩
    · rintro ⟨same, rfl⟩
      cases same
      rfl

theorem returns_lift_bind {computation : Calc β} {next : β → Run γ} {result : γ}
    {before after : Journal} :
    Returns (liftM computation >>= next) before result after ↔
      ∃ value, computation = .ok value ∧ (next value).Returns before result after := by
  rw [returns_bind]
  constructor
  · rintro ⟨value, between, returned, continued⟩
    obtain ⟨computed, rfl⟩ := returns_lift.mp returned
    exact ⟨value, computed, continued⟩
  · rintro ⟨value, computed, continued⟩
    exact ⟨value, before, returns_lift.mpr ⟨computed, rfl⟩, continued⟩

@[simp] theorem lift_ok_bind (value : β) (next : β → Run γ) :
    (liftM (Except.ok value : Calc β) : Run β) >>= next = next value := rfl

/-- Steps of a computation with numbers can be taken one by one. -/
theorem lift_bind (first : Calc β) (next : β → Calc γ) :
    (liftM (first >>= next) : Run γ) = liftM first >>= fun value => liftM (next value) := by
  cases first <;> rfl

end QuantumResources.Run
