import QuantumResources.Factory
import QuantumResources.Proofs.Sequence

/-! What the choice of a factory promises. -/

namespace QuantumResources.MagicStateFactory

variable {α : Type} [Arithmetic α]

/-- A factory of the source whose states are good enough. -/
def Qualifies (tolerance : α) (source : FactorySource α) (factory : MagicStateFactory α) : Prop :=
  .ok factory ∈ source ∧ Arithmetic.le factory.errorRate tolerance = .ok true

theorem selectStep_cases {tolerance : α} {optimization : Optimization} {best next : Best α}
    {factory : MagicStateFactory α}
    (stepped : selectStep tolerance optimization best factory = .ok next) :
    next = best ∨ ∃ key, next = some (factory, key) ∧
      Arithmetic.le factory.errorRate tolerance = .ok true := by
  unfold selectStep at stepped
  obtain ⟨within, compared, continued⟩ := Calc.bind_eq_ok.mp stepped
  cases within with
  | false =>
    cases continued
    exact .inl rfl
  | true =>
    obtain ⟨key, _, decided⟩ := Calc.bind_eq_ok.mp continued
    obtain ⟨better, _, finished⟩ := Calc.bind_eq_ok.mp decided
    cases better with
    | false =>
      cases finished
      exact .inl rfl
    | true =>
      cases finished
      exact .inr ⟨key, rfl, compared⟩

theorem select_qualifies {tolerance : α} {optimization : Optimization} {source : FactorySource α}
    {factory : MagicStateFactory α}
    (selected : select tolerance optimization source = .ok (some factory)) :
    Qualifies tolerance source factory := by
  unfold select at selected
  obtain ⟨best, searched, chosen⟩ := Calc.bind_eq_ok.mp selected
  have invariant : ∀ found ∈ best, Qualifies tolerance source found.1 := by
    refine Calc.foldlM_keeps (fun (best : Best α) => ∀ found ∈ best,
      Qualifies tolerance source found.1) (by simp) ?_ searched
    intro state entry next member holds stepped
    obtain ⟨made, isMade, decided⟩ := Calc.bind_eq_ok.mp stepped
    rcases selectStep_cases decided with rfl | ⟨key, rfl, within⟩
    · exact holds
    · intro found isFound
      cases isFound
      exact ⟨isMade ▸ member, within⟩
  have isBest : best.map (·.1) = some factory := Except.ok.inj chosen
  obtain ⟨found, isFound, rfl⟩ := Option.map_eq_some_iff.mp isBest
  exact invariant found isFound

end QuantumResources.MagicStateFactory
