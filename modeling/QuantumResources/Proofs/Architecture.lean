import QuantumResources.Architecture
import QuantumResources.Proofs.Run

/-! What the search for a code distance promises. -/

namespace QuantumResources.Architecture

variable {α : Type} [Arithmetic α]

/-- A layout that is complete, because its failure rate was found to be below the tolerance. -/
def Accepted (tolerance : α) (layout : Layout α) : Prop :=
  ∃ rate known, Arithmetic.lt rate tolerance = .ok true ∧ Arithmetic.toReal rate = .ok known ∧
    layout.failureRates = some { totalCorrection := some known }

/-- A search that ends without success leaves no schedule behind. -/
theorem searchFrom_cases {planAt : Int → Calc (Plan α)} {tolerance : α} {count : Nat}
    {distance : Int} {last layout : Layout α} {before after : Journal}
    (returned : (searchFrom planAt tolerance count distance last).Returns before layout after) :
    layout.allocation = none ∨ Accepted tolerance layout := by
  induction count generalizing distance last before with
  | zero =>
    obtain ⟨_, _, _, finished⟩ := Run.returns_bind.mp returned
    obtain ⟨rfl, _⟩ := Run.returns_pure.mp finished
    exact .inl rfl
  | succ count ih =>
    unfold searchFrom at returned
    obtain ⟨found, _, continued⟩ := Run.returns_lift_bind.mp returned
    obtain ⟨below, compared, decided⟩ := Run.returns_lift_bind.mp continued
    cases below with
    | false => exact ih decided
    | true =>
      obtain ⟨accepted, _⟩ := Run.returns_lift.mp decided
      obtain ⟨known, converted, finished⟩ := Calc.bind_eq_ok.mp accepted
      cases finished
      exact .inr ⟨found.failureRate, known, compared, converted, rfl⟩

end QuantumResources.Architecture
