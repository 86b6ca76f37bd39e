import Mathlib.Tactic.NormNum
import QuantumResources.Factory
import QuantumResources.Proofs.Number.Exact
import QuantumResources.Proofs.Search

/-! The choice of a factory finds the first of those that are good enough and cost the least for
one state. An unknown aim of the choice is noticed at the first factory that is good enough. -/

namespace QuantumResources.MagicStateFactory

open Search

/-! ## The cost of one state -/

/-- What an optimization saves. -/
def resource {α : Type} (optimization : Optimization) (factory : MagicStateFactory α) : α :=
  match optimization with
  | .space => factory.qubits
  | _ => factory.cycles

def perState (optimization : Optimization) (factory : MagicStateFactory Rat) : Rat :=
  factory.resource optimization / factory.statesPerRound

variable {optimization : Optimization} (chosen : optimization = .space ∨ optimization = .time)

include chosen in
theorem cost_eq (factory : MagicStateFactory Rat) (capacity : 1 ≤ factory.statesPerRound) :
    factory.cost optimization = .ok (factory.perState optimization) := by
  rcases chosen with rfl | rfl <;> exact div_count _ _ capacity

/-! ## The search -/

/-- A factory as the search keeps it. -/
def priced (optimization : Optimization) (factory : MagicStateFactory Rat) :
    MagicStateFactory Rat × Rat :=
  (factory, factory.perState optimization)

theorem improves_eq (key : Rat) (best : Option (MagicStateFactory Rat)) :
    improves key (best.map (priced optimization)) =
      .ok (decide (∀ known ∈ best, key < known.perState optimization)) := by
  cases best with
  | none => simp [improves, Arithmetic.isBounded]
  | some known => simp [improves, priced, Arithmetic.lt]

include chosen in
theorem selectStep_advances (tolerance : Rat) (best : Option (MagicStateFactory Rat))
    (factory : MagicStateFactory Rat) (capacity : 1 ≤ factory.statesPerRound) :
    ∃ next, selectStep tolerance optimization (best.map (priced optimization)) factory =
        .ok (next.map (priced optimization)) ∧
      Advances (·.errorRate ≤ tolerance) (perState optimization) best factory next := by
  unfold selectStep
  by_cases within : factory.errorRate ≤ tolerance
  · have compared : Arithmetic.le factory.errorRate tolerance = .ok true :=
      congrArg Except.ok (decide_eq_true within)
    simp only [compared, cost_eq chosen factory capacity, improves_eq, Calc.ok_bind, if_true]
    by_cases less : ∀ known ∈ best, factory.perState optimization < known.perState optimization
    · rw [if_pos (decide_eq_true less)]
      exact ⟨some factory, rfl, .take within less⟩
    · rw [if_neg (by simpa using less)]
      obtain ⟨known, isBest, notLess⟩ := not_forall₂.mp less
      exact ⟨best, rfl, .keep fun _ => ⟨known, isBest, not_lt.mp notLess⟩⟩
  · have compared : Arithmetic.le factory.errorRate tolerance = .ok false :=
      congrArg Except.ok (decide_eq_false within)
    simp only [compared, Calc.ok_bind]
    exact ⟨best, rfl, .keep fun good => absurd good within⟩

include chosen in
/-- Without rounding, the choice finds the first of the least cost for one state. -/
theorem select_finds (tolerance : Rat) (factories : List (MagicStateFactory Rat))
    (capacity : ∀ factory ∈ factories, 1 ≤ factory.statesPerRound) :
    ∃ best, select tolerance optimization (.ofList factories) = .ok best ∧
      Finds (·.errorRate ≤ tolerance) (perState optimization) factories best := by
  obtain ⟨best, folded, found⟩ := foldlM_finds (priced optimization)
    (selectStep tolerance optimization) factories
    fun factory member best _ =>
      selectStep_advances chosen tolerance best factory (capacity factory member)
  refine ⟨best, ?_, found⟩
  unfold select FactorySource.ofList
  rw [List.foldlM_map]
  simp only [Calc.ok_bind, folded]
  cases best <;> rfl

/-- An unknown aim is noticed only where a cost is asked for. -/
theorem select_other (tolerance : Rat) (name : String) (factories : List (MagicStateFactory Rat)) :
    select tolerance (.other name) (.ofList factories) =
      if ∃ factory ∈ factories, factory.errorRate ≤ tolerance then
        .error (.unknownOptimization name)
      else .ok none := by
  unfold select FactorySource.ofList
  rw [List.foldlM_map]
  induction factories with
  | nil => simp [pure, Except.pure]
  | cons factory rest ih =>
    rw [List.foldlM_cons, Calc.ok_bind]
    by_cases within : factory.errorRate ≤ tolerance
    · have compared : Arithmetic.le factory.errorRate tolerance = .ok true :=
        congrArg Except.ok (decide_eq_true within)
      simp [selectStep, compared, cost, within]
    · have compared : Arithmetic.le factory.errorRate tolerance = .ok false :=
        congrArg Except.ok (decide_eq_false within)
      have skipped : selectStep tolerance (.other name) none factory = .ok none := by
        simp only [selectStep, compared, Calc.ok_bind]
        rfl
      rw [skipped, Calc.ok_bind, ih]
      simp [within]

/-- Without rounding, the choice gives nothing just when no factory is good enough, and otherwise
the first of the good ones with the least cost for one state. A looser tolerance keeps a choice, at
no higher cost. An unknown aim stops the choice just when some factory is good enough. -/
theorem select_first_least (factories : List (MagicStateFactory Rat))
    (capacity : ∀ factory ∈ factories, 0 < factory.statesPerRound) :
    (∀ optimization, optimization = .space ∨ optimization = .time → ∀ tolerance,
      (select tolerance optimization (.ofList factories) = .ok none ↔
        ∀ factory ∈ factories, ¬ factory.errorRate ≤ tolerance) ∧
      ((∃ factory ∈ factories, factory.errorRate ≤ tolerance) →
        ∃ best, select tolerance optimization (.ofList factories) = .ok (some best)) ∧
      (∀ best, select tolerance optimization (.ofList factories) = .ok (some best) ↔
        FirstLeast (·.errorRate ≤ tolerance) (perState optimization) factories best) ∧
      ∀ looser best, tolerance ≤ looser →
        select tolerance optimization (.ofList factories) = .ok (some best) →
        ∃ other, select looser optimization (.ofList factories) = .ok (some other) ∧
          other.perState optimization ≤ best.perState optimization) ∧
    ∀ name tolerance,
      (select tolerance (.other name) (.ofList factories) = .error (.unknownOptimization name) ↔
        ∃ factory ∈ factories, factory.errorRate ≤ tolerance) ∧
      (select tolerance (.other name) (.ofList factories) = .ok none ↔
        ¬ ∃ factory ∈ factories, factory.errorRate ≤ tolerance) := by
  refine ⟨fun optimization chosen tolerance => ?_, fun name tolerance => ?_⟩
  · obtain ⟨best, selected, found⟩ := select_finds chosen tolerance factories capacity
    simp only [selected, Except.ok.injEq]
    refine ⟨found.eq_none_iff, ?_, found.eq_some_iff, ?_⟩
    · rintro ⟨factory, member, within⟩
      refine Option.ne_none_iff_exists'.mp fun nothing => ?_
      exact found.eq_none_iff.mp nothing factory member within
    · intro looser factory order isBest
      obtain ⟨best', selected', found'⟩ := select_finds chosen looser factories capacity
      simp only [selected', Except.ok.injEq]
      exact found.le_of_more found' (fun _ _ within => le_trans within order) isBest
  · rw [select_other]
    split
    · next some => simp [some]
    · next none => simp [none]

/-- The cheapest factory is not good enough, and of the two next cheapest ones the first is
chosen. -/
theorem select_first_of_equals :
    let cheapest : MagicStateFactory Rat := ⟨"cheapest", 3, none, 1, 1, 1⟩
    let larger : MagicStateFactory Rat := ⟨"larger", 0, none, 30, 1, 3⟩
    let first : MagicStateFactory Rat := ⟨"first", 1, none, 12, 1, 4⟩
    let second : MagicStateFactory Rat := ⟨"second", 0, none, 3, 1, 1⟩
    select 1 .space (.ofList [cheapest, larger, first, second]) = .ok (some first) := by
  intro cheapest larger first second
  have capacity : ∀ factory ∈ [cheapest, larger, first, second], 0 < factory.statesPerRound := by
    simp [cheapest, larger, first, second]
  obtain ⟨choices, _⟩ := select_first_least [cheapest, larger, first, second] capacity
  apply ((choices .space (.inl rfl) 1).2.2.1 first).mpr
  refine ⟨by decide, [cheapest, larger], [second], rfl, ?_, ?_⟩
  · norm_num [cheapest, larger, first, perState, resource]
  · norm_num [first, second, perState, resource]

end QuantumResources.MagicStateFactory
