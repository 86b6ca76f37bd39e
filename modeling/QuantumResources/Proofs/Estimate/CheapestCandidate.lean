import QuantumResources.Proofs.Estimate.GateCounts
import QuantumResources.Proofs.Number.Lawful
import QuantumResources.Proofs.Search

/-! The search over factories and distances finds the cheapest candidate.

The two loops are one search along the list of all choices. It keeps the first of those that are
good enough and have the least volume, and what it returns is a choice with its own cost. This holds
with rounding, as long as every cost can be calculated and is a number. -/

namespace QuantumResources.GateCounts

open Search

/-! ## Choices -/

/-- A factory and a code distance. -/
abbrev Choice (α : Type) := MagicStateFactory α × Int

/-- All choices in the order in which they are tried. -/
def choices {α : Type} (factories : List (MagicStateFactory α)) : List (Choice α) :=
  factories.flatMap fun factory => distances.map fun distance => (factory, distance)

/-- The loop along all choices goes through the distances for one factory after the other. -/
theorem foldlM_choices {α γ : Type} (step : γ → Choice α → Calc γ) (start : γ)
    (factories : List (MagicStateFactory α)) :
    (choices factories).foldlM step start =
      factories.foldlM (fun state factory =>
        distances.foldlM (fun state distance => step state (factory, distance)) state) start := by
  induction factories generalizing start with
  | nil => rfl
  | cons factory rest ih =>
    unfold choices at ih ⊢
    rw [List.flatMap_cons, List.foldlM_append, List.foldlM_map, List.foldlM_cons]
    exact congrArg _ (funext ih)

variable {α : Type} [Arithmetic α]

def Task.parametersFor (task : Task α) (choice : Choice α) : Parameters α :=
  task.parameters choice.1 (Arithmetic.ofInt choice.2)

/-- A choice as the search keeps it, for given costs. -/
def Task.candidate (task : Task α) (price : Choice α → Cost α) (choice : Choice α) : Candidate α :=
  (price choice, task.parametersFor choice)

theorem search_eq (code : SurfaceCode α) (task : Task α) (factories : List (MagicStateFactory α)) :
    search code task.tolerance task.parameters (.ofList factories) = (do
      let best ← (choices factories).foldlM (fun best choice =>
        improve code task.tolerance best (task.parametersFor choice)) none
      match best with
      | some found => return found
      | none => .error .noAcceptableParameters) := by
  rw [foldlM_choices, search, FactorySource.ofList, List.foldlM_map]
  rfl

/-- A cost is within the tolerance. -/
def Task.Accepts (task : Task α) (found : Cost α) : Prop :=
  Arithmetic.le found.failureProbability task.tolerance = .ok true

variable [LawfulArithmetic α]

/-- Every choice has a cost that can be compared with the tolerance, and the volume of every choice
that is good enough, its physical qubits times its duration, is a number. -/
structure Calculable (code : SurfaceCode α) (task : Task α) (factories : List (MagicStateFactory α))
    (price : Choice α → Cost α) (volume : Choice α → EReal) : Prop where
  costs : ∀ choice ∈ choices factories, cost code (task.parametersFor choice) = .ok (price choice)
  comparisons : ∀ choice ∈ choices factories, ∃ answer,
    Arithmetic.le (price choice).failureProbability task.tolerance = .ok answer
  volumes : ∀ choice ∈ choices factories, task.Accepts (price choice) →
    ∃ number, Arithmetic.mul (price choice).physicalQubits (price choice).duration = .ok number ∧
      LawfulArithmetic.value? number = some (volume choice)

section Search

variable {code : SurfaceCode α} {task : Task α} {factories : List (MagicStateFactory α)}
  {price : Choice α → Cost α} {volume : Choice α → EReal}
  (calculable : Calculable code task factories price volume)

include calculable

theorem improve_advances {choice : Choice α} (member : choice ∈ choices factories)
    (best : Option (Choice α))
    (known : ∀ known ∈ best, known ∈ choices factories ∧ task.Accepts (price known)) :
    ∃ next, improve code task.tolerance (best.map (task.candidate price))
        (task.parametersFor choice) = .ok (next.map (task.candidate price)) ∧
      Advances (fun choice => task.Accepts (price choice)) volume best choice next := by
  unfold improve
  rw [calculable.costs choice member, Calc.ok_bind]
  obtain ⟨answer, compared⟩ := calculable.comparisons choice member
  rw [compared, Calc.ok_bind]
  cases answer with
  | false =>
    refine ⟨best, rfl, .keep fun accepted => ?_⟩
    cases compared.symm.trans accepted
  | true =>
    cases best with
    | none => exact ⟨some choice, rfl, .take compared nofun⟩
    | some best =>
      obtain ⟨member', accepted⟩ := known best rfl
      obtain ⟨number, isNumber, isVolume⟩ := calculable.volumes choice member compared
      obtain ⟨number', isNumber', isVolume'⟩ := calculable.volumes best member' accepted
      have less := LawfulArithmetic.lt_eq isVolume isVolume'
      simp only [Option.map_some, Task.candidate, Cost.volume, isNumber, isNumber', less,
        Calc.ok_bind, if_true]
      by_cases smaller : volume choice < volume best
      · refine ⟨some choice, ?_, .take compared fun _ isBest => ?_⟩
        · rw [if_pos (decide_eq_true smaller)]
          rfl
        · cases isBest
          exact smaller
      · refine ⟨some best, ?_, .keep fun _ => ⟨best, rfl, not_lt.mp smaller⟩⟩
        rw [if_neg (by simpa using smaller)]
        rfl

/-- The search returns the first of the cheapest choices that are good enough, with its cost. -/
theorem best_finds (needed : ¬ (isZero task.tGates && isZero task.toffoliGates) = true) :
    ∃ best, task.best code (.ofList factories) =
        (match best with
          | some choice => .ok (task.candidate price choice)
          | none => .error .noAcceptableParameters) ∧
      Finds (fun choice => task.Accepts (price choice)) volume (choices factories) best := by
  obtain ⟨best, folded, found⟩ := foldlM_finds (task.candidate price)
    (fun best choice => improve code task.tolerance best (task.parametersFor choice))
    (choices factories) fun _ member best known => improve_advances calculable member best known
  refine ⟨best, ?_, found⟩
  rw [Task.best, if_neg needed]
  change search code task.tolerance task.parameters (.ofList factories) = _
  rw [search_eq, folded, Calc.ok_bind]
  cases best <;> rfl

end Search

/-- Physical qubits times duration are at most those of another cost, and both are numbers. -/
def VolumeLe (first second : Cost α) : Prop :=
  ∃ smaller larger x y, Arithmetic.mul first.physicalQubits first.duration = .ok smaller ∧
    Arithmetic.mul second.physicalQubits second.duration = .ok larger ∧
    LawfulArithmetic.value? smaller = some x ∧ LawfulArithmetic.value? larger = some y ∧ x ≤ y

theorem Task.Accepts.raise {task : Task α} {looser : α} {found : Cost α}
    (accepts : task.Accepts found) (order : Arithmetic.le task.tolerance looser = .ok true) :
    ({ task with tolerance := looser } : Task α).Accepts found :=
  LawfulArithmetic.le_trans accepts order

/-- Where every cost can be calculated, a search for which some choice is good enough returns the
cost and the parameters of the first of the cheapest good choices; without such a choice it fails. A
larger tolerance keeps a result, at no larger volume. -/
theorem best_cheapest (code : SurfaceCode α) (task : Task α)
    (factories : List (MagicStateFactory α)) (price : Choice α → Cost α) (volume : Choice α → EReal)
    (needed : ¬ (isZero task.tGates && isZero task.toffoliGates) = true)
    (calculable : Calculable code task factories price volume) :
    ((∃ choice ∈ choices factories, task.Accepts (price choice)) →
      ∃ choice, task.best code (.ofList factories) = .ok (price choice, task.parametersFor choice) ∧
        cost code (task.parametersFor choice) = .ok (price choice) ∧
        FirstLeast (fun choice => task.Accepts (price choice)) volume (choices factories) choice) ∧
    ((∀ choice ∈ choices factories, ¬ task.Accepts (price choice)) →
      task.best code (.ofList factories) = .error .noAcceptableParameters) ∧
    ∀ looser volume', Arithmetic.le task.tolerance looser = .ok true →
      Calculable code { task with tolerance := looser } factories price volume' →
      ∀ found, task.best code (.ofList factories) = .ok found →
        ∃ other, ({ task with tolerance := looser } : Task α).best code (.ofList factories) =
            .ok other ∧ VolumeLe other.1 found.1 := by
  obtain ⟨best, isBest, finds⟩ := best_finds calculable needed
  rw [isBest]
  refine ⟨?_, ?_, ?_⟩
  · rintro ⟨choice, member, accepted⟩
    cases best with
    | none => exact absurd accepted (finds choice member)
    | some best => exact ⟨best, rfl, calculable.costs best (FirstLeast.mem finds), finds⟩
  · intro nothing
    rw [finds.eq_none_iff.mpr nothing]
  · intro looser volume' order calculable' found isFound
    cases best with
    | none => cases isFound
    | some best =>
      cases isFound
      obtain ⟨best', isBest', finds'⟩ := best_finds calculable' needed
      have member := FirstLeast.mem finds
      have accepted := (FirstLeast.fits finds).raise order
      rw [isBest']
      cases best' with
      | none => exact absurd accepted (finds' best member)
      | some other =>
        have first : FirstLeast _ volume' (choices factories) other := finds'
        obtain ⟨larger, isLarger, hasLarger⟩ := calculable'.volumes best member accepted
        obtain ⟨smaller, isSmaller, hasSmaller⟩ := calculable'.volumes other first.mem first.fits
        exact ⟨_, rfl, smaller, larger, _, _, isSmaller, isLarger, hasSmaller, hasLarger,
          first.le member accepted⟩

/-- Without rounding all costs can be calculated. -/
theorem exists_calculable {code : SurfaceCode Rat} (task : Task Rat)
    (factories : List (MagicStateFactory Rat)) (values : HasValues code task.physicalErrorRate)
    (needed : ¬ (task.tGates = 0 ∧ task.toffoliGates = 0)) (present : task.factoryCount ≠ 0) :
    ∃ price volume, Calculable code task factories price volume := by
  have each : ∀ choice ∈ choices factories, ∃ found,
      cost code (task.parametersFor choice) = .ok found := by
    intro choice member
    obtain ⟨factory, _, inside⟩ := List.mem_flatMap.mp member
    obtain ⟨distance, tried, rfl⟩ := List.mem_map.mp inside
    exact cost_withFactories task values needed factory tried present
  have : Nonempty (Cost Rat) := ⟨⟨0, 0, 0, ""⟩⟩
  choose! price isPrice using each
  exact ⟨price, fun choice => (((price choice).physicalQubits * (price choice).duration : Rat) : ℝ),
    isPrice, fun _ _ => ⟨_, rfl⟩, fun _ _ _ => ⟨_, rfl, rfl⟩⟩

/-- A factory whose states are all wrong, and two that differ in their names only. -/
def threeFactories : List (MagicStateFactory Rat) :=
  [⟨"noisy", 1, none, 1, 1, 1⟩, smallFactory, { smallFactory with name := "twin" }]

def oneToffoli : Task Rat := (smallTask 4).replace 1 1 0

/-- Of the two good factories the first is chosen, at the third distance that is tried with it. -/
theorem best_cheapest_threeFactories :
    ∃ price volume choice,
      Calculable additiveFormulas oneToffoli threeFactories price volume ∧
      oneToffoli.best additiveFormulas (.ofList threeFactories) =
        .ok (price choice, oneToffoli.parametersFor choice) ∧
      FirstLeast (fun choice => oneToffoli.Accepts (price choice)) volume
        (choices threeFactories) choice ∧
      choice.1.name = "factory" ∧ choice.2 = 11 := by
  obtain ⟨price, volume, calculable⟩ := exists_calculable oneToffoli
    threeFactories (additiveFormulas_hasValues _) (by decide) (by decide)
  obtain ⟨returns, fails, _⟩ := best_cheapest additiveFormulas oneToffoli
    threeFactories price volume (by decide) calculable
  have evaluated : (oneToffoli.best additiveFormulas
      (.ofList threeFactories)).map (fun found => (found.2.factory.name, found.2.distance)) =
        .ok ("factory", 11) := by
    decide +kernel
  have accepted : ∃ choice ∈ choices threeFactories,
      oneToffoli.Accepts (price choice) := by
    by_contra none
    rw [fails fun choice member accepts => none ⟨choice, member, accepts⟩] at evaluated
    cases evaluated
  obtain ⟨choice, isBest, _, first⟩ := returns accepted
  rw [isBest] at evaluated
  obtain ⟨isName, isDistance⟩ := Prod.mk.inj (Except.ok.inj evaluated)
  exact ⟨price, volume, choice, calculable, isBest, first, isName, Int.cast_injective isDistance⟩

end QuantumResources.GateCounts
