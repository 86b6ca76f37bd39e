import Mathlib.Algebra.Order.Field.Rat
import QuantumResources.Estimate.GateCounts
import QuantumResources.Proofs.Number.Exact
import QuantumResources.Proofs.Sequence

/-! The choice of a factory and a distance for given gate counts.

Apart from its duration, the cost of a candidate follows from the number of distillations, and the
duration is a number of cycles. So two searches for the same number of distillations make the same
choice, however long a cycle takes. -/

namespace QuantumResources.GateCounts

/-! ## Costs in cycles -/

/-- The cost of a candidate, with its duration in cycles. -/
structure Footprint where
  physicalQubits : Rat
  cycles : Int
  failureProbability : Rat

/-- The cost of a candidate for a number of distillations. -/
def footprint (code : SurfaceCode Rat) (p : Parameters Rat) (count : Rat) : Calc Footprint := do
  let patches := (p.logicalQubits * (1 + p.routingOverhead)).ceil
  let computing := patches * (← code.physicalQubits p.distance)
  let rounds ← Arithmetic.div count p.factoryCount
  let cycles ← Arithmetic.truncate (rounds * p.factory.cycles)
  let cell ← code.cellFailureRate p.physicalErrorRate p.distance
  return {
    physicalQubits := computing + p.factoryCount * p.factory.qubits
    cycles
    failureProbability :=
      min 1 (cell * (p.boxPortion * computing * cycles) + p.factory.errorRate * count) }

/-- One distillation for a Toffoli gate and one for each pair of T gates that is begun. -/
def demand (toffoliGates tGates : Rat) : Rat := toffoliGates + (tGates / 2).ceil

@[simp] theorem isZero_iff (x : Rat) : isZero x = true ↔ x = 0 := decide_eq_true_iff

theorem distillations_eq (toffoliGates tGates : Rat) :
    distillations toffoliGates tGates = .ok (demand toffoliGates tGates) := by
  rw [distillations, div_count tGates 2 (by decide)]
  rfl

theorem minimum_eq (x y : Rat) : Arithmetic.minimum x y = .ok (min x y) := by
  change (if decide (y < x) = true then Except.ok y else Except.ok x) = _
  rcases lt_or_ge y x with less | atLeast
  · rw [if_pos (decide_eq_true less), min_eq_right less.le]
  · rw [if_neg (by simpa using atLeast), min_eq_left atLeast]

theorem cost_eq {code : SurfaceCode Rat} {p : Parameters Rat}
    (needed : ¬ (p.tGates = 0 ∧ p.toffoliGates = 0)) :
    cost code p = (do
      let found ← footprint code p (demand p.toffoliGates p.tGates)
      return ⟨found.physicalQubits, found.cycles * p.cycleTime, found.failureProbability,
        p.factory.name⟩) := by
  have passes : ¬ (isZero p.tGates && isZero p.toffoliGates) = true := by
    simpa using needed
  have quotient (x y : Rat) : ((x : Calc Rat) / (y : Calc Rat) : Calc Rat) = Arithmetic.div x y :=
    rfl
  rw [cost, if_neg passes, footprint, distillations_eq]
  cases code.physicalQubits p.distance with
  | error failure => rfl
  | ok perPatch =>
    simp only [Calc.ok_bind, quotient]
    cases Arithmetic.div (demand p.toffoliGates p.tGates) p.factoryCount with
    | error failure => rfl
    | ok rounds =>
      cases code.cellFailureRate p.physicalErrorRate p.distance with
      | error failure => rfl
      | ok cell =>
        simp only [minimum_eq]
        rfl

/-- A candidate is taken if it is good enough and has a smaller volume than the best one. -/
def preferred (tolerance : Rat) (best : Option (Candidate Rat)) (new : Candidate Rat) :
    Option (Candidate Rat) :=
  if new.1.failureProbability ≤ tolerance ∧ ∀ known ∈ best,
      new.1.physicalQubits * new.1.duration < known.1.physicalQubits * known.1.duration
  then some new else best

theorem improve_eq (code : SurfaceCode Rat) (tolerance : Rat) (best : Option (Candidate Rat))
    (p : Parameters Rat) :
    improve code tolerance best p =
      (do return preferred tolerance best (← cost code p, p)) := by
  unfold improve
  cases cost code p with
  | error failure => rfl
  | ok found =>
    simp only [Calc.ok_bind, Arithmetic.le, decide_eq_true_eq, preferred]
    by_cases good : found.failureProbability ≤ tolerance
    · rw [if_pos good]
      cases best with
      | none => simp [good]
      | some known =>
        simp only [Cost.volume, Arithmetic.mul, Arithmetic.lt, Calc.ok_bind, decide_eq_true_eq,
          good, true_and, Option.mem_some_iff, forall_eq']
        split <;> rfl
    · rw [if_neg good, if_neg fun taken => good taken.1]

theorem best_eq_search {code : SurfaceCode Rat} {task : Task Rat} {factories : FactorySource Rat}
    (needed : ¬ (task.tGates = 0 ∧ task.toffoliGates = 0)) :
    task.best code factories = search code task.tolerance task.parameters factories := by
  have passes : ¬ (isZero task.tGates && isZero task.toffoliGates) = true := by
    simpa using needed
  exact if_neg passes

/-! ## Two searches -/

/-- The task with another clock and other gate counts. -/
def Task.replace (task : Task Rat) (cycleTime toffoliGates tGates : Rat) : Task Rat :=
  { task with cycleTime, toffoliGates, tGates }

/-- Candidates with one factory and one distance whose costs differ in the clock only. -/
structure SameChoice (cycleTime otherTime : Rat) (one other : Candidate Rat) : Prop where
  factory : one.2.factory = other.2.factory
  distance : one.2.distance = other.2.distance
  physicalQubits : one.1.physicalQubits = other.1.physicalQubits
  failureProbability : one.1.failureProbability = other.1.failureProbability
  factoryName : one.1.factoryName = other.1.factoryName
  duration : one.1.duration * otherTime = other.1.duration * cycleTime

section TwoSearches

variable {s₁ s₂ a₁ a₂ b₁ b₂ : Rat} (task : Task Rat) (code : SurfaceCode Rat)
  (positive₁ : 0 < s₁) (positive₂ : 0 < s₂) (needed₁ : ¬ (b₁ = 0 ∧ a₁ = 0))
  (needed₂ : ¬ (b₂ = 0 ∧ a₂ = 0)) (same : demand a₁ b₁ = demand a₂ b₂)

include needed₁ needed₂ same in
theorem cost_alike (factory : MagicStateFactory Rat) (distance : Rat) :
    Calc.Alike
      (fun one other => SameChoice s₁ s₂ (one, (task.replace s₁ a₁ b₁).parameters factory distance)
        (other, (task.replace s₂ a₂ b₂).parameters factory distance))
      (cost code ((task.replace s₁ a₁ b₁).parameters factory distance))
      (cost code ((task.replace s₂ a₂ b₂).parameters factory distance)) := by
  rw [cost_eq needed₁, cost_eq needed₂]
  -- the footprint reads neither the clock nor the gate counts
  have footprints :
      footprint code ((task.replace s₁ a₁ b₁).parameters factory distance) (demand a₁ b₁) =
        footprint code ((task.replace s₂ a₂ b₂).parameters factory distance) (demand a₂ b₂) := by
    rw [same]
    rfl
  change Calc.Alike _ (footprint _ _ (demand a₁ b₁) >>= _) (footprint _ _ (demand a₂ b₂) >>= _)
  rw [footprints]
  refine .bind_same _ fun found => ?_
  exact .ok ⟨rfl, rfl, rfl, rfl, rfl, mul_right_comm _ _ _⟩

include positive₁ positive₂ in
theorem volume_lt_iff {found partner known other : Candidate Rat}
    (foundSame : SameChoice s₁ s₂ found partner) (knownSame : SameChoice s₁ s₂ known other) :
    found.1.physicalQubits * found.1.duration < known.1.physicalQubits * known.1.duration ↔
      partner.1.physicalQubits * partner.1.duration <
        other.1.physicalQubits * other.1.duration := by
  rw [← mul_lt_mul_iff_left₀ positive₂, mul_assoc, mul_assoc, foundSame.duration,
    knownSame.duration, foundSame.physicalQubits, knownSame.physicalQubits, ← mul_assoc,
    ← mul_assoc, mul_lt_mul_iff_left₀ positive₁]

include positive₁ positive₂ in
theorem preferred_rel {tolerance : Rat} {best other : Option (Candidate Rat)}
    {new partner : Candidate Rat} (related : Option.Rel (SameChoice s₁ s₂) best other)
    (choice : SameChoice s₁ s₂ new partner) :
    Option.Rel (SameChoice s₁ s₂) (preferred tolerance best new)
      (preferred tolerance other partner) := by
  have smaller : (∀ known ∈ best,
        new.1.physicalQubits * new.1.duration < known.1.physicalQubits * known.1.duration) ↔
      ∀ known ∈ other, partner.1.physicalQubits * partner.1.duration <
        known.1.physicalQubits * known.1.duration := by
    cases related with
    | none => simp
    | some known => simp [volume_lt_iff positive₁ positive₂ choice known]
  unfold preferred
  rw [choice.failureProbability, if_congr (and_congr_right' smaller) rfl rfl]
  split
  · exact .some choice
  · exact related

include positive₁ positive₂ needed₁ needed₂ same

theorem improve_alike {best other : Option (Candidate Rat)}
    (related : Option.Rel (SameChoice s₁ s₂) best other) (factory : MagicStateFactory Rat)
    (distance : Rat) :
    Calc.Alike (Option.Rel (SameChoice s₁ s₂))
      (improve code task.tolerance best ((task.replace s₁ a₁ b₁).parameters factory distance))
      (improve code task.tolerance other
        ((task.replace s₂ a₂ b₂).parameters factory distance)) := by
  rw [improve_eq, improve_eq]
  refine (cost_alike task code needed₁ needed₂ same factory distance).bind ?_
  intro found partner choice
  exact .ok (preferred_rel positive₁ positive₂ related choice)

theorem best_alike (factories : FactorySource Rat) :
    Calc.Alike (SameChoice s₁ s₂) ((task.replace s₁ a₁ b₁).best code factories)
      ((task.replace s₂ a₂ b₂).best code factories) := by
  rw [best_eq_search needed₁, best_eq_search needed₂]
  have initially : Option.Rel (SameChoice s₁ s₂) none none := .none
  refine Calc.Alike.bind (Calc.Alike.foldlM factories initially ?_) ?_
  · intro entry _ best other related
    refine Calc.Alike.bind_same entry fun factory => ?_
    refine Calc.Alike.foldlM distances related fun distance _ best other related => ?_
    exact improve_alike task code positive₁ positive₂ needed₁ needed₂ same related factory _
  · intro best other related
    cases related with
    | none => exact .error _
    | some choice => exact .ok choice

end TwoSearches

/-! ## How a search ends -/

/-- The formulas of a code have values at every distance that is tried. -/
def HasValues (code : SurfaceCode Rat) (errorRate : Rat) : Prop :=
  ∀ distance ∈ distances,
    (∃ qubits, code.physicalQubits (Arithmetic.ofInt distance) = .ok qubits) ∧
      ∃ rate, code.cellFailureRate errorRate (Arithmetic.ofInt distance) = .ok rate

section Outcome

variable {code : SurfaceCode Rat} (task : Task Rat) (values : HasValues code task.physicalErrorRate)
  (needed : ¬ (task.tGates = 0 ∧ task.toffoliGates = 0))

include values needed

theorem cost_withFactories (factory : MagicStateFactory Rat) {distance : Int}
    (tried : distance ∈ distances) (present : task.factoryCount ≠ 0) :
    ∃ found, cost code (task.parameters factory (Arithmetic.ofInt distance)) = .ok found := by
  obtain ⟨⟨qubits, perPatch⟩, rate, cell⟩ := values distance tried
  have rounds (count : Rat) : Arithmetic.div count task.factoryCount =
      .ok (count / task.factoryCount) := if_neg present
  rw [cost_eq needed, footprint]
  simp only [Task.parameters, perPatch, cell, rounds]
  exact ⟨_, rfl⟩

theorem cost_withoutFactories (factory : MagicStateFactory Rat) (distance : Int)
    (tried : distance ∈ distances) (absent : task.factoryCount = 0) :
    cost code (task.parameters factory (Arithmetic.ofInt distance)) = .error .divisionByZero := by
  obtain ⟨⟨qubits, perPatch⟩, _⟩ := values distance tried
  have rounds (count : Rat) : Arithmetic.div count task.factoryCount = .error .divisionByZero :=
    if_pos absent
  rw [cost_eq needed, footprint]
  simp only [Task.parameters, perPatch, rounds]
  rfl

theorem improve_succeeds (factory : MagicStateFactory Rat) {distance : Int}
    (tried : distance ∈ distances) (present : task.factoryCount ≠ 0)
    (best : Option (Candidate Rat)) :
    ∃ next, improve code task.tolerance best
      (task.parameters factory (Arithmetic.ofInt distance)) = .ok next := by
  obtain ⟨found, costs⟩ := cost_withFactories task values needed factory tried present
  rw [improve_eq, costs]
  exact ⟨_, rfl⟩

/-- A search that can calculate its costs stops only when nothing is good enough. -/
theorem best_eq_error {factories : List (MagicStateFactory Rat)} {failure : Failure}
    (able : task.factoryCount ≠ 0 ∨ factories = [])
    (stopped : task.best code (.ofList factories) = .error failure) :
    failure = .noAcceptableParameters := by
  rw [best_eq_search needed, search] at stopped
  obtain ⟨best, folded⟩ : ∃ best, (FactorySource.ofList factories).foldlM (fun best entry => do
      let factory ← entry
      distances.foldlM (fun best distance => improve code task.tolerance best
        (task.parameters factory (Arithmetic.ofInt distance))) best) none = .ok best := by
    refine Calc.foldlM_succeeds _ none fun entry listed best => ?_
    obtain ⟨factory, member, rfl⟩ := List.mem_map.mp listed
    have present : task.factoryCount ≠ 0 :=
      able.resolve_right (List.ne_nil_of_mem member)
    exact Calc.foldlM_succeeds distances best fun distance tried best =>
      improve_succeeds task values needed factory tried present best
  rw [folded] at stopped
  cases best with
  | none => exact (Except.error.inj stopped).symm
  | some found => cases stopped

theorem best_withoutFactories (first : MagicStateFactory Rat)
    (others : List (MagicStateFactory Rat)) (absent : task.factoryCount = 0) :
    task.best code (.ofList (first :: others)) = .error .divisionByZero := by
  have costs := cost_withoutFactories task values needed first 7 (by decide) absent
  rw [best_eq_search needed, search, FactorySource.ofList, List.map_cons, List.foldlM_cons]
  have tried : distances = 7 :: distances.tail := rfl
  rw [tried]
  simp only [Calc.ok_bind, List.foldlM_cons, improve_eq, costs, Calc.error_bind]

end Outcome

/-- Two searches for the same number of distillations end alike, whatever their clocks. Where there
is a kind of factory but none of it may be built, both stop at the division of the work among them;
otherwise nothing is good enough for either of them, or both make the same choice and take times
in the ratio of their clocks. -/
theorem best_of_same_demand (code : SurfaceCode Rat) (task : Task Rat)
    (factories : List (MagicStateFactory Rat)) (values : HasValues code task.physicalErrorRate)
    {s₁ s₂ a₁ a₂ b₁ b₂ : Rat} (positive₁ : 0 < s₁) (positive₂ : 0 < s₂)
    (needed₁ : ¬ (b₁ = 0 ∧ a₁ = 0)) (needed₂ : ¬ (b₂ = 0 ∧ a₂ = 0))
    (same : a₁ + (b₁ / 2).ceil = a₂ + (b₂ / 2).ceil) :
    let first := (task.replace s₁ a₁ b₁).best code (.ofList factories)
    let second := (task.replace s₂ a₂ b₂).best code (.ofList factories)
    (task.factoryCount = 0 ∧ factories ≠ [] →
      first = .error .divisionByZero ∧ second = .error .divisionByZero) ∧
    (task.factoryCount ≠ 0 ∨ factories = [] →
      (first = .error .noAcceptableParameters ∧ second = .error .noAcceptableParameters) ∨
        ∃ one other, first = .ok one ∧ second = .ok other ∧ SameChoice s₁ s₂ one other) := by
  intro first second
  constructor
  · rintro ⟨absent, nonempty⟩
    obtain ⟨factory, others, rfl⟩ := List.exists_cons_of_ne_nil nonempty
    exact ⟨best_withoutFactories (task.replace s₁ a₁ b₁) values needed₁ factory others absent,
      best_withoutFactories (task.replace s₂ a₂ b₂) values needed₂ factory others absent⟩
  · intro able
    have alike : Calc.Alike (SameChoice s₁ s₂) first second :=
      best_alike task code positive₁ positive₂ needed₁ needed₂ same (.ofList factories)
    have fails : ∀ failure, first = .error failure → failure = .noAcceptableParameters :=
      fun _ => best_eq_error (task.replace s₁ a₁ b₁) values needed₁ able
    clear_value first second
    cases alike with
    | ok choice => exact .inr ⟨_, _, rfl, rfl, choice⟩
    | error failure =>
      obtain rfl := fails failure rfl
      exact .inl ⟨rfl, rfl⟩

/-- The additive formulas for odd distances, without rounding. -/
def additiveFormulas : SurfaceCode Rat where
  cellFailureRate errorRate distance :=
    .ok (1 / 10 * (100 * errorRate) ^ ((distance + 1) / 2).ceil.toNat)
  totalFailureRate errorRate volume distance :=
    .ok (volume * (1 / 10 * (100 * errorRate) ^ ((distance + 1) / 2).ceil.toNat))
  physicalQubits distance := .ok ((distance + 1) ^ 2 * 2)

theorem additiveFormulas_hasValues (errorRate : Rat) : HasValues additiveFormulas errorRate :=
  fun _ _ => ⟨⟨_, rfl⟩, ⟨_, rfl⟩⟩

def smallTask (factoryCount : Rat) : Task Rat where
  logicalQubits := 10
  toffoliGates := 0
  tGates := 0
  cycleTime := 0
  physicalErrorRate := 1 / 1000
  boxPortion := 1
  routingOverhead := 1 / 2
  tolerance := 1 / 1000
  factoryCount

def smallFactory : MagicStateFactory Rat := ⟨"factory", 0, none, 100, 10, 1⟩

/-- One Toffoli gate and two T gates need one distillation each. -/
theorem best_of_one_distillation :
    ∃ one other,
      ((smallTask 4).replace 1 1 0).best additiveFormulas (.ofList [smallFactory]) = .ok one ∧
        ((smallTask 4).replace 3 0 2).best additiveFormulas (.ofList [smallFactory]) = .ok other ∧
        SameChoice 1 3 one other := by
  have needed₁ : ¬ ((0 : Rat) = 0 ∧ (1 : Rat) = 0) := by decide
  have needed₂ : ¬ ((2 : Rat) = 0 ∧ (0 : Rat) = 0) := by decide
  have same : (1 : Rat) + ((0 : Rat) / 2).ceil = 0 + ((2 : Rat) / 2).ceil := by decide +kernel
  have outcome := best_of_same_demand additiveFormulas (smallTask 4) [smallFactory]
    (additiveFormulas_hasValues _) (by decide : (0 : Rat) < 1) (by decide : (0 : Rat) < 3)
    needed₁ needed₂ same
  refine (outcome.2 (.inl (by decide))).resolve_left fun stopped => ?_
  have succeeds : (((smallTask 4).replace 1 1 0).best additiveFormulas
      (.ofList [smallFactory])).toOption.isSome = true := by decide +kernel
  rw [stopped.1] at succeeds
  cases succeeds

/-- A search that may build no factory is stopped by its division and not by its tolerance. -/
theorem best_stopped_by_division :
    ((smallTask 0).replace 1 1 0).best additiveFormulas (.ofList [smallFactory]) =
      .error .divisionByZero :=
  best_withoutFactories _ (additiveFormulas_hasValues _) (by decide) smallFactory [] rfl

end QuantumResources.GateCounts
