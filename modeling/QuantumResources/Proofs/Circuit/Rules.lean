import QuantumResources.Circuit.Rules
import QuantumResources.Proofs.Sequence

/-! Whether what a rule produces calls for that rule again, or for one before it.

Productions consist of simple gates, put under the controls of the operation that they replace. The
rules before the last one see names and the number of controls and nothing else, so a production
can bring work back only as a controlled gate that an earlier rule takes apart. -/

namespace QuantumResources

namespace Gate

variable {θ : Type}

@[simp] theorem name_plain (name : String) : (plain name : Gate θ).name = name := rfl

@[simp] theorem angles_plain (name : String) : (plain name : Gate θ).angles = [] := rfl

/-- The number of controls of a controlled gate. -/
def controls? : Gate θ → Option Int
  | controlled _ controls _ => some controls
  | _ => none

/-- A gate under as many controls as another one has. -/
def under (gate : Gate θ) : Option Int → Gate θ
  | some controls => gate.withControls controls
  | none => gate

/-- The names for which the rules before the last one look, controlled or not. -/
def replacedNames : List String := [controlName, "U3", "RX", "RY"]

/-- A gate that none of the rules before the last one replaces as it stands. -/
structure Simple (gate : Gate θ) : Prop where
  uncontrolled : gate.controls? = none
  kept : gate.name ∉ replacedNames

theorem simple_named {name : String} (angles : List θ) (kept : name ∉ replacedNames) :
    (named name angles).Simple := ⟨rfl, kept⟩

theorem simple_adjoint {name : String} (kept : name ++ "_Dagger" ∉ replacedNames) :
    (adjoint (plain name) : Gate θ).Simple := ⟨rfl, kept⟩

/-- The names for which the first rules look under one control or two. -/
def controlledNames : List String := ["Z", "CZ", "X", "CNOT"]

/-- A simple gate that none of these rules replaces under any number of controls. -/
structure Inert (gate : Gate θ) : Prop extends gate.Simple where
  unnamed : gate.name ∉ controlledNames

theorem inert_named {name : String} (angles : List θ) (kept : name ∉ replacedNames)
    (unnamed : name ∉ controlledNames) : (named name angles).Inert := ⟨⟨rfl, kept⟩, unnamed⟩

theorem inert_inverted {name : String} (kept : name ++ "_Dagger" ∉ replacedNames)
    (unnamed : name ++ "_Dagger" ∉ controlledNames) : (inverted (plain name) : Gate θ).Inert :=
  ⟨⟨rfl, kept⟩, unnamed⟩

end Gate

namespace Rule

open Gate

variable {θ : Type} (toFloat : θ → Calc Float)

/-- A rule and those before it. -/
def upTo (rule : Rule) : List Rule := all.takeWhile (· ≠ rule) ++ [rule]

theorem early_of_upTo {rule earlier : Rule} (early : rule ≠ standardRz)
    (listed : earlier ∈ rule.upTo) : earlier ≠ standardRz := by
  cases rule with
  | standardRz => exact absurd rfl early
  | _ => revert earlier; decide

/-! ## Simple gates under controls -/

/-- What a rule looks for under two controls, and under one. -/
def controlledTargets : Rule → Option (String × String)
  | cczToT => some ("Z", "CZ")
  | ccxToT => some ("X", "CNOT")
  | _ => none

theorem isOrControls_under {gate : Gate θ} (simple : gate.Simple) (controls : Option Int)
    {name : String} (listed : name ∈ replacedNames) (notControl : name ≠ controlName) :
    isOrControls name (gate.under controls) = false := by
  have different : gate.name ≠ name := fun same => simple.kept (same ▸ listed)
  cases controls with
  | none =>
    have uncontrolled := simple.uncontrolled
    cases gate with
    | controlled inner count own => cases uncontrolled
    | named own angles => simpa [isOrControls, under] using different
    | adjoint inner => simpa [isOrControls, under] using different
    | inverted inner => simpa [isOrControls, under] using different
  | some count => simpa [isOrControls, under, withControls, notControl.symm] using different

theorem isDoublyControlled_under {gate : Gate θ} (simple : gate.Simple) (controls : Option Int)
    (single double : String) :
    isDoublyControlled single double (gate.under controls) =
      .ok ((gate.name == single && controls == some 2) ||
        (gate.name == double && controls == some 1)) := by
  cases controls with
  | none =>
    have different : gate.name ≠ controlName :=
      fun same => simple.kept (by simp [same, replacedNames])
    simp [isDoublyControlled, under, different]
  | some count => rfl

/-- Under controls, a simple gate calls for an early rule only as one that the rule looks for. -/
theorem applies_under {rule : Rule} (early : rule ≠ standardRz) {gate : Gate θ}
    (simple : gate.Simple) (controls : Option Int) (qubits : List Int) :
    rule.applies toFloat ⟨gate.under controls, qubits⟩ =
      .ok (rule.controlledTargets.any fun target =>
        (gate.name == target.1 && controls == some 2) ||
          (gate.name == target.2 && controls == some 1)) := by
  have rotation : ∀ name ∈ replacedNames, name ≠ controlName →
      (pure (isOrControls name (gate.under controls)) : Calc Bool) = .ok false :=
    fun name listed notControl =>
      congrArg Except.ok (isOrControls_under simple controls listed notControl)
  cases rule with
  | cczToT => exact isDoublyControlled_under simple controls "Z" "CZ"
  | ccxToT => exact isDoublyControlled_under simple controls "X" "CNOT"
  | u3ToRz => exact rotation "U3" (by decide) (by decide)
  | rxToRz => exact rotation "RX" (by decide) (by decide)
  | ryToRz => exact rotation "RY" (by decide) (by decide)
  | standardRz => exact absurd rfl early

theorem applies_uncontrolled {rule : Rule} (early : rule ≠ standardRz) {gate : Gate θ}
    (simple : gate.Simple) (qubits : List Int) :
    rule.applies toFloat ⟨gate, qubits⟩ = .ok false := by
  have computed := applies_under toFloat early simple none qubits
  cases targets : rule.controlledTargets <;> simpa [under, targets] using computed

theorem applies_inert {rule : Rule} (early : rule ≠ standardRz) {gate : Gate θ}
    (inert : gate.Inert) (controls : Option Int) (qubits : List Int) :
    rule.applies toFloat ⟨gate.under controls, qubits⟩ = .ok false := by
  have unnamed := inert.unnamed
  simp only [controlledNames, List.mem_cons, List.not_mem_nil, or_false, not_or] at unnamed
  obtain ⟨z, cz, x, cnot⟩ := unnamed
  rw [applies_under toFloat early inert.toSimple]
  cases rule <;> simp [controlledTargets, z, cz, x, cnot]

/-! ## Productions -/

theorem spread_eq (operation : GateOperation θ) (gates : List (Gate θ)) :
    spread operation gates =
      gates.map fun gate => ⟨gate.under operation.gate.controls?, operation.qubits⟩ := by
  unfold spread
  cases operation.gate <;> rfl

theorem simple_phaseOfThree (a b c : Int) :
    ∀ made ∈ (phaseOfThree a b c : List (GateOperation θ)), made.gate.Simple := by
  have cnot : (plain "CNOT" : Gate θ).Simple := simple_named _ (by decide)
  have t : (plain "T" : Gate θ).Simple := simple_named _ (by decide)
  have tInverse : (adjoint (plain "T") : Gate θ).Simple := simple_adjoint (by decide)
  simp [phaseOfThree, on, cnot, t, tInverse]

theorem simple_phaseOfControls (a b : Int) :
    ∀ made ∈ (phaseOfControls a b : List (GateOperation θ)), made.gate.Simple := by
  have cnot : (plain "CNOT" : Gate θ).Simple := simple_named _ (by decide)
  have t : (plain "T" : Gate θ).Simple := simple_named _ (by decide)
  have tInverse : (adjoint (plain "T") : Gate θ).Simple := simple_adjoint (by decide)
  simp [phaseOfControls, on, cnot, t, tInverse]

theorem simple_doublyControlledZ (a b c : Int) :
    ∀ made ∈ (doublyControlledZ a b c : List (GateOperation θ)), made.gate.Simple := by
  intro made member
  rcases List.mem_append.mp member with three | two
  · exact simple_phaseOfThree a b c made three
  · exact simple_phaseOfControls a b made two

theorem simple_toffoli (a b c : Int) :
    ∀ made ∈ (toffoli a b c : List (GateOperation θ)), made.gate.Simple := by
  have h : (plain "H" : Gate θ).Simple := simple_named _ (by decide)
  have three := simple_phaseOfThree (θ := θ) a b c
  have two := simple_phaseOfControls (θ := θ) a b
  simp only [toffoli, on, List.mem_cons, List.mem_append]
  grind

theorem threeQubits_eq_ok {build : Int → Int → Int → List (GateOperation θ)} {qubits : List Int}
    {produced : List (GateOperation θ)} (built : threeQubits build qubits = .ok produced) :
    ∃ a b c, produced = build a b c := by
  unfold threeQubits at built
  split at built
  · cases built
    exact ⟨_, _, _, rfl⟩
  · cases built

/-- The gates of a standard angle have no angles of their own. -/
theorem standardAngle_gates (standard : StandardAngle) :
    ∀ gate ∈ (standard.gates : List (Gate θ)),
      gate.Simple ∧ gate.angles = [] ∧ gate.name ≠ "RZ" := by
  have direct : ∀ name ∈ ["I", "T", "S", "Z"], (plain name : Gate θ).Simple :=
    fun name listed => simple_named _ (by revert name; decide)
  have inverse : ∀ name ∈ ["T", "S"], (adjoint (plain name) : Gate θ).Simple :=
    fun name listed => simple_adjoint (by revert name; decide)
  cases standard <;> simp [StandardAngle.gates, direct, inverse, angles, Gate.name]

theorem applies_standardRz_of_gates {standard : StandardAngle} {gate : Gate θ}
    (member : gate ∈ standard.gates) (qubits : List Int) :
    standardRz.applies toFloat ⟨gate, qubits⟩ = .ok false := by
  obtain ⟨_, none, different⟩ := standardAngle_gates standard gate member
  simp only [applies, none, beq_iff_eq, different, if_false]
  rfl

theorem applies_spread {operation made : GateOperation θ} {gates : List (Gate θ)}
    (inert : ∀ gate ∈ gates, gate.Inert) {rule : Rule} (early : rule ≠ standardRz)
    (member : made ∈ spread operation gates) : rule.applies toFloat made = .ok false := by
  rw [spread_eq] at member
  obtain ⟨gate, listed, rfl⟩ := List.mem_map.mp member
  exact applies_inert toFloat early (inert gate listed) _ _

theorem inert_rz (angle : θ) : (rz angle).Inert := inert_named _ (by decide) (by decide)

variable {toFloat} {rule : Rule} {operation : GateOperation θ} {produced : List (GateOperation θ)}

theorem produce_u3_eq_ok (produces : u3ToRz.produce toFloat operation = .ok produced) :
    ∃ first second third, produced = spread operation
      [rz third, plain "SX", plain "Z", rz second, plain "SX", plain "Z", rz first] := by
  obtain ⟨first, _, continued⟩ := Calc.bind_eq_ok.mp produces
  obtain ⟨second, _, continued⟩ := Calc.bind_eq_ok.mp continued
  obtain ⟨third, _, continued⟩ := Calc.bind_eq_ok.mp continued
  cases continued
  exact ⟨first, second, third, rfl⟩

theorem produce_rx_eq_ok (produces : rxToRz.produce toFloat operation = .ok produced) :
    ∃ angle, produced = spread operation [plain "H", rz angle, plain "H"] := by
  obtain ⟨angle, _, continued⟩ := Calc.bind_eq_ok.mp produces
  cases continued
  exact ⟨angle, rfl⟩

theorem produce_ry_eq_ok (produces : ryToRz.produce toFloat operation = .ok produced) :
    ∃ angle, produced = spread operation
      [plain "S", plain "H", rz angle, plain "H", inverted (plain "S")] := by
  obtain ⟨angle, _, continued⟩ := Calc.bind_eq_ok.mp produces
  cases continued
  exact ⟨angle, rfl⟩

theorem produce_standard_eq_ok (produces : standardRz.produce toFloat operation = .ok produced) :
    ∃ standard : StandardAngle,
      produced = standard.gates.map fun gate => on gate operation.qubits := by
  obtain ⟨angle, _, continued⟩ := Calc.bind_eq_ok.mp produces
  obtain ⟨x, _, continued⟩ := Calc.bind_eq_ok.mp continued
  split at continued
  · cases continued
    exact ⟨_, rfl⟩
  · cases continued

/-! ## The order of the rules -/

/-- Of what stands in for a U3 gate, only Z gates under two controls call for an earlier rule. -/
theorem applies_u3_gates {first second third : θ} {made : GateOperation θ} {earlier : Rule}
    (early : earlier ≠ standardRz)
    (member : made ∈ spread operation
      [rz third, plain "SX", plain "Z", rz second, plain "SX", plain "Z", rz first])
    (notTwo : operation.gate.controls? ≠ some 2) : earlier.applies toFloat made = .ok false := by
  rw [spread_eq] at member
  obtain ⟨gate, listed, rfl⟩ := List.mem_map.mp member
  have sx : (plain "SX" : Gate θ).Inert := inert_named _ (by decide) (by decide)
  have z : (plain "Z" : Gate θ).Simple := simple_named _ (by decide)
  by_cases isZ : gate = plain "Z"
  · rw [isZ, applies_under toFloat early z]
    cases earlier <;> simp [controlledTargets, notTwo]
  · have inert : gate.Inert := by
      simp only [List.mem_cons, List.not_mem_nil, or_false, isZ, false_or] at listed
      rcases listed with rfl | rfl | rfl | rfl | rfl
      · exact inert_rz third
      · exact sx
      · exact inert_rz second
      · exact sx
      · exact inert_rz first
    exact applies_inert toFloat early inert _ _

theorem production_settled (produces : rule.produce toFloat operation = .ok produced)
    (allowed : ¬ (rule = u3ToRz ∧ operation.gate.controls? = some 2)) {made : GateOperation θ}
    (member : made ∈ produced) {earlier : Rule} (listed : earlier ∈ rule.upTo) :
    earlier.applies toFloat made = .ok false := by
  have h : (plain "H" : Gate θ).Inert := inert_named _ (by decide) (by decide)
  have s : (plain "S" : Gate θ).Inert := inert_named _ (by decide) (by decide)
  have sInverse : (inverted (plain "S") : Gate θ).Inert := inert_inverted (by decide) (by decide)
  cases rule with
  | cczToT =>
    obtain ⟨a, b, c, rfl⟩ := threeQubits_eq_ok produces
    exact applies_uncontrolled toFloat (early_of_upTo (by decide) listed)
      (simple_doublyControlledZ a b c made member) _
  | ccxToT =>
    obtain ⟨a, b, c, rfl⟩ := threeQubits_eq_ok produces
    exact applies_uncontrolled toFloat (early_of_upTo (by decide) listed)
      (simple_toffoli a b c made member) _
  | u3ToRz =>
    obtain ⟨first, second, third, rfl⟩ := produce_u3_eq_ok produces
    exact applies_u3_gates (early_of_upTo (by decide) listed) member
      fun two => allowed ⟨rfl, two⟩
  | rxToRz =>
    obtain ⟨angle, rfl⟩ := produce_rx_eq_ok produces
    exact applies_spread toFloat (by simp [h, inert_rz]) (early_of_upTo (by decide) listed) member
  | ryToRz =>
    obtain ⟨angle, rfl⟩ := produce_ry_eq_ok produces
    exact applies_spread toFloat (by simp [h, s, sInverse, inert_rz])
      (early_of_upTo (by decide) listed) member
  | standardRz =>
    obtain ⟨standard, rfl⟩ := produce_standard_eq_ok produces
    obtain ⟨gate, isGate, rfl⟩ := List.mem_map.mp member
    by_cases early : earlier = standardRz
    · rw [early]
      exact applies_standardRz_of_gates toFloat isGate _
    · exact applies_uncontrolled toFloat early (standardAngle_gates standard gate isGate).1 _

theorem production_unsettled (produces : u3ToRz.produce toFloat operation = .ok produced)
    (two : operation.gate.controls? = some 2) :
    ∃ made ∈ produced, cczToT.applies toFloat made = .ok true := by
  obtain ⟨first, second, third, rfl⟩ := produce_u3_eq_ok produces
  refine ⟨⟨(plain "Z").under (some 2), operation.qubits⟩, ?_, rfl⟩
  rw [spread_eq, two]
  simp

/-- What a rule puts in the place of an operation calls neither for that rule nor for one before it,
unless it is the rule for U3 gates and there are just two controls. -/
theorem production_settled_iff (toFloat : θ → Calc Float) (rule : Rule)
    (operation : GateOperation θ) (produced : List (GateOperation θ))
    (produces : rule.produce toFloat operation = .ok produced) :
    (∀ made ∈ produced, ∀ earlier ∈ rule.upTo, earlier.applies toFloat made ≠ .ok true) ↔
      ¬ (rule = u3ToRz ∧ operation.gate.controls? = some 2) := by
  constructor
  · rintro settled ⟨rfl, two⟩
    obtain ⟨made, member, applied⟩ := production_unsettled produces two
    exact settled made member cczToT (by decide) applied
  · intro allowed made member earlier listed
    rw [production_settled produces allowed member listed]
    simp

/-- A rotation around Y under two controls is replaced once and for all. -/
theorem production_settled_controlledRy :
    let operation : GateOperation Float := ⟨.withControls (.named "RY" [0.7]) 2, [0, 1, 2]⟩
    ∃ produced, ryToRz.applies .ok operation = .ok true ∧
      ryToRz.produce .ok operation = .ok produced ∧ produced.length = 5 ∧
      ∀ made ∈ produced, ∀ earlier ∈ ryToRz.upTo, earlier.applies .ok made ≠ .ok true := by
  intro operation
  refine ⟨_, rfl, rfl, rfl, ?_⟩
  exact (production_settled_iff .ok ryToRz operation _ rfl).mpr (by simp)

/-- A U3 gate under two controls leaves doubly controlled Z gates, for which the first rule is meant
and comes too late. -/
theorem production_unsettled_doublyControlledU3 :
    let operation : GateOperation Float :=
      ⟨.withControls (.named "U3" [0.1, 0.2, 0.3]) 2, [0, 1, 2]⟩
    let left : GateOperation Float := ⟨.withControls (.plain "Z") 2, [0, 1, 2]⟩
    ∃ produced, u3ToRz.applies .ok operation = .ok true ∧
      u3ToRz.produce .ok operation = .ok produced ∧ left ∈ produced ∧
      cczToT ∈ u3ToRz.upTo ∧ cczToT.applies .ok left = .ok true := by
  intro operation left
  refine ⟨_, rfl, rfl, ?_, by decide, rfl⟩
  exact List.mem_of_getElem? (rfl : _[2]? = some left)

end Rule

end QuantumResources
