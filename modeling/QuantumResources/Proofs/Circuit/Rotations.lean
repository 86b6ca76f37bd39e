import QuantumResources.Proofs.Circuit.Matrices
import QuantumResources.Proofs.Circuit.Rules

/-! Rotations around X and Y made of rotations around Z.

Between Hadamard gates a rotation around Z is one around X, under any controls. The S gates of the
rule for Y stand the other way round: they turn the X axis to the negative Y axis, so that what is
made turns by the opposite angle. -/

namespace QuantumResources

open Matrix

/-- Gates of these names have their usual matrices. -/
structure StandardRotations {θ : Type} (gates : GateSet θ) (value : θ → ℝ) : Prop where
  h : ∀ after before, gates "H" [] [after] [before] = hadamard after before
  s : ∀ after before, gates "S" [] [after] [before] = phaseShift Complex.I after before
  rx : ∀ angle after before,
    gates "RX" [angle] [after] [before] = rotation pauliX (value angle) after before
  ry : ∀ angle after before,
    gates "RY" [angle] [after] [before] = rotation pauliY (value angle) after before
  rz : ∀ angle after before,
    gates "RZ" [angle] [after] [before] = rotation pauliZ (value angle) after before

theorem standardRotations_standardGates {θ : Type} (value : θ → ℝ) :
    StandardRotations (standardGates value) value :=
  ⟨fun _ _ => rfl, fun _ _ => rfl, fun _ _ _ => rfl, fun _ _ _ => rfl, fun _ _ _ => rfl⟩

/-! ## Opposite rotations around Y -/

theorem cos_eq_one_iff_sin_half (angle : ℝ) : Real.cos angle = 1 ↔ Real.sin (angle / 2) = 0 := by
  have double := Real.cos_two_mul (angle / 2)
  have unit := Real.sin_sq_add_cos_sq (angle / 2)
  rw [mul_div_cancel₀ angle two_ne_zero] at double
  rw [← sq_eq_zero_iff]
  constructor <;> intro _ <;> linarith

theorem sin_eq_zero_iff_half (angle : ℝ) :
    Real.sin angle = 0 ↔ Real.sin (angle / 2) = 0 ∨ Real.cos (angle / 2) = 0 := by
  have double := Real.sin_two_mul (angle / 2)
  rw [mul_div_cancel₀ angle two_ne_zero] at double
  simp [double]

theorem rotation_pauliY_apply (angle : ℝ) (after before : Bool) :
    rotation pauliY angle after before =
      if after = before then (Real.cos (angle / 2) : ℂ)
      else if after then (Real.sin (angle / 2) : ℂ) else -(Real.sin (angle / 2) : ℂ) := by
  have squared : Complex.I * Complex.I = -1 := Complex.I_mul_I
  rw [rotation_pauliY]
  simp only [Matrix.sub_apply, Matrix.smul_apply, one_apply, pauliY, of_apply, smul_eq_mul]
  cases after <;> cases before <;> simp <;> grind

theorem rotation_pauliY_neg_eq_smul_iff (factor : ℂ) (angle : ℝ) :
    rotation pauliY (-angle) = factor • rotation pauliY angle ↔
      (factor - 1) * Real.cos (angle / 2) = 0 ∧ (factor + 1) * Real.sin (angle / 2) = 0 := by
  have entry (after before : Bool) : rotation pauliY (-angle) after before =
      if after = before then (Real.cos (angle / 2) : ℂ)
      else if after then -(Real.sin (angle / 2) : ℂ) else (Real.sin (angle / 2) : ℂ) := by
    rw [rotation_pauliY_apply, neg_div, Real.cos_neg, Real.sin_neg, Complex.ofReal_neg, neg_neg]
  constructor
  · intro same
    have along := congrFun (congrFun same true) true
    have across := congrFun (congrFun same true) false
    simp only [Matrix.smul_apply, entry, rotation_pauliY_apply, smul_eq_mul, if_true,
      Bool.true_eq_false, if_false] at along across
    constructor
    · linear_combination -along
    · linear_combination -across
  · rintro ⟨along, across⟩
    ext after before
    simp only [Matrix.smul_apply, entry, rotation_pauliY_apply, smul_eq_mul]
    split_ifs
    · linear_combination -along
    · linear_combination -across
    · linear_combination across

/-- The opposite rotation is the same one up to a phase for angles where it is no other, and, where
no controls tell a sign, half way between them. -/
theorem exists_phase_rotation_neg_iff (alone : Prop) (angle : ℝ) :
    (∃ phase : ℂ, ‖phase‖ = 1 ∧ rotation pauliY (-angle) = phase • rotation pauliY angle ∧
      (alone ∨ phase = 1)) ↔
      Real.cos angle = 1 ∨ alone ∧ Real.sin angle = 0 := by
  rw [cos_eq_one_iff_sin_half angle, sin_eq_zero_iff_half angle]
  simp only [rotation_pauliY_neg_eq_smul_iff, mul_eq_zero, Complex.ofReal_eq_zero]
  constructor
  · rintro ⟨phase, -, ⟨same | along, opposite | across⟩, free⟩
    · have equal : phase = 1 := sub_eq_zero.mp same
      rw [equal] at opposite
      norm_num at opposite
    · exact .inl across
    · rcases free with isAlone | equal
      · exact .inr ⟨isAlone, .inr along⟩
      · rw [equal] at opposite
        norm_num at opposite
    · exact .inl across
  · rintro (across | ⟨isAlone, across | along⟩)
    · exact ⟨1, by simp, ⟨.inl (by simp), .inr across⟩, .inr rfl⟩
    · exact ⟨1, by simp, ⟨.inl (by simp), .inr across⟩, .inr rfl⟩
    · exact ⟨-1, by simp, ⟨.inr along, .inl (by simp)⟩, .inl isAlone⟩

/-! ## What the rules make -/

/-- The gate put under a number of controls. Without controls it may stand for itself. -/
def Gate.IsControlled {θ : Type} (gate : Gate θ) (count : Nat) (inner : Gate θ) : Prop :=
  gate = inner ∧ count = 0 ∨ ∃ name, gate = .controlled inner count name

/-- Operations that do to every state what an operation does, up to one phase. -/
def ImplementsUpToPhase {θ : Type} (gates : GateSet θ) (n : Nat)
    (produced : List (GateOperation θ)) (operation : GateOperation θ) : Prop :=
  ∃ phase : ℂ, ‖phase‖ = 1 ∧
    ∀ state : State n, evolve gates produced state = phase • evolve gates [operation] state

section Spread

variable {θ : Type} {gates : GateSet θ} {name : String} {angles : List θ} {n : Nat}
  {controls : List (Fin n)} {target : Fin n} {gate : Gate θ}

theorem angle_under {count : Nat} {angle : θ}
    (under : gate.IsControlled count (.named name [angle])) : Rule.angle gate 0 = .ok angle := by
  rcases under with ⟨rfl, -⟩ | ⟨own, rfl⟩ <;> rfl

theorem evolve_operation (under : gate.IsControlled controls.length (.named name angles))
    (apart : target ∉ controls) (state : State n) :
    evolve gates [⟨gate, labels (controls ++ [target])⟩] state =
      onTarget controls target ((Gate.named name angles).single gates) *ᵥ state := by
  have acts : gate.ActsUnder gates controls.length ((Gate.named name angles).single gates) := by
    rcases under with ⟨rfl, none⟩ | ⟨own, rfl⟩
    · rw [none]
      exact Gate.actsUnder_single gates _
    · exact Gate.actsUnder_controlled gates _ _ _
  rw [evolve_cons, evolve_nil, matrix_onTarget gates acts apart]

/-- Gates in the place of an operation act on its target under its controls. -/
theorem evolve_spread (under : gate.IsControlled controls.length (.named name angles))
    (apart : target ∉ controls) (made : List (Gate θ)) (state : State n) :
    evolve gates (Rule.spread ⟨gate, labels (controls ++ [target])⟩ made) state =
      onTarget controls target (made.foldl (fun u g => g.single gates * u) 1) *ᵥ state := by
  rw [Rule.spread_eq]
  refine evolve_onTarget gates apart made (fun g _ => ?_) state
  rcases under with ⟨rfl, none⟩ | ⟨own, rfl⟩
  · rw [none]
    exact Gate.actsUnder_single gates g
  · exact Gate.actsUnder_controlled gates g _ _

end Spread

namespace StandardRotations

variable {θ : Type} {gates : GateSet θ} {value : θ → ℝ} (standard : StandardRotations gates value)

include standard

theorem single_h : (Gate.plain "H").single gates = hadamard := Matrix.ext standard.h

theorem single_s : (Gate.plain "S").single gates = phaseShift Complex.I := Matrix.ext standard.s

theorem single_rz (angle : θ) : (Rule.rz angle).single gates = rotation pauliZ (value angle) :=
  Matrix.ext (standard.rz angle)

/-- Between Hadamard gates a rotation around Z turns around X. -/
theorem conj_h (angle : θ) :
    [Gate.plain "H", Rule.rz angle, .plain "H"].foldl (fun u g => g.single gates * u) 1 =
      rotation pauliX (value angle) := by
  simp only [List.foldl_cons, List.foldl_nil, standard.single_h, standard.single_rz,
    Matrix.mul_one]
  rw [← Matrix.mul_assoc, rotation_conj hadamard_mul_self, hadamard_pauliZ]

/-- The S gates around them turn it on, to the negative Y axis. -/
theorem conj_s_h (angle : θ) :
    [Gate.plain "S", .plain "H", Rule.rz angle, .plain "H", .inverted (.plain "S")].foldl
        (fun u g => g.single gates * u) 1 =
      rotation pauliY (-value angle) := by
  have inner := standard.conj_h angle
  simp only [List.foldl_cons, List.foldl_nil, Matrix.mul_one] at inner
  simp only [List.foldl_cons, List.foldl_nil, Matrix.mul_one, standard.single_s,
    Gate.single_inverted]
  rw [← rotation_neg_axis, ← phaseShift_conj_pauliX,
    ← rotation_conj conjTranspose_phaseShift_mul_self, ← inner]
  simp only [Matrix.mul_assoc]

variable {n : Nat} {controls : List (Fin n)} {target : Fin n} {angle : θ} {gate : Gate θ}

theorem rx_exact (toFloat : θ → Calc Float) (apart : target ∉ controls)
    (under : gate.IsControlled controls.length (.named "RX" [angle])) :
    ∃ produced, Rule.rxToRz.produce toFloat ⟨gate, labels (controls ++ [target])⟩ = .ok produced ∧
      ∀ state : State n, evolve gates produced state =
        evolve gates [⟨gate, labels (controls ++ [target])⟩] state := by
  have produces : Rule.rxToRz.produce toFloat ⟨gate, labels (controls ++ [target])⟩ =
      .ok (Rule.spread ⟨gate, labels (controls ++ [target])⟩
        [.plain "H", Rule.rz angle, .plain "H"]) := by
    simp only [Rule.produce, angle_under under]
    rfl
  refine ⟨_, produces, fun state => ?_⟩
  rw [evolve_spread under apart, standard.conj_h, evolve_operation under apart]
  congr 2
  exact (Matrix.ext (standard.rx angle)).symm

theorem ry_opposite (toFloat : θ → Calc Float) (apart : target ∉ controls)
    (under : gate.IsControlled controls.length (.named "RY" [angle])) :
    ∃ produced, Rule.ryToRz.produce toFloat ⟨gate, labels (controls ++ [target])⟩ = .ok produced ∧
      ∀ state : State n, evolve gates produced state =
        onTarget controls target (rotation pauliY (-value angle)) *ᵥ state := by
  have produces : Rule.ryToRz.produce toFloat ⟨gate, labels (controls ++ [target])⟩ =
      .ok (Rule.spread ⟨gate, labels (controls ++ [target])⟩
        [.plain "S", .plain "H", Rule.rz angle, .plain "H", .inverted (.plain "S")]) := by
    simp only [Rule.produce, angle_under under]
    rfl
  refine ⟨_, produces, fun state => ?_⟩
  rw [evolve_spread under apart, standard.conj_s_h]

theorem ry_implements_iff (toFloat : θ → Calc Float) (apart : target ∉ controls)
    (under : gate.IsControlled controls.length (.named "RY" [angle])) :
    ∃ produced, Rule.ryToRz.produce toFloat ⟨gate, labels (controls ++ [target])⟩ = .ok produced ∧
      (∀ state : State n, evolve gates produced state =
        onTarget controls target (rotation pauliY (-value angle)) *ᵥ state) ∧
      (ImplementsUpToPhase gates n produced ⟨gate, labels (controls ++ [target])⟩ ↔
        Real.cos (value angle) = 1 ∨ controls = [] ∧ Real.sin (value angle) = 0) := by
  obtain ⟨produced, produces, acts⟩ := standard.ry_opposite toFloat apart under
  have single : (Gate.named "RY" [angle]).single gates = rotation pauliY (value angle) :=
    Matrix.ext (standard.ry angle)
  refine ⟨produced, produces, acts, ?_⟩
  simp only [ImplementsUpToPhase, acts, evolve_operation under apart, single,
    mulVec_eq_smul_iff, onTarget_eq_smul_iff apart]
  exact exists_phase_rotation_neg_iff _ _

end StandardRotations

/-- The rule for rotations around X replaces each of them by just what it does. The one for
rotations around Y makes the opposite rotation, which is another one at all angles but full turns
and, without controls, half turns. -/
theorem rotations_replaced_iff {θ : Type} (gates : GateSet θ) (value : θ → ℝ)
    (standard : StandardRotations gates value) (toFloat : θ → Calc Float) (n : Nat)
    (controls : List (Fin n)) (target : Fin n) (apart : target ∉ controls) (angle : θ)
    (rx ry : Gate θ) (isRx : rx.IsControlled controls.length (.named "RX" [angle]))
    (isRy : ry.IsControlled controls.length (.named "RY" [angle])) :
    let qubits := labels (controls ++ [target])
    (∃ produced, Rule.rxToRz.produce toFloat ⟨rx, qubits⟩ = .ok produced ∧
      ∀ state : State n, evolve gates produced state = evolve gates [⟨rx, qubits⟩] state) ∧
    ∃ produced, Rule.ryToRz.produce toFloat ⟨ry, qubits⟩ = .ok produced ∧
      (∀ state : State n, evolve gates produced state =
        onTarget controls target (rotation pauliY (-value angle)) *ᵥ state) ∧
      (ImplementsUpToPhase gates n produced ⟨ry, qubits⟩ ↔
        Real.cos (value angle) = 1 ∨ controls = [] ∧ Real.sin (value angle) = 0) :=
  ⟨standard.rx_exact toFloat apart isRx, standard.ry_implements_iff toFloat apart isRy⟩

/-- A half turn around Y is its own opposite up to a sign, which a control brings to light. -/
theorem rotations_replaced_halfTurn :
    let gates : GateSet ℝ := standardGates id
    let toFloat : ℝ → Calc Float := fun _ => .ok 0
    let rx : GateOperation ℝ := ⟨.withControls (.named "RX" [Real.pi]) 1, [2, 0]⟩
    let ry : GateOperation ℝ := ⟨.withControls (.named "RY" [Real.pi]) 1, [2, 0]⟩
    let alone : GateOperation ℝ := ⟨.named "RY" [Real.pi], [0]⟩
    (∃ produced, Rule.rxToRz.produce toFloat rx = .ok produced ∧
      ∀ state : State 3, evolve gates produced state = evolve gates [rx] state) ∧
    (∃ produced, Rule.ryToRz.produce toFloat ry = .ok produced ∧
      ¬ ImplementsUpToPhase gates 3 produced ry) ∧
    ∃ produced, Rule.ryToRz.produce toFloat alone = .ok produced ∧
      ImplementsUpToPhase gates 3 produced alone := by
  intro gates toFloat rx ry alone
  have standard : StandardRotations gates id := standardRotations_standardGates id
  obtain ⟨same, produced, produces, -, implements⟩ :=
    rotations_replaced_iff gates id standard toFloat 3 [2] 0 (by decide) Real.pi rx.gate ry.gate
      (.inr ⟨_, rfl⟩) (.inr ⟨_, rfl⟩)
  obtain ⟨-, produced', produces', -, implements'⟩ :=
    rotations_replaced_iff gates id standard toFloat 3 [] 0 (by decide) Real.pi
      (.named "RX" [Real.pi]) alone.gate (.inl ⟨rfl, rfl⟩) (.inl ⟨rfl, rfl⟩)
  refine ⟨same, ⟨produced, produces, ?_⟩, ⟨produced', produces', ?_⟩⟩
  · rw [show ry = ⟨ry.gate, labels ([(2 : Fin 3)] ++ [0])⟩ from rfl, implements]
    norm_num [Real.cos_pi]
  · exact implements'.mpr (.inr ⟨rfl, Real.sin_pi⟩)

/-- A rotation around Y by seven tenths, without controls, is replaced by another gate. -/
theorem ry_replaced_by_opposite :
    let operation : GateOperation ℝ := ⟨.named "RY" [7 / 10], [0]⟩
    let toFloat : ℝ → Calc Float := fun _ => .ok 0.7
    ∃ produced, Rule.ryToRz.applies toFloat operation = .ok true ∧
      Rule.ryToRz.produce toFloat operation = .ok produced ∧
      ¬ ImplementsUpToPhase (standardGates id) 1 produced operation := by
  intro operation toFloat
  obtain ⟨produced, produces, -, implements⟩ :=
    (standardRotations_standardGates id).ry_implements_iff toFloat
      (List.not_mem_nil (a := (0 : Fin 1)))
      (.inl ⟨rfl, rfl⟩ : operation.gate.IsControlled 0 (.named "RY" [7 / 10]))
  have positive : 0 < Real.sin (7 / 10) :=
    Real.sin_pos_of_pos_of_lt_pi (by norm_num) (by linarith [Real.two_le_pi])
  refine ⟨produced, rfl, produces, fun implemented => ?_⟩
  rcases implements.mp implemented with turn | ⟨-, zero⟩
  · have unit := Real.sin_sq_add_cos_sq (7 / 10)
    rw [show Real.cos (7 / 10) = 1 from turn] at unit
    nlinarith
  · exact absurd zero positive.ne'

end QuantumResources
