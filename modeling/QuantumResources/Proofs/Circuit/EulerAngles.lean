import QuantumResources.Proofs.Circuit.Rotations

/-! Gates given by three angles, made of rotations around Z and square roots of X.

Such a gate tilts around Y between two turns around Z. Between two Z gates with square roots of X a
rotation around Z is one around Y, so the rule for these gates makes a tilt between two turns. It
reads the first angle as the last turn and the second one as the tilt, the other way round than the
gate does, and what it makes bears a phase of its own, which controls bring to light. -/

namespace QuantumResources

open Matrix

/-! ## Matrices -/

noncomputable def sqrtX : Matrix Bool Bool ℂ :=
  of fun after before => (if after = before then 1 + Complex.I else 1 - Complex.I) / (2 : Nat)

/-- The gate of three angles: how far it tilts around Y, and the turns around Z after and before
that. Its first entry is real. -/
noncomputable def eulerGate (tilt last first : ℝ) : Matrix Bool Bool ℂ :=
  of fun after before =>
    (if after then Complex.exp (last * Complex.I) else 1) *
      (if after = before then (Real.cos (tilt / (2 : Nat)) : ℂ)
        else if after then (Real.sin (tilt / (2 : Nat)) : ℂ)
        else -(Real.sin (tilt / (2 : Nat)) : ℂ)) *
      (if before then Complex.exp (first * Complex.I) else 1)

/-- A tilt around Y between two turns around Z, all as rotations. -/
noncomputable def eulerRotation (tilt last first : ℝ) : Matrix Bool Bool ℂ :=
  rotation pauliZ last * rotation pauliY tilt * rotation pauliZ first

theorem rotation_pauliZ_apply (angle : ℝ) (after before : Bool) :
    rotation pauliZ angle after before =
      if after = before then
        (Real.cos (angle / 2) : ℂ) + (if after then Complex.I else -Complex.I) * Real.sin (angle / 2)
      else 0 := by
  rw [rotation_pauliZ]
  simp only [Matrix.sub_apply, Matrix.smul_apply, one_apply, pauliZ, phaseShift, diagonal_apply,
    smul_eq_mul]
  cases after <;> cases before <;> simp
  ring

/-- A rotation around Z shifts the phase of a qubit that is set, up to a phase of its own. -/
theorem rotation_pauliZ_eq_smul (angle : ℝ) :
    rotation pauliZ angle =
      Complex.exp (-((angle / 2 : ℝ) * Complex.I)) • phaseShift (Complex.exp (angle * Complex.I)) := by
  have back : Complex.exp (-((angle / 2 : ℝ) * Complex.I)) =
      Real.cos (angle / 2) - Real.sin (angle / 2) * Complex.I := by
    rw [← neg_mul, ← Complex.ofReal_neg, Complex.exp_mul_I, ← Complex.ofReal_cos,
      ← Complex.ofReal_sin, Real.cos_neg, Real.sin_neg, Complex.ofReal_neg, neg_mul, sub_eq_add_neg]
  have shifted : Complex.exp (-((angle / 2 : ℝ) * Complex.I)) * Complex.exp (angle * Complex.I) =
      Real.cos (angle / 2) + Real.sin (angle / 2) * Complex.I := by
    rw [Complex.ofReal_cos, Complex.ofReal_sin, ← Complex.exp_mul_I, ← Complex.exp_add]
    congr 1
    push_cast
    ring
  ext after before
  rw [rotation_pauliZ_apply, Matrix.smul_apply, phaseShift, diagonal_apply, smul_eq_mul]
  cases after <;> cases before <;> simp only [reduceCtorEq, if_false, if_true, mul_zero, mul_one]
  · rw [back]
    ring
  · rw [shifted]
    ring

theorem rotation_add (axis : Matrix Bool Bool ℂ) (angle other : ℝ) :
    rotation axis (angle + other) = rotation axis angle * rotation axis other := by
  have commute : Commute (-(Complex.I * ((angle : ℂ) / (2 : Nat))) • axis)
      (-(Complex.I * ((other : ℂ) / (2 : Nat))) • axis) :=
    ((Commute.refl axis).smul_left _).smul_right _
  rw [rotation, rotation, rotation, ← exp_add_of_commute _ _ commute, ← add_smul]
  congr 2
  push_cast
  ring

theorem isUnit_rotation (axis : Matrix Bool Bool ℂ) (angle : ℝ) : IsUnit (rotation axis angle) := by
  apply IsUnit.of_mul_eq_one (rotation axis (-angle))
  rw [← rotation_add, add_neg_cancel, rotation]
  simp

theorem eulerGate_eq_mul (tilt last first : ℝ) :
    eulerGate tilt last first = phaseShift (Complex.exp (last * Complex.I)) * rotation pauliY tilt *
      phaseShift (Complex.exp (first * Complex.I)) := by
  ext after before
  rw [phaseShift, phaseShift, mul_diagonal, diagonal_mul, rotation_pauliY_apply]
  rfl

/-- The gate of three angles is a product of rotations up to the phase that makes its first entry
real. -/
theorem eulerGate_eq_smul (tilt last first : ℝ) :
    eulerGate tilt last first =
      Complex.exp (((last + first) / 2 : ℝ) * Complex.I) • eulerRotation tilt last first := by
  have undone : Complex.exp (((last + first) / 2 : ℝ) * Complex.I) *
      (Complex.exp (-((last / 2 : ℝ) * Complex.I)) *
        Complex.exp (-((first / 2 : ℝ) * Complex.I))) = 1 := by
    rw [← Complex.exp_add, ← Complex.exp_add, ← Complex.exp_zero]
    congr 1
    push_cast
    ring
  rw [eulerRotation, rotation_pauliZ_eq_smul last, rotation_pauliZ_eq_smul first,
    eulerGate_eq_mul]
  simp only [Matrix.smul_mul, Matrix.mul_smul, smul_smul]
  rw [mul_comm (Complex.exp (-((first / 2 : ℝ) * Complex.I))), undone, one_smul]

/-- A rotation around Z between two Z gates with square roots of X turns around Y. -/
theorem sqrtX_conj_rotation (angle : ℝ) :
    pauliZ * sqrtX * rotation pauliZ angle * (pauliZ * sqrtX) =
      Complex.I • rotation pauliY angle := by
  have squared : Complex.I * Complex.I = -1 := Complex.I_mul_I
  have inverse : pauliZ * sqrtX * (-Complex.I • (pauliZ * sqrtX)) = 1 := by
    ext after before
    cases after <;> cases before <;>
      simp [pauliZ, phaseShift, sqrtX, mul_apply, diagonal_apply] <;> grind
  have seen : pauliZ * sqrtX * pauliZ * (-Complex.I • (pauliZ * sqrtX)) = pauliY := by
    ext after before
    cases after <;> cases before <;>
      simp [pauliZ, pauliY, phaseShift, sqrtX, mul_apply, diagonal_apply] <;> grind
  rw [← seen, ← rotation_conj inverse, Matrix.mul_smul, smul_smul, mul_neg, squared, neg_neg,
    one_smul]

/-! ## Exchanged angles -/

theorem rotation_pauliZ_eq_smul_pauliY_iff {factor : ℂ} (nonzero : factor ≠ 0) (angle : ℝ) :
    rotation pauliZ angle = factor • rotation pauliY angle ↔
      Real.sin (angle / 2) = 0 ∧ factor = 1 := by
  constructor
  · intro same
    have across := congrFun (congrFun same true) false
    have along := congrFun (congrFun same true) true
    simp only [Matrix.smul_apply, rotation_pauliZ_apply, rotation_pauliY_apply, smul_eq_mul,
      reduceCtorEq, if_false, if_true, zero_eq_mul, nonzero, false_or,
      Complex.ofReal_eq_zero] at across along
    have unit := Real.sin_sq_add_cos_sq (angle / 2)
    rw [across, zero_pow two_ne_zero, zero_add] at unit
    have cosine : (Real.cos (angle / 2) : ℂ) ≠ 0 := by
      rw [Complex.ofReal_ne_zero]
      rintro zero
      rw [zero] at unit
      norm_num at unit
    rw [across, Complex.ofReal_zero, mul_zero, add_zero] at along
    exact ⟨across, mul_right_cancel₀ cosine (along.symm.trans (one_mul _).symm)⟩
  · rintro ⟨zero, rfl⟩
    rw [one_smul, rotation_pauliZ, rotation_pauliY, zero]
    simp

/-- Exchanging the tilt and the last turn gives another rotation, unless they differ by full turns. -/
theorem eulerRotation_swap_eq_smul_iff {factor : ℂ} (nonzero : factor ≠ 0) (a b c : ℝ) :
    eulerRotation b a c = factor • eulerRotation a b c ↔ Real.cos (a - b) = 1 ∧ factor = 1 := by
  have made : eulerRotation b a c =
      rotation pauliZ b * (rotation pauliZ (a - b) * (rotation pauliY b * rotation pauliZ c)) := by
    rw [eulerRotation, ← Matrix.mul_assoc (rotation pauliZ b), ← rotation_add, add_sub_cancel,
      Matrix.mul_assoc]
  have wanted : factor • eulerRotation a b c = rotation pauliZ b *
      (factor • rotation pauliY (a - b) * (rotation pauliY b * rotation pauliZ c)) := by
    rw [eulerRotation, Matrix.smul_mul, Matrix.mul_smul, ← Matrix.mul_assoc (rotation pauliY _),
      ← rotation_add, sub_add_cancel, Matrix.mul_assoc]
  have around : IsUnit (rotation pauliY b * rotation pauliZ c) :=
    (isUnit_rotation pauliY b).mul (isUnit_rotation pauliZ c)
  rw [made, wanted, (isUnit_rotation pauliZ b).mul_right_inj, around.mul_left_inj,
    rotation_pauliZ_eq_smul_pauliY_iff nonzero, cos_eq_one_iff_sin_half]

theorem exp_mul_I_eq_I_iff (angle : ℝ) :
    Complex.exp (angle * Complex.I) = Complex.I ↔ Real.sin angle = 1 := by
  rw [Complex.ext_iff, Complex.exp_ofReal_mul_I_re, Complex.exp_ofReal_mul_I_im, Complex.I_re,
    Complex.I_im]
  refine ⟨And.right, fun one => ⟨?_, one⟩⟩
  have unit := Real.sin_sq_add_cos_sq angle
  rw [one, one_pow, add_eq_left] at unit
  exact pow_eq_zero_iff two_ne_zero |>.mp unit

/-- The product that the rule makes is the gate up to a phase if the exchanged angles differ by full
turns. No phase is left over if the other two add up to half a turn. -/
theorem exists_phase_swap_iff (alone : Prop) (a b c : ℝ) :
    (∃ phase : ℂ, ‖phase‖ = 1 ∧ (alone ∨ phase = 1) ∧
      Complex.I • eulerRotation b a c = phase • eulerGate a b c) ↔
      Real.cos (a - b) = 1 ∧ (alone ∨ Real.sin ((b + c) / 2) = 1) := by
  have own : ‖Complex.exp (((b + c) / 2 : ℝ) * Complex.I)‖ = 1 := Complex.norm_exp_ofReal_mul_I _
  rw [← exp_mul_I_eq_I_iff, eulerGate_eq_smul]
  generalize Complex.exp (((b + c) / 2 : ℝ) * Complex.I) = shift at own ⊢
  have shiftNonzero : shift ≠ 0 := norm_ne_zero_iff.mp (own ▸ one_ne_zero)
  have moved (phase : ℂ) (unit : ‖phase‖ = 1) :
      Complex.I • eulerRotation b a c = phase • shift • eulerRotation a b c ↔
        Real.cos (a - b) = 1 ∧ phase * shift = Complex.I := by
    have phaseNonzero : phase ≠ 0 := norm_ne_zero_iff.mp (unit ▸ one_ne_zero)
    have nonzero : phase * shift / Complex.I ≠ 0 :=
      div_ne_zero (mul_ne_zero phaseNonzero shiftNonzero) Complex.I_ne_zero
    rw [← div_eq_one_iff_eq Complex.I_ne_zero, ← eulerRotation_swap_eq_smul_iff nonzero a b c,
      div_eq_inv_mul, mul_smul, eq_inv_smul_iff₀ Complex.I_ne_zero, mul_smul]
  constructor
  · rintro ⟨phase, unit, free, same⟩
    obtain ⟨turn, isI⟩ := (moved phase unit).mp same
    refine ⟨turn, free.imp_right ?_⟩
    rintro rfl
    rwa [one_mul] at isI
  · rintro ⟨turn, free⟩
    have unit : ‖Complex.I / shift‖ = 1 := by rw [norm_div, Complex.norm_I, own, div_one]
    refine ⟨Complex.I / shift, unit, free.imp_right ?_,
      (moved _ unit).mpr ⟨turn, div_mul_cancel₀ _ shiftNonzero⟩⟩
    rintro rfl
    exact div_self Complex.I_ne_zero

/-! ## What the rule makes -/

/-- Gates of these names have their usual matrices. -/
structure StandardEulerGates {θ : Type} (gates : GateSet θ) (value : θ → ℝ) : Prop where
  z : ∀ after before, gates "Z" [] [after] [before] = pauliZ after before
  sx : ∀ after before, gates "SX" [] [after] [before] = sqrtX after before
  rz : ∀ angle after before,
    gates "RZ" [angle] [after] [before] = rotation pauliZ (value angle) after before
  u3 : ∀ a b c after before, gates "U3" [a, b, c] [after] [before] =
    eulerGate (value a) (value b) (value c) after before

/-- The standard gates, with those that the rule for three angles uses. -/
noncomputable def eulerGates {θ : Type} (value : θ → ℝ) : GateSet θ
  | "Z", [], [after], [before] => pauliZ after before
  | "SX", [], [after], [before] => sqrtX after before
  | "U3", [a, b, c], [after], [before] => eulerGate (value a) (value b) (value c) after before
  | name, angles, after, before => standardGates value name angles after before

theorem standardEulerGates_eulerGates {θ : Type} (value : θ → ℝ) :
    StandardEulerGates (eulerGates value) value :=
  ⟨fun _ _ => rfl, fun _ _ => rfl, fun _ _ _ => rfl, fun _ _ _ _ _ => rfl⟩

namespace StandardEulerGates

variable {θ : Type} {gates : GateSet θ} {value : θ → ℝ} (standard : StandardEulerGates gates value)

include standard

/-- The gates of the rule make a tilt by the second angle between turns by the third and the first
one. -/
theorem product_eq (a b c : θ) :
    [Rule.rz c, .plain "SX", .plain "Z", Rule.rz b, .plain "SX", .plain "Z", Rule.rz a].foldl
        (fun u g => g.single gates * u) 1 =
      Complex.I • eulerRotation (value b) (value a) (value c) := by
  have z : (Gate.plain "Z").single gates = pauliZ := Matrix.ext standard.z
  have sx : (Gate.plain "SX").single gates = sqrtX := Matrix.ext standard.sx
  have rz (angle : θ) : (Rule.rz angle).single gates = rotation pauliZ (value angle) :=
    Matrix.ext (standard.rz angle)
  simp only [List.foldl_cons, List.foldl_nil, z, sx, rz, Matrix.mul_one]
  rw [eulerRotation, ← Matrix.smul_mul, ← Matrix.mul_smul, ← sqrtX_conj_rotation]
  simp only [Matrix.mul_assoc]

variable {n : Nat} {controls : List (Fin n)} {target : Fin n} {a b c : θ} {gate : Gate θ}

theorem produce_eq (toFloat : θ → Calc Float) (apart : target ∉ controls)
    (under : gate.IsControlled controls.length (.named "U3" [a, b, c])) :
    ∃ produced, Rule.u3ToRz.produce toFloat ⟨gate, labels (controls ++ [target])⟩ = .ok produced ∧
      ∀ state : State n, evolve gates produced state = onTarget controls target
        (Complex.I • eulerRotation (value b) (value a) (value c)) *ᵥ state := by
  have produces : Rule.u3ToRz.produce toFloat ⟨gate, labels (controls ++ [target])⟩ =
      .ok (Rule.spread ⟨gate, labels (controls ++ [target])⟩
        [Rule.rz c, .plain "SX", .plain "Z", Rule.rz b, .plain "SX", .plain "Z", Rule.rz a]) := by
    rcases under with ⟨rfl, -⟩ | ⟨own, rfl⟩ <;> rfl
  refine ⟨_, produces, fun state => ?_⟩
  rw [evolve_spread under apart, standard.product_eq]

/-- Operations that do what the rule's product does do what the gate does, up to a phase that is free
only without controls, under the conditions on the angles. -/
theorem exists_phase_iff {produced : List (GateOperation θ)} (apart : target ∉ controls)
    (under : gate.IsControlled controls.length (.named "U3" [a, b, c]))
    (acts : ∀ state : State n, evolve gates produced state = onTarget controls target
      (Complex.I • eulerRotation (value b) (value a) (value c)) *ᵥ state) :
    (∃ phase : ℂ, ‖phase‖ = 1 ∧ (controls = [] ∨ phase = 1) ∧
        ∀ state : State n, evolve gates produced state =
          phase • evolve gates [⟨gate, labels (controls ++ [target])⟩] state) ↔
      Real.cos (value a - value b) = 1 ∧
        (controls = [] ∨ Real.sin ((value b + value c) / 2) = 1) := by
  have single : (Gate.named "U3" [a, b, c]).single gates =
      eulerGate (value a) (value b) (value c) := Matrix.ext (standard.u3 a b c)
  rw [← exists_phase_swap_iff]
  refine exists_congr fun phase => and_congr_right fun _ => and_congr_right fun free => ?_
  simp only [acts, evolve_operation under apart, single, mulVec_eq_smul_iff,
    onTarget_eq_smul_iff apart, free, and_true]

end StandardEulerGates

/-- The rule for gates of three angles makes the gate with the first two angles exchanged and with
a phase of its own. So it keeps what a gate does only if these two angles differ by full turns and,
under controls, the second and third one add up to half a turn, double turns apart. -/
theorem u3_replaced_iff {θ : Type} (gates : GateSet θ) (value : θ → ℝ)
    (standard : StandardEulerGates gates value) (toFloat : θ → Calc Float) (n : Nat)
    (controls : List (Fin n)) (target : Fin n) (apart : target ∉ controls) (a b c : θ)
    (gate : Gate θ) (isU3 : gate.IsControlled controls.length (.named "U3" [a, b, c])) :
    let operation : GateOperation θ := ⟨gate, labels (controls ++ [target])⟩
    ∃ produced, Rule.u3ToRz.produce toFloat operation = .ok produced ∧
      (∀ state : State n, evolve gates produced state = onTarget controls target
        (Complex.I • eulerRotation (value b) (value a) (value c)) *ᵥ state) ∧
      ((∃ phase : ℂ, ‖phase‖ = 1 ∧ (controls = [] ∨ phase = 1) ∧
          ∀ state : State n, evolve gates produced state = phase • evolve gates [operation] state) ↔
        Real.cos (value a - value b) = 1 ∧
          (controls = [] ∨ Real.sin ((value b + value c) / 2) = 1)) := by
  intro operation
  obtain ⟨produced, produces, acts⟩ := standard.produce_eq toFloat apart isU3
  exact ⟨produced, produces, acts, standard.exists_phase_iff apart isU3 acts⟩

/-- With equal angles, the gate alone is kept up to a phase. Under a control it is another one. -/
theorem u3_replaced_equalAngles :
    let gates : GateSet ℝ := eulerGates id
    let toFloat : ℝ → Calc Float := fun _ => .ok 0
    let alone : GateOperation ℝ := ⟨.named "U3" [1, 1, -1], [0]⟩
    let under : GateOperation ℝ := ⟨.withControls (.named "U3" [1, 1, -1]) 1, [2, 0]⟩
    (∃ produced, Rule.u3ToRz.produce toFloat alone = .ok produced ∧
      ImplementsUpToPhase gates 3 produced alone) ∧
    ∃ produced, Rule.u3ToRz.produce toFloat under = .ok produced ∧
      ¬ ∀ state : State 3, evolve gates produced state = evolve gates [under] state := by
  intro gates toFloat alone under
  have standard : StandardEulerGates gates id := standardEulerGates_eulerGates id
  obtain ⟨produced, produces, -, implements⟩ :=
    u3_replaced_iff gates id standard toFloat 3 [] 0 (by decide) 1 1 (-1) alone.gate
      (.inl ⟨rfl, rfl⟩)
  obtain ⟨produced', produces', -, implements'⟩ :=
    u3_replaced_iff gates id standard toFloat 3 [2] 0 (by decide) 1 1 (-1) under.gate
      (.inr ⟨_, rfl⟩)
  refine ⟨⟨produced, produces, ?_⟩, ⟨produced', produces', fun same => ?_⟩⟩
  · obtain ⟨phase, unit, -, acts⟩ := implements.mpr ⟨by simp, .inl rfl⟩
    exact ⟨phase, unit, acts⟩
  · obtain ⟨-, none | zero⟩ := implements'.mp
      ⟨1, norm_one, .inr rfl, fun state => (same state).trans (one_smul ℂ _).symm⟩
    · exact absurd none (by decide)
    · norm_num at zero

/-- A gate that tilts by seven tenths between turns by two and three tenths, without controls, is
replaced by another gate. -/
theorem u3_replaced_by_exchanged :
    let operation : GateOperation ℝ := ⟨.named "U3" [7 / 10, 2 / 10, 3 / 10], [0]⟩
    let toFloat : ℝ → Calc Float := fun _ => .ok 0.7
    ∃ produced, Rule.u3ToRz.applies toFloat operation = .ok true ∧
      Rule.u3ToRz.produce toFloat operation = .ok produced ∧
      ¬ ImplementsUpToPhase (eulerGates id) 1 produced operation := by
  intro operation toFloat
  have standard : StandardEulerGates (eulerGates id) id := standardEulerGates_eulerGates id
  have apart : (0 : Fin 1) ∉ [] := List.not_mem_nil
  have isU3 : operation.gate.IsControlled 0 (.named "U3" [7 / 10, 2 / 10, 3 / 10]) :=
    .inl ⟨rfl, rfl⟩
  obtain ⟨produced, produces, acts⟩ := standard.produce_eq toFloat apart isU3
  refine ⟨produced, rfl, produces, fun ⟨phase, unit, same⟩ => ?_⟩
  obtain ⟨turn, -⟩ := (standard.exists_phase_iff apart isU3 acts).mp ⟨phase, unit, .inl rfl, same⟩
  have half : Real.sin ((7 / 10 - 2 / 10) / 2) = 0 := (cos_eq_one_iff_sin_half _).mp turn
  have positive : 0 < Real.sin ((7 / 10 - 2 / 10) / 2) :=
    Real.sin_pos_of_pos_of_lt_pi (by norm_num) (by linarith [Real.two_le_pi])
  exact positive.ne' half

end QuantumResources
