import Mathlib.Analysis.CStarAlgebra.Classes
import Mathlib.Analysis.Normed.Algebra.MatrixExponential
import Mathlib.Analysis.SpecialFunctions.Exponential
import Mathlib.Analysis.SpecialFunctions.Trigonometric.Basic
import QuantumResources.Proofs.Circuit.Meaning

/-! The matrices of the standard gates.

A rotation is the exponential of its axis. All axes here are the Z axis seen from another basis, so
one computation on the diagonal gives every rotation. -/

namespace QuantumResources

open Matrix

noncomputable def hadamard : Matrix Bool Bool ℂ :=
  of fun after before => ((√(2 : Nat) : ℝ) : ℂ)⁻¹ * if after && before then -1 else 1

def pauliX : Matrix Bool Bool ℂ := of fun after before => if after = before then 0 else 1

def pauliY : Matrix Bool Bool ℂ :=
  of fun after before => if after = before then 0 else if after then Complex.I else -Complex.I

/-- A phase on a qubit that is set. -/
def phaseShift (phase : ℂ) : Matrix Bool Bool ℂ := diagonal fun value => if value then phase else 1

def pauliZ : Matrix Bool Bool ℂ := phaseShift (-1)

/-- The rotation by an angle around an axis. -/
noncomputable def rotation (axis : Matrix Bool Bool ℂ) (angle : ℝ) : Matrix Bool Bool ℂ :=
  NormedSpace.exp (-(Complex.I * (angle / (2 : Nat))) • axis)

theorem conjTranspose_phaseShift (phase : ℂ) : (phaseShift phase)ᴴ = phaseShift (star phase) := by
  ext after before
  cases after <;> cases before <;> simp [phaseShift]

theorem inv_sqrt_two_mul_self : ((√2 : ℝ) : ℂ)⁻¹ * ((√2 : ℝ) : ℂ)⁻¹ = 1 / 2 := by
  rw [← mul_inv, ← Complex.ofReal_mul, Real.mul_self_sqrt (by norm_num)]
  norm_num

theorem hadamard_mul_self : hadamard * hadamard = 1 := by
  ext after before
  cases after <;> cases before <;> simp [hadamard, mul_apply, inv_sqrt_two_mul_self]; norm_num

theorem hadamard_pauliZ : hadamard * pauliZ * hadamard = pauliX := by
  ext after before
  cases after <;> cases before <;>
    simp [hadamard, pauliZ, pauliX, phaseShift, mul_apply, diagonal_apply,
      inv_sqrt_two_mul_self] <;>
    norm_num

theorem phaseShift_conj_pauliX :
    (phaseShift Complex.I)ᴴ * pauliX * phaseShift Complex.I = -pauliY := by
  rw [conjTranspose_phaseShift]
  ext after before
  cases after <;> cases before <;> simp [phaseShift, pauliX, pauliY, mul_apply, diagonal_apply]

theorem conjTranspose_phaseShift_mul_self :
    (phaseShift Complex.I)ᴴ * phaseShift Complex.I = 1 := by
  rw [conjTranspose_phaseShift]
  ext after before
  cases after <;> cases before <;> simp [phaseShift, mul_apply, diagonal_apply]

/-- Seen from another basis, a rotation turns around the axis seen from there. -/
theorem rotation_conj {u v : Matrix Bool Bool ℂ} (inverse : u * v = 1)
    (axis : Matrix Bool Bool ℂ) (angle : ℝ) :
    u * rotation axis angle * v = rotation (u * axis * v) angle := by
  have unit : IsUnit u := .of_mul_eq_one v inverse
  rw [← inv_eq_right_inv inverse, rotation, rotation, ← exp_conj u _ unit]
  simp only [Matrix.mul_smul, Matrix.smul_mul]

theorem rotation_neg_axis (axis : Matrix Bool Bool ℂ) (angle : ℝ) :
    rotation (-axis) angle = rotation axis (-angle) := by
  simp only [rotation, smul_neg, ← neg_smul]
  congr 2
  push_cast
  ring

theorem rotation_pauliZ (angle : ℝ) :
    rotation pauliZ angle =
      (Real.cos (angle / 2) : ℂ) • 1 - (Complex.I * Real.sin (angle / 2)) • pauliZ := by
  rw [rotation, pauliZ, phaseShift, ← diagonal_smul, exp_diagonal]
  ext after before
  by_cases same : after = before
  · subst same
    rw [diagonal_apply_eq, Pi.coe_exp, ← Complex.exp_eq_exp_ℂ, Pi.smul_apply, smul_eq_mul]
    cases after with
    | false =>
      have turned : -(Complex.I * ((angle : ℂ) / 2)) * 1 = -((angle : ℂ) / 2) * Complex.I := by ring
      simp only [Bool.false_eq_true, if_false, Nat.cast_ofNat, turned, Complex.exp_mul_I]
      simp
      ring
    | true =>
      have turned : -(Complex.I * ((angle : ℂ) / 2)) * -1 = (angle : ℂ) / 2 * Complex.I := by ring
      simp only [if_true, Nat.cast_ofNat, turned, Complex.exp_mul_I]
      simp
      ring
  · simp [same]

/-- Around every axis that is the Z axis seen from another basis, a rotation mixes the axis with
the identity. -/
theorem rotation_of_conj {u v axis : Matrix Bool Bool ℂ} (inverse : u * v = 1)
    (seen : u * pauliZ * v = axis) (angle : ℝ) :
    rotation axis angle =
      (Real.cos (angle / 2) : ℂ) • 1 - (Complex.I * Real.sin (angle / 2)) • axis := by
  subst seen
  rw [← rotation_conj inverse, rotation_pauliZ]
  simp only [Matrix.mul_sub, Matrix.sub_mul, Matrix.mul_smul, Matrix.smul_mul, Matrix.mul_one,
    inverse]

theorem rotation_pauliY (angle : ℝ) :
    rotation pauliY angle =
      (Real.cos (angle / 2) : ℂ) • 1 - (Complex.I * Real.sin (angle / 2)) • pauliY := by
  have inverse : (phaseShift Complex.I)ᴴ * hadamard * (hadamard * phaseShift Complex.I) = 1 := by
    rw [Matrix.mul_assoc, ← Matrix.mul_assoc hadamard, hadamard_mul_self, Matrix.one_mul,
      conjTranspose_phaseShift_mul_self]
  have seen : (phaseShift Complex.I)ᴴ * hadamard * pauliZ * (hadamard * phaseShift Complex.I) =
      -pauliY := by
    rw [← phaseShift_conj_pauliX, ← hadamard_pauliZ]
    simp only [Matrix.mul_assoc]
  have turned := rotation_of_conj inverse seen (-angle)
  rw [rotation_neg_axis, neg_neg] at turned
  rw [turned, neg_div, Real.cos_neg, Real.sin_neg]
  simp only [Complex.ofReal_neg, mul_neg, neg_smul, smul_neg, neg_neg]

/-- An eighth of a turn. -/
noncomputable def eighth : ℂ := Complex.exp (Real.pi / 4 * Complex.I)

/-- Gates by name with their usual matrices, for angles that have a value. -/
noncomputable def standardGates {θ : Type} (value : θ → ℝ) : GateSet θ
  | "H", [], [after], [before] => hadamard after before
  | "S", [], [after], [before] => phaseShift Complex.I after before
  | "T", [], [after], [before] => phaseShift eighth after before
  | "CNOT", [], [control', target'], [control, target] =>
    if control' = control ∧ target' = (target ^^ control) then 1 else 0
  | "RX", [angle], [after], [before] => rotation pauliX (value angle) after before
  | "RY", [angle], [after], [before] => rotation pauliY (value angle) after before
  | "RZ", [angle], [after], [before] => rotation pauliZ (value angle) after before
  | _, _, _, _ => 0

end QuantumResources
