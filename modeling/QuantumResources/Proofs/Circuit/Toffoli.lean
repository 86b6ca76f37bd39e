import QuantumResources.Circuit.Rules
import QuantumResources.Proofs.Circuit.Matrices
import QuantumResources.Proofs.Circuit.Meaning

/-! Doubly controlled gates made of T gates.

Between the CNOT gates the target holds sums of the three bits, and every T gate turns the phase by
an eighth where such a sum is one. The eighths add up to a half turn where all three bits are set
and to nothing elsewhere. -/

namespace QuantumResources

open Matrix

theorem eighth_pow_four : eighth ^ 4 = -1 := by
  rw [eighth, ← Complex.exp_nat_mul, ← Complex.exp_pi_mul_I]
  congr 1
  push_cast
  ring

theorem star_eighth_mul : star eighth * eighth = 1 := by
  rw [Complex.star_def, ← Complex.normSq_eq_conj_mul_self, Complex.normSq_eq_norm_sq]
  have unit : ‖eighth‖ = 1 := by
    have real : (Real.pi / 4 * Complex.I : ℂ) = ((Real.pi / 4 : ℝ) : ℂ) * Complex.I := by
      push_cast
      ring
    rw [eighth, real, Complex.norm_exp_ofReal_mul_I]
  simp [unit]

/-- The phase that the gates on all three qubits give to their bits. -/
noncomputable def phaseOfThree (a b c : Bool) : ℂ :=
  (if c ^^ b then star eighth else 1) * (if c ^^ b ^^ a then eighth else 1) *
    (if c ^^ a then star eighth else 1) * (if b then eighth else 1) * if c then eighth else 1

/-- The phase that the gates on the controls alone give to their bits. -/
noncomputable def phaseOfControls (a b : Bool) : ℂ :=
  (if b ^^ a then star eighth else 1) * if a then eighth else 1

/-- Of the phases, nothing is left but a sign where all three bits are set. -/
theorem phaseOfThree_mul_phaseOfControls (a b c : Bool) :
    phaseOfThree a b c * phaseOfControls a b = if a && b && c then -1 else 1 := by
  have inverse := star_eighth_mul
  have half := eighth_pow_four
  unfold phaseOfThree phaseOfControls
  -- Nothing is used of the eighth but that it has an inverse and that its fourth power is a sign.
  generalize star eighth = back at inverse ⊢
  cases a <;> cases b <;> cases c <;> simp <;> grind

/-- Between two Hadamard gates, a sign on one value of a bit flips the bit. -/
theorem sum_hadamard_sign (flipped before after : Bool) :
    ∑ between, hadamard after between * (if flipped && between then -1 else 1) *
        hadamard between before =
      if after = (before ^^ flipped) then 1 else 0 := by
  cases flipped with
  | false =>
    have entry := congrFun (congrFun hadamard_mul_self after) before
    simpa [mul_apply, one_apply] using entry
  | true =>
    have entry := congrFun (congrFun hadamard_pauliZ after) before
    rw [pauliZ, phaseShift, mul_apply] at entry
    simp only [mul_diagonal] at entry
    simp only [Bool.true_and, entry]
    cases after <;> cases before <;> simp [pauliX]

theorem matrix_single {θ : Type} (gates : GateSet θ) {n : Nat} (gate : Gate θ) (qubit : Fin n) :
    (Rule.on gate [((qubit : Nat) : Int)]).matrix gates n =
      onTarget [] qubit (gate.single gates) :=
  matrix_onTarget gates (gate.actsUnder_single gates) List.not_mem_nil

theorem phaseShift_basis {n : Nat} (phase : ℂ) (qubit : Fin n) (word : Fin n → Bool) :
    onTarget [] qubit (phaseShift phase) *ᵥ basis word =
      (if word qubit then phase else 1) • basis word := by
  rw [onTarget_basis]
  have kept := Function.update_eq_self qubit word
  cases bit : word qubit <;> rw [bit] at kept <;> simp [phaseShift, kept]

/-- Gates of these names have their usual matrices. -/
structure StandardPhases {θ : Type} (gates : GateSet θ) : Prop where
  h : ∀ after before, gates "H" [] [after] [before] = hadamard after before
  t : ∀ after before, gates "T" [] [after] [before] = phaseShift eighth after before
  cnot : ∀ control target control' target', gates "CNOT" [] [control', target'] [control, target] =
    if control' = control ∧ target' = (target ^^ control) then 1 else 0

namespace StandardPhases

variable {θ : Type} {gates : GateSet θ} (standard : StandardPhases gates) {n : Nat}

include standard

theorem single_h : (Gate.plain "H").single gates = hadamard := Matrix.ext standard.h

theorem single_t : (Gate.plain "T").single gates = phaseShift eighth := Matrix.ext standard.t

theorem actsUnder_cnot : (Gate.plain "CNOT").ActsUnder gates 1 pauliX := by
  intro controls controls' one one' target target'
  obtain ⟨control, rfl⟩ := List.length_eq_one_iff.mp one
  obtain ⟨control', rfl⟩ := List.length_eq_one_iff.mp one'
  refine (standard.cnot control target control' target').trans ?_
  revert control control' target target'
  simp [pauliX, one_apply]

theorem cnot_basis {control target : Fin n} (apart : target ≠ control) (word : Fin n → Bool) :
    (Rule.on (.plain "CNOT") [((control : Nat) : Int), ((target : Nat) : Int)]).matrix gates n *ᵥ
        basis word =
      basis (Function.update word target (word target ^^ word control)) := by
  have matrix : (Rule.on (.plain "CNOT") [((control : Nat) : Int), ((target : Nat) : Int)]).matrix
      gates n = onTarget [control] target pauliX :=
    matrix_onTarget gates standard.actsUnder_cnot (mt List.mem_singleton.mp apart)
  rw [matrix, onTarget_basis]
  have kept := Function.update_eq_self target word
  cases on : word control <;> cases bit : word target <;> rw [bit] at kept <;>
    simp [on, pauliX, one_apply, kept]

theorem t_basis (qubit : Fin n) (word : Fin n → Bool) :
    (Rule.on (.plain "T") [((qubit : Nat) : Int)]).matrix gates n *ᵥ basis word =
      (if word qubit then eighth else 1) • basis word := by
  rw [matrix_single, standard.single_t, phaseShift_basis]

theorem tInverse_basis (qubit : Fin n) (word : Fin n → Bool) :
    (Rule.on (.adjoint (.plain "T")) [((qubit : Nat) : Int)]).matrix gates n *ᵥ basis word =
      (if word qubit then star eighth else 1) • basis word := by
  rw [matrix_single, Gate.single_adjoint, standard.single_t, conjTranspose_phaseShift,
    phaseShift_basis]

variable {a b c : Fin n} (distinct : [a, b, c].Nodup) (word : Fin n → Bool)

include distinct

theorem evolve_phaseOfThree :
    evolve gates (Rule.phaseOfThree a b c) (basis word) =
      phaseOfThree (word a) (word b) (word c) • basis word := by
  simp only [List.nodup_cons, List.mem_cons, List.not_mem_nil, or_false, not_or] at distinct
  obtain ⟨⟨_, ac⟩, bc, -⟩ := distinct
  have summed : (word c ^^ word b ^^ word a ^^ word b) = (word c ^^ word a) := by
    cases word a <;> cases word b <;> cases word c <;> rfl
  have returned : (word c ^^ word a ^^ word a) = word c := by
    cases word a <;> cases word c <;> rfl
  simp only [Rule.phaseOfThree, evolve_cons, evolve_nil, mulVec_smul,
    standard.cnot_basis (Ne.symm bc), standard.cnot_basis (Ne.symm ac), standard.t_basis,
    standard.tInverse_basis, Function.update_self, Function.update_idem, Function.update_of_ne ac,
    Function.update_of_ne bc, smul_smul, summed, returned, Function.update_eq_self, phaseOfThree]

theorem evolve_phaseOfControls :
    evolve gates (Rule.phaseOfControls a b) (basis word) =
      phaseOfControls (word a) (word b) • basis word := by
  simp only [List.nodup_cons, List.mem_cons, List.not_mem_nil, or_false, not_or] at distinct
  obtain ⟨⟨ab, _⟩, _⟩ := distinct
  have returned : (word b ^^ word a ^^ word a) = word b := by
    cases word a <;> cases word b <;> rfl
  simp only [Rule.phaseOfControls, evolve_cons, evolve_nil, mulVec_smul,
    standard.cnot_basis (Ne.symm ab), standard.t_basis, standard.tInverse_basis,
    Function.update_self, Function.update_idem, Function.update_of_ne ab, smul_smul, returned,
    Function.update_eq_self, phaseOfControls]

theorem evolve_doublyControlledZ :
    evolve gates (Rule.doublyControlledZ a b c) (basis word) =
      (if word a && word b && word c then -1 else 1 : ℂ) • basis word := by
  rw [Rule.doublyControlledZ, evolve_append, standard.evolve_phaseOfThree distinct, evolve_smul,
    standard.evolve_phaseOfControls distinct, smul_smul, phaseOfThree_mul_phaseOfControls]

/-- The phase on the controls does not see the target, so the second Hadamard gate may as well come
after it: the gates between the two are then those of a doubly controlled Z. -/
theorem evolve_toffoli :
    evolve gates (Rule.toffoli a b c) (basis word) =
      basis (Function.update word c (word c ^^ (word a && word b))) := by
  have apart := distinct
  simp only [List.nodup_cons, List.mem_cons, List.not_mem_nil, or_false, not_or] at apart
  obtain ⟨⟨_, ac⟩, bc, -⟩ := apart
  have coefficient (value : Bool) :
      ∑ between, hadamard between (word c) * (phaseOfThree (word a) (word b) between *
        (hadamard value between * phaseOfControls (word a) (word b))) =
        if value = (word c ^^ (word a && word b)) then 1 else 0 := by
    rw [← sum_hadamard_sign]
    refine Finset.sum_congr rfl fun between _ => ?_
    rw [← phaseOfThree_mul_phaseOfControls]
    ring
  simp only [Rule.toffoli, List.cons_append, evolve_cons, evolve_append, matrix_single,
    standard.single_h, onTarget_basis, evolve_sum, evolve_smul,
    standard.evolve_phaseOfThree distinct, standard.evolve_phaseOfControls distinct,
    Function.update_self, Function.update_idem, Function.update_of_ne ac, Function.update_of_ne bc,
    List.not_mem_nil, false_implies, implies_true, if_true, Finset.smul_sum, smul_smul]
  rw [Finset.sum_comm]
  simp only [← Finset.sum_smul, coefficient, ite_smul, one_smul, zero_smul,
    Finset.sum_ite_eq', Finset.mem_univ, if_true]

end StandardPhases

/-- Both rules replace a gate by operations that do to every word just what the gate does, without
a phase of their own. -/
theorem doublyControlled_exact {θ : Type} (gates : GateSet θ) (standard : StandardPhases gates)
    (toFloat : θ → Calc Float) (n : Nat) (a b c : Fin n) (distinct : [a, b, c].Nodup)
    (gate : Gate θ) :
    (∃ produced, Rule.cczToT.produce toFloat ⟨gate, labels [a, b, c]⟩ = .ok produced ∧
      ∀ word : Fin n → Bool, evolve gates produced (basis word) =
        (if word a && word b && word c then -1 else 1 : ℂ) • basis word) ∧
    ∃ produced, Rule.ccxToT.produce toFloat ⟨gate, labels [a, b, c]⟩ = .ok produced ∧
      ∀ word : Fin n → Bool, evolve gates produced (basis word) =
        basis (Function.update word c (word c ^^ (word a && word b))) :=
  ⟨⟨_, rfl, standard.evolve_doublyControlledZ distinct⟩,
    ⟨_, rfl, standard.evolve_toffoli distinct⟩⟩

/-- The qubits may stand in any order and need not be neighbours. -/
theorem doublyControlled_exact_scattered :
    let toFloat : ℝ → Calc Float := fun _ => .ok 0
    let set : Fin 5 → Bool := fun _ => true
    [(4 : Fin 5), 0, 2].Nodup ∧
    (∃ produced, Rule.cczToT.produce toFloat ⟨.withControls (.plain "Z") 2, [4, 0, 2]⟩ =
        .ok produced ∧
      produced.length = 13 ∧
      evolve (standardGates id) produced (basis set) = (-1 : ℂ) • basis set) ∧
    ∃ produced, Rule.ccxToT.produce toFloat ⟨.withControls (.plain "X") 2, [4, 0, 2]⟩ =
        .ok produced ∧
      produced.length = 15 ∧
      evolve (standardGates id) produced (basis set) = basis (Function.update set 2 false) := by
  intro toFloat set
  have standard : StandardPhases (standardGates (id : ℝ → ℝ)) :=
    ⟨fun _ _ => rfl, fun _ _ => rfl, fun _ _ _ _ => rfl⟩
  have distinct : [(4 : Fin 5), 0, 2].Nodup := by decide
  obtain ⟨⟨_, produces, acts⟩, -⟩ := doublyControlled_exact _ standard toFloat 5 4 0 2 distinct
    (.withControls (.plain "Z") 2)
  obtain ⟨-, _, produces', acts'⟩ := doublyControlled_exact _ standard toFloat 5 4 0 2 distinct
    (.withControls (.plain "X") 2)
  cases produces
  cases produces'
  exact ⟨distinct, ⟨_, rfl, rfl, acts set⟩, ⟨_, rfl, rfl, acts' set⟩⟩

end QuantumResources
