import Mathlib.Analysis.Complex.Basic
import Mathlib.Data.Matrix.Mul
import Mathlib.LinearAlgebra.Matrix.ConjTranspose
import QuantumResources.Circuit

/-! What operations do to the states of a register.

The matrices of the gates known by name are given from outside; controls, adjoints and the place of
a gate in the register are built on them. Gates that act on one target under controls are matrices
of two rows put into the register, and those with the same controls and target multiply like the
small matrices do. -/

namespace QuantumResources

open Matrix

/-- The amplitude with which a gate of a name, with its angles, takes one word of bits to another.
The word that comes out stands first. -/
abbrev GateSet (θ : Type) := String → List θ → List Bool → List Bool → ℂ

variable {θ : Type} (gates : GateSet θ)

namespace Gate

/-- The amplitude with which a gate takes `before` to `after`. Controls are its first qubits. -/
noncomputable def amplitude : Gate θ → (after before : List Bool) → ℂ
  | named name angles, after, before => gates name angles after before
  | controlled gate controls _, after, before =>
    let count := controls.toNat
    if (before.take count).all id then
      if after.take count = before.take count then
        gate.amplitude (after.drop count) (before.drop count)
      else 0
    else if after = before then 1 else 0
  | adjoint gate, after, before => star (gate.amplitude before after)
  | inverted gate, after, before => star (gate.amplitude before after)

/-- A gate as a matrix on one qubit. -/
noncomputable def single (gate : Gate θ) : Matrix Bool Bool ℂ :=
  of fun after before => gate.amplitude gates [after] [before]

theorem single_adjoint (gate : Gate θ) : (adjoint gate).single gates = (gate.single gates)ᴴ := rfl

theorem single_inverted (gate : Gate θ) : (inverted gate).single gates = (gate.single gates)ᴴ := rfl

/-- A gate that does `u` to its last qubit where all the qubits before it are set. -/
def ActsUnder (gate : Gate θ) (count : Nat) (u : Matrix Bool Bool ℂ) : Prop :=
  ∀ controls controls' : List Bool, controls.length = count → controls'.length = count →
    ∀ target target' : Bool,
      gate.amplitude gates (controls' ++ [target']) (controls ++ [target]) =
        if controls' = controls then (if controls.all id then u else 1) target' target else 0

theorem actsUnder_single (gate : Gate θ) : gate.ActsUnder gates 0 (gate.single gates) := by
  intro controls controls' none none' target target'
  rw [List.eq_nil_of_length_eq_zero none, List.eq_nil_of_length_eq_zero none']
  rfl

theorem actsUnder_controlled (gate : Gate θ) (count : Nat) (name : String) :
    (controlled gate count name).ActsUnder gates count (gate.single gates) := by
  intro controls controls' length length' target target'
  simp only [amplitude, Int.toNat_natCast, ← length, List.take_left, List.drop_left]
  rw [length, ← length', List.take_left, List.drop_left]
  by_cases on : controls.all id = true
  · simp only [on, if_true]
    rfl
  · have same : controls' ++ [target'] = controls ++ [target] ↔
        controls' = controls ∧ target' = target := by
      constructor
      · intro equal
        obtain ⟨first, last⟩ := List.append_inj' equal rfl
        exact ⟨first, List.singleton_inj.mp last⟩
      · rintro ⟨rfl, rfl⟩
        rfl
    rw [if_neg on, if_neg on, one_apply]
    simp only [same, ite_and]

end Gate

/-! ## The register -/

/-- An assignment of amplitudes to the words of a register. -/
abbrev State (n : Nat) := (Fin n → Bool) → ℂ

variable {n : Nat}

/-- The bit of a word at an index; there is none outside of the register. -/
def bit (word : Fin n → Bool) (index : Int) : Bool :=
  if inside : 0 ≤ index ∧ index.toNat < n then word ⟨index.toNat, inside.2⟩ else false

/-- The indices by which operations name the qubits. -/
def labels (qubits : List (Fin n)) : List Int :=
  qubits.map fun qubit : Fin n => ((qubit : Nat) : Int)

@[simp] theorem bit_label (word : Fin n → Bool) (qubit : Fin n) :
    bit word ((qubit : Nat) : Int) = word qubit := by
  simp [bit]

theorem map_bit_labels (word : Fin n → Bool) (qubits : List (Fin n)) :
    (labels qubits).map (bit word) = qubits.map word := by
  simp [labels]

theorem label_mem {qubit : Fin n} {qubits : List (Fin n)} :
    ((qubit : Nat) : Int) ∈ labels qubits ↔ qubit ∈ qubits := by
  simp [labels, Fin.val_inj]

/-- An operation as a matrix on the register: qubits that it does not name keep their bits. -/
noncomputable def GateOperation.matrix (operation : GateOperation θ) (n : Nat) :
    Matrix (Fin n → Bool) (Fin n → Bool) ℂ :=
  of fun after before =>
    if ∀ qubit : Fin n, ((qubit : Nat) : Int) ∉ operation.qubits → after qubit = before qubit then
      operation.gate.amplitude gates (operation.qubits.map (bit after))
        (operation.qubits.map (bit before))
    else 0

/-- The state after operations that act one after the other. -/
noncomputable def evolve (operations : List (GateOperation θ)) (state : State n) : State n :=
  operations.foldl (fun state operation => operation.matrix gates n *ᵥ state) state

theorem evolve_nil (state : State n) : evolve gates [] state = state := rfl

theorem evolve_cons (operation : GateOperation θ) (operations : List (GateOperation θ))
    (state : State n) :
    evolve gates (operation :: operations) state =
      evolve gates operations (operation.matrix gates n *ᵥ state) := rfl

theorem evolve_append (first second : List (GateOperation θ)) (state : State n) :
    evolve gates (first ++ second) state = evolve gates second (evolve gates first state) :=
  List.foldl_append

theorem evolve_sum {ι : Type} (operations : List (GateOperation θ)) (indices : Finset ι)
    (states : ι → State n) :
    evolve gates operations (∑ index ∈ indices, states index) =
      ∑ index ∈ indices, evolve gates operations (states index) := by
  induction operations generalizing states with
  | nil => rfl
  | cons operation operations ih => simp only [evolve_cons, mulVec_sum, ih]

theorem evolve_smul (operations : List (GateOperation θ)) (factor : ℂ) (state : State n) :
    evolve gates operations (factor • state) = factor • evolve gates operations state := by
  induction operations generalizing state with
  | nil => rfl
  | cons operation operations ih => simp only [evolve_cons, mulVec_smul, ih]

/-- The state in which the register holds one word. -/
def basis (word : Fin n → Bool) : State n := Pi.single word 1

/-! ## One target under controls -/

/-- The matrix that does `u` to a target where all controls are set. -/
def onTarget (controls : List (Fin n)) (target : Fin n) (u : Matrix Bool Bool ℂ) :
    Matrix (Fin n → Bool) (Fin n → Bool) ℂ :=
  of fun after before =>
    if ∀ qubit, qubit ≠ target → after qubit = before qubit then
      (if ∀ control ∈ controls, before control = true then u else 1) (after target) (before target)
    else 0

variable {controls : List (Fin n)} {target : Fin n} {u v : Matrix Bool Bool ℂ}

theorem onTarget_basis (controls : List (Fin n)) (target : Fin n) (u : Matrix Bool Bool ℂ)
    (word : Fin n → Bool) :
    onTarget controls target u *ᵥ basis word =
      ∑ value, (if ∀ control ∈ controls, word control = true then u else 1) value (word target) •
        basis (Function.update word target value) := by
  funext after
  have agrees (value : Bool) : after = Function.update word target value ↔
      (∀ qubit, qubit ≠ target → after qubit = word qubit) ∧ value = after target := by
    rw [Function.eq_update_iff]
    exact ⟨fun ⟨atTarget, elsewhere⟩ => ⟨elsewhere, atTarget.symm⟩,
      fun ⟨elsewhere, atTarget⟩ => ⟨atTarget.symm, elsewhere⟩⟩
  simp only [basis, mulVec_single_one, col_apply, onTarget, of_apply, Finset.sum_apply,
    Pi.smul_apply, Pi.single_apply, agrees, smul_eq_mul, mul_ite, mul_one, mul_zero]
  by_cases elsewhere : ∀ qubit, qubit ≠ target → after qubit = word qubit
  · simp only [eq_true elsewhere, true_and, if_true, Finset.sum_ite_eq', Finset.mem_univ]
  · simp only [elsewhere, false_and, if_false, Finset.sum_const_zero]

theorem ext_basis {first second : Matrix (Fin n → Bool) (Fin n → Bool) ℂ}
    (same : ∀ word, first *ᵥ basis word = second *ᵥ basis word) : first = second :=
  ext_of_mulVec_single same

theorem mulVec_eq_smul_iff {first second : Matrix (Fin n → Bool) (Fin n → Bool) ℂ} {factor : ℂ} :
    (∀ state : State n, first *ᵥ state = factor • second *ᵥ state) ↔ first = factor • second := by
  constructor
  · intro same
    apply ext_basis
    intro word
    rw [smul_mulVec, same]
  · rintro rfl state
    rw [smul_mulVec]

/-- The target is no control, so the controls are as they were when the second matrix acts. -/
theorem onTarget_mul (apart : target ∉ controls) (u v : Matrix Bool Bool ℂ) :
    onTarget controls target u * onTarget controls target v = onTarget controls target (u * v) := by
  apply ext_basis
  intro word
  have kept (value : Bool) :
      (∀ control ∈ controls, Function.update word target value control = true) ↔
        ∀ control ∈ controls, word control = true := by
    refine forall₂_congr fun control member => ?_
    have different : control ≠ target := fun same => apart (same ▸ member)
    rw [Function.update_of_ne different]
  rw [← mulVec_mulVec]
  simp only [onTarget_basis, mulVec_sum, mulVec_smul, kept, Function.update_self,
    Function.update_idem, Finset.smul_sum, smul_smul]
  rw [Finset.sum_comm]
  refine Finset.sum_congr rfl fun value _ => ?_
  rw [← Finset.sum_smul]
  congr 1
  by_cases on : ∀ control ∈ controls, word control = true
  · simp only [if_pos on, mul_apply]
    exact Finset.sum_congr rfl fun _ _ => mul_comm _ _
  · simp only [if_neg on, one_apply]
    cases value <;> cases word target <;> simp

theorem onTarget_one (controls : List (Fin n)) (target : Fin n) :
    onTarget controls target 1 = 1 := by
  apply ext_basis
  intro word
  rw [onTarget_basis]
  simp [one_apply]

/-- A factor on a matrix is one on the gate, but words on which the controls are not all set keep
their amplitude and bear no factor but one. -/
theorem onTarget_eq_smul_iff (apart : target ∉ controls) (factor : ℂ) :
    onTarget controls target u = factor • onTarget controls target v ↔
      u = factor • v ∧ (controls = [] ∨ factor = 1) := by
  constructor
  · intro same
    constructor
    · ext after before
      let word (value : Bool) : Fin n → Bool := Function.update (fun _ => true) target value
      have set : ∀ control ∈ controls, word before control = true := by
        intro control member
        have different : control ≠ target := fun same => apart (same ▸ member)
        simp [word, different]
      have agree : ∀ qubit, qubit ≠ target → word after qubit = word before qubit := by
        intro qubit different
        simp [word, different]
      have entry := congrFun (congrFun same (word after)) (word before)
      simp only [onTarget, of_apply, Matrix.smul_apply, if_pos set, if_pos agree] at entry
      simpa [word] using entry
    · rw [or_iff_not_imp_left]
      intro some
      obtain ⟨control, member⟩ := List.exists_mem_of_ne_nil controls some
      let word : Fin n → Bool := fun _ => false
      have unset : ¬ ∀ other ∈ controls, word other = true :=
        fun set => absurd (set control member) (by simp [word])
      have entry := congrFun (congrFun same word) word
      simp only [onTarget, of_apply, Matrix.smul_apply, if_neg unset, implies_true, if_true,
        one_apply_eq, smul_eq_mul, mul_one] at entry
      exact entry.symm
  · rintro ⟨rfl, none | rfl⟩
    · subst none
      ext after before
      simp [onTarget]
    · rw [one_smul, one_smul]

theorem matrix_onTarget {gate : Gate θ} (acts : gate.ActsUnder gates controls.length u)
    (apart : target ∉ controls) :
    GateOperation.matrix gates ⟨gate, labels (controls ++ [target])⟩ n =
      onTarget controls target u := by
  ext after before
  have amplitude := acts (controls.map before) (controls.map after) (by simp) (by simp)
    (before target) (after target)
  have set : (controls.map before).all id = true ↔
      ∀ control ∈ controls, before control = true := by simp
  have rest : (∀ qubit, qubit ∉ controls ++ [target] → after qubit = before qubit) ∧
      controls.map after = controls.map before ↔
        ∀ qubit, qubit ≠ target → after qubit = before qubit := by
    rw [List.map_inj_left]
    grind
  simp only [GateOperation.matrix, onTarget, of_apply, map_bit_labels, label_mem, List.map_append,
    List.map_cons, List.map_nil, amplitude, set, ← rest, ite_and]

theorem evolve_onTarget {lifted : Gate θ → Gate θ} (apart : target ∉ controls)
    (made : List (Gate θ))
    (acts : ∀ gate ∈ made, (lifted gate).ActsUnder gates controls.length (gate.single gates))
    (state : State n) :
    evolve gates (made.map fun gate => ⟨lifted gate, labels (controls ++ [target])⟩) state =
      onTarget controls target (made.foldl (fun u gate => gate.single gates * u) 1) *ᵥ state := by
  -- The matrix made so far is carried along, as each gate multiplies it from the left.
  suffices general : ∀ u : Matrix Bool Bool ℂ,
      evolve gates (made.map fun gate => ⟨lifted gate, labels (controls ++ [target])⟩)
          (onTarget controls target u *ᵥ state) =
        onTarget controls target (made.foldl (fun u gate => gate.single gates * u) u) *ᵥ state by
    simpa only [onTarget_one, one_mulVec] using general 1
  induction made with
  | nil => exact fun _ => rfl
  | cons gate made ih =>
    intro u
    rw [List.map_cons, evolve_cons, matrix_onTarget gates (acts gate List.mem_cons_self) apart,
      mulVec_mulVec, onTarget_mul apart, List.foldl_cons]
    exact ih (fun other member => acts other (List.mem_cons_of_mem _ member)) _

end QuantumResources
