import Mathlib.Algebra.BigOperators.Fin
import Mathlib.LinearAlgebra.Matrix.Defs
import Mathlib.Tactic.Ring
import QuantumResources.Hamiltonian.Quadratic
import QuantumResources.Proofs.Sequence

/-! The Hamiltonian of a quadratic form takes the values of the form.

On a state of bits a `Z` operator is `1` or `-1`, so a sum of terms has a value there. The terms of
a row stand for its square and for its products with the bits before it, in which both entries of
the matrix are taken together. -/

namespace QuantumResources

/-- A matrix as an array, row by row. -/
def Tensor.ofMatrix {α : Type} {m n : Nat} (matrix : Matrix (Fin m) (Fin n) α) : Tensor α where
  shape := [m, n]
  entries := (List.finRange m).flatMap fun i => (List.finRange n).map (matrix i)

theorem Tensor.getD_ofMatrix {α : Type} {m n : Nat} (matrix : Matrix (Fin m) (Fin n) α) (i : Fin m)
    (j : Fin n) (default : α) : (ofMatrix matrix).getD [i, j] default = matrix i j := by
  have rows : (((List.finRange m).take i).flatMap
      fun i => (List.finRange n).map (matrix i)).length = i * n := by
    simp [List.length_flatMap]
  have found := getElem?_block (List.finRange m) (fun i => (List.finRange n).map (matrix i)) i j i
    (matrix i j) (by simp) (by simp)
  rw [rows] at found
  simp [getD, ofMatrix, offset, found]

namespace Quadratic

open Finset (range)

/-! ## Values of terms -/

/-- The value of a `Z` operator on a bit. -/
def spin (bit : Bool) : Rat := 1 - (2 * bit.toNat : Nat)

/-- The value of a term on the state with the given bits. -/
def ZTerm.value (bits : Nat → Bool) (term : ZTerm Rat) : Rat :=
  term.coefficient * (term.qubits.map fun qubit => spin (bits qubit)).prod

/-- The value of a sum of terms. -/
def value (bits : Nat → Bool) (terms : List (ZTerm Rat)) : Rat :=
  (terms.map (·.value bits)).sum

@[simp] theorem value_nil (bits : Nat → Bool) : value bits [] = 0 := rfl

@[simp] theorem value_cons (bits : Nat → Bool) (term : ZTerm Rat) (terms : List (ZTerm Rat)) :
    value bits (term :: terms) = term.value bits + value bits terms := by
  simp [value]

@[simp] theorem value_append (bits : Nat → Bool) (first second : List (ZTerm Rat)) :
    value bits (first ++ second) = value bits first + value bits second := by
  simp [value]

/-! ## Terms of the form -/

theorem halved_eq (q : Rat) : halved q = .ok (q / 2) := by
  have two : (Arithmetic.constant 2 0 : Rat) = 2 := by norm_num [Arithmetic.constant]
  change Arithmetic.div q (Arithmetic.constant 2 0) = _
  rw [two]
  exact if_neg two_ne_zero

theorem negated_eq (q : Rat) : negated q = .ok (-q) := congrArg Except.ok (zero_sub q)

theorem symmetricPart_eq (entry : Nat → Nat → Rat) (i j : Nat) :
    symmetricPart entry i j = .ok ((entry i j + entry j i) / 2) :=
  halved_eq (entry i j + entry j i)

theorem diagonal_value (q : Rat) (i : Nat) :
    ∃ terms, diagonal q i = .ok terms ∧
      ∀ bits, value bits terms = q * (bits i).toNat * (bits i).toNat := by
  unfold diagonal
  simp only [halved_eq, negated_eq, Calc.ok_bind]
  refine ⟨_, rfl, fun bits => ?_⟩
  cases bit : bits i with
  | false => simp [ZTerm.value, spin, bit]
  | true =>
    simp [ZTerm.value, spin, bit]
    ring

theorem mixed_value (q : Rat) (i j : Nat) :
    ∃ terms, mixed q i j = .ok terms ∧
      ∀ bits, value bits terms = 2 * q * (bits i).toNat * (bits j).toNat := by
  unfold mixed
  simp only [halved_eq, negated_eq, Calc.ok_bind]
  refine ⟨_, rfl, fun bits => ?_⟩
  simp [ZTerm.value, spin]
  ring

/-- Values of terms that are made for one place after the other add up. -/
theorem mapM_value (places : List Nat) (compute : Nat → Calc (List (ZTerm Rat)))
    {amount : (Nat → Bool) → Nat → Rat}
    (each : ∀ place ∈ places, ∃ terms, compute place = .ok terms ∧
      ∀ bits, value bits terms = amount bits place) :
    ∃ lists, places.mapM compute = .ok lists ∧
      ∀ bits, value bits lists.flatten = (places.map (amount bits)).sum := by
  induction places with
  | nil => exact ⟨[], rfl, fun _ => rfl⟩
  | cons place rest ih =>
    obtain ⟨terms, computed, isAmount⟩ := each place (by simp)
    obtain ⟨lists, others, isSum⟩ :=
      ih fun other member => each other (List.mem_cons_of_mem _ member)
    rw [List.mapM_cons, computed, others]
    refine ⟨terms :: lists, rfl, fun bits => ?_⟩
    rw [List.flatten_cons, value_append, isAmount, isSum, List.map_cons, List.sum_cons]

theorem row_value (entry : Nat → Nat → Rat) (i : Nat) :
    ∃ terms, row entry i = .ok terms ∧ ∀ bits, value bits terms =
      entry i i * (bits i).toNat * (bits i).toNat + ∑ j ∈ range i,
        (entry i j * (bits i).toNat * (bits j).toNat +
          entry j i * (bits j).toNat * (bits i).toNat) := by
  obtain ⟨square, isSquare, squareValue⟩ := diagonal_value ((entry i i + entry i i) / 2) i
  obtain ⟨products, areProducts, productsValue⟩ := mapM_value (List.range i)
    (fun j => do mixed (← symmetricPart entry i j) i j) fun j _ => by
      simp only [symmetricPart_eq, Calc.ok_bind]
      exact mixed_value ((entry i j + entry j i) / 2) i j
  unfold row
  rw [symmetricPart_eq, Calc.ok_bind, isSquare, Calc.ok_bind, areProducts]
  refine ⟨_, rfl, fun bits => ?_⟩
  rw [value_append, squareValue, productsValue, add_self_div_two]
  congr 1
  change ∑ j ∈ range i, _ = _
  apply Finset.sum_congr rfl
  intro j _
  ring

/-- Below the diagonal each pair of places occurs once. -/
theorem sum_triangle (f : Nat → Nat → Rat) (n : Nat) :
    ∑ i ∈ range n, (f i i + ∑ j ∈ range i, (f i j + f j i)) =
      ∑ i ∈ range n, ∑ j ∈ range n, f i j := by
  induction n with
  | zero => rfl
  | succ n ih =>
    rw [Finset.sum_range_succ, ih]
    simp only [Finset.sum_range_succ, Finset.sum_add_distrib]
    ring

theorem terms_value (size : Nat) (entry : Nat → Nat → Rat) :
    ∃ found, terms size entry = .ok found ∧ ∀ bits, value bits found =
      ∑ i ∈ range size, ∑ j ∈ range size, entry i j * (bits i).toNat * (bits j).toNat := by
  obtain ⟨rows, areRows, rowsValue⟩ := mapM_value (List.range size) (row entry)
    fun i _ => row_value entry i
  unfold terms
  rw [areRows]
  refine ⟨_, rfl, fun bits => ?_⟩
  rw [rowsValue]
  exact sum_triangle (fun i j => entry i j * (bits i).toNat * (bits j).toNat) size

/-! ## Simplified sums -/

/-- Adds a term to the one with the same operators, or puts it at the end. -/
def addTerm (term : ZTerm Rat) : List (ZTerm Rat) → List (ZTerm Rat)
  | [] => [term]
  | first :: rest =>
    if first.qubits = term.qubits then
      ⟨first.qubits, first.coefficient + term.coefficient⟩ :: rest
    else first :: addTerm term rest

/-- Takes terms with the same operators together and leaves out those that cancel. -/
def collect (terms : List (ZTerm Rat)) : List (ZTerm Rat) :=
  (terms.foldl (fun collected term => addTerm term collected) []).filter (·.coefficient ≠ 0)

theorem value_addTerm (bits : Nat → Bool) (term : ZTerm Rat) (terms : List (ZTerm Rat)) :
    value bits (addTerm term terms) = value bits terms + term.value bits := by
  induction terms with
  | nil => simp [addTerm]
  | cons first rest ih =>
    unfold addTerm
    split
    · next same =>
      simp only [value_cons, ZTerm.value, same]
      ring
    · rw [value_cons, ih, value_cons, add_assoc]

theorem value_collect (terms : List (ZTerm Rat)) (bits : Nat → Bool) :
    value bits (collect terms) = value bits terms := by
  have dropped (all : List (ZTerm Rat)) :
      value bits (all.filter (·.coefficient ≠ 0)) = value bits all := by
    induction all with
    | nil => rfl
    | cons first rest ih =>
      rw [List.filter_cons]
      split
      · rw [value_cons, ih, value_cons]
      · next zero =>
        have none : first.coefficient = 0 := by simpa using zero
        rw [ih, value_cons, ZTerm.value, none, zero_mul, zero_add]
  have added (collected : List (ZTerm Rat)) :
      value bits (terms.foldl (fun collected term => addTerm term collected) collected) =
        value bits collected + value bits terms := by
    induction terms generalizing collected with
    | nil => simp
    | cons first rest ih => rw [List.foldl_cons, ih, value_addTerm, value_cons, add_assoc]
  rw [collect, dropped, added, value_nil, zero_add]

/-- On every state of bits, the Hamiltonian of a square matrix has the value of its quadratic form.
So has every sum of terms into which it is simplified without a change of the operator. -/
theorem hamiltonian_value (simplify : List (ZTerm Rat) → List (ZTerm Rat))
    (preserves : ∀ terms bits, value bits (simplify terms) = value bits terms)
    (n : Nat) (matrix : Matrix (Fin n) (Fin n) Rat) :
    ∃ terms, ofMatrix (.ofMatrix matrix) = .ok terms ∧ ∀ bits : Nat → Bool,
      value bits terms = ∑ i, ∑ j, matrix i j * (bits i).toNat * (bits j).toNat ∧
      value bits (simplify terms) = ∑ i, ∑ j, matrix i j * (bits i).toNat * (bits j).toNat := by
  obtain ⟨found, isFound, foundValue⟩ := terms_value n fun i j =>
    (Tensor.ofMatrix matrix).getD [i, j] 0
  have built : ofMatrix (.ofMatrix matrix) = .ok found := (if_pos rfl).trans isFound
  have form (bits : Nat → Bool) :
      value bits found = ∑ i, ∑ j, matrix i j * (bits i).toNat * (bits j).toNat := by
    simp only [foundValue, Finset.sum_range, Tensor.getD_ofMatrix]
  exact ⟨found, built, fun bits => ⟨form bits, (preserves found bits).trans (form bits)⟩⟩

/-- A form of two bits that is not symmetric. -/
def twoBits : Matrix (Fin 2) (Fin 2) Rat
  | 0, 0 => 1
  | 0, 1 => (2 : Nat)
  | 1, 0 => 0
  | 1, 1 => (3 : Nat)

theorem hamiltonian_value_twoBits :
    ∃ terms, ofMatrix (.ofMatrix twoBits) = .ok terms ∧
      collect terms = [⟨[], (5 / 2 : Rat)⟩, ⟨[0], -1⟩, ⟨[1], -2⟩, ⟨[1, 0], 1 / 2⟩] ∧
      value (fun _ => true) (collect terms) = 6 ∧
      value (fun bit => bit = 1) (collect terms) = 3 := by
  obtain ⟨terms, built, values⟩ := hamiltonian_value collect value_collect 2 twoBits
  have collected : (ofMatrix (.ofMatrix twoBits)).map collect =
      .ok [⟨[], (5 / 2 : Rat)⟩, ⟨[0], -1⟩, ⟨[1], -2⟩, ⟨[1, 0], 1 / 2⟩] := by
    decide +kernel
  rw [built] at collected
  refine ⟨terms, built, Except.ok.inj collected, ?_, ?_⟩
  all_goals
    rw [(values _).2]
    decide +kernel

end Quadratic

end QuantumResources
