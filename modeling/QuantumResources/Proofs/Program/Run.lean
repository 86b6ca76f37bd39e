import QuantumResources.Program
import QuantumResources.Proofs.Sequence

/-! The operations of a whole run of a program. -/

namespace QuantumResources.Program

variable {θ : Type}

/-- All operations in the order in which they run. -/
def run (program : Program θ) : Calc (List (Operation θ)) := do
  return (← program.fullCircuit).operations

theorem run_eq (program : Program θ) (sequence : List Int) (running : List (Circuit θ))
    (ordered : program.sequence = .ok sequence)
    (found : sequence.mapM (pick program.subroutines) = .ok running) :
    program.run = .ok (running.flatMap (·.operations)) := by
  unfold run fullCircuit
  rw [ordered, Calc.ok_bind, found]
  rfl

theorem run_eq_ok (program : Program θ) (sequence : List Int) (operations : List (Operation θ))
    (ordered : program.sequence = .ok sequence) (runs : program.run = .ok operations) :
    ∃ running, sequence.mapM (pick program.subroutines) = .ok running ∧
      operations = running.flatMap (·.operations) := by
  unfold run fullCircuit at runs
  rw [ordered, Calc.ok_bind] at runs
  obtain ⟨circuit, joined, same⟩ := Calc.bind_eq_ok.mp runs
  obtain ⟨running, found, joinedFrom⟩ := Calc.bind_eq_ok.mp joined
  cases joinedFrom
  cases same
  exact ⟨running, found, rfl⟩

theorem count_join (wanted : String → Bool) (circuits : List (Circuit θ)) :
    tally (circuits.map fun circuit => (circuit.count wanted : Int)) =
      ((circuits.flatMap (·.operations)).countP fun operation =>
        operation.countedAs.any wanted : Nat) := by
  induction circuits with
  | nil => rfl
  | cons circuit rest ih =>
    rw [List.map_cons, tally_cons, ih, List.flatMap_cons, List.countP_append]
    simp [Circuit.count]

/-- Counting subroutine by subroutine gives what counting along the run gives. -/
theorem count_eq_run (wanted : String → Bool) (program : Program θ) :
    program.count wanted = do
      return ((← program.run).countP fun operation => operation.countedAs.any wanted : Nat) := by
  unfold count countAlong countEach run fullCircuit
  cases program.sequence with
  | error failure => rfl
  | ok sequence =>
    simp only [Calc.ok_bind, mapM_pick_map]
    cases sequence.mapM (pick program.subroutines) with
    | error failure => rfl
    | ok running => exact congrArg Except.ok (count_join wanted running)

end QuantumResources.Program
