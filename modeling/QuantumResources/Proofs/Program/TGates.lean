import QuantumResources.Proofs.Circuit.Rules
import QuantumResources.Proofs.Program.Run

/-! T gates in programs that the rules have made.

The rules make T gates and their adjoints. The count of T gates of a program goes by names, and the
name of the adjoint is not among those that it looks for, so only the T gates themselves count. -/

namespace QuantumResources

variable {θ : Type}

/-! ## Gates -/

namespace Gate

/-- The T gate. -/
def isT : Gate θ → Bool
  | named name angles => name == "T" && angles.isEmpty
  | _ => false

/-- The adjoint of the T gate. -/
def isTInverse : Gate θ → Bool
  | adjoint gate => gate.isT
  | inverted gate => gate.isT
  | _ => false

theorem isT_of_inverse (gate : Gate θ) (inverse : gate.isTInverse = true) : gate.isT = false := by
  cases gate with
  | named => cases inverse
  | controlled => rfl
  | adjoint => rfl
  | inverted => rfl

/-- The gate is counted as a T gate just if it is one. -/
def CountsAsItself (gate : Gate θ) : Prop := Program.isT gate.name = gate.isT

instance : DecidablePred (CountsAsItself (θ := θ)) := fun gate =>
  inferInstanceAs (Decidable (Program.isT gate.name = gate.isT))

theorem countsAsItself_under (gate : Gate θ) (counts : gate.CountsAsItself)
    (controls : Option Int) : (gate.under controls).CountsAsItself := by
  cases controls with
  | none => exact counts
  | some number => rfl

end Gate

namespace Operation

def isT : Operation θ → Bool
  | .gate operation => operation.gate.isT
  | _ => false

def isTInverse : Operation θ → Bool
  | .gate operation => operation.gate.isTInverse
  | _ => false

end Operation

/-! ## Productions -/

namespace Rule

open Gate

/-- The operation is one of those that a rule puts in the place of another one. -/
def Makes (toFloat : θ → Calc Float) (operation : Operation θ) : Prop :=
  ∃ (rule : Rule) (replaced : GateOperation θ) (produced : List (GateOperation θ)),
    rule.produce toFloat replaced = .ok produced ∧ ∃ made ∈ produced, operation = .gate made

theorem countsAsItself_doublyControlledZ (a b c : Int) :
    ∀ made ∈ (doublyControlledZ a b c : List (GateOperation θ)), made.gate.CountsAsItself :=
  of_decide_eq_true rfl

theorem countsAsItself_toffoli (a b c : Int) :
    ∀ made ∈ (toffoli a b c : List (GateOperation θ)), made.gate.CountsAsItself :=
  of_decide_eq_true rfl

theorem countsAsItself_spread (replaced : GateOperation θ) (gates : List (Gate θ))
    (counts : ∀ gate ∈ gates, gate.CountsAsItself) :
    ∀ made ∈ spread replaced gates, made.gate.CountsAsItself := by
  intro made member
  rw [spread_eq] at member
  obtain ⟨gate, listed, rfl⟩ := List.mem_map.mp member
  exact countsAsItself_under gate (counts gate listed) _

theorem countsAsItself_gates (standard : StandardAngle) :
    ∀ gate ∈ (standard.gates : List (Gate θ)), gate.CountsAsItself := by
  cases standard <;> exact of_decide_eq_true rfl

/-- Nothing that a rule makes counts as a T gate unless it is one. -/
theorem countsAsItself_of_produce {toFloat : θ → Calc Float} {rule : Rule}
    {replaced : GateOperation θ} {produced : List (GateOperation θ)}
    (produces : rule.produce toFloat replaced = .ok produced) :
    ∀ made ∈ produced, made.gate.CountsAsItself := by
  have h : (plain "H" : Gate θ).CountsAsItself := rfl
  have s : (plain "S" : Gate θ).CountsAsItself := rfl
  have sInverse : (inverted (plain "S") : Gate θ).CountsAsItself := rfl
  have sx : (plain "SX" : Gate θ).CountsAsItself := rfl
  have z : (plain "Z" : Gate θ).CountsAsItself := rfl
  have rotation (angle : θ) : (rz angle).CountsAsItself := rfl
  intro made member
  cases rule with
  | cczToT =>
    obtain ⟨a, b, c, rfl⟩ := threeQubits_eq_ok produces
    exact countsAsItself_doublyControlledZ a b c made member
  | ccxToT =>
    obtain ⟨a, b, c, rfl⟩ := threeQubits_eq_ok produces
    exact countsAsItself_toffoli a b c made member
  | u3ToRz =>
    obtain ⟨first, second, third, rfl⟩ := produce_u3_eq_ok produces
    exact countsAsItself_spread replaced _ (by simp [rotation, sx, z]) made member
  | rxToRz =>
    obtain ⟨angle, rfl⟩ := produce_rx_eq_ok produces
    exact countsAsItself_spread replaced _ (by simp [rotation, h]) made member
  | ryToRz =>
    obtain ⟨angle, rfl⟩ := produce_ry_eq_ok produces
    exact countsAsItself_spread replaced _ (by simp [rotation, h, s, sInverse]) made member
  | standardRz =>
    obtain ⟨standard, rfl⟩ := produce_standard_eq_ok produces
    obtain ⟨gate, isGate, rfl⟩ := List.mem_map.mp member
    exact countsAsItself_gates standard gate isGate

theorem makes_standard (toFloat : θ → Calc Float) (angle : θ) {x : Float}
    {standard : StandardAngle} (isDouble : toFloat angle = .ok x)
    (close : StandardAngle.ofFloat? x = some standard) (qubits : List Int) :
    ∀ gate ∈ (standard.gates : List (Gate θ)), Makes toFloat (.gate ⟨gate, qubits⟩) := by
  intro gate member
  have produces : standardRz.produce toFloat ⟨rz angle, qubits⟩ =
      .ok (standard.gates.map fun made => on made qubits) := by
    have isAngle : Rule.angle (rz angle) 0 = .ok angle := rfl
    simp only [produce, isAngle, Calc.ok_bind, isDouble, close]
    rfl
  exact ⟨standardRz, ⟨rz angle, qubits⟩, _, produces, on gate qubits,
    List.mem_map_of_mem member, rfl⟩

theorem makes_toffoli (toFloat : θ → Calc Float) (a b c : Int) :
    ∀ made ∈ toffoli a b c, Makes toFloat (.gate made) := by
  intro made member
  exact ⟨ccxToT, ⟨.withControls (.plain "X") 2, [a, b, c]⟩, toffoli a b c, rfl, made, member, rfl⟩

theorem isT_of_makes {toFloat : θ → Calc Float} {operation : Operation θ}
    (made : Makes toFloat operation) :
    operation.countedAs.any Program.isT = operation.isT := by
  obtain ⟨rule, replaced, produced, produces, made, member, rfl⟩ := made
  exact countsAsItself_of_produce produces made member

end Rule

/-! ## Programs -/

namespace Program

theorem countP_or {β : Type} (first second : β → Bool) (items : List β)
    (apart : ∀ item ∈ items, second item = true → first item = false) :
    items.countP (fun item => first item || second item) =
      items.countP first + items.countP second := by
  induction items with
  | nil => rfl
  | cons item rest ih =>
    have later := ih fun other member => apart other (List.mem_cons_of_mem _ member)
    have here := apart item (by simp)
    rw [List.countP_cons, List.countP_cons, List.countP_cons, later]
    cases isSecond : second item with
    | false =>
      simp only [Bool.or_false, Bool.false_eq_true, if_false]
      omega
    | true =>
      simp only [here isSecond, Bool.or_true, Bool.false_eq_true, if_true, if_false]
      omega

theorem tGates_of_makes (toFloat : θ → Calc Float) (program : Program θ) (sequence : List Int)
    (operations : List (Operation θ)) (ordered : program.sequence = .ok sequence)
    (runs : program.run = .ok operations)
    (made : ∀ circuit ∈ program.subroutines, ∀ operation ∈ circuit.operations,
      Rule.Makes toFloat operation) :
    program.tGates = .ok (operations.countP Operation.isT : Nat) := by
  have counted : operations.countP (fun operation => operation.countedAs.any isT) =
      operations.countP Operation.isT := by
    apply List.countP_congr
    intro operation member
    obtain ⟨running, picked, rfl⟩ := run_eq_ok program sequence operations ordered runs
    obtain ⟨circuit, isRunning, inside⟩ := List.mem_flatMap.mp member
    obtain ⟨place, _, found⟩ := (Calc.mem_of_mapM picked).mp isRunning
    have listed := List.mem_of_getElem? ((pick_eq_ok_iff _ _ _).mp found).2
    rw [Rule.isT_of_makes (made circuit listed operation inside)]
  rw [tGates, count_eq_run, runs, ← counted]
  rfl

/-- In a program of operations that the rules have made, the T gates themselves are counted and
their adjoints are not. The count covers both just where the run has none of the adjoints. -/
theorem t_count_complete_iff (toFloat : θ → Calc Float) (program : Program θ) (sequence : List Int)
    (ordered : program.sequence = .ok sequence)
    (valid : ∀ place ∈ sequence, ValidPlace program.subroutines.length place)
    (made : ∀ circuit ∈ program.subroutines, ∀ operation ∈ circuit.operations,
      Rule.Makes toFloat operation) :
    ∃ operations, program.run = .ok operations ∧
      program.tGates = .ok (operations.countP Operation.isT : Nat) ∧
      (program.tGates = .ok (operations.countP fun operation =>
          operation.isT || operation.isTInverse : Nat) ↔
        ∀ operation ∈ operations, operation.isTInverse = false) := by
  obtain ⟨running, picked⟩ := mapM_pick program.subroutines sequence valid
  have runs := run_eq program sequence running ordered picked
  have counted := tGates_of_makes toFloat program sequence _ ordered runs made
  refine ⟨_, runs, counted, ?_⟩
  rw [counted, Except.ok.injEq, Int.natCast_inj, countP_or, Nat.left_eq_add, List.countP_eq_zero]
  · simp only [Bool.not_eq_true]
  · intro operation _ inverse
    cases operation with
    | gate operation => exact operation.gate.isT_of_inverse inverse
    | reset => cases inverse
    | other => cases inverse

/-- Rotations by an eighth turn, which is a T gate, and by three eighths, which is one after an S
gate. -/
theorem t_count_complete_eighthTurns :
    let t : Operation Float := .gate ⟨.plain "T", [0]⟩
    let s : Operation Float := .gate ⟨.plain "S", [0]⟩
    let program : Program Float := ⟨[.on 1 [t], .on 1 [s, t]], 2, fun _ => .ok [0, 1, 1]⟩
    (∀ circuit ∈ program.subroutines, ∀ operation ∈ circuit.operations,
      Rule.Makes .ok operation) ∧
    program.tGates = .ok 3 ∧ ∃ operations, program.run = .ok operations ∧
      program.tGates = .ok (operations.countP fun operation =>
        operation.isT || operation.isTInverse : Nat) := by
  intro t s program
  have eighth : ∀ gate ∈ StandardAngle.quarter.gates, Rule.Makes .ok (.gate ⟨gate, [0]⟩) :=
    Rule.makes_standard .ok (0.7853981633974483 : Float) rfl (by decide +kernel) [0]
  have threeEighths : ∀ gate ∈ StandardAngle.threeQuarters.gates,
      Rule.Makes .ok (.gate ⟨gate, [0]⟩) :=
    Rule.makes_standard .ok (2.356194490192345 : Float) rfl (by decide +kernel) [0]
  have made : ∀ circuit ∈ program.subroutines, ∀ operation ∈ circuit.operations,
      Rule.Makes .ok operation := by
    simp only [StandardAngle.gates, List.forall_mem_cons] at eighth threeEighths
    simp [program, t, s, eighth, threeEighths]
  obtain ⟨operations, runs, counted, complete⟩ :=
    t_count_complete_iff .ok program [0, 1, 1] rfl (by decide) made
  have whole : operations = [t, s, t, s, t] := Except.ok.inj (runs.symm.trans rfl)
  refine ⟨made, rfl, operations, runs, complete.mpr ?_⟩
  rw [whole]
  simp [t, s, Operation.isTInverse, Gate.isTInverse, Gate.plain]

/-! ## Toffoli gates -/

/-- A circuit of Toffoli gates on the given qubits, each taken apart by its rule. -/
def toffolis (qubits : Int) (places : List (Int × Int × Int)) : Circuit θ where
  qubits := qubits
  operations := places.flatMap fun place =>
    (Rule.toffoli place.1 place.2.1 place.2.2).map .gate

theorem countP_toffolis (qubits : Int) (places : List (Int × Int × Int))
    (counts : Operation θ → Bool) (number : Nat)
    (each : ∀ a b c, ((Rule.toffoli a b c).map Operation.gate).countP counts = number) :
    (toffolis qubits places).operations.countP counts = number * places.length := by
  unfold toffolis
  induction places with
  | nil => rfl
  | cons place rest ih =>
    rw [List.flatMap_cons, List.countP_append, each, ih, List.length_cons, Nat.mul_succ,
      Nat.add_comm]

theorem makes_toffolis (toFloat : θ → Calc Float) (qubits : Int)
    (places : List (Int × Int × Int)) :
    ∀ circuit ∈ (ofCircuit (toffolis qubits places)).subroutines,
      ∀ operation ∈ circuit.operations, Rule.Makes toFloat operation := by
  intro circuit isCircuit operation member
  rw [List.mem_singleton.mp isCircuit] at member
  obtain ⟨place, _, inside⟩ := List.mem_flatMap.mp member
  obtain ⟨made, isMade, rfl⟩ := List.mem_map.mp inside
  exact Rule.makes_toffoli toFloat _ _ _ made isMade

/-- Seven T gates and adjoints stand for a Toffoli gate, and four of them are counted. -/
theorem tGates_toffolis (toFloat : θ → Calc Float) (qubits : Int)
    (places : List (Int × Int × Int)) :
    (ofCircuit (toffolis qubits places : Circuit θ)).tGates = .ok (4 * places.length : Nat) ∧
      (toffolis qubits places : Circuit θ).operations.countP (fun operation =>
        operation.isT || operation.isTInverse) = 7 * places.length := by
  have runs : (ofCircuit (toffolis qubits places : Circuit θ)).run =
      .ok (toffolis qubits places).operations := by
    rw [run_eq _ [0] [toffolis qubits places] rfl rfl, List.flatMap_singleton]
  constructor
  · rw [tGates_of_makes toFloat _ [0] _ rfl runs (makes_toffolis toFloat qubits places),
      countP_toffolis qubits places _ 4 fun a b c => rfl]
  · exact countP_toffolis qubits places _ 7 fun a b c => rfl

/-- A single Toffoli gate: its seven T gates and adjoints count as four. -/
theorem t_count_misses_toffoli :
    let program : Program Float := ofCircuit (toffolis 3 [(0, 1, 2)])
    (∀ circuit ∈ program.subroutines, ∀ operation ∈ circuit.operations,
      Rule.Makes .ok operation) ∧
    ∃ operations, program.run = .ok operations ∧
      operations.countP (fun operation => operation.isT || operation.isTInverse) = 7 ∧
      program.tGates = .ok 4 := by
  intro program
  obtain ⟨counted, all⟩ := tGates_toffolis .ok 3 [(0, 1, 2)]
  exact ⟨makes_toffolis .ok 3 [(0, 1, 2)], _, rfl, all, counted⟩

end Program

end QuantumResources
