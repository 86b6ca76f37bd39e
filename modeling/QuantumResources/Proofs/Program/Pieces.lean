import QuantumResources.Program.Split
import QuantumResources.Proofs.Number.Exact
import QuantumResources.Proofs.Sequence

/-! The subroutines of a split program, and the places that stand for the old ones. -/

namespace QuantumResources.Program

variable {θ : Type}

/-! ## Pieces -/

theorem chunks_nil {β : Type} (size fuel : Nat) : chunks size fuel ([] : List β) = [] := by
  cases fuel <;> rfl

theorem chunks_step {β : Type} (size fuel : Nat) (items : List β) (some : items ≠ []) :
    chunks size (fuel + 1) items = items.take size :: chunks size fuel (items.drop size) := by
  cases items with
  | nil => exact absurd rfl some
  | cons item rest => rfl

theorem flatten_chunks {β : Type} (size fuel : Nat) (items : List β) (sizePos : 0 < size)
    (enough : items.length ≤ fuel) : (chunks size fuel items).flatten = items := by
  induction fuel generalizing items with
  | zero =>
    have none : items = [] := List.eq_nil_of_length_eq_zero (by omega)
    simp [none, chunks_nil]
  | succ fuel ih =>
    by_cases none : items = []
    · simp [none, chunks_nil]
    · have length := List.length_pos_of_ne_nil none
      rw [chunks_step _ _ _ none, List.flatten_cons, ih _ (by rw [List.length_drop]; omega),
        List.take_append_drop]

theorem length_chunks {β : Type} (size fuel : Nat) (items : List β) (sizePos : 0 < size)
    (enough : items.length ≤ fuel) :
    (chunks size fuel items).length = items.length ⌈/⌉ size := by
  induction fuel generalizing items with
  | zero =>
    have none : items = [] := List.eq_nil_of_length_eq_zero (by omega)
    simp [none, chunks_nil]
  | succ fuel ih =>
    by_cases none : items = []
    · simp [none, chunks_nil]
    · have length := List.length_pos_of_ne_nil none
      rw [chunks_step _ _ _ none, List.length_cons, ih _ (by rw [List.length_drop]; omega),
        List.length_drop]
      by_cases last : items.length ≤ size
      · have upper : items.length ⌈/⌉ size ≤ 1 := (ceilDiv_le_iff_le_mul sizePos).mpr (by omega)
        have lower : ¬ items.length ⌈/⌉ size ≤ 0 := by
          rw [ceilDiv_le_iff_le_mul sizePos]
          omega
        have nothingLeft : items.length - size = 0 := by omega
        rw [nothingLeft, zero_ceilDiv]
        omega
      · have whole : items.length - size + size = items.length := by omega
        rw [← ceilDiv_add_self _ _ sizePos, whole]

/-- Whether a circuit has more operations than a piece may have. -/
def isLong (size : Int) (circuit : Circuit θ) : Bool := decide (size < circuit.operations.length)

/-- The identity that closes a piece. -/
def closing (qubits : Int) : Operation θ := .gate ⟨.plain "I", [qubits - 1]⟩

/-- The pieces of a circuit before they are closed; a short circuit is its only piece. -/
def bareParts (size qubits : Int) (circuit : Circuit θ) : List (Circuit θ) :=
  if isLong size circuit then
    (chunks size.toNat circuit.operations.length circuit.operations).map (.counted qubits)
  else [circuit]

/-- For each piece of a circuit, whether it was newly cut. -/
def cutMarks (size : Int) (circuit : Circuit θ) : List Bool :=
  if isLong size circuit then
    List.replicate (circuit.operations.length ⌈/⌉ size.toNat) true
  else [false]

/-- A newly cut piece is closed by an identity. -/
def padded (qubits : Int) (isCut : Bool) (circuit : Circuit θ) : Circuit θ :=
  if isCut then { circuit with operations := circuit.operations ++ [closing qubits] }
  else circuit

/-- The pieces of a circuit as they stand in the split program. -/
def parts (size qubits : Int) (circuit : Circuit θ) : List (Circuit θ) :=
  (bareParts size qubits circuit).map (padded qubits (isLong size circuit))

theorem length_parts (size qubits : Int) (circuit : Circuit θ) :
    (parts size qubits circuit).length = (bareParts size qubits circuit).length := by
  rw [parts, List.length_map]

theorem bareParts_short (size qubits : Int) (circuit : Circuit θ)
    (short : isLong size circuit = false) : bareParts size qubits circuit = [circuit] := by
  simp [bareParts, short]

theorem length_cutMarks (size qubits : Int) (circuit : Circuit θ) (sizePos : 1 ≤ size) :
    (cutMarks size circuit).length = (bareParts size qubits circuit).length := by
  unfold cutMarks bareParts
  split
  · rw [List.length_replicate, List.length_map,
      length_chunks _ _ _ (by omega) (Nat.le_refl _)]
  · rfl

/-- Nothing gets lost between the pieces. -/
theorem flatMap_bareParts (size qubits : Int) (circuit : Circuit θ) (sizePos : 1 ≤ size) :
    (bareParts size qubits circuit).flatMap (·.operations) = circuit.operations := by
  unfold bareParts
  split
  · simp only [List.flatMap_map, Circuit.operations_counted, List.flatMap_id']
    exact flatten_chunks _ _ _ (by omega) (Nat.le_refl _)
  · simp

theorem parts_eq_zipWith (size qubits : Int) (circuit : Circuit θ) (sizePos : 1 ≤ size) :
    parts size qubits circuit =
      List.zipWith (padded qubits) (cutMarks size circuit) (bareParts size qubits circuit) := by
  have lengths := length_cutMarks size qubits circuit sizePos
  apply List.ext_getElem
  · simp [parts, lengths]
  · intro place inside alsoInside
    simp only [parts, List.getElem_map, List.getElem_zipWith]
    congr 1
    unfold cutMarks
    split <;> simp_all

/-! ## The table of places -/

/-- How many pieces are newly cut from some circuits. -/
def cutCount (size : Int) (circuits : List (Circuit θ)) : Nat :=
  ((circuits.filter (isLong size)).flatMap (cutMarks size)).length

@[simp] theorem cutCount_append (size : Int) (front back : List (Circuit θ)) :
    cutCount size (front ++ back) = cutCount size front + cutCount size back := by
  simp [cutCount]

theorem cutCount_long (size : Int) (circuit : Circuit θ) (long : isLong size circuit = true) :
    cutCount size [circuit] = (cutMarks size circuit).length := by
  simp [cutCount, long]

theorem cutCount_short (size : Int) (circuit : Circuit θ) (short : isLong size circuit = false) :
    cutCount size [circuit] = 0 := by
  simp [cutCount, short]

/-- The places that stand for a circuit with `front` before it, among `count` circuits. -/
def standIns (size : Int) (count : Nat) (front : List (Circuit θ)) (circuit : Circuit θ) :
    List Int :=
  if isLong size circuit then
    (List.range (cutMarks size circuit).length).map fun (j : Nat) =>
      (count : Int) - 1 + cutCount size front + j
  else [(front.length : Int)]

/-- What the split has built once the circuits in `front` are done. -/
structure Describes (size : Int) (program : Program θ) (front : List (Circuit θ))
    (state : SplitState θ) : Prop where
  circuits : state.circuits = front.flatMap (parts size program.dataQubits)
  pieces : state.pieces = cutCount size front
  length : state.places.length = front.length
  places : ∀ (index : Nat) (circuit : Circuit θ), front[index]? = some circuit →
    state.places[index]? =
      some (standIns size program.subroutines.length (front.take index) circuit)

theorem parts_long (size : Int) (qubits : Int) (circuit : Circuit θ) (sizePos : 1 ≤ size)
    (long : isLong size circuit = true) :
    cut size qubits circuit = .ok (parts size qubits circuit) := by
  have notZero : size ≠ 0 := by omega
  have notNegative : ¬ size < 0 := by omega
  simp [cut, parts, bareParts, long, notZero, notNegative, Function.comp_def, piece, padded,
    closing, Circuit.counted]

theorem splitStep_eq (size : Int) (program : Program θ) (state : SplitState θ)
    (front : List (Circuit θ)) (circuit : Circuit θ) (sizePos : 1 ≤ size)
    (described : Describes size program front state) :
    splitStep size program state circuit = .ok
      ⟨state.circuits ++ parts size program.dataQubits circuit,
        state.places ++ [standIns size program.subroutines.length front circuit],
        state.pieces + cutCount size [circuit]⟩ := by
  unfold splitStep
  by_cases long : isLong size circuit = true
  · have longer : size < circuit.operations.length := by simpa [isLong] using long
    have lengths : (parts size program.dataQubits circuit).length =
        (cutMarks size circuit).length := by
      rw [length_parts, length_cutMarks size program.dataQubits circuit sizePos]
    rw [if_pos longer, parts_long _ _ _ sizePos long]
    simp only [Calc.ok_bind, lengths, standIns, if_pos long, cutCount_long _ _ long,
      described.pieces]
    rfl
  · have short : isLong size circuit = false := by simpa using long
    have within : ¬ size < circuit.operations.length := by simpa [isLong] using short
    rw [if_neg within]
    have unchanged : parts size program.dataQubits circuit = [circuit] := by
      simp [parts, bareParts_short _ _ _ short, padded, short]
    have samePlace : standIns size program.subroutines.length front circuit =
        [(state.places.length : Int)] := by
      simp [standIns, short, described.length]
    rw [unchanged, samePlace, cutCount_short _ _ short, Int.ofNat_zero, Int.add_zero]
    rfl

theorem Describes.step {size : Int} {program : Program θ} {front : List (Circuit θ)}
    {state : SplitState θ} (described : Describes size program front state)
    (circuit : Circuit θ) (sizePos : 1 ≤ size) :
    ∃ next, splitStep size program state circuit = .ok next ∧
      Describes size program (front ++ [circuit]) next := by
  refine ⟨_, splitStep_eq size program state front circuit sizePos described, ?_, ?_, ?_, ?_⟩
  · simp [described.circuits]
  · simp [described.pieces]
  · simp [described.length]
  · intro index found isThere
    by_cases old : index < front.length
    · rw [List.getElem?_append_left old] at isThere
      rw [List.getElem?_append_left (by rw [described.length]; exact old),
        List.take_append_of_le_length (by omega)]
      exact described.places index found isThere
    · have inside := (List.getElem?_eq_some_iff.mp isThere).1
      have last : index = front.length := by
        simp only [List.length_append, List.length_singleton] at inside
        omega
      subst last
      have same : circuit = found := by simpa using isThere
      subst same
      simp [← described.length]

/-- The invariant carried along all circuits. -/
theorem Describes.run {size : Int} {program : Program θ} (sizePos : 1 ≤ size)
    (rest : List (Circuit θ)) {front : List (Circuit θ)} {state : SplitState θ}
    (described : Describes size program front state) :
    ∃ final, rest.foldlM (splitStep size program) state = .ok final ∧
      Describes size program (front ++ rest) final := by
  induction rest generalizing front state with
  | nil => exact ⟨state, rfl, by simpa using described⟩
  | cons circuit rest ih =>
    obtain ⟨next, stepped, nextDescribed⟩ := described.step circuit sizePos
    obtain ⟨final, finished, finalDescribed⟩ := ih nextDescribed
    refine ⟨final, ?_, by simpa using finalDescribed⟩
    rw [List.foldlM_cons, stepped]
    exact finished

theorem describes_start (size : Int) (program : Program θ) : Describes size program [] {} where
  circuits := rfl
  pieces := rfl
  length := rfl
  places := by simp

/-! ## The split program -/

/-- There are subroutines, all on the same number of qubits. -/
def Uniform (program : Program θ) : Prop :=
  program.subroutines ≠ [] ∧ ∀ circuit ∈ program.subroutines, circuit.qubits = program.dataQubits

theorem uniform_of_same {program : Program θ} {qubits : Int} (some : program.subroutines ≠ [])
    (same : ∀ circuit ∈ program.subroutines, circuit.qubits = qubits) : program.Uniform := by
  obtain ⟨first, rest, isFirst⟩ := List.exists_cons_of_ne_nil some
  have ofFirst : program.dataQubits = qubits := by
    simp only [dataQubits, isFirst]
    exact same first (by rw [isFirst]; simp)
  exact ⟨some, fun circuit member => by rw [same circuit member, ofFirst]⟩

theorem bareParts_ne_nil (size qubits : Int) (circuit : Circuit θ) (sizePos : 1 ≤ size) :
    bareParts size qubits circuit ≠ [] := by
  intro none
  by_cases long : isLong size circuit = true
  · have kept := flatMap_bareParts size qubits circuit sizePos
    rw [none] at kept
    have longer : size < circuit.operations.length := by simpa [isLong] using long
    rw [← kept, List.flatMap_nil, List.length_nil] at longer
    omega
  · rw [bareParts_short _ _ _ (by simpa using long)] at none
    cases none

theorem two_le_parts (size qubits : Int) (circuit : Circuit θ) (sizePos : 1 ≤ size)
    (long : isLong size circuit = true) : 2 ≤ (parts size qubits circuit).length := by
  have longer : size < circuit.operations.length := by simpa [isLong] using long
  have several : ¬ circuit.operations.length ⌈/⌉ size.toNat ≤ 1 := by
    rw [ceilDiv_le_iff_le_mul (by omega)]
    omega
  rw [length_parts, ← length_cutMarks size qubits circuit sizePos, cutMarks, if_pos long,
    List.length_replicate]
  omega

theorem one_le_parts (size qubits : Int) (circuit : Circuit θ) (sizePos : 1 ≤ size) :
    1 ≤ (parts size qubits circuit).length := by
  rw [length_parts]
  exact List.length_pos_iff.mpr (bareParts_ne_nil size qubits circuit sizePos)

/-- The number of subroutines stays only if nothing is cut. -/
theorem length_flatMap_parts (size qubits : Int) (circuits : List (Circuit θ))
    (sizePos : 1 ≤ size) :
    circuits.length ≤ (circuits.flatMap (parts size qubits)).length ∧
      ((circuits.flatMap (parts size qubits)).length = circuits.length ↔
        ∀ circuit ∈ circuits, isLong size circuit = false) := by
  induction circuits with
  | nil => simp
  | cons circuit rest ih =>
    obtain ⟨atLeast, exactly⟩ := ih
    have one := one_le_parts size qubits circuit sizePos
    rw [List.flatMap_cons, List.length_append, List.length_cons]
    refine ⟨by omega, ?_⟩
    rw [List.forall_mem_cons, ← exactly]
    cases long : isLong size circuit with
    | false =>
      have single : (parts size qubits circuit).length = 1 := by
        rw [length_parts, bareParts_short _ _ _ long]
        rfl
      simp only [true_and]
      omega
    | true =>
      have two := two_le_parts size qubits circuit sizePos long
      simp only [Bool.true_eq_false, false_and, iff_false]
      omega

theorem qubits_parts (size qubits : Int) (circuit part : Circuit θ)
    (same : circuit.qubits = qubits) (member : part ∈ parts size qubits circuit) :
    part.qubits = qubits := by
  obtain ⟨bare, isPart, rfl⟩ := List.mem_map.mp member
  have bareQubits : bare.qubits = qubits := by
    unfold bareParts at isPart
    split at isPart
    · obtain ⟨_, _, rfl⟩ := List.mem_map.mp isPart
      rfl
    · rw [List.mem_singleton.mp isPart, same]
  unfold padded
  split <;> exact bareQubits

theorem make_uniform (circuits : List (Circuit θ)) (steps : Int) (order : Order) (qubits : Int)
    (some : circuits ≠ []) (same : ∀ circuit ∈ circuits, circuit.qubits = qubits) :
    make circuits steps order = .ok ⟨circuits, steps, order⟩ := by
  cases circuits with
  | nil => exact absurd rfl some
  | cons first rest =>
    have agree : (first :: rest).all (·.qubits == first.qubits) = true := by
      simp only [List.all_eq_true, beq_iff_eq]
      intro circuit member
      rw [same circuit member, same first (by simp)]
    simp only [make, if_pos agree]

/-- An order whose places are looked up in a table. -/
def orderThrough (table : List (List Int)) (order : Order) : Order := fun steps => do
  return (← (← order steps).mapM (pick table)).flatten

theorem split_eq (size : Int) (program : Program θ) (sizePos : 1 ≤ size)
    (uniform : program.Uniform) :
    ∃ table : List (List Int),
      program.split size = .ok
        ⟨program.subroutines.flatMap (parts size program.dataQubits), program.steps,
          orderThrough table program.order⟩ ∧
      table.length = program.subroutines.length ∧
      ∀ (index : Nat) (circuit : Circuit θ), program.subroutines[index]? = some circuit →
        table[index]? = some
          (standIns size program.subroutines.length (program.subroutines.take index) circuit) := by
  obtain ⟨final, finished, described⟩ :=
    (describes_start size program).run sizePos program.subroutines
  rw [List.nil_append] at described
  refine ⟨final.places, ?_, described.length, described.places⟩
  have some : program.subroutines.flatMap (parts size program.dataQubits) ≠ [] := by
    obtain ⟨first, member⟩ := List.exists_mem_of_ne_nil _ uniform.1
    intro none
    have nothing : parts size program.dataQubits first = [] :=
      List.flatMap_eq_nil_iff.mp none first member
    rw [parts, List.map_eq_nil_iff] at nothing
    exact bareParts_ne_nil _ _ _ sizePos nothing
  have same : ∀ part ∈ program.subroutines.flatMap (parts size program.dataQubits),
      part.qubits = program.dataQubits := by
    intro part member
    obtain ⟨circuit, isThere, isPart⟩ := List.mem_flatMap.mp member
    exact qubits_parts _ _ _ _ (uniform.2 circuit isThere) isPart
  unfold split
  rw [finished]
  simp only [Calc.ok_bind, described.circuits]
  exact make_uniform _ _ _ _ some same

end QuantumResources.Program
