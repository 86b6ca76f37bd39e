import QuantumResources.Proofs.Program.Pieces
import QuantumResources.Proofs.Program.Run

/-! When the run of a program survives the split into pieces.

Pieces shift all later subroutines, while the table of places numbers short subroutines as before
and pieces on from the last old subroutine. The two agree for a subroutine with only short ones
before it that is short itself or the last one. -/

namespace QuantumResources.Program

variable {θ : Type}

/-! ## Statement -/

/-- Whether the places of a subroutine are right, given which subroutines are long. -/
def WellPlaced (long : List Bool) (index : Nat) : Prop :=
  true ∉ long.take index ∧ (long[index]? = some true → index + 1 = long.length)

instance (long : List Bool) (index : Nat) : Decidable (WellPlaced long index) :=
  inferInstanceAs (Decidable (_ ∧ _))

/-- The split succeeds, its newly cut pieces are closed by an identity, and without these
identities it runs the same operations; other operations are counted as before. -/
def SplitPreserves (size : Int) (program : Program θ) : Prop :=
  ∃ split bare, program.split size = .ok split ∧
    bare.length = (program.subroutines.flatMap (cutMarks size)).length ∧
    split.subroutines = List.zipWith (padded program.dataQubits)
      (program.subroutines.flatMap (cutMarks size)) bare ∧
    ({ split with subroutines := bare } : Program θ).run = program.run ∧
    ∀ wanted : String → Bool, wanted "I" = false → split.count wanted = program.count wanted

/-- Programs with long subroutines at the same places that run in the same order. -/
structure SameShape (size : Int) (program other : Program θ) : Prop where
  uniform : other.Uniform
  long : other.subroutines.map (isLong size) = program.subroutines.map (isLong size)
  sequence : other.sequence = program.sequence

/-! ## The pieces without their closing identities -/

/-- The subroutines of the split before the pieces are closed. -/
def bareSubroutines (size : Int) (program : Program θ) : List (Circuit θ) :=
  program.subroutines.flatMap (bareParts size program.dataQubits)

/-- The split program, its pieces not yet closed. -/
def bareSplit (size : Int) (program : Program θ) (table : List (List Int)) : Program θ :=
  ⟨program.bareSubroutines size, program.steps, orderThrough table program.order⟩

theorem bareSplit_sequence (size : Int) (program : Program θ) (table : List (List Int))
    (sequence : List Int) (places : List (List Int)) (ordered : program.sequence = .ok sequence)
    (looked : sequence.mapM (pick table) = .ok places) :
    (program.bareSplit size table).sequence = .ok places.flatten := by
  have atSteps : program.order program.steps = .ok sequence := ordered
  unfold Program.sequence bareSplit orderThrough
  simp only [atSteps, Calc.ok_bind, looked]
  rfl

theorem length_flatMap_cutMarks (size qubits : Int) (circuits : List (Circuit θ))
    (sizePos : 1 ≤ size) :
    (circuits.flatMap (cutMarks size)).length =
      (circuits.flatMap (bareParts size qubits)).length := by
  induction circuits with
  | nil => rfl
  | cons circuit rest ih =>
    rw [List.flatMap_cons, List.flatMap_cons, List.length_append, List.length_append, ih,
      length_cutMarks size qubits circuit sizePos]

theorem flatMap_parts (size qubits : Int) (circuits : List (Circuit θ)) (sizePos : 1 ≤ size) :
    circuits.flatMap (parts size qubits) =
      List.zipWith (padded qubits) (circuits.flatMap (cutMarks size))
        (circuits.flatMap (bareParts size qubits)) := by
  induction circuits with
  | nil => rfl
  | cons circuit rest ih =>
    rw [List.flatMap_cons, List.flatMap_cons, List.flatMap_cons,
      List.zipWith_append (length_cutMarks size qubits circuit sizePos), ih,
      parts_eq_zipWith _ _ _ sizePos]

theorem padded_injective (qubits : Int) (isCut : Bool) (first second : Circuit θ)
    (same : padded qubits isCut first = padded qubits isCut second) : first = second := by
  cases first with
  | mk firstQubits firstOperations firstCounted =>
    cases second with
    | mk secondQubits secondOperations secondCounted =>
      unfold padded at same
      split at same
      · simp only [Circuit.mk.injEq, List.append_cancel_right_eq] at same
        rw [same.1, same.2.1, same.2.2]
      · exact same

theorem zipWith_padded_injective (qubits : Int) (marks : List Bool)
    (first second : List (Circuit θ)) (firstLength : first.length = marks.length)
    (secondLength : second.length = marks.length)
    (same : List.zipWith (padded qubits) marks first =
      List.zipWith (padded qubits) marks second) : first = second := by
  induction marks generalizing first second with
  | nil =>
    rw [List.eq_nil_of_length_eq_zero firstLength, List.eq_nil_of_length_eq_zero secondLength]
  | cons mark marks ih =>
    obtain ⟨head, rest, rfl⟩ := List.exists_cons_of_length_eq_add_one firstLength
    obtain ⟨otherHead, otherRest, rfl⟩ := List.exists_cons_of_length_eq_add_one secondLength
    simp only [List.zipWith_cons_cons, List.cons.injEq] at same
    rw [padded_injective _ _ _ _ same.1,
      ih rest otherRest (by simpa using firstLength) (by simpa using secondLength) same.2]

theorem count_padded (wanted : String → Bool) (qubits : Int) (isCut : Bool) (circuit : Circuit θ)
    (notIdentity : wanted "I" = false) :
    (padded qubits isCut circuit).count wanted = circuit.count wanted := by
  unfold padded Circuit.count
  split
  · simp [closing, Operation.countedAs, Gate.plain, Gate.name, notIdentity]
  · rfl

theorem countEach_zipWith_padded (wanted : String → Bool) (qubits : Int) (marks : List Bool)
    (circuits : List (Circuit θ)) (lengths : circuits.length = marks.length)
    (notIdentity : wanted "I" = false) :
    ((List.zipWith (padded qubits) marks circuits).map fun circuit =>
        (circuit.count wanted : Int)) =
      circuits.map fun circuit => (circuit.count wanted : Int) := by
  apply List.ext_getElem
  · simp [lengths]
  · intro index inside alsoInside
    simp [count_padded _ _ _ _ notIdentity]

/-! ## Well placed subroutines -/

theorem flatMap_bareParts_short (size qubits : Int) (circuits : List (Circuit θ))
    (short : true ∉ circuits.map (isLong size)) :
    circuits.flatMap (bareParts size qubits) = circuits := by
  induction circuits with
  | nil => rfl
  | cons circuit rest ih =>
    simp only [List.map_cons, List.mem_cons, not_or] at short
    have first : isLong size circuit = false := by
      cases value : isLong size circuit with
      | false => rfl
      | true => exact absurd value.symm short.1
    rw [List.flatMap_cons, bareParts_short _ _ _ first, ih short.2]
    rfl

theorem cutCount_eq_zero (size : Int) (circuits : List (Circuit θ))
    (short : true ∉ circuits.map (isLong size)) : cutCount size circuits = 0 := by
  have none : circuits.filter (isLong size) = [] := by
    rw [List.filter_eq_nil_iff]
    intro circuit member long
    exact short (List.mem_map.mpr ⟨circuit, member, long⟩)
  rw [cutCount, none]
  rfl

/-- The places of a well placed subroutine are those of its pieces. -/
theorem standIns_wellPlaced (size qubits : Int) (circuits : List (Circuit θ)) (index : Nat)
    (circuit : Circuit θ) (sizePos : 1 ≤ size) (found : circuits[index]? = some circuit)
    (placed : WellPlaced (circuits.map (isLong size)) index) :
    standIns size circuits.length (circuits.take index) circuit =
      (List.range (bareParts size qubits circuit).length).map fun j =>
        ((((circuits.take index).flatMap (bareParts size qubits)).length + j : Nat) : Int) := by
  obtain ⟨inside, _⟩ := List.getElem?_eq_some_iff.mp found
  obtain ⟨shortBefore, lastIfLong⟩ := placed
  rw [← List.map_take] at shortBefore
  have start : ((circuits.take index).flatMap (bareParts size qubits)).length = index := by
    rw [flatMap_bareParts_short _ _ _ shortBefore, List.length_take]
    omega
  rw [start]
  unfold standIns
  split
  · next long =>
    have last : index + 1 = circuits.length := by
      rw [List.length_map] at lastIfLong
      exact lastIfLong (by rw [List.getElem?_map, found]; exact congrArg some long)
    rw [length_cutMarks size qubits circuit sizePos, cutCount_eq_zero _ _ shortBefore]
    apply List.map_congr_left
    intro j _
    omega
  · next short =>
    rw [bareParts_short _ _ _ (by simpa using short), List.length_take]
    simp only [List.length_singleton, List.range_one, List.map_cons, List.map_nil]
    rw [Nat.min_eq_left (by omega), Nat.add_zero]

theorem mapM_pick_standIns (size qubits : Int) (circuits : List (Circuit θ)) (index : Nat)
    (circuit : Circuit θ) (sizePos : 1 ≤ size) (found : circuits[index]? = some circuit)
    (placed : WellPlaced (circuits.map (isLong size)) index) :
    (standIns size circuits.length (circuits.take index) circuit).mapM
        (pick (circuits.flatMap (bareParts size qubits))) =
      .ok (bareParts size qubits circuit) := by
  rw [standIns_wellPlaced size qubits circuits index circuit sizePos found placed,
    flatMap_around _ _ _ _ found]
  exact mapM_pick_block _ _ _

theorem pick_table (size : Int) (circuits : List (Circuit θ)) (table : List (List Int))
    (length : table.length = circuits.length)
    (entries : ∀ (index : Nat) (circuit : Circuit θ), circuits[index]? = some circuit →
      table[index]? = some (standIns size circuits.length (circuits.take index) circuit))
    (place : Int) (circuit : Circuit θ) (picked : pick circuits place = .ok circuit) :
    pick table place = .ok (standIns size circuits.length
      (circuits.take (fromStart circuits.length place)) circuit) := by
  rw [pick_eq_ok_iff] at picked
  rw [pick_eq_ok_iff, length]
  exact ⟨picked.1, entries _ _ picked.2⟩

/-- Along a sequence of well placed subroutines the pieces do what the subroutines do. -/
theorem run_along_table (size qubits : Int) (circuits : List (Circuit θ))
    (table : List (List Int)) (sequence : List Int) (sizePos : 1 ≤ size)
    (length : table.length = circuits.length)
    (entries : ∀ (index : Nat) (circuit : Circuit θ), circuits[index]? = some circuit →
      table[index]? = some (standIns size circuits.length (circuits.take index) circuit))
    (valid : ∀ place ∈ sequence, ValidPlace circuits.length place)
    (placed : ∀ place ∈ sequence,
      WellPlaced (circuits.map (isLong size)) (fromStart circuits.length place)) :
    ∃ places pieces running, sequence.mapM (pick table) = .ok places ∧
      places.flatten.mapM (pick (circuits.flatMap (bareParts size qubits))) = .ok pieces ∧
      sequence.mapM (pick circuits) = .ok running ∧
      pieces.flatMap (·.operations) = running.flatMap (·.operations) := by
  induction sequence with
  | nil => exact ⟨[], [], [], rfl, rfl, rfl, rfl⟩
  | cons place rest ih =>
    obtain ⟨places, pieces, running, looked, cutRun, wholeRun, same⟩ :=
      ih (fun later member => valid later (List.mem_cons_of_mem _ member))
        (fun later member => placed later (List.mem_cons_of_mem _ member))
    have here := valid place (by simp)
    obtain ⟨circuit, picked, found⟩ := pick_valid circuits place here
    have entry := pick_table size circuits table length entries place circuit picked
    have block := mapM_pick_standIns size qubits circuits _ circuit sizePos found
      (placed place (by simp))
    refine ⟨_, bareParts size qubits circuit ++ pieces, circuit :: running,
      by rw [List.mapM_cons, entry, looked]; rfl, ?_, ?_, ?_⟩
    · rw [List.flatten_cons]
      exact Calc.mapM_append_ok block cutRun
    · rw [List.mapM_cons, picked, wholeRun]
      rfl
    · rw [List.flatMap_append, List.flatMap_cons, flatMap_bareParts _ _ _ sizePos, same]

theorem splitPreserves_of_wellPlaced (size : Int) (program : Program θ) (sequence : List Int)
    (sizePos : 1 ≤ size) (uniform : program.Uniform) (ordered : program.sequence = .ok sequence)
    (valid : ∀ place ∈ sequence, ValidPlace program.subroutines.length place)
    (placed : ∀ place ∈ sequence, WellPlaced (program.subroutines.map (isLong size))
      (fromStart program.subroutines.length place)) :
    program.SplitPreserves size := by
  obtain ⟨table, splits, length, entries⟩ := split_eq size program sizePos uniform
  obtain ⟨places, pieces, running, looked, cutRun, wholeRun, same⟩ :=
    run_along_table size program.dataQubits program.subroutines table sequence sizePos length
      entries valid placed
  have lengths := length_flatMap_cutMarks size program.dataQubits program.subroutines sizePos
  have sameRun : (program.bareSplit size table).run = program.run := by
    rw [run_eq program sequence running ordered wholeRun, ← same]
    exact run_eq _ _ pieces (bareSplit_sequence size program table _ _ ordered looked) cutRun
  refine ⟨_, program.bareSubroutines size, splits, lengths.symm, flatMap_parts _ _ _ sizePos,
    sameRun, ?_⟩
  intro wanted notIdentity
  have sameCounts := countEach_zipWith_padded wanted program.dataQubits _ _ lengths.symm notIdentity
  rw [← flatMap_parts _ _ _ sizePos] at sameCounts
  rw [count_eq_run wanted program, ← sameRun, ← count_eq_run]
  simp only [count, countEach, sameCounts, bareSplit, bareSubroutines, Program.sequence]

end QuantumResources.Program
