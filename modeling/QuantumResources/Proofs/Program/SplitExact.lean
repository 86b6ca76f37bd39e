import Mathlib.Data.Nat.Find
import QuantumResources.Proofs.Program.SplitRuns

/-! The split keeps the run of all programs of a shape only if every subroutine is well placed.

The other programs of the shape tell misplaced pieces apart: there a long subroutine has more
pieces than there are subroutines, one of them is marked, and short subroutines do nothing. -/

namespace QuantumResources.Program

variable {θ : Type}

/-! ## What a preserved run says -/

theorem mem_run (program : Program θ) (sequence : List Int) (operations : List (Operation θ))
    (operation : Operation θ) (ordered : program.sequence = .ok sequence)
    (runs : program.run = .ok operations) :
    operation ∈ operations ↔ ∃ place ∈ sequence, ∃ circuit,
      pick program.subroutines place = .ok circuit ∧ operation ∈ circuit.operations := by
  obtain ⟨running, found, rfl⟩ := run_eq_ok program sequence operations ordered runs
  rw [List.mem_flatMap]
  constructor
  · rintro ⟨circuit, isRunning, isThere⟩
    obtain ⟨place, member, picked⟩ := (Calc.mem_of_mapM found).mp isRunning
    exact ⟨place, member, circuit, picked, isThere⟩
  · rintro ⟨place, member, circuit, picked, isThere⟩
    exact ⟨circuit, (Calc.mem_of_mapM found).mpr ⟨place, member, picked⟩, isThere⟩

/-- A subroutine of the sequence has the operation. -/
def RunsWhole (program : Program θ) (sequence : List Int) (operation : Operation θ) : Prop :=
  ∃ place ∈ sequence, ∃ circuit,
    program.subroutines[fromStart program.subroutines.length place]? = some circuit ∧
      operation ∈ circuit.operations

/-- A piece that stands for a subroutine of the sequence has the operation. -/
def RunsCut (size : Int) (program : Program θ) (sequence : List Int) (operation : Operation θ) :
    Prop :=
  ∃ place ∈ sequence, ∃ circuit,
    program.subroutines[fromStart program.subroutines.length place]? = some circuit ∧
      ∃ position ∈ standIns size program.subroutines.length
          (program.subroutines.take (fromStart program.subroutines.length place)) circuit,
        ∃ piece, pick (program.bareSubroutines size) position = .ok piece ∧
          operation ∈ piece.operations

theorem SplitPreserves.bareSplit_run {size : Int} {program : Program θ}
    (preserved : program.SplitPreserves size) (sizePos : 1 ≤ size) (uniform : program.Uniform) :
    ∃ table : List (List Int), table.length = program.subroutines.length ∧
      (∀ (index : Nat) (circuit : Circuit θ), program.subroutines[index]? = some circuit →
        table[index]? = some
          (standIns size program.subroutines.length (program.subroutines.take index) circuit)) ∧
      (program.bareSplit size table).run = program.run := by
  obtain ⟨table, splits, length, entries⟩ := split_eq size program sizePos uniform
  obtain ⟨split, bare, alsoSplits, lengths, isPadded, sameRun, _⟩ := preserved
  rw [splits] at alsoSplits
  cases alsoSplits
  have bareLengths := length_flatMap_cutMarks size program.dataQubits program.subroutines sizePos
  have isBare : bare = program.bareSubroutines size :=
    zipWith_padded_injective _ _ _ _ lengths bareLengths.symm
      (isPadded.symm.trans (flatMap_parts _ _ _ sizePos))
  subst isBare
  exact ⟨table, length, entries, sameRun⟩

/-- The places that stand for the subroutines of a sequence. -/
theorem mem_places {size : Int} {circuits : List (Circuit θ)} {table : List (List Int)}
    {sequence : List Int} {places : List (List Int)} (length : table.length = circuits.length)
    (entries : ∀ (index : Nat) (circuit : Circuit θ), circuits[index]? = some circuit →
      table[index]? = some (standIns size circuits.length (circuits.take index) circuit))
    (valid : ∀ place ∈ sequence, ValidPlace circuits.length place)
    (looked : sequence.mapM (pick table) = .ok places) (position : Int) :
    position ∈ places.flatten ↔ ∃ place ∈ sequence, ∃ circuit,
      circuits[fromStart circuits.length place]? = some circuit ∧
        position ∈ standIns size circuits.length
          (circuits.take (fromStart circuits.length place)) circuit := by
  rw [List.mem_flatten]
  constructor
  · rintro ⟨entry, isEntry, inEntry⟩
    obtain ⟨place, member, picked⟩ := (Calc.mem_of_mapM looked).mp isEntry
    obtain ⟨circuit, runs, found⟩ := pick_valid circuits place (valid place member)
    rw [pick_table size circuits table length entries place circuit runs] at picked
    cases picked
    exact ⟨place, member, circuit, found, inEntry⟩
  · rintro ⟨place, member, circuit, found, inEntry⟩
    have runs := (pick_eq_ok_iff _ _ _).mpr ⟨(valid place member).1, found⟩
    have picked := pick_table size circuits table length entries place circuit runs
    exact ⟨_, (Calc.mem_of_mapM looked).mpr ⟨place, member, picked⟩, inEntry⟩

/-- The pieces that run in place of the subroutines have the same operations. -/
theorem SplitPreserves.runs_iff {size : Int} {program : Program θ} {sequence : List Int}
    (preserved : program.SplitPreserves size) (sizePos : 1 ≤ size) (uniform : program.Uniform)
    (ordered : program.sequence = .ok sequence)
    (valid : ∀ place ∈ sequence, ValidPlace program.subroutines.length place)
    (operation : Operation θ) :
    program.RunsWhole sequence operation ↔ program.RunsCut size sequence operation := by
  obtain ⟨table, length, entries, sameRun⟩ := preserved.bareSplit_run sizePos uniform
  obtain ⟨running, wholeRun⟩ := mapM_pick program.subroutines sequence valid
  obtain ⟨places, looked⟩ := mapM_pick table sequence (by rwa [length])
  have runs := run_eq program sequence running ordered wholeRun
  have inWhole := mem_run program sequence _ operation ordered runs
  have inPieces := mem_run _ _ _ operation
    (bareSplit_sequence size program table sequence places ordered looked) (sameRun.trans runs)
  constructor
  · rintro ⟨place, member, circuit, found, isThere⟩
    have picked := (pick_eq_ok_iff _ _ _).mpr ⟨(valid place member).1, found⟩
    obtain ⟨position, isPlaced, piece, pickedPiece, inPiece⟩ :=
      inPieces.mp (inWhole.mpr ⟨place, member, circuit, picked, isThere⟩)
    obtain ⟨other, otherMember, otherCircuit, otherFound, inEntry⟩ :=
      (mem_places length entries valid looked position).mp isPlaced
    exact ⟨other, otherMember, otherCircuit, otherFound, position, inEntry, piece, pickedPiece,
      inPiece⟩
  · rintro ⟨place, member, circuit, found, position, inEntry, piece, pickedPiece, inPiece⟩
    have isPlaced := (mem_places length entries valid looked position).mpr
      ⟨place, member, circuit, found, inEntry⟩
    obtain ⟨other, otherMember, otherCircuit, otherPicked, isThere⟩ :=
      inWhole.mp (inPieces.mpr ⟨position, isPlaced, piece, pickedPiece, inPiece⟩)
    exact ⟨other, otherMember, otherCircuit, ((pick_eq_ok_iff _ _ _).mp otherPicked).2, isThere⟩

/-! ## Programs that tell pieces apart -/

/-- A long circuit starts with its mark; a short one is empty. -/
def sampleCircuit (size : Int) (count : Nat) (qubits : Int) (long marked : Bool) : Circuit θ where
  qubits := qubits
  operations :=
    if long then
      (if marked then .other else .reset) :: List.replicate ((count + 1) * size.toNat - 1) .reset
    else []

/-- The program of the same shape whose only mark is in the subroutine `marked`. -/
def sample (size : Int) (marked : Nat) (program : Program θ) : Program θ where
  subroutines := program.subroutines.mapIdx fun index circuit =>
    sampleCircuit size program.subroutines.length circuit.qubits (isLong size circuit)
      (index == marked)
  steps := program.steps
  order := program.order

theorem length_sampleCircuit (size : Int) (count : Nat) (qubits : Int) (marked : Bool)
    (sizePos : 1 ≤ size) :
    (sampleCircuit size count qubits true marked : Circuit θ).operations.length =
      (count + 1) * size.toNat := by
  have some : 0 < (count + 1) * size.toNat := Nat.mul_pos (by omega) (by omega)
  simp only [sampleCircuit, if_true, List.length_cons, List.length_replicate]
  omega

theorem isLong_sampleCircuit (size : Int) (count : Nat) (qubits : Int) (long marked : Bool)
    (sizePos : 1 ≤ size) (countPos : 0 < count) :
    isLong size (sampleCircuit size count qubits long marked : Circuit θ) = long := by
  unfold isLong
  cases long with
  | false => simpa [sampleCircuit] using (by omega : 0 ≤ size)
  | true =>
    have more : 1 * size.toNat ≤ count * size.toNat := Nat.mul_le_mul_right _ countPos
    rw [length_sampleCircuit _ _ _ _ sizePos, Nat.add_mul]
    simp only [decide_eq_true_eq]
    omega

theorem length_cutMarks_sampleCircuit (size : Int) (count : Nat) (qubits : Int) (marked : Bool)
    (sizePos : 1 ≤ size) (countPos : 0 < count) :
    (cutMarks size (sampleCircuit size count qubits true marked : Circuit θ)).length =
      count + 1 := by
  unfold cutMarks
  rw [if_pos (isLong_sampleCircuit _ _ _ _ _ sizePos countPos), List.length_replicate,
    length_sampleCircuit _ _ _ _ sizePos, Nat.mul_comm]
  exact smul_ceilDiv (by omega) _

section Sample

variable {size : Int} {program : Program θ} {marked : Nat}

theorem sample_getElem? (index : Nat) :
    (program.sample size marked).subroutines[index]? =
      program.subroutines[index]?.map fun circuit =>
        sampleCircuit size program.subroutines.length circuit.qubits (isLong size circuit)
          (index == marked) := by
  simp [sample]

@[simp] theorem length_sample :
    (program.sample size marked).subroutines.length = program.subroutines.length := by
  simp [sample]

theorem sample_long (marked : Nat) (sizePos : 1 ≤ size) :
    (program.sample size marked).subroutines.map (isLong size) =
      program.subroutines.map (isLong size) := by
  apply List.ext_getElem?
  intro index
  rw [List.getElem?_map, sample_getElem?, List.getElem?_map, Option.map_map]
  cases found : program.subroutines[index]? with
  | none => rfl
  | some circuit =>
    have inside := (List.getElem?_eq_some_iff.mp found).1
    exact congrArg some (isLong_sampleCircuit _ _ _ _ _ sizePos (by omega))

theorem sample_uniform (uniform : program.Uniform) : (program.sample size marked).Uniform := by
  have allSame : ∀ circuit ∈ (program.sample size marked).subroutines,
      circuit.qubits = program.dataQubits := by
    intro circuit member
    obtain ⟨index, found⟩ := List.mem_iff_getElem?.mp member
    rw [sample_getElem?] at found
    obtain ⟨original, isOriginal, rfl⟩ := Option.map_eq_some_iff.mp found
    exact uniform.2 original (List.mem_of_getElem? isOriginal)
  refine uniform_of_same ?_ allSame
  rw [← List.length_pos_iff, length_sample]
  exact List.length_pos_iff.mpr uniform.1

theorem sample_sameShape (sizePos : 1 ≤ size) (uniform : program.Uniform) :
    SameShape size program (program.sample size marked) :=
  ⟨sample_uniform uniform, sample_long marked sizePos, rfl⟩

end Sample

/-! ## Marked pieces -/

theorem mem_chunks {β : Type} (size fuel : Nat) (items chunk : List β) (item : β)
    (isChunk : chunk ∈ chunks size fuel items) (member : item ∈ chunk) : item ∈ items := by
  induction fuel generalizing items with
  | zero => cases isChunk
  | succ fuel ih =>
    by_cases none : items = []
    · rw [none, chunks_nil] at isChunk
      cases isChunk
    · rw [chunks_step _ _ _ none, List.mem_cons] at isChunk
      rcases isChunk with rfl | later
      · exact List.mem_of_mem_take member
      · exact List.mem_of_mem_drop (ih _ later)

theorem chunks_ne_nil {β : Type} (size fuel : Nat) (items chunk : List β) (sizePos : 0 < size)
    (isChunk : chunk ∈ chunks size fuel items) : chunk ≠ [] := by
  induction fuel generalizing items with
  | zero => cases isChunk
  | succ fuel ih =>
    by_cases none : items = []
    · rw [none, chunks_nil] at isChunk
      cases isChunk
    · rw [chunks_step _ _ _ none, List.mem_cons] at isChunk
      rcases isChunk with rfl | later
      · simp only [ne_eq, List.take_eq_nil_iff, not_or]
        exact ⟨by omega, none⟩
      · exact ih _ later

theorem piece_ne_nil (size qubits : Int) (circuit piece : Circuit θ) (sizePos : 1 ≤ size)
    (long : isLong size circuit = true) (isPiece : piece ∈ bareParts size qubits circuit) :
    piece.operations ≠ [] := by
  rw [bareParts, if_pos long] at isPiece
  obtain ⟨chunk, isChunk, rfl⟩ := List.mem_map.mp isPiece
  exact chunks_ne_nil _ _ _ _ (by omega) isChunk

/-- The mark is in the first piece only. -/
theorem mark_in_first_piece (size qubits : Int) (count : Nat) (inside : Int) (marked : Bool)
    (offset : Nat) (piece : Circuit θ) (sizePos : 1 ≤ size) (countPos : 0 < count)
    (found : (bareParts size qubits (sampleCircuit size count inside true marked))[offset]? =
      some piece)
    (isMarked : .other ∈ piece.operations) : offset = 0 := by
  have long := isLong_sampleCircuit (θ := θ) size count inside true marked sizePos countPos
  obtain ⟨width, rfl⟩ : ∃ width : Nat, size = width + 1 := ⟨(size - 1).toNat, by omega⟩
  rw [bareParts, if_pos long] at found
  cases offset with
  | zero => rfl
  | succ offset =>
    simp only [sampleCircuit, if_true, List.length_cons, chunks_step _ _ _ (List.cons_ne_nil _ _),
      List.map_cons, List.getElem?_cons_succ] at found
    obtain ⟨chunk, isChunk, rfl⟩ := List.mem_map.mp (List.mem_of_getElem? found)
    have inRest := mem_chunks _ _ _ _ _ isChunk isMarked
    have toNat : ((width : Int) + 1).toNat = width + 1 := by omega
    rw [toNat, List.drop_succ_cons] at inRest
    have isFiller := List.eq_of_mem_replicate (List.mem_of_mem_drop inRest)
    cases isFiller

theorem mark_of_sampleCircuit (size : Int) (count : Nat) (qubits : Int) (long marked : Bool)
    (isMarked : .other ∈ (sampleCircuit size count qubits long marked : Circuit θ).operations) :
    long = true ∧ marked = true := by
  cases long with
  | false => simp [sampleCircuit] at isMarked
  | true =>
    cases marked with
    | false => simp [sampleCircuit] at isMarked
    | true => exact ⟨rfl, rfl⟩

/-! ## Positions that the table can reach -/

/-- A long circuit leaves its old place to its pieces. -/
theorem length_flatMap_bareParts (size qubits : Int) (circuits : List (Circuit θ))
    (sizePos : 1 ≤ size) :
    (circuits.flatMap (bareParts size qubits)).length + circuits.countP (isLong size) =
      cutCount size circuits + circuits.length := by
  induction circuits with
  | nil => rfl
  | cons circuit rest ih =>
    have apart := cutCount_append size [circuit] rest
    rw [List.singleton_append] at apart
    rw [List.flatMap_cons, List.length_append, List.countP_cons, List.length_cons, apart]
    cases long : isLong size circuit with
    | false =>
      rw [bareParts_short _ _ _ long, cutCount_short _ _ long, List.length_singleton]
      simp only [Bool.false_eq_true, if_false]
      omega
    | true =>
      rw [cutCount_long _ _ long, length_cutMarks size qubits circuit sizePos]
      simp only [if_true]
      omega

theorem cutCount_take_le (size : Int) (circuits : List (Circuit θ)) (first second : Nat)
    (before : first ≤ second) :
    cutCount size (circuits.take first) ≤ cutCount size (circuits.take second) := by
  obtain ⟨rest, whole⟩ := List.take_prefix_take_left before (l := circuits)
  rw [← whole, cutCount_append]
  omega

theorem length_cutMarks_le (size : Int) (circuits : List (Circuit θ)) (circuit : Circuit θ)
    (member : circuit ∈ circuits) (long : isLong size circuit = true) :
    (cutMarks size circuit).length ≤ cutCount size circuits := by
  obtain ⟨front, back, rfl⟩ := List.append_of_mem member
  have apart := cutCount_append size [circuit] back
  rw [List.singleton_append, cutCount_long _ _ long] at apart
  rw [cutCount_append, apart]
  omega

/-- The first piece of a misplaced long subroutine comes before all pieces that the table gives to
it and to later long subroutines. -/
theorem block_lt_of_misplaced (size qubits : Int) (circuits : List (Circuit θ)) (index : Nat)
    (circuit : Circuit θ) (sizePos : 1 ≤ size) (found : circuits[index]? = some circuit)
    (misplaced : ¬ WellPlaced (circuits.map (isLong size)) index) :
    ((circuits.take index).flatMap (bareParts size qubits)).length + 1 <
      circuits.length + cutCount size (circuits.take index) := by
  have inside := (List.getElem?_eq_some_iff.mp found).1
  have counted := length_flatMap_bareParts size qubits (circuits.take index) sizePos
  rw [List.length_take, Nat.min_eq_left (by omega)] at counted
  by_contra notBefore
  have noLong : (circuits.take index).countP (isLong size) = 0 := by omega
  have last : index + 1 = circuits.length := by omega
  refine misplaced ⟨?_, fun _ => by rw [List.length_map, last]⟩
  rw [← List.map_take]
  intro isLongBefore
  obtain ⟨earlier, member, long⟩ := List.mem_map.mp isLongBefore
  exact List.countP_eq_zero.mp noLong earlier member long

section Reached

variable {size : Int} {program : Program θ} {marked : Nat}

theorem sample_cutMarks (circuit : Circuit θ) (sizePos : 1 ≤ size)
    (member : circuit ∈ (program.sample size marked).subroutines)
    (long : isLong size circuit = true) :
    (cutMarks size circuit).length = program.subroutines.length + 1 := by
  obtain ⟨index, found⟩ := List.mem_iff_getElem?.mp member
  rw [sample_getElem?] at found
  obtain ⟨original, isOriginal, rfl⟩ := Option.map_eq_some_iff.mp found
  have inside := (List.getElem?_eq_some_iff.mp isOriginal).1
  rw [isLong_sampleCircuit _ _ _ _ _ sizePos (by omega)] at long
  rw [long]
  exact length_cutMarks_sampleCircuit _ _ _ _ sizePos (by omega)

/-- The marked piece is the first one of the marked subroutine. -/
theorem marked_position (sizePos : 1 ≤ size) (position : Nat) (piece : Circuit θ)
    (found : ((program.sample size marked).bareSubroutines size)[position]? = some piece)
    (isMarked : .other ∈ piece.operations) :
    position = (((program.sample size marked).subroutines.take marked).flatMap
      (bareParts size (program.sample size marked).dataQubits)).length := by
  obtain ⟨index, circuit, offset, isThere, isPiece, rfl⟩ := exists_block _ _ _ _ found
  have inCircuit : .other ∈ circuit.operations := by
    rw [← flatMap_bareParts size (program.sample size marked).dataQubits circuit sizePos]
    exact List.mem_flatMap.mpr ⟨piece, List.mem_of_getElem? isPiece, isMarked⟩
  rw [sample_getElem?] at isThere
  obtain ⟨original, isOriginal, rfl⟩ := Option.map_eq_some_iff.mp isThere
  have inside := (List.getElem?_eq_some_iff.mp isOriginal).1
  obtain ⟨long, here⟩ := mark_of_sampleCircuit _ _ _ _ _ inCircuit
  rw [long] at isPiece
  have first := mark_in_first_piece _ _ _ _ _ _ _ sizePos (by omega) isPiece isMarked
  rw [first, Nat.add_zero, beq_iff_eq.mp here]

theorem mark_unreached (sizePos : 1 ≤ size) (index : Nat) (circuit : Circuit θ) (position : Int)
    (piece : Circuit θ)
    (markedLong : (program.subroutines.map (isLong size))[marked]? = some true)
    (misplaced : ¬ WellPlaced (program.subroutines.map (isLong size)) marked)
    (least : (program.subroutines.map (isLong size))[index]? = some true → marked ≤ index)
    (found : (program.sample size marked).subroutines[index]? = some circuit)
    (reached : position ∈ standIns size program.subroutines.length
      ((program.sample size marked).subroutines.take index) circuit)
    (picked : pick ((program.sample size marked).bareSubroutines size) position = .ok piece) :
    .other ∉ piece.operations := by
  intro isMarked
  have inside := (List.getElem?_eq_some_iff.mp found).1
  rw [← sample_long marked sizePos] at markedLong misplaced least
  rw [List.getElem?_map] at markedLong least
  obtain ⟨markedCircuit, markedFound, markedIsLong⟩ := Option.map_eq_some_iff.mp markedLong
  have markedInside := (List.getElem?_eq_some_iff.mp markedFound).1
  rw [found] at least
  -- The position is a number from the start, and the mark pins it to the marked block.
  have located : ∀ natural : Nat, position = natural →
      natural = (((program.sample size marked).subroutines.take marked).flatMap
        (bareParts size (program.sample size marked).dataQubits)).length := by
    rintro natural rfl
    rw [pick_eq_ok_iff, fromStart_natCast] at picked
    exact marked_position sizePos natural piece picked.2 isMarked
  have counted := length_flatMap_bareParts size (program.sample size marked).dataQubits
    ((program.sample size marked).subroutines.take marked) sizePos
  rw [length_sample] at inside markedInside
  unfold standIns at reached
  split at reached
  · next long =>
    have later : marked ≤ index := least (congrArg some long)
    have beyond := block_lt_of_misplaced size (program.sample size marked).dataQubits _ _ _ sizePos
      markedFound misplaced
    have grows := cutCount_take_le size (program.sample size marked).subroutines _ _ later
    obtain ⟨offset, _, rfl⟩ := List.mem_map.mp reached
    have atBlock := located
      (program.subroutines.length - 1 +
        cutCount size ((program.sample size marked).subroutines.take index) + offset) (by omega)
    rw [length_sample] at beyond
    omega
  · next short =>
    rw [List.mem_singleton, List.length_take, length_sample, Nat.min_eq_left (by omega)] at reached
    have atBlock := located index reached
    by_cases longBefore : true ∈ ((program.sample size marked).subroutines.take marked).map
        (isLong size)
    · obtain ⟨earlier, member, long⟩ := List.mem_map.mp longBefore
      have many := length_cutMarks_le size _ earlier member long
      rw [sample_cutMarks earlier sizePos (List.mem_of_mem_take member) long] at many
      have atMost := List.countP_le_length (p := isLong size)
        (l := (program.sample size marked).subroutines.take marked)
      omega
    · rw [flatMap_bareParts_short _ _ _ longBefore, List.length_take, length_sample,
        Nat.min_eq_left (by omega)] at atBlock
      subst atBlock
      rw [found] at markedFound
      cases markedFound
      exact short markedIsLong

theorem sample_short (index : Nat) (circuit : Circuit θ) (sizePos : 1 ≤ size)
    (short : (program.subroutines.map (isLong size))[index]? ≠ some true)
    (found : (program.sample size marked).subroutines[index]? = some circuit) :
    isLong size circuit = false ∧ circuit.operations = [] := by
  rw [← sample_long marked sizePos, List.getElem?_map, found, Option.map_some] at short
  have notLong : isLong size circuit = false := by simpa using short
  rw [sample_getElem?] at found
  obtain ⟨original, isOriginal, rfl⟩ := Option.map_eq_some_iff.mp found
  have inside := (List.getElem?_eq_some_iff.mp isOriginal).1
  refine ⟨notLong, ?_⟩
  rw [isLong_sampleCircuit _ _ _ _ _ sizePos (by omega)] at notLong
  simp [sampleCircuit, notLong]

/-- A short subroutine after a long one is taken for a piece of it. -/
theorem piece_reached (marked : Nat) (sizePos : 1 ≤ size) (first index : Nat)
    (isLongFirst : (program.subroutines.map (isLong size))[first]? = some true)
    (noneBefore : true ∉ (program.subroutines.map (isLong size)).take first)
    (after : first < index) (inside : index < program.subroutines.length) :
    ∃ piece, pick ((program.sample size marked).bareSubroutines size) (index : Int) = .ok piece ∧
      piece.operations ≠ [] := by
  rw [← sample_long marked sizePos] at isLongFirst noneBefore
  rw [List.getElem?_map] at isLongFirst
  obtain ⟨circuit, found, long⟩ := Option.map_eq_some_iff.mp isLongFirst
  rw [← List.map_take] at noneBefore
  have pieces := length_cutMarks size (program.sample size marked).dataQubits circuit sizePos
  rw [sample_cutMarks circuit sizePos (List.mem_of_getElem? found) long] at pieces
  have within : index - first <
      (bareParts size (program.sample size marked).dataQubits circuit).length := by omega
  obtain ⟨piece, isPiece⟩ : ∃ piece,
      (bareParts size (program.sample size marked).dataQubits circuit)[index - first]? =
        some piece := ⟨_, List.getElem?_eq_getElem within⟩
  have position := getElem?_block _ _ _ _ _ _ found isPiece
  rw [flatMap_bareParts_short _ _ _ noneBefore, List.length_take, length_sample,
    Nat.min_eq_left (by omega), Nat.add_sub_cancel' (by omega)] at position
  exact ⟨piece, pick_natCast _ _ _ position,
    piece_ne_nil _ _ _ _ sizePos long (List.mem_of_getElem? isPiece)⟩

end Reached

/-! ## The exact condition -/

/-- The first long subroutine that runs is misplaced as soon as any subroutine that runs is. -/
theorem misplaced_of_least (long : List Bool) (least index : Nat) (inside : index < long.length)
    (leastLong : long[least]? = some true) (misplaced : ¬ WellPlaced long index)
    (first : long[index]? = some true → least ≤ index) : ¬ WellPlaced long least := by
  rintro ⟨noneBefore, lastIfLong⟩
  have last := lastIfLong leastLong
  apply misplaced
  have before : index ≤ least := by omega
  refine ⟨?_, fun isLong => by have := first isLong; omega⟩
  intro longBefore
  obtain ⟨earlier, earlierBefore, isLong⟩ := (mem_take_iff _ _ _).mp longBefore
  exact noneBefore ((mem_take_iff _ _ _).mpr ⟨earlier, by omega, isLong⟩)

theorem exists_first_long (long : List Bool) (index : Nat) (misplaced : ¬ WellPlaced long index)
    (short : long[index]? ≠ some true) :
    ∃ first < index, long[first]? = some true ∧ true ∉ long.take first := by
  have longBefore : true ∈ long.take index := by
    by_contra noneBefore
    exact misplaced ⟨noneBefore, fun isLong => absurd isLong short⟩
  obtain ⟨earlier, before, isLong⟩ := (mem_take_iff _ _ _).mp longBefore
  have someLong : ∃ first, long[first]? = some true := ⟨earlier, isLong⟩
  refine ⟨Nat.find someLong, lt_of_le_of_lt (Nat.find_min' someLong isLong) before,
    Nat.find_spec someLong, ?_⟩
  intro stillEarlier
  obtain ⟨other, otherBefore, otherLong⟩ := (mem_take_iff _ _ _).mp stillEarlier
  exact Nat.find_min someLong otherBefore otherLong

/-- The mark of the first long subroutine that runs is lost. -/
theorem mark_lost (size : Int) (program : Program θ) (sequence : List Int) (marked : Nat)
    (sizePos : 1 ≤ size) (markedLong : (program.subroutines.map (isLong size))[marked]? = some true)
    (misplaced : ¬ WellPlaced (program.subroutines.map (isLong size)) marked)
    (runs : ∃ place ∈ sequence, fromStart program.subroutines.length place = marked)
    (least : ∀ place ∈ sequence, (program.subroutines.map (isLong size))[
        fromStart program.subroutines.length place]? = some true →
      marked ≤ fromStart program.subroutines.length place) :
    (program.sample size marked).RunsWhole sequence .other ∧
      ¬ (program.sample size marked).RunsCut size sequence .other := by
  constructor
  · obtain ⟨place, member, isMarked⟩ := runs
    rw [List.getElem?_map] at markedLong
    obtain ⟨original, isOriginal, isLong⟩ := Option.map_eq_some_iff.mp markedLong
    refine ⟨place, member, _, by rw [length_sample, isMarked, sample_getElem?, isOriginal]; rfl, ?_⟩
    simp [sampleCircuit, isLong]
  · rintro ⟨place, member, circuit, found, position, reached, piece, picked, inPiece⟩
    rw [length_sample] at found reached
    exact mark_unreached sizePos _ circuit position piece markedLong misplaced (least place member)
      found reached picked inPiece

/-- If only short subroutines run, nothing should happen; yet a piece of a long one runs in the
place of a misplaced one. -/
theorem piece_intrudes (size : Int) (program : Program θ) (sequence : List Int) (place : Int)
    (sizePos : 1 ≤ size) (member : place ∈ sequence)
    (inside : fromStart program.subroutines.length place < program.subroutines.length)
    (misplaced : ¬ WellPlaced (program.subroutines.map (isLong size))
      (fromStart program.subroutines.length place))
    (shortRuns : ∀ other ∈ sequence, (program.subroutines.map (isLong size))[
      fromStart program.subroutines.length other]? ≠ some true) :
    ∃ operation, ¬ (program.sample size 0).RunsWhole sequence operation ∧
      (program.sample size 0).RunsCut size sequence operation := by
  obtain ⟨first, after, isLongFirst, noneBefore⟩ := exists_first_long _ _ misplaced
    (shortRuns place member)
  obtain ⟨piece, picked, someOperation⟩ := piece_reached 0 sizePos first _ isLongFirst
    noneBefore after inside
  obtain ⟨operation, inPiece⟩ := List.exists_mem_of_ne_nil _ someOperation
  refine ⟨operation, ?_, ?_⟩
  · rintro ⟨other, otherRuns, otherCircuit, otherFound, isThere⟩
    rw [length_sample] at otherFound
    rw [(sample_short _ otherCircuit sizePos (shortRuns other otherRuns) otherFound).2] at isThere
    cases isThere
  · obtain ⟨circuit, found⟩ : ∃ circuit, (program.sample size 0).subroutines[
        fromStart program.subroutines.length place]? = some circuit :=
      ⟨_, List.getElem?_eq_getElem (by rwa [length_sample])⟩
    have isShort := (sample_short _ circuit sizePos (shortRuns place member) found).1
    have reached : (fromStart program.subroutines.length place : Int) ∈
        standIns size program.subroutines.length ((program.sample size 0).subroutines.take
          (fromStart program.subroutines.length place)) circuit := by
      simp [standIns, isShort, inside.le]
    refine ⟨place, member, circuit, by rwa [length_sample], _, ?_, piece, picked, inPiece⟩
    rwa [length_sample]

theorem wellPlaced_of_splitPreserves (size : Int) (program : Program θ) (sequence : List Int)
    (sizePos : 1 ≤ size) (uniform : program.Uniform) (ordered : program.sequence = .ok sequence)
    (valid : ∀ place ∈ sequence, ValidPlace program.subroutines.length place)
    (preserved : ∀ marked, (program.sample size marked).SplitPreserves size) :
    ∀ place ∈ sequence, WellPlaced (program.subroutines.map (isLong size))
      (fromStart program.subroutines.length place) := by
  intro place member
  by_contra misplaced
  have inside := fromStart_lt _ _ (valid place member)
  have sameRuns := fun (marked : Nat) => (preserved marked).runs_iff sizePos
    (sample_uniform uniform) ordered (by simpa using valid)
  by_cases longRuns : ∃ index, (program.subroutines.map (isLong size))[index]? = some true ∧
      ∃ other ∈ sequence, fromStart program.subroutines.length other = index
  · classical
    obtain ⟨markedLong, runs⟩ := Nat.find_spec longRuns
    have least : ∀ other ∈ sequence, (program.subroutines.map (isLong size))[
          fromStart program.subroutines.length other]? = some true →
        Nat.find longRuns ≤ fromStart program.subroutines.length other :=
      fun other otherRuns isLong => Nat.find_min' longRuns ⟨isLong, other, otherRuns, rfl⟩
    have alsoMisplaced := misplaced_of_least _ _ _ (by simpa using inside) markedLong misplaced
      (least place member)
    obtain ⟨isRun, isLost⟩ := mark_lost size program sequence _ sizePos markedLong alsoMisplaced
      runs least
    exact isLost ((sameRuns _ .other).mp isRun)
  · obtain ⟨operation, isNotRun, intrudes⟩ := piece_intrudes size program sequence place sizePos
      member inside misplaced fun other runs isLong => longRuns ⟨_, isLong, other, runs, rfl⟩
    exact isNotRun ((sameRuns 0 operation).mpr intrudes)

/-- Splitting keeps the runs of all programs of a shape if and only if every subroutine that runs
has only short ones before it, and is short itself or the last. -/
theorem split_preserves_iff (size : Int) (program : Program θ) (sequence : List Int)
    (sizePos : 1 ≤ size) (uniform : program.Uniform) (ordered : program.sequence = .ok sequence)
    (valid : ∀ place ∈ sequence, ValidPlace program.subroutines.length place) :
    (∀ other, SameShape size program other → other.SplitPreserves size) ↔
      ∀ place ∈ sequence, WellPlaced (program.subroutines.map (isLong size))
        (fromStart program.subroutines.length place) := by
  constructor
  · intro preserved
    exact wellPlaced_of_splitPreserves size program sequence sizePos uniform ordered valid
      fun marked => preserved _ (sample_sameShape sizePos uniform)
  · intro placed other shape
    have sameCount : other.subroutines.length = program.subroutines.length := by
      simpa using congrArg List.length shape.long
    refine splitPreserves_of_wellPlaced size other sequence sizePos shape.uniform
      (shape.sequence.trans ordered) (by rwa [sameCount]) ?_
    rw [shape.long, sameCount]
    exact placed

/-- Only the last subroutine is long; it runs first, counted from the end. -/
def lastIsLong : Program Int where
  subroutines := [.on 2 [.reset], .on 2 [], .on 2 [.reset, .other, .reset]]
  steps := 1
  order := fun _ => .ok [-1, 0, 1, 2]

theorem split_preserves_lastIsLong :
    lastIsLong.Uniform ∧ lastIsLong.sequence = .ok [-1, 0, 1, 2] ∧
      lastIsLong.SplitPreserves 2 := by
  have uniform : lastIsLong.Uniform := ⟨by simp [lastIsLong], by simp [lastIsLong, dataQubits]⟩
  refine ⟨uniform, rfl, ?_⟩
  exact (split_preserves_iff 2 lastIsLong [-1, 0, 1, 2] (by decide) uniform rfl (by decide)).mpr
    (by decide) lastIsLong ⟨uniform, rfl, rfl⟩

/-- Two long subroutines of which the first runs. -/
def twoLong : Program Int where
  subroutines :=
    [.on 1 [.gate ⟨.plain "T", [0]⟩, .gate ⟨.plain "T", [0]⟩],
      .on 1 [.gate ⟨.plain "H", [0]⟩, .gate ⟨.plain "H", [0]⟩]]
  steps := 1
  order := fun _ => .ok [0]

/-- Its second piece and the first piece of the other subroutine run, so that a T gate is lost. -/
theorem split_misplaces_twoLong :
    (twoLong.split 1 >>= sequence) = .ok [1, 2] ∧ (twoLong.split 1 >>= tGates) = .ok 1 ∧
      twoLong.tGates = .ok 2 ∧ ¬ twoLong.SplitPreserves 1 := by
  have fewer : (twoLong.split 1 >>= tGates) = .ok 1 := by rfl
  have whole : twoLong.tGates = .ok 2 := by rfl
  refine ⟨by rfl, fewer, whole, ?_⟩
  rintro ⟨split, bare, splits, _, _, _, counts⟩
  have same : split.tGates = twoLong.tGates := counts isT (by rfl)
  rw [splits, Calc.ok_bind, same, whole] at fewer
  cases fewer

end QuantumResources.Program
