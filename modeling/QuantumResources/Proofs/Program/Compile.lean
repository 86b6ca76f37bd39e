import QuantumResources.Engine.Script
import QuantumResources.Program.Compile
import QuantumResources.Proofs.Engine.Dialogue
import QuantumResources.Proofs.Program.Pieces
import QuantumResources.Proofs.Progress

/-! When a program can be compiled in pieces.

The pieces are compiled in their order, but put together by the order of the program before the
split. That works only if nothing was split at all. -/

namespace QuantumResources.ProgramCompiler

open Dialogue

variable {σ : Type}

/-! ## Assumptions about the engine -/

/-- The engine starts tasks, takes every gate apart, and the compiler makes a subroutine of every
circuit. -/
structure Answers (engine : Engine σ) (compiler : Compiler) : Prop where
  start : ∀ before, ∃ answer after,
    engine.call ⟨"run", 0⟩ [.text "in_process"] [] before = (.ok answer, after)
  decompose : ∀ gate before, ∃ reply operations after,
    engine.call ⟨Native.decomposer, 0⟩ [.operation (.gate gate), .list (Rule.all.map .rule)] []
      before = (.ok reply, after) ∧ Native.operationsOf reply = .ok operations
  compile : ∀ circuit before, ∃ subroutine after,
    Ends engine (compiler circuit) before subroutine after

/-- A single result is delivered by itself, several results together. -/
def Delivery.ofCount (count : Nat) : Delivery := if count = 1 then .firstAlone else .together

theorem deliver_ofCount {β : Type} (results : List β) :
    (Delivery.ofCount results.length).deliver results = .ok results := by
  unfold Delivery.ofCount
  split
  · next alone =>
    obtain ⟨result, rfl⟩ := List.length_eq_one_iff.mp alone
    rfl
  · rfl

/-! ## Tasks -/

/-- A circuit made native and then compiled. -/
def nativeThenCompiled (compiler : Compiler) (circuit : Circuit Scalar) :
    Dialogue CompiledSubroutine :=
  Native.circuit false circuit >>= compiler

theorem outcome_native (engine : Engine σ) (verbose : Bool) (circuit : Circuit Scalar)
    (before : σ) :
    (Native.circuit verbose circuit).outcome engine before =
      (Native.circuit false circuit).outcome engine before := by
  unfold Native.circuit
  rw [outcome_sayIf_bind, outcome_sayIf_bind]

/-- What a task prints does not matter. -/
theorem outcome_task (engine : Engine σ) (compiler : Compiler) (verbose : Bool) (count place : Nat)
    (circuit : Circuit Scalar) (before : σ) :
    (task compiler verbose count place circuit).outcome engine before =
      (nativeThenCompiled compiler circuit).outcome engine before := by
  unfold task nativeThenCompiled
  rw [outcome_sayIf_bind, outcome_bind, outcome_bind, outcome_native]
  congr 1
  funext ended
  exact outcome_sayIf_bind _ _ _ _ _

theorem outcome_compiledParts (engine : Engine σ) (compiler : Compiler) (size : Int)
    (verbose : Bool) (program split : Program Scalar) (before : σ)
    (splits : program.split size = .ok split) :
    (compiledParts compiler (.whole size) verbose program).outcome engine before =
      (split.subroutines.mapM (nativeThenCompiled compiler)).outcome engine before := by
  have whole : (Datum.whole size).toWhole = .ok size := rfl
  have sameTasks := outcome_mapM_congr engine
    (fun (entry : Circuit Scalar × Nat) (_ : entry ∈ split.subroutines.zipIdx) state =>
      outcome_task engine compiler verbose program.subroutines.length entry.2 entry.1 state) before
  unfold compiledParts
  rw [outcome_lift_bind engine whole, outcome_lift_bind engine splits]
  refine sameTasks.trans ?_
  conv => rhs; rw [← List.zipIdx_map_fst 0 split.subroutines, List.mapM_map]
  rfl

theorem decomposed_ends {engine : Engine σ} {compiler : Compiler}
    (answers : Answers engine compiler) (operation : Operation Scalar) (before : σ) :
    ∃ operations after, Ends engine (Native.decomposed operation) before operations after := by
  cases operation with
  | gate gate =>
    obtain ⟨reply, operations, after, called, isList⟩ := answers.decompose gate before
    have asked : Ends engine
        (ask Native.decomposer [.operation (.gate gate), .list (Rule.all.map .rule)]) before reply
        after := by
      simp only [Ends, ask, outcome, called]
    exact ⟨operations, after, asked.bind (ends_lift isList)⟩
  | reset => exact ⟨_, _, ends_pure _⟩
  | other => exact ⟨_, _, ends_pure _⟩

theorem nativeThenCompiled_ends {engine : Engine σ} {compiler : Compiler}
    (answers : Answers engine compiler) (circuit : Circuit Scalar) (before : σ) :
    ∃ subroutine after,
      Ends engine (nativeThenCompiled compiler circuit) before subroutine after := by
  obtain ⟨operations, between, _, ended⟩ := exists_ends_mapM before
    fun operation (_ : operation ∈ circuit.operations) state =>
      decomposed_ends answers operation state
  obtain ⟨shown, isShown⟩ := Progress.exists_text circuit.operations.length
  obtain ⟨subroutine, after, compiled⟩ :=
    answers.compile { circuit with operations := operations.flatten } between
  have native : Ends engine (Native.circuit false circuit) before
      { circuit with operations := operations.flatten } between :=
    (ends_sayIf false _).bind (ended.bind ((ends_lift isShown).bind
      ((ends_say shown).bind (ends_pure _))))
  exact ⟨subroutine, after, native.bind compiled⟩

theorem start_ends (engine : Engine σ) (place : Place) (before after : σ) (answer : Datum)
    (singleThread : place.destination = "single-thread")
    (called : engine.call ⟨"run", 0⟩ [.text "in_process"] [] before = (.ok answer, after)) :
    Ends engine place.start before () after := by
  unfold Place.start
  rw [singleThread]
  have asked : Ends engine (ask "run" [.text "in_process"] []) before answer after := by
    simp only [Ends, ask, outcome, called]
  exact asked.bind (ends_pure ())

/-! ## The sequence of a program in which nothing is split -/

section Sequence

variable {table : List (List Int)} {count : Nat}

theorem pick_unsplit (length : table.length = count)
    (entries : ∀ index < count, table[index]? = some [(index : Int)]) {place : Int}
    {entry : List Int} (picked : pick table place = .ok entry) :
    ValidPlace count place ∧ entry = [(fromStart count place : Int)] := by
  rw [pick_eq_ok_iff, length] at picked
  obtain ⟨low, found⟩ := picked
  have inside := (List.getElem?_eq_some_iff.mp found).1
  rw [length] at inside
  rw [entries _ inside, Option.some.injEq] at found
  refine ⟨⟨low, ?_⟩, found.symm⟩
  unfold fromStart at inside
  split at inside <;> omega

theorem mapM_unsplit (length : table.length = count)
    (entries : ∀ index < count, table[index]? = some [(index : Int)]) {sequence : List Int}
    {places : List (List Int)} (looked : sequence.mapM (pick table) = .ok places) :
    places.flatten = sequence.map (fun place => (fromStart count place : Int)) ∧
      ∀ place ∈ sequence, ValidPlace count place := by
  induction sequence generalizing places with
  | nil =>
    cases looked
    exact ⟨rfl, by simp⟩
  | cons place rest ih =>
    obtain ⟨entry, later, picked, remaining, rfl⟩ := Calc.mapM_eq_ok_cons looked
    obtain ⟨valid, rfl⟩ := pick_unsplit length entries picked
    obtain ⟨flattened, allValid⟩ := ih remaining
    rw [List.flatten_cons, flattened]
    exact ⟨rfl, by simpa using ⟨valid, allValid⟩⟩

/-- Places that count from the start are kept; all others are changed or refused. -/
theorem orderThrough_unsplit (length : table.length = count)
    (entries : ∀ index < count, table[index]? = some [(index : Int)]) (order : Order)
    (steps : Int) :
    Program.orderThrough table order steps = order steps ↔
      ∀ sequence, order steps = .ok sequence → ∀ place ∈ sequence, 0 ≤ place ∧ place < count := by
  unfold Program.orderThrough
  cases ordered : order steps with
  | error failure => simp
  | ok sequence =>
    simp only [Calc.ok_bind, Except.ok.injEq, forall_eq']
    constructor
    · intro same place member
      obtain ⟨places, looked, flattened⟩ := Calc.bind_eq_ok.mp same
      obtain ⟨counted, valid⟩ := mapM_unsplit length entries looked
      have kept : sequence.map (fun place => (fromStart count place : Int)) = sequence.map id := by
        rw [← counted, List.map_id]
        exact Except.ok.inj flattened
      have isKept : (fromStart count place : Int) = place := List.map_inj_left.mp kept place member
      have inside := fromStart_lt count place (valid place member)
      omega
    · intro fromZero
      have looked : sequence.mapM (pick table) = .ok (sequence.map fun place => [place]) := by
        apply Calc.mapM_eq_ok_map
        intro place member
        obtain ⟨low, high⟩ := fromZero place member
        obtain ⟨index, rfl⟩ := Int.eq_ofNat_of_zero_le low
        exact pick_natCast _ _ _ (entries index (by omega))
      have flattened : (sequence.map fun place => [place]).flatten = sequence := by
        rw [← List.flatMap_def, List.flatMap_singleton']
      rw [looked]
      exact congrArg Except.ok flattened

end Sequence

/-! ## Compilation -/

/-- The compilation puts the compiled parts together. -/
theorem outcome_compile (engine : Engine σ) (compiler : Compiler) (place : Place)
    (delivery : Delivery) (size : Int) (verbose : Bool) (program split : Program Scalar)
    (before started final : σ) (results : List CompiledSubroutine)
    (splits : program.split size = .ok split)
    (startEnds : Ends engine place.start before () started)
    (partsEnd : Ends engine (split.subroutines.mapM (nativeThenCompiled compiler)) started results
      final)
    (delivered : delivery.deliver results = .ok results) :
    (compile compiler place delivery (.whole size) verbose program).outcome engine before =
      program.withCompiled results >>= fun compiled => .ok (compiled, final) := by
  have compiledEnds : Ends engine (compiledParts compiler (.whole size) verbose program) started
      results final := by
    unfold Ends
    rw [outcome_compiledParts engine compiler size verbose program split started splits]
    exact partsEnd
  unfold compile
  rw [outcome_sayIf_bind, outcome_bind, startEnds, Calc.ok_bind, outcome_bind, compiledEnds,
    Calc.ok_bind, outcome_lift_bind engine delivered, outcome_sayIf_bind]
  cases program.withCompiled results <;> rfl

/-- The compilation gives the compiled pieces of the split program, in order, to be run in the
sequence of the split program. -/
def CompilesSplit (engine : Engine σ) (compiler : Compiler) (size : Int) (program : Program Scalar)
    (before : σ) (outcome : Except Failure CompiledProgram) : Prop :=
  ∃ split answer started results final compiled,
    program.split size = .ok split ∧
    engine.call ⟨"run", 0⟩ [.text "in_process"] [] before = (.ok answer, started) ∧
    Ends engine (split.subroutines.mapM (nativeThenCompiled compiler)) started results final ∧
    outcome = .ok compiled ∧ compiled.subroutines = results ∧ compiled.sequence = split.sequence

theorem withCompiled_eq (program : Program Scalar) (results : List CompiledSubroutine)
    (some : program.subroutines ≠ []) (asMany : results.length = program.subroutines.length) :
    program.withCompiled results = .ok ⟨results, program.steps, program.order⟩ := by
  have notEmpty : results.isEmpty = false := by
    rw [List.isEmpty_eq_false_iff, ← List.length_pos_iff, asMany]
    exact List.length_pos_iff.mpr some
  simp [Program.withCompiled, CompiledProgram.make, asMany, notEmpty]

theorem entries_unsplit {size : Int} {program : Program Scalar} {table : List (List Int)}
    (entries : ∀ (index : Nat) (circuit : Circuit Scalar),
      program.subroutines[index]? = some circuit → table[index]? = some
        (Program.standIns size program.subroutines.length (program.subroutines.take index) circuit))
    (short : ∀ circuit ∈ program.subroutines, Program.isLong size circuit = false) :
    ∀ index < program.subroutines.length, table[index]? = some [(index : Int)] := by
  intro index inside
  have found := List.getElem?_eq_getElem inside
  have isShort := short _ (List.mem_of_getElem? found)
  rw [entries index _ found]
  simp [Program.standIns, isShort, inside.le]

/-- All pieces get compiled, and their results meet the program that they came from. -/
theorem run_compile {engine : Engine σ} {compiler : Compiler} (answers : Answers engine compiler)
    (place : Place) (delivery : Delivery) (size : Int) (verbose : Bool)
    (program split : Program Scalar) (before : σ) (transcript : Transcript)
    (singleThread : place.destination = "single-thread")
    (splits : program.split size = .ok split)
    (delivered : delivery = .ofCount split.subroutines.length) :
    ∃ answer started results final,
      engine.call ⟨"run", 0⟩ [.text "in_process"] [] before = (.ok answer, started) ∧
      Ends engine (split.subroutines.mapM (nativeThenCompiled compiler)) started results final ∧
      results.length = split.subroutines.length ∧
      ((compile compiler place delivery (.whole size) verbose program).run engine before
        transcript).1 = program.withCompiled results := by
  obtain ⟨answer, started, called⟩ := answers.start before
  obtain ⟨results, final, asMany, partsEnd⟩ := exists_ends_mapM started
    fun circuit (_ : circuit ∈ split.subroutines) state =>
      nativeThenCompiled_ends answers circuit state
  have startEnds := start_ends engine place before started answer singleThread called
  have delivers : delivery.deliver results = .ok results := by
    rw [delivered, ← asMany]
    exact deliver_ofCount results
  refine ⟨answer, started, results, final, called, partsEnd, asMany, ?_⟩
  rw [run_eq_outcome, outcome_compile engine compiler place delivery size verbose program split
    before started final results splits startEnds partsEnd delivers]
  cases program.withCompiled results <;> rfl

/-- Compilation in pieces works if and only if no subroutine is longer than a piece may be and the
sequence counts its places from the start. With a longer subroutine it always stops. -/
theorem compile_split_iff (engine : Engine σ) (compiler : Compiler) (place : Place)
    (delivery : Delivery) (size : Int) (verbose : Bool) (program : Program Scalar) (before : σ)
    (transcript : Transcript) (sizePos : 1 ≤ size) (uniform : program.Uniform)
    (singleThread : place.destination = "single-thread") (answers : Answers engine compiler)
    (delivered : ∀ split, program.split size = .ok split →
      delivery = .ofCount split.subroutines.length) :
    (CompilesSplit engine compiler size program before
        ((compile compiler place delivery (.whole size) verbose program).run engine before
          transcript).1 ↔
      (∀ circuit ∈ program.subroutines, Program.isLong size circuit = false) ∧
        ∀ sequence, program.sequence = .ok sequence →
          ∀ place ∈ sequence, 0 ≤ place ∧ place < program.subroutines.length) ∧
    ((∃ circuit ∈ program.subroutines, Program.isLong size circuit = true) →
      ((compile compiler place delivery (.whole size) verbose program).run engine before
        transcript).1 = .error .conditionViolated) := by
  obtain ⟨table, splits, length, entries⟩ := Program.split_eq size program sizePos uniform
  obtain ⟨answer, started, results, final, called, partsEnd, asMany, outcome⟩ :=
    run_compile answers place delivery size verbose program _ before transcript singleThread splits
      (delivered _ splits)
  have uncut := (Program.length_flatMap_parts size program.dataQubits program.subroutines sizePos).2
  rw [outcome]
  refine ⟨⟨?_, ?_⟩, ?_⟩
  · rintro ⟨_, _, _, _, _, compiled, alsoSplits, _, _, isCompiled, _, ordered⟩
    rw [splits] at alsoSplits
    cases alsoSplits
    have sameCount : results.length = program.subroutines.length := by
      by_contra differs
      rw [Program.withCompiled, if_neg differs] at isCompiled
      cases isCompiled
    have short := uncut.mp (asMany.symm.trans sameCount)
    rw [withCompiled_eq program results uniform.1 sameCount] at isCompiled
    cases isCompiled
    exact ⟨short, (orderThrough_unsplit length (entries_unsplit entries short) _ _).mp ordered.symm⟩
  · rintro ⟨short, fromZero⟩
    have sameCount := asMany.trans (uncut.mpr short)
    have compiled := withCompiled_eq program results uniform.1 sameCount
    have sameOrder :=
      (orderThrough_unsplit length (entries_unsplit entries short) _ _).mpr fromZero
    exact ⟨_, answer, started, results, final, _, splits, called, partsEnd, compiled, rfl,
      sameOrder.symm⟩
  · rintro ⟨circuit, member, long⟩
    have differs : results.length ≠ program.subroutines.length := by
      intro sameCount
      have short := uncut.mp (asMany.symm.trans sameCount) circuit member
      rw [long] at short
      cases short
    rw [Program.withCompiled, if_neg differs]

/-- An engine that finds every gate native and leaves it as it is. -/
def nativeEngine : Engine Unit where
  read object property state := (.ok (.handle ⟨object.name ++ "." ++ property, 0⟩), state)
  assign _ _ _ state := state
  call function arguments _ state :=
    match arguments with
    | [.operation operation, _] => (.ok (.list [.operation operation]), state)
    | _ => (.ok (.handle ⟨function.name ++ "()", 0⟩), state)

/-- A compiler that counts the operations of a circuit. -/
def countingCompiler : Compiler := fun circuit =>
  pure ⟨circuit.qubits, 1, [1], [(circuit.operations.length : Int)], [0]⟩

def twoShort : Program Scalar where
  subroutines := [.on 3 [.reset, .other], .on 3 [.gate ⟨.plain "T", [1]⟩]]
  steps := 2
  order := fun steps => .ok (List.replicate steps.toNat 1 ++ [0])

theorem compile_split_twoShort :
    CompilesSplit nativeEngine countingCompiler 2 twoShort ()
      ((compile countingCompiler ⟨"single-thread", .unset, .unset, .unset⟩ .together (.whole 2) true
        twoShort).run nativeEngine () {}).1 := by
  have answers : Answers nativeEngine countingCompiler :=
    ⟨fun _ => ⟨_, _, rfl⟩, fun _ _ => ⟨_, _, _, rfl, rfl⟩, fun _ _ => ⟨_, _, rfl⟩⟩
  have uniform : twoShort.Uniform := ⟨by simp [twoShort], by simp [twoShort, Program.dataQubits]⟩
  have delivered : ∀ split, twoShort.split 2 = .ok split →
      Delivery.together = .ofCount split.subroutines.length := by
    intro split splits
    cases splits
    rfl
  refine (compile_split_iff nativeEngine countingCompiler _ .together 2 true twoShort () {}
    (by decide) uniform rfl answers delivered).1.mpr ⟨by decide, ?_⟩
  intro sequence ordered
  cases ordered
  decide

/-- A circuit that has to be cut into two pieces. -/
def twoResets : Program Scalar where
  subroutines := [.on 1 [.reset, .reset]]
  steps := 1
  order := fun _ => .ok [0]

/-- Answers for two pieces: identities stay, and there is a report for each piece. -/
def twoReports : Script where
  replies := [
    ("circuit_compiler()", .each [report 2 3 5 0, report 1 1 7 2]),
    (Native.decomposer ++ "()", .always (.list [.operation (.gate ⟨.plain "I", [0]⟩)]))]
where
  report (qubits tocks tStates rotations : Int) : Datum :=
    .record [("num_logical_qubits", .whole qubits), ("num_layers", .whole 1),
      ("graph_creation_tocks_per_layer", .list [.whole tocks]),
      ("t_states_per_layer", .list [.whole tStates]),
      ("rotations_per_layer", .list [.whole rotations])]

/-- A program that is short enough and runs the last of its two circuits. -/
def lastOfTwo : Program Scalar where
  subroutines := [.on 1 [.reset], .on 1 []]
  steps := 1
  order := fun _ => .ok [-1]

/-- The pieces of a long circuit are compiled, and then they are too many for the program that they
came from. Nor is the sequence that of the pieces where it counts from the end. -/
theorem compile_departs_from_split :
    ((twoResets.split 1 >>= Program.sequence) = .ok [0, 1] ∧
      ((compileWith [("max_subroutine_size", .whole 1)] [] .together twoResets).perform
        twoReports).1 = .error .conditionViolated) ∧
    (lastOfTwo.split 1 >>= Program.sequence) = .ok [1] ∧
      (((compileWith [("max_subroutine_size", .whole 1)] [] .together lastOfTwo).perform
        twoReports).1 >>= CompiledProgram.sequence) = .ok [-1] := by
  refine ⟨⟨by rfl, ?_⟩, by rfl, ?_⟩
  · rfl
  · rfl

end QuantumResources.ProgramCompiler
