import Mathlib.Algebra.BigOperators.Ring.Finset
import QuantumResources.Proofs.Number.Exact
import QuantumResources.Proofs.Program.Run

/-! Operations counted by subroutine and along the whole run.

A subroutine counts as often as its place occurs in the sequence, so a table of occurrences weighs
the counts of the subroutines. What is divided in proportion to the rotations of a subroutine is
used up by a run, since the run has just the rotations by which it was divided. -/

namespace QuantumResources

variable {θ : Type}

/-! ## Names -/

/-- The operation is a gate with one of the names, or a reset where resets are named. -/
def Operation.Matches (names : List String) : Operation θ → Prop
  | .gate operation => operation.gate.name ∈ names
  | .reset => "ResetOperation" ∈ names
  | .other => False

instance (names : List String) : DecidablePred (Operation.Matches (θ := θ) names)
  | .gate operation => inferInstanceAs (Decidable (operation.gate.name ∈ names))
  | .reset => inferInstanceAs (Decidable ("ResetOperation" ∈ names))
  | .other => inferInstanceAs (Decidable False)

theorem Operation.countedAs_any (names : List String) (operation : Operation θ) :
    operation.countedAs.any names.contains = decide (operation.Matches names) := by
  rw [Bool.eq_iff_iff, decide_eq_true_iff]
  cases operation <;> simp [countedAs, Matches]

theorem Circuit.count_names (names : List String) (circuit : Circuit θ) :
    circuit.count names.contains = circuit.operations.countP (·.Matches names) := by
  simp only [count, Operation.countedAs_any]

namespace Program

/-! ## Places that run -/

theorem mapM_pick_places {β : Type} (items : List β) (places : List Nat)
    (valid : ∀ place ∈ places, place < items.length) :
    ∃ running, (places.map Nat.cast).mapM (pick items) = .ok running ∧
      places.map (items[·]?) = running.map some := by
  induction places with
  | nil => exact ⟨[], rfl, rfl⟩
  | cons place rest ih =>
    obtain ⟨later, picked, standing⟩ := ih fun other member =>
      valid other (List.mem_cons_of_mem _ member)
    have found := List.getElem?_eq_getElem (valid place (by simp))
    refine ⟨_ :: later, ?_, by rw [List.map_cons, List.map_cons, found, standing]⟩
    rw [List.map_cons, List.mapM_cons, pick_natCast items place _ found, picked]
    rfl

/-! ## Occurrences -/

/-- How often each place below a bound occurs. -/
def occurrences (bound : Nat) (places : List Nat) : List Int :=
  (List.range bound).map fun place => (places.count place : Int)

@[simp] theorem length_occurrences (bound : Nat) (places : List Nat) :
    (occurrences bound places).length = bound := by
  simp [occurrences]

theorem occurrences_nil (bound : Nat) : occurrences bound [] = List.replicate bound 0 := by
  simp [occurrences, List.map_const']

theorem bump_occurrences (bound : Nat) (seen : List Nat) (place : Nat) (inside : place < bound) :
    bump (occurrences bound seen) place = .ok (occurrences bound (seen ++ [place])) := by
  have found : (occurrences bound seen)[place]? = some (seen.count place : Int) := by
    simp [occurrences, inside]
  have raised : (occurrences bound seen).set place (seen.count place + 1) =
      occurrences bound (seen ++ [place]) := by
    apply List.ext_getElem (by simp)
    intro index _ _
    by_cases here : place = index
    · simp [occurrences, here]
    · simp [occurrences, here]
  rw [bump, pick_natCast _ _ _ found, Calc.ok_bind, if_neg (by omega), Int.toNat_natCast, raised]
  rfl

theorem foldlM_bump (bound : Nat) (seen rest : List Nat)
    (inside : ∀ place ∈ rest, place < bound) :
    (rest.map Nat.cast).foldlM bump (occurrences bound seen) =
      .ok (occurrences bound (seen ++ rest)) := by
  induction rest generalizing seen with
  | nil => simp [pure, Except.pure]
  | cons place rest ih =>
    rw [List.map_cons, List.foldlM_cons, bump_occurrences bound seen place (inside place (by simp)),
      Calc.ok_bind, ih (seen ++ [place]) fun later member =>
        inside later (List.mem_cons_of_mem _ member)]
    simp

/-- The table of occurrences ends with the last place that runs. -/
theorem multiplicities_eq (program : Program θ) (places : List Nat)
    (ordered : program.sequence = .ok (places.map Nat.cast)) (nonempty : places ≠ []) :
    ∃ bound, (∀ count, bound ≤ count ↔ ∀ place ∈ places, place < count) ∧
      program.multiplicities = .ok (occurrences bound places) := by
  cases places with
  | nil => exact absurd rfl nonempty
  | cons first rest =>
    let last : Int := (rest.map Nat.cast).foldl max (first : Int)
    have least : ∀ count, (last + 1).toNat ≤ count ↔ ∀ place ∈ first :: rest, place < count := by
      intro count
      have below := foldl_max_le_iff (rest.map Nat.cast) first (count - 1)
      rw [List.forall_mem_cons]
      simp only [List.forall_mem_map] at below
      constructor
      · intro within
        obtain ⟨atFirst, later⟩ := below.mp (by omega)
        exact ⟨by omega, fun place member => by have := later place member; omega⟩
      · rintro ⟨atFirst, later⟩
        have bounded := below.mpr ⟨by omega, fun place member => by
          have := later place member; omega⟩
        omega
    refine ⟨(last + 1).toNat, least, ?_⟩
    have inside := (least _).mp le_rfl
    rw [multiplicities, ordered]
    change (List.map Nat.cast (first :: rest)).foldlM bump (List.replicate (last + 1).toNat 0) = _
    rw [← occurrences_nil, foldlM_bump _ [] _ inside, List.nil_append]

/-! ## Sums along a run -/

theorem tally_map_range (bound : Nat) (amount : Nat → Int) :
    tally ((List.range bound).map amount) = ∑ place ∈ Finset.range bound, amount place := by
  induction bound with
  | zero => rfl
  | succ bound ih => simp [List.range_succ, ih, Finset.sum_range_succ]

/-- Every place of a run adds its amount once for each time that it occurs. -/
theorem sum_count_mul (bound : Nat) (places : List Nat) (amount : Nat → Int)
    (inside : ∀ place ∈ places, place < bound) :
    ∑ place ∈ Finset.range bound, (places.count place : Int) * amount place =
      tally (places.map amount) := by
  induction places with
  | nil => simp
  | cons first rest ih =>
    have here : first < bound := inside first (by simp)
    have later := ih fun place member => inside place (List.mem_cons_of_mem _ member)
    have once : ∑ place ∈ Finset.range bound, (if first = place then amount place else 0) =
        amount first := by
      simp [here]
    -- The first place adds one to its own term of the sum and nothing to the others.
    rw [List.map_cons, tally_cons, ← later, ← once, ← Finset.sum_add_distrib]
    apply Finset.sum_congr rfl
    intro place _
    by_cases same : first = place
    · simp [same, add_one_mul, add_comm]
    · simp [same]

theorem tally_occurrences (bound : Nat) (places : List Nat) (counts : List Int)
    (inside : ∀ place ∈ places, place < bound) (short : bound ≤ counts.length) :
    tally (List.zipWith (· * ·) (occurrences bound places) counts) =
      tally (places.map fun place => counts.getD place 0) := by
  have paired : List.zipWith (· * ·) (occurrences bound places) counts =
      (List.range bound).map fun place => (places.count place : Int) * counts.getD place 0 := by
    apply List.ext_getElem (by simp [short])
    intro place _ below
    have listed : place < counts.length := by simp at below; omega
    simp [occurrences, listed]
  rw [paired, tally_map_range, sum_count_mul bound places _ inside]

/-- Following the places of a list of counts adds them up. -/
theorem countAlong_places (counts : List Int) (places : List Nat)
    (valid : ∀ place ∈ places, place < counts.length) :
    countAlong counts (places.map Nat.cast) =
      .ok (tally (places.map fun place => counts.getD place 0)) := by
  have picked : (places.map Nat.cast).mapM (pick counts) =
      .ok (places.map fun place => counts.getD place 0) := by
    rw [List.mapM_map]
    apply Calc.mapM_eq_ok_map
    intro place member
    have inside := valid place member
    exact pick_natCast counts place _ (by simp [inside])
  rw [countAlong, picked]
  rfl

/-! ## Counts of a whole run -/

theorem fullCircuit_places (program : Program θ) (places : List Nat)
    (ordered : program.sequence = .ok (places.map Nat.cast))
    (valid : ∀ place ∈ places, place < program.subroutines.length) :
    ∃ (running : List (Circuit θ)) (circuit : Circuit θ), program.fullCircuit = .ok circuit ∧
      places.map (program.subroutines[·]?) = running.map some ∧
      circuit.operations = running.flatMap (·.operations) := by
  obtain ⟨running, picked, standing⟩ := mapM_pick_places program.subroutines places valid
  refine ⟨running, join running, ?_, standing, rfl⟩
  rw [fullCircuit, ordered, Calc.ok_bind, picked]
  rfl

theorem count_of_fullCircuit (names : List String) (program : Program θ) (circuit : Circuit θ)
    (joined : program.fullCircuit = .ok circuit) :
    program.count names.contains = .ok (circuit.operations.countP (·.Matches names) : Nat) := by
  rw [count_eq_run, run, joined]
  simp only [Operation.countedAs_any]
  rfl

theorem count_of_multiplicities (names : List String) (program : Program θ) (places : List Nat)
    (ordered : program.sequence = .ok (places.map Nat.cast)) (bound : Nat)
    (inside : ∀ place ∈ places, place < bound) (short : bound ≤ program.subroutines.length) :
    program.count names.contains = .ok (tally (List.zipWith (· * ·) (occurrences bound places)
      (program.countEach names.contains))) := by
  have length : (program.countEach names.contains).length = program.subroutines.length := by
    simp [countEach]
  rw [count, ordered, Calc.ok_bind, countAlong_places, tally_occurrences _ _ _ inside (by omega)]
  intro place member
  have := inside place member
  omega

/-- Counting subroutine by subroutine along the sequence, counting in the whole circuit, weighing
the counts of the subroutines by how often they run, and counting after the subroutines have been
combined into one all give the same number. -/
theorem count_flattened (program : Program θ) (places : List Nat) (names : List String)
    (ordered : program.sequence = .ok (places.map Nat.cast)) (nonempty : places ≠ [])
    (valid : ∀ place ∈ places, place < program.subroutines.length) :
    ∃ (total : Int) (running : List (Circuit θ)) (circuit : Circuit θ) (multiplicities : List Int)
      (combined : Program θ),
      program.count names.contains = .ok total ∧
      program.fullCircuit = .ok circuit ∧
      places.map (program.subroutines[·]?) = running.map some ∧
      circuit.operations = running.flatMap (·.operations) ∧
      total = (circuit.operations.countP (·.Matches names) : Nat) ∧
      program.multiplicities = .ok multiplicities ∧
      multiplicities.length ≤ program.subroutines.length ∧
      total = tally (List.zipWith (· * ·) multiplicities (program.countEach names.contains)) ∧
      program.combined = .ok combined ∧
      combined.count names.contains = .ok total ∧
      combined.subroutines.map (·.operations) = [circuit.operations] := by
  obtain ⟨running, circuit, joined, standing, operations⟩ :=
    fullCircuit_places program places ordered valid
  obtain ⟨bound, least, multiplied⟩ := multiplicities_eq program places ordered nonempty
  have short : bound ≤ program.subroutines.length := (least _).mpr valid
  have counted := count_of_fullCircuit names program circuit joined
  have weighed := count_of_multiplicities names program places ordered bound
    ((least bound).mp le_rfl) short
  have combined : program.combined = .ok (ofCircuit circuit) := by
    rw [Program.combined, joined]
    rfl
  have whole : (ofCircuit circuit).fullCircuit = .ok (join [circuit]) := rfl
  refine ⟨_, running, circuit, _, _, counted, joined, standing, operations, rfl, multiplied,
    by simpa using short, ?_, combined, ?_, rfl⟩
  · exact Except.ok.inj (counted.symm.trans weighed)
  · rw [count_of_fullCircuit names _ _ whole]
    simp [join]

/-- The last of three subroutines runs twice and the second one never. -/
theorem count_flattened_skipping :
    let t : Operation Rat := .gate ⟨.plain "T", [0]⟩
    let h : Operation Rat := .gate ⟨.plain "H", [0]⟩
    let program : Program Rat :=
      ⟨[.on 1 [t, h], .on 1 [t, t, t], .on 1 [.reset, t, h, .other]], 1, fun _ => .ok [2, 0, 2]⟩
    ∃ combined, program.combined = .ok combined ∧ program.multiplicities = .ok [1, 0, 2] ∧
      program.count ["T", "ResetOperation"].contains = .ok 5 ∧
      combined.count ["T", "ResetOperation"].contains = .ok 5 ∧
      combined.subroutines.map (·.operations) =
        [[.reset, t, h, .other, t, h, .reset, t, h, .other]] := by
  intro t h program
  obtain ⟨total, running, circuit, multiplicities, combined, counted, joined, standing, flattened,
    isTotal, multiplied, short, weighed, isCombined, recounted, single⟩ :=
      count_flattened program [2, 0, 2] ["T", "ResetOperation"] rfl (by decide) (by decide)
  have five : total = 5 := Except.ok.inj (counted.symm.trans rfl)
  have whole : circuit.operations = [.reset, t, h, .other, t, h, .reset, t, h, .other] :=
    congrArg (·.operations) (Except.ok.inj (joined.symm.trans rfl))
  rw [five] at counted recounted
  rw [whole] at single
  exact ⟨combined, isCombined, rfl, counted, recounted, single⟩

/-! ## Tolerances -/

theorem share_eq (total : Rat) (count rotations : Int) (positive : 0 < rotations) :
    (total * (Arithmetic.num count : Calc Rat) / (Arithmetic.num rotations : Calc Rat) : Calc Rat) =
      .ok (count * (total / rotations)) := by
  have divided := div_count (total * count) rotations positive
  rw [mul_comm total, mul_div_assoc, mul_comm _ total] at divided
  exact divided

theorem distributeTolerance_eq (program : Program θ) (total : Rat) (rotations : Int)
    (counted : program.rotationGates = .ok rotations) (positive : 0 < rotations) :
    program.distributeTolerance total =
      .ok ((program.countEach isRotation).map fun (count : Int) =>
        (count : Rat) * (total / rotations)) := by
  rw [distributeTolerance, counted, Calc.ok_bind, if_neg (by omega)]
  apply Calc.mapM_eq_ok_map
  intro count _
  exact share_eq total count rotations positive

theorem sum_scaled (counts : List Int) (factor : Rat) :
    (counts.map fun (count : Int) => (count : Rat) * factor).sum = tally counts * factor := by
  induction counts with
  | nil => simp
  | cons count rest ih => simp [ih, add_mul]

/-- The tolerance is divided in proportion to the rotations of the subroutines, and a run of the
program uses it up. -/
theorem tolerance_spent (program : Program θ) (sequence : List Int) (rotations : Int) (total : Rat)
    (ordered : program.sequence = .ok sequence)
    (counted : program.rotationGates = .ok rotations) (positive : 0 < rotations) :
    ∃ shares spent perRotation,
      program.distributeTolerance total = .ok shares ∧
      shares.length = program.subroutines.length ∧
      shares = program.subroutines.map (fun circuit =>
        (circuit.operations.countP (·.Matches ["RX", "RY", "RZ"]) : Rat) * perRotation) ∧
      sequence.mapM (pick shares) = .ok spent ∧ spent.sum = total := by
  let share (count : Int) : Rat := count * (total / rotations)
  have distributed : program.distributeTolerance total =
      .ok ((program.countEach isRotation).map share) :=
    distributeTolerance_eq program total rotations counted positive
  have counts : program.countEach isRotation = program.subroutines.map fun circuit =>
      ((circuit.operations.countP (·.Matches ["RX", "RY", "RZ"]) : Nat) : Int) := by
    simp only [countEach, ← Circuit.count_names]
    rfl
  -- The counts along the sequence add up to the divisor of every share.
  obtain ⟨along, picked, isSum⟩ : ∃ along,
      sequence.mapM (pick (program.countEach isRotation)) = .ok along ∧
        tally along = rotations := by
    rw [rotationGates, count, ordered, Calc.ok_bind] at counted
    obtain ⟨along, picked, isSum⟩ := Calc.bind_eq_ok.mp counted
    exact ⟨along, picked, Except.ok.inj isSum⟩
  refine ⟨_, along.map share, total / rotations, distributed, by simp [countEach], ?_, ?_, ?_⟩
  · simp [counts, share, Function.comp_def]
  · rw [mapM_pick_map, picked]
    rfl
  · have nonzero : (rotations : Rat) ≠ 0 := Int.cast_ne_zero.mpr (by omega)
    rw [sum_scaled, isSum, mul_div_cancel₀ _ nonzero]

/-- Of three subroutines the first runs three times, the second has no rotations and the third does
not run; its share is not spent. -/
theorem tolerance_spent_unusedRotations :
    let rz : Operation Rat := .gate ⟨.named "RZ" [1 / 3], [0]⟩
    let ry : Operation Rat := .gate ⟨.named "RY" [1 / 3], [0]⟩
    let h : Operation Rat := .gate ⟨.plain "H", [0]⟩
    let program : Program Rat :=
      ⟨[.on 1 [rz, h, ry], .on 1 [h], .on 1 [rz]], 3, fun _ => .ok [0, 1, 0, 0]⟩
    ∃ shares spent, program.rotationGates = .ok 6 ∧
      program.distributeTolerance (1 / 10 : Rat) = .ok shares ∧ shares.length = 3 ∧
      [0, 1, 0, 0].mapM (pick shares) = .ok spent ∧ spent.sum = 1 / 10 := by
  intro rz ry h program
  obtain ⟨shares, spent, perRotation, distributed, length, each, picked, sum⟩ :=
    tolerance_spent program [0, 1, 0, 0] 6 (1 / 10) rfl rfl (by decide)
  exact ⟨shares, spent, rfl, distributed, length, picked, sum⟩

end Program

end QuantumResources
