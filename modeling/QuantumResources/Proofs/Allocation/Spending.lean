import Mathlib.Algebra.BigOperators.Group.List.Basic
import Mathlib.Tactic.Ring
import QuantumResources.Allocation
import QuantumResources.Proofs.Number.Exact
import QuantumResources.Proofs.Sequence

/-! What steps on an allocation add to it, for amounts that are calculated with exactly.

Such an allocation is a function from combinations to the numbers of an ordered ring. A step spends
a cost if it adds that cost at every combination, whatever was there before; costs add up along a
run. -/

namespace QuantumResources

theorem sameProcesses_iff (left right : List String) :
    sameProcesses left right = true ↔ ∀ process, process ∈ left ↔ process ∈ right := by
  simp only [sameProcesses, Bool.and_eq_true, List.all_eq_true, List.contains_iff_mem]
  constructor
  · rintro ⟨forward, backward⟩ process
    exact ⟨forward process, backward process⟩
  · intro same
    exact ⟨fun process => (same process).mp, fun process => (same process).mpr⟩

theorem sameProcesses_refl (processes : List String) : sameProcesses processes processes = true :=
  (sameProcesses_iff _ _).mpr fun _ => Iff.rfl

theorem sameProcesses_comm (left right : List String) :
    sameProcesses left right = sameProcesses right left := by
  rw [sameProcesses, Bool.and_comm, sameProcesses]

theorem sameProcesses_right (processes first second : List String)
    (matched : sameProcesses processes first = true)
    (alsoMatched : sameProcesses processes second = true) : sameProcesses first second = true := by
  rw [sameProcesses_iff] at *
  intro process
  rw [← matched process, alsoMatched process]

namespace Allocation

variable {R α : Type} [CommRing R] [LinearOrder R] [IsStrictOrderedRing R] [Arithmetic α]
  [Exact R α]

/-! ## Tables of exact amounts -/

theorem sum_embed (values : List R) :
    Arithmetic.sum (values.map Exact.embed : List α) = .ok (Exact.embed values.sum) := by
  have folded : ∀ start : R, (values.map Exact.embed : List α).foldlM
      (fun total term => Arithmetic.add total term) (Exact.embed start) =
        .ok (Exact.embed (start + values.sum)) := by
    induction values with
    | nil =>
      intro start
      simp [pure, Except.pure]
    | cons value rest ih =>
      intro start
      simp only [List.map_cons, List.foldlM_cons, Exact.add_embed, Calc.ok_bind, ih,
        List.sum_cons, add_assoc]
  rw [Arithmetic.sum, Exact.ofInt_zero R, folded, zero_add]

def exactTable (combinations : List (List String)) (amount : List String → R) :
    List (List String × α) :=
  combinations.map fun combination => (combination, Exact.embed (amount combination))

/-- An amount at one combination of processes and nothing at any other. -/
def portion (amount : R) (processes combination : List String) : R :=
  if sameProcesses processes combination then amount else 0

section Portions

omit [LinearOrder R] [IsStrictOrderedRing R]

@[simp] theorem portion_zero (processes combination : List String) :
    portion (0 : R) processes combination = 0 := by
  simp [portion]

theorem portion_add (first second : R) (processes combination : List String) :
    portion (first + second) processes combination =
      portion first processes combination + portion second processes combination := by
  unfold portion
  split <;> simp

theorem portion_comm (amount : R) (processes combination : List String) :
    portion amount processes combination = portion amount combination processes := by
  rw [portion, sameProcesses_comm, portion]

theorem portion_sum {β : Type} (items : List β) (amount : β → R)
    (processes combination : List String) :
    (items.map fun item => portion (amount item) processes combination).sum =
      portion (items.map amount).sum processes combination := by
  induction items with
  | nil => simp
  | cons item rest ih =>
    rw [List.map_cons, List.map_cons, List.sum_cons, List.sum_cons, ih, portion_add]

end Portions

/-- No combination stands twice. -/
def Distinct (combinations : List (List String)) : Prop :=
  combinations.Pairwise fun first second => sameProcesses first second = false

theorem modifyAmounts_exactTable (added : R) (processes : List String)
    (combinations : List (List String)) (amount : List String → R)
    (distinct : Distinct combinations)
    (present : ∃ combination ∈ combinations, sameProcesses processes combination = true) :
    modifyAmounts (Arithmetic.add · (Exact.embed added : α)) processes
        (exactTable combinations amount) =
      .ok (exactTable combinations fun combination =>
        amount combination + portion added processes combination) := by
  induction combinations with
  | nil =>
    obtain ⟨_, member, _⟩ := present
    cases member
  | cons combination rest ih =>
    obtain ⟨apart, restDistinct⟩ := List.pairwise_cons.mp distinct
    by_cases matched : sameProcesses processes combination = true
    · have others : ∀ other ∈ rest, portion added processes other = 0 := by
        intro other member
        have different : sameProcesses processes other ≠ true := by
          intro alsoMatched
          have same := sameProcesses_right _ _ _ matched alsoMatched
          rw [apart other member] at same
          cases same
        simp [portion, different]
      have unchanged : (exactTable rest fun combination =>
          amount combination + portion added processes combination) =
          (exactTable rest amount : List (List String × α)) := by
        apply List.map_congr_left
        intro other member
        simp [others other member]
      change _ = Except.ok (_ :: exactTable rest _)
      rw [unchanged]
      simp [exactTable, modifyAmounts, matched, portion]
    · have restPresent : ∃ other ∈ rest, sameProcesses processes other = true := by
        obtain ⟨other, member, found⟩ := present
        rcases List.mem_cons.mp member with rfl | later
        · exact absurd found matched
        · exact ⟨other, later, found⟩
      have later := ih restDistinct restPresent
      simp only [exactTable, List.map_cons, modifyAmounts, matched] at later ⊢
      rw [later]
      simp [portion, matched]

/-! ## Allocations of cycles -/

/-- The combinations of the standard processes. -/
def standardCombinations : List (List String) :=
  distinctCombinations (combinations standardProcesses)

/-- Cycles of the standard processes, an amount for every combination. -/
def exactCycles (amount : List String → R) : Allocation α where
  resource := .cycles
  processTypes := standardProcesses
  amounts := exactTable standardCombinations amount

theorem cycles_eq (R : Type) [CommRing R] [LinearOrder R] [IsStrictOrderedRing R] [Exact R α] :
    (cycles : Allocation α) = exactCycles fun _ => (0 : R) := by
  unfold cycles fresh exactCycles exactTable
  rw [Exact.ofInt_zero R]
  rfl

theorem standard_distinct : Distinct standardCombinations := by
  unfold Distinct
  decide

/-- Whether an allocation of the standard processes has an entry for these. -/
def Standard (processes : List String) : Prop :=
  ∃ combination ∈ standardCombinations, sameProcesses processes combination = true

instance (processes : List String) : Decidable (Standard processes) :=
  inferInstanceAs (Decidable (∃ _ ∈ _, _))

theorem add_exactCycles (added : R) (processes : List String) (amount : List String → R)
    (standard : Standard processes) :
    (exactCycles amount).add (Exact.embed added : α) processes =
      .ok (exactCycles fun combination =>
        amount combination + portion added processes combination) := by
  have changed := modifyAmounts_exactTable (α := α) added processes standardCombinations amount
    standard_distinct standard
  simp only [add, exactCycles, changed]
  rfl

/-- Adding the entries of a table one by one adds them all. -/
theorem foldlM_exactTable (combinations : List (List String)) (amount other : List String → R)
    (standard : ∀ combination ∈ combinations, Standard combination) :
    (exactTable combinations other).foldlM
        (fun (allocation : Allocation α) entry => allocation.add entry.2 entry.1)
        (exactCycles amount) =
      .ok (exactCycles fun combination =>
        amount combination + (combinations.map fun listed =>
          portion (other listed) listed combination).sum) := by
  induction combinations generalizing amount with
  | nil => simp [exactTable, pure, Except.pure]
  | cons combination rest ih =>
    have first := add_exactCycles (α := α) (other combination) combination amount
      (standard combination (by simp))
    have later := ih (fun listed => amount listed + portion (other combination) combination listed)
      fun listed member => standard listed (List.mem_cons_of_mem _ member)
    simp only [exactTable, List.map_cons, List.foldlM_cons, first] at later ⊢
    change (exactTable rest other).foldlM _ _ = _
    rw [exactTable, later]
    simp only [List.sum_cons, add_assoc]

omit [LinearOrder R] [IsStrictOrderedRing R] in
/-- Among distinct combinations only one has the processes of a given one. -/
theorem sum_portion (combinations : List (List String)) (other : List String → R)
    (listed combination : List String) (distinct : Distinct combinations)
    (member : listed ∈ combinations) (matched : sameProcesses listed combination = true) :
    (combinations.map fun each => portion (other each) each combination).sum = other listed := by
  have apart : ∀ rest : List (List String),
      (∀ each ∈ rest, sameProcesses listed each = false) →
      (rest.map fun each => portion (other each) each combination).sum = 0 := by
    intro rest different
    induction rest with
    | nil => rfl
    | cons each rest ih =>
      have unmatched : sameProcesses each combination ≠ true := by
        intro alsoMatched
        rw [sameProcesses_comm] at matched alsoMatched
        have same := sameProcesses_right _ _ _ matched alsoMatched
        rw [different each (by simp)] at same
        cases same
      rw [List.map_cons, List.sum_cons, ih fun later inside =>
        different later (List.mem_cons_of_mem _ inside)]
      simp [portion, unmatched]
  obtain ⟨front, back, rfl⟩ := List.append_of_mem member
  obtain ⟨_, backDistinct, across⟩ := List.pairwise_append.mp distinct
  obtain ⟨after, _⟩ := List.pairwise_cons.mp backDistinct
  have before : ∀ each ∈ front, sameProcesses listed each = false := by
    intro each inside
    rw [sameProcesses_comm]
    exact across each inside listed (by simp)
  rw [List.map_append, List.map_cons, List.sum_append, List.sum_cons, apart front before,
    apart back after, portion, matched]
  simp

theorem sum_exactCycles (amount other : List String → R) :
    sum (exactCycles amount : Allocation α) (exactCycles other) =
      .ok (exactCycles fun combination => amount combination + other combination) := by
  have added := foldlM_exactTable (α := α) standardCombinations amount other
    fun combination member => ⟨combination, member, sameProcesses_refl combination⟩
  refine added.trans (congrArg Except.ok ?_)
  simp only [exactCycles, exactTable, Allocation.mk.injEq, true_and]
  apply List.map_congr_left
  intro combination member
  rw [sum_portion _ _ _ _ standard_distinct member (sameProcesses_refl combination)]

/-! ## Totals -/

/-- What all combinations use together. -/
def overall (amount : List String → R) : R := (standardCombinations.map amount).sum

section Overall

omit [LinearOrder R] [IsStrictOrderedRing R]

theorem overall_add (first second : List String → R) :
    overall (fun combination => first combination + second combination) =
      overall first + overall second := by
  unfold overall
  induction standardCombinations with
  | nil => simp
  | cons combination rest ih =>
    simp only [List.map_cons, List.sum_cons, ih]
    ring

theorem overall_sum {β : Type} (items : List β) (amount : β → List String → R) :
    overall (fun combination => (items.map fun item => amount item combination).sum) =
      (items.map fun item => overall (amount item)).sum := by
  induction items with
  | nil => simp [overall]
  | cons item rest ih => simp only [List.map_cons, List.sum_cons, overall_add, ih]

theorem overall_portion (amount : R) (processes : List String) (standard : Standard processes) :
    overall (portion amount processes) = amount := by
  obtain ⟨listed, member, matched⟩ := standard
  rw [sameProcesses_comm] at matched
  have swapped : portion amount processes = fun each => portion amount each processes :=
    funext fun each => portion_comm amount processes each
  rw [overall, swapped]
  exact sum_portion _ (fun _ => amount) listed processes standard_distinct member matched

end Overall

theorem total_exactCycles (amount : List String → R) :
    (exactCycles amount : Allocation α).total = .ok (Exact.embed (overall amount)) := by
  have listed : (exactCycles amount : Allocation α).amounts.map (·.2) =
      (standardCombinations.map amount).map Exact.embed := by
    simp only [exactCycles, exactTable, List.map_map]
    rfl
  rw [Allocation.total, listed, sum_embed, overall]

theorem exclusive_measurement (amount : List String → R) :
    (exactCycles amount : Allocation α).exclusive [tMeasurement] =
      .ok (Exact.embed (amount [tMeasurement])) := rfl

/-! ## Steps and their costs -/

section Runs

omit [Arithmetic α] [Exact R α]

theorem run_bind {β γ : Type} (step : Step α β) (next : β → Step α γ)
    (allocation : Allocation α) :
    (step >>= next).run allocation =
      match step.run allocation with
      | (.ok value, after) => (next value).run after
      | (.error failure, after) => (.error failure, after) := by
  simp only [Step.run, ExceptT.run_bind, StateT.run_bind]
  rcases StateT.run (ExceptT.run step) allocation with ⟨outcome | outcome, after⟩ <;> rfl

theorem run_lift {β : Type} (computation : Calc β) (allocation : Allocation α) :
    Step.run (liftM computation) allocation = (computation, allocation) := by
  cases computation <;> rfl

theorem lift_bind {β γ : Type} {computation : Calc β} {value : β} (next : β → Step α γ)
    (succeeds : computation = .ok value) : (liftM computation >>= next) = next value := by
  subst succeeds
  rfl

end Runs

/-- A step that adds a cost to any allocation of exact cycles. -/
def Spends (step : Step α Unit) (cost : List String → R) : Prop :=
  ∀ amount : List String → R,
    step.run (exactCycles amount) =
      (.ok (), exactCycles fun combination => amount combination + cost combination)

theorem spends_pure : Spends (pure () : Step α Unit) fun _ => (0 : R) := by
  intro amount
  simp only [add_zero]
  rfl

theorem Spends.andThen {first second : Step α Unit} {cost later : List String → R}
    (spent : Spends first cost) (alsoSpent : Spends second later) :
    Spends (first >>= fun _ => second) fun combination => cost combination + later combination := by
  intro amount
  rw [run_bind, spent amount]
  simp only [alsoSpent _, add_assoc]

theorem spends_forM {β : Type} (items : List β) (step : β → Step α Unit)
    (cost : β → List String → R) (spent : ∀ item ∈ items, Spends (step item) (cost item)) :
    Spends (items.forM step) fun combination =>
      (items.map fun item => cost item combination).sum := by
  induction items with
  | nil => exact spends_pure
  | cons item rest ih =>
    exact (spent item (by simp)).andThen
      (ih fun later member => spent later (List.mem_cons_of_mem _ member))

theorem requireNonneg_embed (amount : R) (nonneg : 0 ≤ amount) :
    requireNonneg (Exact.embed amount : α) = .ok () := by
  simp only [requireNonneg, Exact.ofInt_zero R, Exact.le_embed, nonneg, decide_true]
  rfl

theorem log_spends (amount : R) (processes : List String) (nonneg : 0 ≤ amount)
    (standard : Standard processes) :
    Spends (log (Exact.embed amount : α) processes) (portion amount processes) := by
  intro before
  have found : (get : Step α (Allocation α)).run (exactCycles before) =
      (.ok (exactCycles before), exactCycles before) := rfl
  unfold log
  rw [lift_bind _ (requireNonneg_embed amount nonneg), run_bind, found]
  simp only [run_bind, run_lift, add_exactCycles _ _ _ standard]
  rfl

theorem sortDescending_pair (first second : R) (process other : String) :
    sortDescending [((Exact.embed first : α), process), (Exact.embed second, other)] =
      .ok (if second < first then
        [(Exact.embed first, process), (Exact.embed second, other)]
      else [(Exact.embed second, other), (Exact.embed first, process)]) := by
  by_cases less : second < first
  · simp [sortDescending, insertDescending, less]
  · simp [sortDescending, insertDescending, less, pure, Except.pure]

/-- Two processes that start together run together until the first of them ends. -/
theorem logParallel_pair (first second : R) (process other : String) (firstNonneg : 0 ≤ first)
    (secondNonneg : 0 ≤ second) :
    logParallel [(Exact.embed first : α), Exact.embed second] [process, other] =
      (if second < first then do
        log (Exact.embed (first - second)) [process]
        log (Exact.embed second) [process, other]
      else do
        log (Exact.embed (second - first)) [other]
        log (Exact.embed first) [process, other]) := by
  unfold logParallel
  simp only [List.length_cons, List.length_nil, bne_self_eq_false, Bool.false_eq_true, ↓reduceIte,
    List.forM, pure_bind, bind_assoc]
  rw [lift_bind _ (requireNonneg_embed first firstNonneg),
    lift_bind _ (requireNonneg_embed second secondNonneg)]
  simp only [List.zip_cons_cons, List.zip_nil_right]
  rw [lift_bind _ (sortDescending_pair first second process other)]
  split
  · unfold logStaircase
    rw [lift_bind _ (Exact.sub_embed first second)]
    rfl
  · unfold logStaircase
    rw [lift_bind _ (Exact.sub_embed second first)]
    rfl

theorem logParallel_pair_spends (first second : R) (process other : String)
    (firstNonneg : 0 ≤ first) (secondNonneg : 0 ≤ second) (one : Standard [process])
    (another : Standard [other]) (both : Standard [process, other]) :
    Spends (logParallel [(Exact.embed first : α), Exact.embed second] [process, other])
      fun combination =>
        portion (min first second) [process, other] combination +
          portion (max (second - first) 0) [other] combination +
          portion (max (first - second) 0) [process] combination := by
  rw [logParallel_pair first second process other firstNonneg secondNonneg]
  split
  · next less =>
    have spent := (log_spends (α := α) (first - second) [process] (sub_nonneg.mpr less.le)
      one).andThen (log_spends second [process, other] secondNonneg both)
    rw [min_eq_right less.le, max_eq_right (sub_nonpos.mpr less.le),
      max_eq_left (sub_nonneg.mpr less.le)]
    simpa only [portion_zero, add_zero, zero_add, add_comm] using spent
  · next notLess =>
    have order : first ≤ second := not_lt.mp notLess
    have spent := (log_spends (α := α) (second - first) [other] (sub_nonneg.mpr order)
      another).andThen (log_spends first [process, other] firstNonneg both)
    rw [min_eq_left order, max_eq_left (sub_nonneg.mpr order),
      max_eq_right (sub_nonpos.mpr order)]
    simpa only [portion_zero, add_zero, zero_add, add_comm] using spent

/-! ## Whole amounts -/

section Whole

omit [CommRing R] [LinearOrder R] [IsStrictOrderedRing R] [Exact R α]

def wholeTable (combinations : List (List String)) (amount : List String → Int) :
    List (List String × α) :=
  combinations.map fun combination => (combination, Arithmetic.ofInt (amount combination))

/-- An amount at one combination of processes and nothing at any other. -/
def share (amount : Int) (processes combination : List String) : Int :=
  if sameProcesses processes combination then amount else 0

/-- Cycles of the standard processes, a whole number for every combination. -/
def wholeCycles (amount : List String → Int) : Allocation α where
  resource := .cycles
  processTypes := standardProcesses
  amounts := wholeTable standardCombinations amount

theorem share_eq (amount : Int) : share amount = portion amount := rfl

theorem wholeCycles_eq [ExactWholes α] (amount : List String → Int) :
    (wholeCycles amount : Allocation α) = exactCycles amount := rfl

end Whole

end Allocation

end QuantumResources
