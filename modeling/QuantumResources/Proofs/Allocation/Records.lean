import Mathlib.Algebra.BigOperators.Pi
import Mathlib.Algebra.Order.Pi
import Mathlib.Data.List.Sort
import QuantumResources.Proofs.Allocation.Combinations

/-! Allocations as functions from sets of processes to exact amounts, along whole runs.

An allocation records such a function if it has one entry for every combination of its types, with
the amount that the function gives. Every step that succeeds leads from one recorded function to
another, so whatever is made from new allocations records some function. -/

namespace QuantumResources.Allocation

variable {R α : Type} [CommRing R] [LinearOrder R] [IsStrictOrderedRing R] [Arithmetic α]
  [Exact R α]

/-- The combinations of an allocation as sets, in the order of its entries. -/
def keys {α : Type} (allocation : Allocation α) : List (Finset String) :=
  allocation.amounts.map fun entry => entry.1.toFinset

/-- The combinations of some process types. -/
def combinationsOf (types : Finset String) : Finset (Finset String) := types.powerset.erase ∅

theorem mem_combinationsOf {types processes : Finset String} :
    processes ∈ combinationsOf types ↔ processes.Nonempty ∧ processes ⊆ types := by
  rw [combinationsOf, Finset.mem_erase, Finset.mem_powerset, Finset.nonempty_iff_ne_empty]

theorem Complete.mem_combinationsOf {types : Finset String} {keys : List (Finset String)}
    (complete : Complete types keys) {processes : Finset String} :
    processes ∈ keys ↔ processes ∈ combinationsOf types := by
  rw [complete.mem_iff, Allocation.mem_combinationsOf]

/-- A sum over the entries of a complete table is a sum over all combinations. -/
theorem Complete.sum_map {types : Finset String} {keys : List (Finset String)}
    (complete : Complete types keys) {M : Type} [AddCommMonoid M] (value : Finset String → M) :
    (keys.map value).sum = ∑ processes ∈ combinationsOf types, value processes := by
  have listed : keys.toFinset = combinationsOf types := by
    ext processes
    rw [List.mem_toFinset, complete.mem_combinationsOf]
  rw [← List.sum_toFinset value complete.nodup, listed]

/-- The allocation has exact amounts for all combinations of its types. -/
structure Tabulates (types : Finset String) (amount : Finset String → R)
    (allocation : Allocation α) : Prop where
  complete : Complete types allocation.keys
  entry_eq : ∀ entry ∈ allocation.amounts, entry.2 = Exact.embed (amount entry.1.toFinset)

namespace Tabulates

variable {types : Finset String} {amount : Finset String → R} {allocation : Allocation α}

theorem amounts_eq (tabulates : Tabulates types amount allocation) :
    allocation.amounts = exactTable (allocation.amounts.map (·.1))
      fun combination => amount combination.toFinset := by
  rw [exactTable, List.map_map]
  refine (List.map_id' allocation.amounts).symm.trans (List.map_congr_left ?_)
  intro entry member
  exact Prod.ext rfl (tabulates.entry_eq entry member)

theorem of_exactTable {combinations : List (List String)}
    (complete : Complete types (combinations.map List.toFinset))
    (listed : allocation.amounts =
      exactTable combinations fun combination => amount combination.toFinset) :
    Tabulates types amount allocation where
  complete := by
    rw [keys, listed, exactTable, List.map_map]
    exact complete
  entry_eq := by
    intro entry member
    rw [listed] at member
    obtain ⟨combination, _, rfl⟩ := List.mem_map.mp member
    rfl

/-- A complete table of exact amounts is the table of a function, because no combination stands in
it twice. -/
theorem exists_of_exact (complete : Complete types allocation.keys)
    (exact : ∀ entry ∈ allocation.amounts, ∃ amount : R, entry.2 = Exact.embed amount) :
    ∃ amount : Finset String → R, Tabulates types amount allocation := by
  choose! value isValue using exact
  refine ⟨fun processes => ((allocation.amounts.find? fun entry =>
    decide (entry.1.toFinset = processes)).map value).getD 0, complete, ?_⟩
  intro entry member
  have found : allocation.amounts.find? (fun other =>
      decide (other.1.toFinset = entry.1.toFinset)) = some entry := by
    cases search : allocation.amounts.find? (fun other =>
        decide (other.1.toFinset = entry.1.toFinset)) with
    | none => simpa using List.find?_eq_none.mp search entry member
    | some other =>
      have matched := List.find?_some search
      have same : other.1.toFinset = entry.1.toFinset := of_decide_eq_true matched
      rw [List.inj_on_of_nodup_map complete.nodup (List.mem_of_find?_eq_some search) member same]
  rw [found]
  exact isValue entry member

/-- Only what stands at the combinations counts. -/
theorem congr (tabulates : Tabulates types amount allocation) {other : Finset String → R}
    (same : ∀ processes ∈ combinationsOf types, other processes = amount processes) :
    Tabulates types other allocation where
  complete := tabulates.complete
  entry_eq := by
    intro entry member
    have isKey : entry.1.toFinset ∈ allocation.keys := List.mem_map.mpr ⟨entry, member, rfl⟩
    rw [tabulates.entry_eq entry member, same _ (tabulates.complete.mem_combinationsOf.mp isKey)]

end Tabulates

/-- The allocation has exact amounts, none of them below zero, for all combinations of its types. -/
structure Records (types : Finset String) (amount : Finset String → R) (allocation : Allocation α) :
    Prop extends Tabulates types amount allocation where
  nonneg : ∀ processes, 0 ≤ amount processes

/-! ## New allocations -/

theorem records_fresh (resource : Resource) (processTypes : List String) :
    Records processTypes.toFinset (0 : Finset String → R)
      (fresh resource processTypes : Allocation α) := by
  have tabulates : Tabulates processTypes.toFinset (0 : Finset String → R)
      (fresh resource processTypes : Allocation α) := by
    apply Tabulates.of_exactTable (complete_distinctCombinations processTypes)
    unfold fresh exactTable
    rw [Exact.ofInt_zero R]
    rfl
  exact ⟨tabulates, fun _ => le_refl 0⟩

/-! ## Logging -/

omit [LinearOrder R] [IsStrictOrderedRing R] in
theorem portion_eq_single (amount : R) (processes combination : List String) :
    portion amount processes combination =
      (Pi.single processes.toFinset amount : Finset String → R) combination.toFinset := by
  rw [portion, Pi.single_apply]
  refine if_congr ?_ rfl rfl
  rw [sameProcesses_iff_toFinset, eq_comm]

theorem distinct_of_nodup {combinations : List (List String)}
    (nodup : (combinations.map List.toFinset).Nodup) : Distinct combinations := by
  refine (List.pairwise_map.mp nodup).imp ?_
  intro first second different
  rw [← Bool.not_eq_true, sameProcesses_iff_toFinset]
  exact different

omit [Arithmetic α] in
theorem modifyAmounts_absent (change : α → Calc α) (processes : List String)
    (amounts : List (List String × α))
    (absent : ∀ entry ∈ amounts, sameProcesses processes entry.1 = false) :
    modifyAmounts change processes amounts = .error .noSuchKey := by
  induction amounts with
  | nil => rfl
  | cons entry rest ih =>
    rw [modifyAmounts, absent entry (by simp),
      ih fun other member => absent other (List.mem_cons_of_mem _ member)]
    rfl

section Steps

variable {types : Finset String} {amount : Finset String → R} {before after : Allocation α}

theorem Tabulates.add_eq (tabulates : Tabulates types amount before) (added : R)
    (processes : List String) (present : processes.toFinset ∈ combinationsOf types) :
    before.add (Exact.embed added) processes =
      .ok { before with amounts := exactTable (before.amounts.map (·.1)) fun combination =>
        (amount + Pi.single processes.toFinset added : Finset String → R) combination.toFinset } := by
  have complete : Complete types ((before.amounts.map (·.1)).map List.toFinset) := by
    rw [List.map_map]
    exact tabulates.complete
  have found : ∃ combination ∈ before.amounts.map (·.1),
      sameProcesses processes combination = true := by
    obtain ⟨combination, member, same⟩ :=
      List.mem_map.mp (complete.mem_combinationsOf.mpr present)
    exact ⟨combination, member, (sameProcesses_iff_toFinset _ _).mpr same.symm⟩
  have changed := modifyAmounts_exactTable (α := α) added processes (before.amounts.map (·.1))
    (fun combination => amount combination.toFinset) (distinct_of_nodup complete.nodup) found
  rw [← tabulates.amounts_eq] at changed
  simp only [portion_eq_single] at changed
  rw [Allocation.add, changed]
  rfl

theorem Tabulates.add (tabulates : Tabulates types amount before) (added : R)
    (processes : List String) (present : processes.toFinset ∈ combinationsOf types) :
    ∃ after, before.add (Exact.embed added) processes = .ok after ∧
      Tabulates types (amount + Pi.single processes.toFinset added) after := by
  refine ⟨_, tabulates.add_eq added processes present, Tabulates.of_exactTable ?_ rfl⟩
  rw [List.map_map]
  exact tabulates.complete

/-- Adding nothing changes nothing. -/
theorem Tabulates.add_nothing (tabulates : Tabulates types amount before) (processes : List String)
    (present : processes.toFinset ∈ combinationsOf types) :
    before.add (Exact.embed (0 : R)) processes = .ok before := by
  rw [tabulates.add_eq 0 processes present, Pi.single_zero, add_zero, ← tabulates.amounts_eq]

theorem Records.add (records : Records types amount before) (added : R) (nonneg : 0 ≤ added)
    (processes : List String) (present : processes.toFinset ∈ combinationsOf types) :
    ∃ after, before.add (Exact.embed added) processes = .ok after ∧
      Records types (amount + Pi.single processes.toFinset added) after := by
  obtain ⟨after, succeeds, tabulates⟩ := records.toTabulates.add added processes present
  have spent : 0 ≤ (Pi.single processes.toFinset added : Finset String → R) :=
    Pi.single_nonneg.mpr nonneg
  exact ⟨after, succeeds, tabulates,
    fun combination => add_nonneg (records.nonneg combination) (spent combination)⟩

theorem add_absent (complete : Complete types before.keys) (added : α) (processes : List String)
    (absent : processes.toFinset ∉ combinationsOf types) :
    before.add added processes = .error .noSuchKey := by
  have missing : ∀ entry ∈ before.amounts, sameProcesses processes entry.1 = false := by
    intro entry member
    rw [← Bool.not_eq_true, sameProcesses_iff_toFinset]
    intro same
    apply absent
    rw [same, ← complete.mem_combinationsOf]
    exact List.mem_map.mpr ⟨entry, member, rfl⟩
  rw [Allocation.add, modifyAmounts_absent _ _ _ missing]
  rfl

theorem run_log (amount : α) (processes : List String) (allocation : Allocation α) :
    (log amount processes).run allocation =
      match requireNonneg amount >>= fun _ => allocation.add amount processes with
      | .ok changed => (.ok (), changed)
      | .error failure => (.error failure, allocation) := by
  unfold log
  rw [run_bind, run_lift]
  cases requireNonneg amount with
  | error failure => rfl
  | ok =>
    have found : (get : Step α (Allocation α)).run allocation = (.ok allocation, allocation) := rfl
    simp only [run_bind, found, run_lift, Calc.ok_bind]
    cases allocation.add amount processes <;> rfl

theorem requireNonneg_eq_ok_iff (amount : R) :
    requireNonneg (Exact.embed amount : α) = .ok () ↔ 0 ≤ amount := by
  constructor
  · intro passed
    by_contra negative
    simp only [requireNonneg, Exact.ofInt_zero R, Exact.le_embed, negative, decide_false] at passed
    cases passed
  · exact requireNonneg_embed amount

/-- Logging succeeds for an amount that is not negative and a combination of the types, and adds the
amount there. -/
theorem Records.log (records : Records types amount before) {added : R} {processes : List String}
    (logged : (log (Exact.embed added : α) processes).run before = (.ok (), after)) :
    Records types (amount + Pi.single processes.toFinset added) after := by
  rw [run_log] at logged
  split at logged
  · next changed succeeded =>
    cases logged
    obtain ⟨⟨⟩, passed, changed⟩ := Calc.bind_eq_ok.mp succeeded
    have nonneg := (requireNonneg_eq_ok_iff added).mp passed
    by_cases present : processes.toFinset ∈ combinationsOf types
    · obtain ⟨_, added, recorded⟩ := records.add added nonneg processes present
      rw [changed] at added
      cases added
      exact recorded
    · rw [add_absent records.complete _ processes present] at changed
      cases changed
  · cases logged

/-! ## Logging in parallel -/

omit [Arithmetic α] in
theorem run_bind_ok {β γ : Type} {step : Step α β} {next : β → Step α γ} {value : γ}
    (succeeded : (step >>= next).run before = (.ok value, after)) :
    ∃ found between, step.run before = (.ok found, between) ∧
      (next found).run between = (.ok value, after) := by
  rw [run_bind] at succeeded
  rcases stepped : step.run before with ⟨failure | found, between⟩
  · rw [stepped] at succeeded
    cases succeeded
  · rw [stepped] at succeeded
    exact ⟨found, between, rfl, succeeded⟩

/-- An exact amount of a process. -/
def embedded (entry : R × String) : α × String := (Exact.embed entry.1, entry.2)

theorem zip_embedded (amounts : List R) (processes : List String) :
    (amounts.map Exact.embed : List α).zip processes = (amounts.zip processes).map embedded := by
  rw [List.zip_map_left]
  rfl

theorem insertDescending_embedded (entry : R × String) (entries : List (R × String)) :
    insertDescending (embedded entry : α × String) (entries.map embedded) =
      .ok ((entries.orderedInsert (fun first second => second.1 ≤ first.1) entry).map
        embedded) := by
  induction entries with
  | nil => rfl
  | cons first rest ih =>
    rw [List.map_cons, insertDescending, embedded, embedded, Exact.lt_embed, Calc.ok_bind,
      List.orderedInsert]
    by_cases less : entry.1 < first.1
    · rw [if_pos (decide_eq_true less), if_neg (not_le.mpr less)]
      exact congrArg (· >>= _) ih
    · rw [if_neg (by simpa using less), if_pos (not_lt.mp less)]
      rfl

/-- Entries are put into place one after the other, so the last of equal ones comes first. -/
theorem sortDescending_embedded (entries : List (R × String)) :
    sortDescending (entries.map embedded : List (α × String)) =
      .ok ((entries.reverse.insertionSort fun first second => second.1 ≤ first.1).map
        embedded) := by
  have folded : ∀ sorted : List (R × String),
      (entries.map embedded : List (α × String)).foldlM
        (fun sorted entry => insertDescending entry sorted) (sorted.map embedded) =
      .ok ((entries.foldl (fun sorted entry =>
        sorted.orderedInsert (fun first second => second.1 ≤ first.1) entry) sorted).map
          embedded) := by
    induction entries with
    | nil =>
      intro sorted
      rfl
    | cons entry rest ih =>
      intro sorted
      rw [List.map_cons, List.foldlM_cons, insertDescending_embedded, Calc.ok_bind, ih,
        List.foldl_cons]
  rw [sortDescending, List.insertionSort, List.foldr_reverse]
  exact folded []

/-- Each stair is logged by itself, so what was recorded before them all is followed by what is
recorded after them all. -/
theorem Records.logStaircase {everyone running : List String} (entries : List (R × String))
    (records : Records types amount before)
    (logged : (logStaircase everyone running (entries.map embedded)).run before = (.ok (), after)) :
    ∃ later : Finset String → R, Records types later after := by
  induction entries generalizing running amount before with
  | nil => cases logged
  | cons entry rest ih =>
    cases rest with
    | nil => exact ⟨_, records.log logged⟩
    | cons next rest =>
      rw [List.map_cons, List.map_cons, Allocation.logStaircase] at logged
      obtain ⟨_, _, subtracted, continued⟩ := run_bind_ok logged
      rw [embedded, embedded, Exact.sub_embed, run_lift] at subtracted
      cases subtracted
      obtain ⟨⟨⟩, _, first, others⟩ := run_bind_ok continued
      exact ih (records.log first) others

omit [Arithmetic α] in
theorem run_forM_lift {β : Type} (check : β → Calc Unit) (items : List β) (before : Allocation α) :
    ((items.forM fun item => liftM (check item) : Step α Unit).run before).2 = before := by
  induction items with
  | nil => rfl
  | cons item rest ih =>
    rw [List.forM, run_bind, run_lift]
    cases check item with
    | error failure => rfl
    | ok => exact ih

theorem Records.logParallel (records : Records types amount before) {amounts : List R}
    {processes : List String}
    (logged : (logParallel (amounts.map Exact.embed : List α) processes).run before =
      (.ok (), after)) :
    ∃ later : Finset String → R, Records types later after := by
  unfold Allocation.logParallel at logged
  split at logged
  · obtain ⟨_, _, impossible, _⟩ := run_bind_ok logged
    cases impossible
  · obtain ⟨⟨⟩, between, checked, sorting⟩ := run_bind_ok logged
    have unchanged := run_forM_lift requireNonneg (amounts.map Exact.embed : List α) before
    rw [checked] at unchanged
    cases unchanged
    rw [zip_embedded, lift_bind _ (sortDescending_embedded (amounts.zip processes))] at sorting
    exact records.logStaircase _ sorting

/-! ## Adding allocations -/

theorem Records.foldlM_add (records : Records types amount before) (other : Finset String → R)
    (nonneg : ∀ processes, 0 ≤ other processes) (entries : List (List String × α))
    (exact : ∀ entry ∈ entries, entry.2 = Exact.embed (other entry.1.toFinset))
    (present : ∀ entry ∈ entries, entry.1.toFinset ∈ combinationsOf types) :
    ∃ after, entries.foldlM (fun allocation entry => allocation.add entry.2 entry.1) before =
        .ok after ∧
      Records types (amount + (entries.map fun entry =>
        (Pi.single entry.1.toFinset (other entry.1.toFinset) : Finset String → R)).sum) after := by
  induction entries generalizing before amount with
  | nil =>
    rw [List.map_nil, List.sum_nil, add_zero]
    exact ⟨before, rfl, records⟩
  | cons entry rest ih =>
    obtain ⟨between, added, recorded⟩ := records.add (other entry.1.toFinset) (nonneg _) entry.1
      (present entry (by simp))
    obtain ⟨after, others, laterRecorded⟩ := ih recorded
      (fun later member => exact later (List.mem_cons_of_mem _ member))
      fun later member => present later (List.mem_cons_of_mem _ member)
    refine ⟨after, ?_, ?_⟩
    · rw [List.foldlM_cons, exact entry (by simp), added]
      exact others
    · rw [List.map_cons, List.sum_cons, ← add_assoc]
      exact laterRecorded

/-- Cycles are added combination by combination. -/
theorem Records.sum {left right : Allocation α} {first second : Finset String → R}
    (leftRecords : Records types first left) (rightRecords : Records types second right)
    (cycles : left.resource = .cycles) :
    ∃ total, left.sum right = .ok total ∧ Records types (first + second) total := by
  have present : ∀ entry ∈ right.amounts, entry.1.toFinset ∈ combinationsOf types :=
    fun entry member =>
      rightRecords.complete.mem_combinationsOf.mp (List.mem_map.mpr ⟨entry, member, rfl⟩)
  obtain ⟨total, added, recorded⟩ := leftRecords.foldlM_add second rightRecords.nonneg
    right.amounts rightRecords.entry_eq present
  refine ⟨total, ?_, ?_⟩
  · rw [Allocation.sum, cycles]
    exact added
  · refine ⟨recorded.congr ?_, fun processes =>
      add_nonneg (leftRecords.nonneg processes) (rightRecords.nonneg processes)⟩
    intro processes member
    have entries : (right.amounts.map fun entry =>
          (Pi.single entry.1.toFinset (second entry.1.toFinset) : Finset String → R)).sum =
        ∑ key ∈ combinationsOf types, Pi.single key (second key) := by
      rw [← rightRecords.complete.sum_map, keys, List.map_map]
      rfl
    rw [entries, Pi.add_apply, Pi.add_apply, Finset.sum_apply, Finset.sum_pi_single, if_pos member]

end Steps

/-! ## Runs -/

/-- What can be made from new allocations of the same process types by logging exact amounts and by
adding allocations. -/
inductive Recorded (R : Type) {α : Type} [CommRing R] [LinearOrder R] [IsStrictOrderedRing R]
    [Arithmetic α] [Exact R α] (types : Finset String) : Allocation α → Prop
  | fresh (resource : Resource) (processTypes : List String)
    (same : processTypes.toFinset = types) : Recorded R types (fresh resource processTypes)
  | log {before after : Allocation α} (amount : R) (processes : List String)
    (recorded : Recorded R types before)
    (logged : (log (Exact.embed amount : α) processes).run before = (.ok (), after)) :
    Recorded R types after
  | logParallel {before after : Allocation α} (amounts : List R) (processes : List String)
    (recorded : Recorded R types before)
    (logged : (logParallel (amounts.map Exact.embed : List α) processes).run before =
      (.ok (), after)) : Recorded R types after
  | sum {left right total : Allocation α} (leftRecorded : Recorded R types left)
    (rightRecorded : Recorded R types right) (added : left.sum right = .ok total) :
    Recorded R types total

theorem Recorded.records {types : Finset String} {allocation : Allocation α}
    (recorded : Recorded R types allocation) :
    ∃ amount : Finset String → R, Records types amount allocation := by
  induction recorded with
  | fresh resource processTypes same => exact ⟨0, same ▸ records_fresh resource processTypes⟩
  | log amount processes recorded logged ih =>
    obtain ⟨known, records⟩ := ih
    exact ⟨_, records.log logged⟩
  | logParallel amounts processes recorded logged ih =>
    obtain ⟨known, records⟩ := ih
    exact records.logParallel logged
  | @sum left right total leftRecorded rightRecorded added leftIh rightIh =>
    obtain ⟨first, leftRecords⟩ := leftIh
    obtain ⟨second, rightRecords⟩ := rightIh
    cases resource : left.resource with
    | named name =>
      rw [Allocation.sum, resource] at added
      cases added
    | cycles =>
      obtain ⟨found, isSum, records⟩ := leftRecords.sum rightRecords resource
      rw [added] at isSum
      cases isSum
      exact ⟨_, records⟩

end QuantumResources.Allocation
