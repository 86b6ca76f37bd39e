import QuantumResources.Proofs.Allocation.Parallel

/-! What is left of processes that start together when one of them is unknown.

The stairs are logged one after the other, and the stair of an unknown process stops the run. Those
above it have been logged by then, so the allocation is as before only if they add nothing. -/

namespace QuantumResources.Allocation

variable {R α : Type} [CommRing R] [LinearOrder R] [IsStrictOrderedRing R] [Arithmetic α]
  [Exact R α]

theorem embed_injective : Function.Injective (Exact.embed : R → α) := by
  have notLess : ∀ a b : R, (Exact.embed a : α) = Exact.embed b → ¬ a < b := by
    intro a b same less
    have compared := Exact.lt_embed (α := α) a b
    rw [same, Exact.lt_embed, decide_eq_true less] at compared
    simp at compared
  intro a b same
  exact le_antisymm (not_lt.mp (notLess b a same.symm)) (not_lt.mp (notLess a b same))

section Stairs

variable {types : Finset String} {amount : Finset String → R} {before : Allocation α}

/-- An allocation is the table of one function only. -/
theorem Tabulates.unique (tabulates : Tabulates types amount before) {other : Finset String → R}
    (also : Tabulates types other before) {key : Finset String}
    (isKey : key ∈ combinationsOf types) : amount key = other key := by
  obtain ⟨entry, member, rfl⟩ :=
    List.mem_map.mp (tabulates.complete.mem_combinationsOf.mpr isKey)
  apply embed_injective (α := α)
  rw [← tabulates.entry_eq entry member, also.entry_eq entry member]

theorem run_log_absent (complete : Complete types before.keys) {added : R} (nonneg : 0 ≤ added)
    {processes : List String} {process : String} (unknown : process ∉ types)
    (listed : process ∈ processes) :
    (log (Exact.embed added : α) processes).run before = (.error .noSuchKey, before) := by
  have absent : processes.toFinset ∉ combinationsOf types := by
    rw [mem_combinationsOf]
    exact fun inside => unknown (inside.2 (List.mem_toFinset.mpr listed))
  rw [run_log, requireNonneg_embed added nonneg, Calc.ok_bind, add_absent complete _ _ absent]

/-- One stair of known processes. Without any height it changes nothing. -/
theorem Tabulates.log_stair (tabulates : Tabulates types amount before) {height : R}
    (nonneg : 0 ≤ height) {processes : List String}
    (present : processes.toFinset ∈ combinationsOf types) :
    ∃ after, (Allocation.log (Exact.embed height : α) processes).run before = (.ok (), after) ∧
      Tabulates types (amount + Pi.single processes.toFinset height) after ∧
      (height = 0 → after = before) := by
  obtain ⟨after, succeeds, recorded⟩ := tabulates.log (α := α) nonneg present
  refine ⟨after, succeeds, recorded, ?_⟩
  rintro rfl
  rw [run_log, requireNonneg_embed 0 le_rfl, Calc.ok_bind, tabulates.add_nothing _ present]
    at succeeds
  exact (Prod.mk.inj succeeds).2.symm

/-- A stair that has a height is still seen at the end, since amounts only grow. -/
theorem Tabulates.height_eq_zero (tabulates : Tabulates types amount before)
    {later : Finset String → R} (also : Tabulates types later before) {key : Finset String}
    (isKey : key ∈ combinationsOf types) {height : R} (nonneg : 0 ≤ height)
    (grown : amount + Pi.single key height ≤ later) : height = 0 := by
  have above := grown key
  rw [Pi.add_apply, Pi.single_eq_same, ← tabulates.unique also isKey] at above
  exact le_antisymm (nonpos_of_add_le_right above) nonneg

end Stairs

/-! ## An unknown process among the entries -/

section Unknown

/-- Every amount is at most that of some unknown process. -/
def UnknownLongest (types : Finset String) (entries : List (R × String)) : Prop :=
  ∀ entry ∈ entries, ∃ other ∈ entries, other.2 ∉ types ∧ entry.1 ≤ other.1

variable {types : Finset String} {entry next : R × String} {rest : List (R × String)}

omit [CommRing R] [IsStrictOrderedRing R]

theorem unknownLongest_of_first (unknown : entry.2 ∉ types)
    (descending : (entry :: rest).Pairwise fun first second => second.1 ≤ first.1) :
    UnknownLongest types (entry :: rest) := by
  intro other member
  refine ⟨entry, List.mem_cons_self, unknown, ?_⟩
  rcases List.mem_cons.mp member with rfl | later
  · exact le_rfl
  · exact (List.pairwise_cons.mp descending).1 other later

/-- Behind a known process an unknown one is longest only if it takes as long. -/
theorem unknownLongest_cons (known : entry.2 ∈ types)
    (descending : (entry :: next :: rest).Pairwise fun first second => second.1 ≤ first.1) :
    UnknownLongest types (entry :: next :: rest) ↔
      entry.1 = next.1 ∧ UnknownLongest types (next :: rest) := by
  obtain ⟨first, others⟩ := List.pairwise_cons.mp descending
  have shorter : ∀ other ∈ next :: rest, other.1 ≤ next.1 := by
    intro other member
    rcases List.mem_cons.mp member with rfl | later
    · exact le_rfl
    · exact (List.pairwise_cons.mp others).1 other later
  constructor
  · intro longest
    have behind : ∀ item ∈ entry :: next :: rest,
        ∃ other ∈ next :: rest, other.2 ∉ types ∧ item.1 ≤ other.1 := by
      intro item member
      obtain ⟨other, found, unknown, above⟩ := longest item member
      refine ⟨other, (List.mem_cons.mp found).resolve_left ?_, unknown, above⟩
      rintro rfl
      exact unknown known
    obtain ⟨other, found, _, above⟩ := behind entry List.mem_cons_self
    exact ⟨le_antisymm (above.trans (shorter other found)) (first next List.mem_cons_self),
      fun item member => behind item (List.mem_cons_of_mem _ member)⟩
  · rintro ⟨same, longest⟩ item member
    have behind : ∃ later ∈ next :: rest, item.1 ≤ later.1 := by
      rcases List.mem_cons.mp member with rfl | later
      · exact ⟨next, List.mem_cons_self, same.le⟩
      · exact ⟨item, later, le_rfl⟩
    obtain ⟨later, isLater, above⟩ := behind
    obtain ⟨other, found, unknown, higher⟩ := longest later isLater
    exact ⟨other, List.mem_cons_of_mem _ found, unknown, above.trans higher⟩

end Unknown

/-! ## Stopping on the stairs -/

/-- The run stops at the first unknown process. Until then amounts only grow, so the allocation is as
before if and only if no stair above that process has any height. -/
theorem Tabulates.logStaircase_unknown {types : Finset String} {amount : Finset String → R}
    {before : Allocation α} (tabulates : Tabulates types amount before)
    (everyone running : List String) (entries : List (R × String))
    (listed : ∀ entry ∈ entries, entry.2 ∈ everyone) (known : running.toFinset ⊆ types)
    (descending : entries.Pairwise fun first second => second.1 ≤ first.1)
    (nonneg : ∀ entry ∈ entries, 0 ≤ entry.1) (unknown : ∃ entry ∈ entries, entry.2 ∉ types) :
    ∃ after later,
      (Allocation.logStaircase everyone running (entries.map embedded : List (α × String))).run
        before = (.error .noSuchKey, after) ∧
      Tabulates types later after ∧ amount ≤ later ∧
      (after = before ↔ UnknownLongest types entries) := by
  induction entries generalizing running amount before with
  | nil => simp at unknown
  | cons entry rest ih =>
    obtain ⟨value, process⟩ := entry
    cases rest with
    | nil =>
      have isUnknown : process ∉ types := by simpa using unknown
      refine ⟨before, amount, ?_, tabulates, le_rfl,
        iff_of_true rfl (unknownLongest_of_first isUnknown descending)⟩
      exact run_log_absent tabulates.complete (nonneg _ List.mem_cons_self) isUnknown
        (listed _ List.mem_cons_self)
    | cons next rest =>
      obtain ⟨first, others⟩ := List.pairwise_cons.mp descending
      have height : 0 ≤ value - next.1 := sub_nonneg.mpr (first next List.mem_cons_self)
      rw [List.map_cons, List.map_cons, Allocation.logStaircase, embedded, embedded,
        lift_bind _ (Exact.sub_embed value next.1), run_bind]
      by_cases isKnown : process ∈ types
      · -- the stair is logged, and the run goes on to the unknown process
        have ahead : (running ++ [process]).toFinset = insert process running.toFinset := by
          rw [List.toFinset_append, List.toFinset_cons, List.toFinset_nil, Finset.union_insert,
            Finset.union_empty]
        have stillKnown : (running ++ [process]).toFinset ⊆ types :=
          ahead ▸ Finset.insert_subset isKnown known
        have present : (running ++ [process]).toFinset ∈ combinationsOf types :=
          mem_combinationsOf.mpr ⟨ahead ▸ Finset.insert_nonempty _ _, stillKnown⟩
        obtain ⟨between, succeeds, recorded, flat⟩ := tabulates.log_stair height present
        have stillUnknown : ∃ entry ∈ next :: rest, entry.2 ∉ types := by
          obtain ⟨entry, member, isUnknown⟩ := unknown
          refine ⟨entry, (List.mem_cons.mp member).resolve_left ?_, isUnknown⟩
          rintro rfl
          exact isUnknown isKnown
        obtain ⟨after, later, stopped, isLater, grown, unchanged⟩ := ih recorded _
          (fun entry member => listed entry (List.mem_cons_of_mem _ member)) stillKnown others
          (fun entry member => nonneg entry (List.mem_cons_of_mem _ member)) stillUnknown
        have raised : amount ≤ amount + Pi.single (running ++ [process]).toFinset (value - next.1) :=
          le_add_of_nonneg_right (Pi.single_nonneg.mpr height)
        rw [succeeds]
        refine ⟨after, later, stopped, isLater, raised.trans grown, ?_⟩
        rw [unknownLongest_cons isKnown descending, ← unchanged]
        constructor
        · intro same
          have level := tabulates.height_eq_zero (same ▸ isLater) present height grown
          exact ⟨sub_eq_zero.mp level, same.trans (flat level).symm⟩
        · rintro ⟨level, same⟩
          exact same.trans (flat (sub_eq_zero.mpr level))
      · have last : process ∈ running ++ [process] := by simp
        rw [run_log_absent tabulates.complete height isKnown last]
        exact ⟨before, amount, rfl, tabulates, le_rfl,
          iff_of_true rfl (unknownLongest_of_first isKnown descending)⟩

/-! ## Processes that start together -/

section Refusals

variable {before : Allocation α} {amounts : List R} {processes : List String}

omit [Arithmetic α] in
theorem run_forM_lift_refused (before : Allocation α) {β : Type} {check : β → Calc Unit}
    {items : List β} {item : β} (member : item ∈ items) (refused : check item ≠ .ok ()) :
    ∃ failure, (items.forM fun item => (liftM (check item) : Step α Unit)).run before =
      (.error failure, before) := by
  induction items with
  | nil => cases member
  | cons first rest ih =>
    rw [List.forM, run_bind, run_lift]
    cases checked : check first with
    | error failure => exact ⟨failure, rfl⟩
    | ok =>
      refine ih ((List.mem_cons.mp member).resolve_left ?_)
      rintro rfl
      exact refused checked

theorem run_logParallel_unpaired (unpaired : amounts.length ≠ processes.length) :
    ((logParallel (amounts.map Exact.embed : List α) processes).run before).2 = before := by
  have lengths : ((amounts.map Exact.embed : List α).length != processes.length) = true := by
    simpa using unpaired
  unfold logParallel
  rw [lengths]
  rfl

/-- All amounts are looked at before the first one is logged. -/
theorem run_logParallel_negative (paired : amounts.length = processes.length) {negative : R}
    (listed : negative ∈ amounts) (below : negative < 0) :
    ((logParallel (amounts.map Exact.embed : List α) processes).run before).2 = before := by
  have lengths : ((amounts.map Exact.embed : List α).length != processes.length) = false := by
    simpa using paired
  have refused : requireNonneg (Exact.embed negative : α) ≠ .ok () :=
    mt (requireNonneg_eq_ok_iff negative).mp (not_le.mpr below)
  obtain ⟨failure, stopped⟩ := run_forM_lift_refused before
    (List.mem_map_of_mem (f := Exact.embed) listed) refused
  have opened : (logParallel (amounts.map Exact.embed : List α) processes).run before =
      (((amounts.map Exact.embed : List α).forM fun amount => liftM (requireNonneg amount)) >>=
        fun _ => (liftM (sortDescending ((amounts.map Exact.embed).zip processes)) : Step α _) >>=
          logStaircase processes []).run before := by
    unfold logParallel
    rw [lengths]
    rfl
  rw [opened, run_bind, stopped]

omit [CommRing R] [IsStrictOrderedRing R] in
theorem process_descending {entry : R × String} (member : entry ∈ descending amounts processes) :
    entry.1 ∈ amounts ∧ entry.2 ∈ processes :=
  List.of_mem_zip ((descending_perm amounts processes).mem_iff.mp member)

end Refusals

/-- A failed attempt to log processes that start together leaves the allocation as it was if the
lists differ in length or an amount is negative. Otherwise it does so if and only if every amount is
at most that of a process that the allocation does not know. -/
theorem failed_logParallel_unchanged_iff {types : Finset String} {before after : Allocation α}
    (complete : Complete types before.keys)
    (exact : ∀ entry ∈ before.amounts, ∃ amount : R, entry.2 = Exact.embed amount)
    {amounts : List R} {processes : List String} {failure : Failure}
    (failed : (logParallel (amounts.map Exact.embed : List α) processes).run before =
      (.error failure, after)) :
    after = before ↔
      (amounts.length = processes.length → (∀ amount ∈ amounts, 0 ≤ amount) →
        ∀ entry ∈ amounts.zip processes,
          ∃ other ∈ amounts.zip processes, other.2 ∉ types ∧ entry.1 ≤ other.1) := by
  have left : ((logParallel (amounts.map Exact.embed : List α) processes).run before).2 = after := by
    rw [failed]
  by_cases paired : amounts.length = processes.length
  · by_cases nonneg : ∀ amount ∈ amounts, 0 ≤ amount
    · have condition : UnknownLongest types (descending amounts processes) ↔
          (amounts.length = processes.length → (∀ amount ∈ amounts, 0 ≤ amount) →
            UnknownLongest types (amounts.zip processes)) := by
        simp only [UnknownLongest, (descending_perm amounts processes).mem_iff]
        exact ⟨fun longest _ _ => longest, fun longest => longest paired nonneg⟩
      refine Iff.trans ?_ condition
      obtain ⟨amount, tabulates⟩ := Tabulates.exists_of_exact complete exact
      by_cases unknown : ∃ entry ∈ descending amounts processes, entry.2 ∉ types
      · obtain ⟨_, _, stopped, _, _, unchanged⟩ := tabulates.logStaircase_unknown
          processes [] _ (fun entry member => (process_descending member).2)
          (Finset.empty_subset _) (pairwise_descending amounts processes)
          (fun entry member => nonneg _ (process_descending member).1) unknown
        rw [logParallel_eq paired nonneg, stopped] at failed
        cases failed
        exact unchanged
      · -- nothing can fail here but the look for the longest of no processes
        push Not at unknown
        have none : processes = [] := by
          by_contra filled
          have known : processes.toFinset ⊆ types := by
            rw [← toFinset_descending paired]
            intro process member
            obtain ⟨entry, listed, rfl⟩ := List.mem_map.mp (List.mem_toFinset.mp member)
            exact unknown entry listed
          obtain ⟨_, succeeds, _⟩ := tabulates.logParallel paired nonneg filled known
          rw [succeeds] at failed
          cases failed
        subst none
        obtain rfl : amounts = [] := List.eq_nil_of_length_eq_zero paired
        cases failed
        exact iff_of_true rfl fun entry member => by cases member
    · push Not at nonneg
      obtain ⟨negative, listed, below⟩ := nonneg
      refine iff_of_true (left ▸ run_logParallel_negative paired listed below) ?_
      intro _ nonneg
      exact absurd (nonneg negative listed) (not_le.mpr below)
  · exact iff_of_true (left ▸ run_logParallel_unpaired paired) fun same => absurd same paired

/-- The unknown process is as long as the longest known one, so it is looked up first. -/
theorem failed_logParallel_unchanged_tie :
    ∃ after : Allocation Scalar,
      (logParallel [.whole 2, .whole 1, .whole 2] ["a", "b", "x"]).run
        (fresh .cycles ["a", "b"]) = (.error .noSuchKey, after) ∧
      after = fresh .cycles ["a", "b"] := by
  obtain ⟨_, records⟩ := (Recorded.fresh (R := Int) (α := Scalar) .cycles ["a", "b"] rfl).records
  obtain ⟨after, failed⟩ : ∃ after,
      (logParallel (([2, 1, 2] : List Int).map Exact.embed : List Scalar) ["a", "b", "x"]).run
        (fresh .cycles ["a", "b"]) = (.error .noSuchKey, after) := ⟨_, rfl⟩
  have unchanged := failed_logParallel_unchanged_iff (R := Int) records.complete
    (fun entry member => ⟨_, records.entry_eq entry member⟩) failed
  exact ⟨after, failed, unchanged.mpr (by decide)⟩

/-- The stair of the known process is logged before the unknown one is looked up. -/
theorem failed_logParallel_changes :
    ∃ after : Allocation Scalar,
      (logParallel [.whole 2, .whole 1] ["a", "x"]).run (fresh .cycles ["a"]) =
        (.error .noSuchKey, after) ∧
      (fresh .cycles ["a"] : Allocation Scalar).exclusive ["a"] = .ok (.whole 0) ∧
      after.exclusive ["a"] = .ok (.whole 1) :=
  ⟨_, rfl, rfl, rfl⟩

end QuantumResources.Allocation
