import Mathlib.Order.Bounds.Basic
import QuantumResources.Proofs.Allocation.InclusionExclusion

/-! What processes that start together add to an allocation.

Sorted by their amounts, the processes form a staircase: each stair is the difference to the next
amount, and is logged for all processes that have come so far. The stairs that some processes share
add up to the least of their amounts. -/

namespace QuantumResources.Allocation

variable {R α : Type} [CommRing R] [LinearOrder R] [IsStrictOrderedRing R] [Arithmetic α]
  [Exact R α]

/-! ## Stairs -/

section Stairs

omit [LinearOrder R] [IsStrictOrderedRing R]

/-- The first amount, and zero where none is left. -/
def top (entries : List (R × String)) : R := (entries.head?.map (·.1)).getD 0

/-- What a descending staircase adds to each combination. -/
def stairs : Finset String → List (R × String) → Finset String → R
  | _, [] => 0
  | running, (amount, process) :: rest =>
    Pi.single (insert process running) (amount - top rest) + stairs (insert process running) rest

variable {types : Finset String}

theorem atLeast_empty (amount : Finset String → R) :
    atLeast types amount ∅ = ∑ key ∈ combinationsOf types, amount key := by
  simp [atLeast]

theorem atLeast_single {key : Finset String} (isKey : key ∈ combinationsOf types) (amount : R)
    (chosen : Finset String) :
    atLeast types (Pi.single key amount) chosen = if chosen ⊆ key then amount else 0 := by
  rw [atLeast, Finset.sum_filter]
  simp only [Pi.single_apply, ← ite_and]
  rw [Finset.sum_eq_single_of_mem key isKey]
  · simp
  · intro other _ different
    simp [different]

omit [CommRing R] in
theorem insert_mem_combinationsOf {process : String} {running : Finset String}
    {rest : List (R × String)}
    (known : running ∪ insert process (rest.map (·.2)).toFinset ⊆ types) :
    insert process running ∈ combinationsOf types := by
  rw [mem_combinationsOf]
  refine ⟨Finset.insert_nonempty _ _, fun other member => known ?_⟩
  rw [Finset.mem_insert] at member
  simp only [Finset.mem_union, Finset.mem_insert]
  tauto

theorem atLeast_stairs_cons {amount : R} {process : String} {running : Finset String}
    {rest : List (R × String)}
    (known : running ∪ insert process (rest.map (·.2)).toFinset ⊆ types) (chosen : Finset String) :
    atLeast types (stairs running ((amount, process) :: rest)) chosen =
      (if chosen ⊆ insert process running then amount - top rest else 0) +
        atLeast types (stairs (insert process running) rest) chosen := by
  rw [stairs, atLeast_add, atLeast_single (insert_mem_combinationsOf known)]

omit [CommRing R] in
theorem known_tail {process : String} {running : Finset String} {rest : List (R × String)}
    (known : running ∪ insert process (rest.map (·.2)).toFinset ⊆ types) :
    insert process running ∪ (rest.map (·.2)).toFinset ⊆ types := by
  rwa [Finset.insert_union, ← Finset.union_insert]

/-- Processes that have all come before share every stair, up to the first amount. -/
theorem atLeast_stairs_of_subset (entries : List (R × String)) {running chosen : Finset String}
    (known : running ∪ (entries.map (·.2)).toFinset ⊆ types) (inside : chosen ⊆ running) :
    atLeast types (stairs running entries) chosen = top entries := by
  induction entries generalizing running with
  | nil => exact Finset.sum_const_zero
  | cons entry rest ih =>
    rw [List.map_cons, List.toFinset_cons] at known
    have still : chosen ⊆ insert entry.2 running := inside.trans (Finset.subset_insert _ _)
    rw [atLeast_stairs_cons known, if_pos still, ih (known_tail known) still, sub_add_cancel]
    rfl

/-- A process that never comes shares nothing. -/
theorem atLeast_stairs_of_not_subset (entries : List (R × String))
    {running chosen : Finset String} (known : running ∪ (entries.map (·.2)).toFinset ⊆ types)
    (outside : ¬ chosen ⊆ running ∪ (entries.map (·.2)).toFinset) :
    atLeast types (stairs running entries) chosen = 0 := by
  induction entries generalizing running with
  | nil => exact Finset.sum_const_zero
  | cons entry rest ih =>
    rw [List.map_cons, List.toFinset_cons] at known outside
    rw [Finset.union_insert, ← Finset.insert_union] at outside
    have notYet : ¬ chosen ⊆ insert entry.2 running :=
      fun inside => outside (inside.trans Finset.subset_union_left)
    rw [atLeast_stairs_cons known, if_neg notYet, zero_add, ih (known_tail known) outside]

end Stairs

omit [IsStrictOrderedRing R] in
/-- Processes of which some are still to come share the stairs from the last of them on, up to the
least of their amounts. -/
theorem isLeast_atLeast_stairs {types : Finset String} (entries : List (R × String))
    {running chosen : Finset String} (known : running ∪ (entries.map (·.2)).toFinset ⊆ types)
    (descending : entries.Pairwise fun first second => second.1 ≤ first.1)
    (distinct : (entries.map (·.2)).Nodup) (apart : ∀ entry ∈ entries, entry.2 ∉ running)
    (inside : chosen ⊆ running ∪ (entries.map (·.2)).toFinset) (later : ¬ chosen ⊆ running) :
    IsLeast {amount | ∃ process ∈ chosen, (amount, process) ∈ entries}
      (atLeast types (stairs running entries) chosen) := by
  induction entries generalizing running with
  | nil =>
    simp only [List.map_nil, List.toFinset_nil, Finset.union_empty] at inside
    exact absurd inside later
  | cons entry rest ih =>
    obtain ⟨amount, process⟩ := entry
    rw [List.map_cons, List.toFinset_cons] at known inside
    obtain ⟨first, others⟩ := List.pairwise_cons.mp descending
    rw [List.map_cons, List.nodup_cons] at distinct
    rw [atLeast_stairs_cons known]
    by_cases complete : chosen ⊆ insert process running
    · -- the process is the last of the chosen ones to come
      rw [if_pos complete, atLeast_stairs_of_subset rest (known_tail known) complete,
        sub_add_cancel]
      obtain ⟨late, isChosen, notYet⟩ := Finset.not_subset.mp later
      obtain rfl : late = process := (Finset.mem_insert.mp (complete isChosen)).resolve_right notYet
      refine ⟨⟨late, isChosen, List.mem_cons_self⟩, ?_⟩
      rintro other ⟨name, alsoChosen, member⟩
      rcases List.mem_cons.mp member with same | listed
      · rw [(Prod.mk.inj same).1]
      · exfalso
        rcases Finset.mem_insert.mp (complete alsoChosen) with rfl | before
        · exact distinct.1 (List.mem_map.mpr ⟨_, listed, rfl⟩)
        · exact apart _ (List.mem_cons_of_mem _ listed) before
    · rw [if_neg complete, zero_add]
      rw [Finset.union_insert, ← Finset.insert_union] at inside
      have restApart : ∀ entry ∈ rest, entry.2 ∉ insert process running := by
        intro entry listed
        rw [Finset.mem_insert, not_or]
        refine ⟨?_, apart entry (List.mem_cons_of_mem _ listed)⟩
        rintro rfl
        exact distinct.1 (List.mem_map.mpr ⟨entry, listed, rfl⟩)
      obtain ⟨⟨name, isChosen, listed⟩, least⟩ :=
        ih (known_tail known) others distinct.2 restApart inside complete
      refine ⟨⟨name, isChosen, List.mem_cons_of_mem _ listed⟩, ?_⟩
      rintro other ⟨also, alsoChosen, member⟩
      rcases List.mem_cons.mp member with same | alsoListed
      · -- the process comes before the one with the least amount
        rw [(Prod.mk.inj same).1]
        exact first _ listed
      · exact least ⟨also, alsoChosen, alsoListed⟩

/-! ## Logging the stairs -/

section Logging

variable {types : Finset String} {amount : Finset String → R} {before : Allocation α}

theorem Tabulates.log (tabulates : Tabulates types amount before) {added : R} (nonneg : 0 ≤ added)
    {processes : List String} (present : processes.toFinset ∈ combinationsOf types) :
    ∃ after, (Allocation.log (Exact.embed added : α) processes).run before = (.ok (), after) ∧
      Tabulates types (amount + Pi.single processes.toFinset added) after := by
  obtain ⟨after, succeeds, later⟩ := tabulates.add added processes present
  refine ⟨after, ?_, later⟩
  rw [run_log, requireNonneg_embed added nonneg, Calc.ok_bind, succeeds]

theorem Tabulates.logStaircase (tabulates : Tabulates types amount before)
    {everyone running : List String} (entries : List (R × String)) (filled : entries ≠ [])
    (together : everyone.toFinset = running.toFinset ∪ (entries.map (·.2)).toFinset)
    (known : everyone.toFinset ⊆ types)
    (descending : entries.Pairwise fun first second => second.1 ≤ first.1)
    (nonneg : ∀ entry ∈ entries, 0 ≤ entry.1) :
    ∃ after,
      (Allocation.logStaircase everyone running (entries.map embedded : List (α × String))).run
        before = (.ok (), after) ∧
      Tabulates types (amount + stairs running.toFinset entries) after := by
  induction entries generalizing running amount before with
  | nil => exact absurd rfl filled
  | cons entry rest ih =>
    obtain ⟨value, process⟩ := entry
    rw [List.map_cons, List.toFinset_cons] at together
    have present : insert process running.toFinset ∈ combinationsOf types :=
      insert_mem_combinationsOf (together ▸ known)
    cases rest with
    | nil =>
      have last : everyone.toFinset = insert process running.toFinset := by
        rw [together, List.map_nil, List.toFinset_nil, Finset.union_insert, Finset.union_empty]
      obtain ⟨after, succeeds, later⟩ :=
        tabulates.log (nonneg _ List.mem_cons_self) (last ▸ present)
      refine ⟨after, succeeds, ?_⟩
      have stair : stairs running.toFinset [(value, process)] =
          Pi.single (insert process running.toFinset) value := by
        rw [stairs, stairs, add_zero]
        exact congrArg _ (sub_zero value)
      rwa [stair, ← last]
    | cons next rest =>
      have ahead : (running ++ [process]).toFinset = insert process running.toFinset := by
        rw [List.toFinset_append, List.toFinset_cons, List.toFinset_nil, Finset.union_insert,
          Finset.union_empty]
      obtain ⟨first, others⟩ := List.pairwise_cons.mp descending
      have shorter : next.1 ≤ value := first next List.mem_cons_self
      obtain ⟨between, succeeds, recorded⟩ :=
        tabulates.log (sub_nonneg.mpr shorter) (ahead ▸ present)
      have stillTogether : everyone.toFinset =
          (running ++ [process]).toFinset ∪ ((next :: rest).map (·.2)).toFinset := by
        rw [together, ahead, Finset.union_insert, Finset.insert_union]
      obtain ⟨after, finishes, later⟩ := ih recorded (List.cons_ne_nil _ _) stillTogether
        others fun entry listed => nonneg entry (List.mem_cons_of_mem _ listed)
      refine ⟨after, ?_, ?_⟩
      · rw [List.map_cons, List.map_cons, Allocation.logStaircase]
        rw [embedded, embedded, lift_bind _ (Exact.sub_embed value next.1), run_bind, succeeds]
        exact finishes
      · rw [ahead, add_assoc] at later
        exact later

end Logging

/-! ## Processes that start together -/

section Sorting

omit [CommRing R] [IsStrictOrderedRing R]

/-- Processes with their amounts, the greatest amount first. -/
def descending (amounts : List R) (processes : List String) : List (R × String) :=
  (amounts.zip processes).reverse.insertionSort fun first second => second.1 ≤ first.1

theorem descending_perm (amounts : List R) (processes : List String) :
    (descending amounts processes).Perm (amounts.zip processes) :=
  (List.perm_insertionSort _ _).trans (List.reverse_perm _)

theorem pairwise_descending (amounts : List R) (processes : List String) :
    (descending amounts processes).Pairwise fun first second => second.1 ≤ first.1 := by
  have total : Std.Total fun first second : R × String => second.1 ≤ first.1 :=
    ⟨fun first second => le_total second.1 first.1⟩
  have transitive : IsTrans (R × String) fun first second => second.1 ≤ first.1 :=
    ⟨fun _ _ _ lower higher => higher.trans lower⟩
  exact List.pairwise_insertionSort _ _

theorem amounts_descending {amounts : List R} {processes : List String}
    (paired : amounts.length = processes.length) :
    ((descending amounts processes).map (·.1)).Perm amounts := by
  have zipped : (amounts.zip processes).map (·.1) = amounts := List.map_fst_zip paired.le
  simpa only [zipped] using (descending_perm amounts processes).map (·.1)

theorem processes_descending {amounts : List R} {processes : List String}
    (paired : amounts.length = processes.length) :
    ((descending amounts processes).map (·.2)).Perm processes := by
  have zipped : (amounts.zip processes).map (·.2) = processes := List.map_snd_zip paired.ge
  simpa only [zipped] using (descending_perm amounts processes).map (·.2)

theorem toFinset_descending {amounts : List R} {processes : List String}
    (paired : amounts.length = processes.length) :
    ((descending amounts processes).map (·.2)).toFinset = processes.toFinset :=
  List.toFinset_eq_of_perm _ _ (processes_descending paired)

theorem descending_ne_nil {amounts : List R} {processes : List String}
    (paired : amounts.length = processes.length) (filled : processes ≠ []) :
    descending amounts processes ≠ [] := by
  intro empty
  have names := processes_descending paired
  rw [empty] at names
  exact filled names.nil_eq.symm

end Sorting

omit [IsStrictOrderedRing R] in
theorem isGreatest_top {entries : List (R × String)} (filled : entries ≠ [])
    (descending : entries.Pairwise fun first second => second.1 ≤ first.1) :
    IsGreatest {amount | amount ∈ entries.map (·.1)} (top entries) := by
  obtain ⟨entry, rest, rfl⟩ := List.exists_cons_of_ne_nil filled
  refine ⟨List.mem_cons_self, ?_⟩
  intro amount member
  rcases List.mem_cons.mp member with rfl | later
  · exact le_refl _
  · obtain ⟨other, listed, rfl⟩ := List.mem_map.mp later
    exact (List.pairwise_cons.mp descending).1 other listed

omit [Arithmetic α] in
theorem forM_lift_ok {β : Type} (check : β → Calc Unit) (items : List β)
    (passes : ∀ item ∈ items, check item = .ok ()) :
    (items.forM fun item => (liftM (check item) : Step α Unit)) = pure () := by
  induction items with
  | nil => rfl
  | cons item rest ih =>
    rw [List.forM, lift_bind _ (passes item List.mem_cons_self)]
    exact ih fun later member => passes later (List.mem_cons_of_mem _ member)

section Together

variable {types : Finset String} {amount : Finset String → R} {before : Allocation α}
  {amounts : List R} {processes : List String} (paired : amounts.length = processes.length)
  (nonneg : ∀ amount ∈ amounts, 0 ≤ amount)

include paired nonneg

theorem logParallel_eq :
    logParallel (amounts.map Exact.embed : List α) processes =
      logStaircase processes [] ((descending amounts processes).map embedded) := by
  have sameLength : ((amounts.map Exact.embed : List α).length != processes.length) = false := by
    simp [paired]
  have passes : ∀ amount ∈ (amounts.map Exact.embed : List α), requireNonneg amount = .ok () := by
    intro amount member
    obtain ⟨exact, listed, rfl⟩ := List.mem_map.mp member
    exact requireNonneg_embed exact (nonneg exact listed)
  unfold logParallel
  rw [sameLength, forM_lift_ok requireNonneg _ passes, zip_embedded,
    lift_bind _ (sortDescending_embedded (amounts.zip processes))]
  rfl

/-- The staircase of the sorted processes is added to what was there. -/
theorem Tabulates.logParallel (tabulates : Tabulates types amount before)
    (filled : processes ≠ []) (known : processes.toFinset ⊆ types) :
    ∃ after, (Allocation.logParallel (amounts.map Exact.embed : List α) processes).run before =
        (.ok (), after) ∧
      Tabulates types (amount + stairs ∅ (descending amounts processes)) after := by
  have everyone : processes.toFinset =
      ([] : List String).toFinset ∪ ((descending amounts processes).map (·.2)).toFinset := by
    rw [List.toFinset_nil, Finset.empty_union, toFinset_descending paired]
  have sortedNonneg : ∀ entry ∈ descending amounts processes, 0 ≤ entry.1 := by
    intro entry member
    exact nonneg _ ((amounts_descending paired).mem_iff.mp (List.mem_map.mpr ⟨entry, member, rfl⟩))
  rw [logParallel_eq paired nonneg]
  exact tabulates.logStaircase _ (descending_ne_nil paired filled) everyone known
    (pairwise_descending _ _) sortedNonneg

end Together

/-- Logging processes that start together succeeds on every complete table of exact amounts. The
total grows by the greatest of their amounts, and what some processes use at the same time by the
least of their amounts, if all of them are among those that start. -/
theorem logParallel_adds {types : Finset String} {before : Allocation α}
    (complete : Complete types before.keys)
    (exact : ∀ entry ∈ before.amounts, ∃ amount : R, entry.2 = Exact.embed amount)
    {amounts : List R} {processes : List String} (paired : amounts.length = processes.length)
    (filled : processes ≠ []) (distinct : processes.Nodup) (known : processes.toFinset ⊆ types)
    (nonneg : ∀ amount ∈ amounts, 0 ≤ amount) :
    ∃ after, (logParallel (amounts.map Exact.embed : List α) processes).run before =
        (.ok (), after) ∧
      (∃ total longest : R, before.total = .ok (Exact.embed total) ∧
        IsGreatest {amount | amount ∈ amounts} longest ∧
        after.total = .ok (Exact.embed (total + longest))) ∧
      ∀ chosen : List String, chosen ≠ [] →
        ∃ used added : R, before.inclusive chosen = .ok (Exact.embed used) ∧
          after.inclusive chosen = .ok (Exact.embed (used + added)) ∧
          (chosen ⊆ processes → IsLeast
            {amount | ∃ process ∈ chosen, (amount, process) ∈ amounts.zip processes} added) ∧
          (¬ chosen ⊆ processes → added = 0) := by
  obtain ⟨amount, tabulates⟩ := Tabulates.exists_of_exact complete exact
  obtain ⟨after, succeeds, later⟩ := tabulates.logParallel paired nonneg filled known
  have everyone : ∅ ∪ ((descending amounts processes).map (·.2)).toFinset =
      processes.toFinset := by
    rw [Finset.empty_union, toFinset_descending paired]
  have inTypes := everyone.subset.trans known
  refine ⟨after, succeeds, ?_, ?_⟩
  · refine ⟨_, top (descending amounts processes), tabulates.total_eq, ?_, ?_⟩
    · have greatest := isGreatest_top (descending_ne_nil paired filled)
        (pairwise_descending amounts processes)
      simpa only [(amounts_descending paired).mem_iff] using greatest
    · rw [later.total_eq, ← atLeast_empty, ← atLeast_empty, atLeast_add,
        atLeast_stairs_of_subset _ inTypes (Finset.empty_subset _)]
  · intro chosen nonempty
    refine ⟨_, atLeast types (stairs ∅ (descending amounts processes)) chosen.toFinset,
      tabulates.inclusive_eq chosen, ?_, ?_, ?_⟩
    · rw [later.inclusive_eq, atLeast_add]
    · intro inside
      have sorted : chosen.toFinset ⊆
          ∅ ∪ ((descending amounts processes).map (·.2)).toFinset := by
        rw [everyone]
        intro process member
        exact List.mem_toFinset.mpr (inside (List.mem_toFinset.mp member))
      have nothingBefore : ¬ chosen.toFinset ⊆ ∅ := by
        rwa [Finset.subset_empty, List.toFinset_eq_empty_iff]
      have least := isLeast_atLeast_stairs _ inTypes (pairwise_descending amounts processes)
        ((processes_descending paired).nodup_iff.mpr distinct) (by simp) sorted nothingBefore
      simpa only [List.mem_toFinset, (descending_perm amounts processes).mem_iff] using least
    · intro outside
      refine atLeast_stairs_of_not_subset _ inTypes fun inside => outside ?_
      intro process member
      rw [everyone] at inside
      exact List.mem_toFinset.mp (inside (List.mem_toFinset.mpr member))

/-- Three processes, two of which end at the same time, beside one that does not take part. -/
theorem logParallel_adds_tie :
    ∃ before after : Allocation Scalar,
      (log (.whole 1) ["a", "d"]).run (fresh .cycles ["a", "b", "c", "d"]) = (.ok (), before) ∧
      (logParallel [.whole 2, .whole 5, .whole 2] ["c", "a", "b"]).run before = (.ok (), after) ∧
      before.total = .ok (.whole 1) ∧ after.total = .ok (.whole 6) ∧
      before.inclusive ["a", "b"] = .ok (.whole 0) ∧
      after.inclusive ["a", "b"] = .ok (.whole 2) ∧
      before.inclusive ["a", "d"] = .ok (.whole 1) ∧
      after.inclusive ["a", "d"] = .ok (.whole 1) := by
  have recorded := Recorded.log (R := Int) (α := Scalar) 1 ["a", "d"]
    (.fresh .cycles ["a", "b", "c", "d"] rfl) (Prod.ext rfl rfl)
  obtain ⟨_, records⟩ := recorded.records
  have paired : ([2, 5, 2] : List Int).length = ["c", "a", "b"].length := rfl
  obtain ⟨after, succeeds, ⟨total, longest, isTotal, greatest, laterTotal⟩, shares⟩ :=
    logParallel_adds (R := Int) records.complete
      (fun entry member => ⟨_, records.entry_eq entry member⟩)
      paired (by decide) (by decide) (by decide) (by decide)
  obtain ⟨together, shared, isTogether, laterTogether, least, _⟩ := shares ["a", "b"] (by decide)
  obtain ⟨apart, unshared, isApart, laterApart, _, none⟩ := shares ["a", "d"] (by decide)
  have isFive : longest = 5 := greatest.unique ⟨by decide, by simp [mem_upperBounds]⟩
  have isTwo : shared = 2 :=
    (least (by decide)).unique ⟨⟨"b", by decide, by decide⟩, by simp [mem_lowerBounds]⟩
  have isZero : unshared = 0 := none (by decide)
  subst isFive isTwo isZero
  cases isTotal
  cases isTogether
  cases isApart
  exact ⟨_, after, rfl, succeeds, rfl, laterTotal, rfl, laterTogether, rfl, laterApart⟩

end QuantumResources.Allocation
