import Mathlib.Algebra.Order.BigOperators.Group.Finset
import Mathlib.Data.Nat.Choose.Sum
import QuantumResources.Proofs.Allocation.Records

/-! What the amounts of an allocation add up to.

The total is the sum over all combinations, and the amount used by at least some processes is the
sum over the combinations that hold them. The total is an alternating sum of the latter, and all of
them are additive. -/

namespace QuantumResources.Allocation

variable {R α : Type} [CommRing R] [LinearOrder R] [IsStrictOrderedRing R] [Arithmetic α]
  [Exact R α]

/-- What the combinations with all of these processes use together. -/
def atLeast (types : Finset String) (amount : Finset String → R) (processes : Finset String) : R :=
  ∑ key ∈ (combinationsOf types).filter (processes ⊆ ·), amount key

section Amounts

variable (types : Finset String)

omit [LinearOrder R] [IsStrictOrderedRing R] in
theorem atLeast_add (first second : Finset String → R) (processes : Finset String) :
    atLeast types (first + second) processes =
      atLeast types first processes + atLeast types second processes :=
  Finset.sum_add_distrib

theorem antitone_atLeast (amount : Finset String → R) (nonneg : ∀ processes, 0 ≤ amount processes) :
    Antitone (atLeast types amount) := by
  intro fewer more subset
  apply Finset.sum_le_sum_of_subset_of_nonneg
  · intro key member
    rw [Finset.mem_filter] at member ⊢
    exact ⟨member.1, subset.trans member.2⟩
  · intro key _ _
    exact nonneg key

omit [LinearOrder R] [IsStrictOrderedRing R] in
/-- The non-empty subsets of a non-empty set, counted with signs, leave one. -/
theorem sum_signs (key : Finset String) (filled : key.Nonempty) :
    ∑ processes ∈ combinationsOf key, (-1 : R) ^ (processes.card + 1) = 1 := by
  have alternating : ∑ processes ∈ key.powerset, (-1 : R) ^ processes.card = 0 := by
    exact_mod_cast congrArg (Int.cast : Int → R)
      (Finset.sum_powerset_neg_one_pow_card_of_nonempty filled)
  have split := Finset.add_sum_erase key.powerset (fun processes => (-1 : R) ^ processes.card)
    (Finset.empty_mem_powerset key)
  rw [alternating, Finset.card_empty, pow_zero] at split
  calc ∑ processes ∈ combinationsOf key, (-1 : R) ^ (processes.card + 1)
    _ = -∑ processes ∈ combinationsOf key, (-1 : R) ^ processes.card := by
      rw [← Finset.sum_neg_distrib]
      exact Finset.sum_congr rfl fun processes _ => by ring
    _ = 1 := (eq_neg_of_add_eq_zero_left split).symm

omit [LinearOrder R] [IsStrictOrderedRing R] in
theorem inclusion_exclusion (amount : Finset String → R) :
    ∑ processes ∈ combinationsOf types,
        (-1) ^ (processes.card + 1) * atLeast types amount processes =
      ∑ key ∈ combinationsOf types, amount key := by
  -- each amount is counted once for every non-empty part of its combination, with alternating signs
  have swapped : ∑ processes ∈ combinationsOf types,
        ∑ key ∈ (combinationsOf types).filter (processes ⊆ ·),
          (-1) ^ (processes.card + 1) * amount key =
      ∑ key ∈ combinationsOf types, ∑ processes ∈ combinationsOf key,
        (-1) ^ (processes.card + 1) * amount key := by
    apply Finset.sum_comm'
    intro processes key
    simp only [Finset.mem_filter, mem_combinationsOf]
    constructor
    · rintro ⟨⟨filled, _⟩, isKey, inside⟩
      exact ⟨⟨filled, inside⟩, isKey⟩
    · rintro ⟨⟨filled, inside⟩, isKey⟩
      exact ⟨⟨filled, inside.trans isKey.2⟩, isKey, inside⟩
  simp only [atLeast, Finset.mul_sum]
  rw [swapped]
  refine Finset.sum_congr rfl fun key isKey => ?_
  rw [← Finset.sum_mul, sum_signs key (mem_combinationsOf.mp isKey).1, one_mul]

end Amounts

namespace Tabulates

variable {types : Finset String} {amount : Finset String → R} {allocation : Allocation α}
  (tabulates : Tabulates types amount allocation)

include tabulates

theorem total_eq :
    allocation.total = .ok (Exact.embed (∑ key ∈ combinationsOf types, amount key)) := by
  have listed : allocation.amounts.map (·.2) = (allocation.keys.map amount).map Exact.embed := by
    rw [keys, List.map_map, List.map_map]
    exact List.map_congr_left tabulates.entry_eq
  rw [Allocation.total, listed, sum_embed, tabulates.complete.sum_map]

theorem inclusive_eq (processes : List String) :
    allocation.inclusive processes =
      .ok (Exact.embed (atLeast types amount processes.toFinset)) := by
  have holds : ∀ combination : List String,
      processes.all (combination.contains ·) = true ↔
        processes.toFinset ⊆ combination.toFinset := by
    intro combination
    simp [List.all_eq_true, Finset.subset_iff]
  have listed : (allocation.amounts.filter fun entry =>
        processes.all (entry.1.contains ·)).map (·.2) =
      ((allocation.keys.filter (processes.toFinset ⊆ ·)).map amount).map Exact.embed := by
    rw [keys, List.filter_map, List.map_map, List.map_map]
    have filtered : (allocation.amounts.filter fun entry =>
          processes.all (entry.1.contains ·)) =
        allocation.amounts.filter ((fun key => decide (processes.toFinset ⊆ key)) ∘
          fun entry => entry.1.toFinset) := by
      refine List.filter_congr fun entry _ => ?_
      rw [Bool.eq_iff_iff, holds, Function.comp_apply, decide_eq_true_iff]
    rw [filtered]
    exact List.map_congr_left fun entry member =>
      tabulates.entry_eq entry (List.mem_filter.mp member).1
  have counted : ((allocation.keys.filter (processes.toFinset ⊆ ·)).map amount).sum =
      atLeast types amount processes.toFinset := by
    have isFiltered : (allocation.keys.filter (processes.toFinset ⊆ ·)).toFinset =
        (combinationsOf types).filter (processes.toFinset ⊆ ·) := by
      ext key
      simp [tabulates.complete.mem_combinationsOf]
    rw [← List.sum_toFinset amount (tabulates.complete.nodup.filter _), isFiltered, atLeast]
  rw [Allocation.inclusive, listed, sum_embed, counted]

theorem exclusive_eq (processes : List String) :
    allocation.exclusive processes =
      if processes.toFinset ∈ combinationsOf types then
        .ok (Exact.embed (amount processes.toFinset))
      else .error .noSuchKey := by
  unfold Allocation.exclusive
  cases found : allocation.amounts.find? (sameProcesses processes ·.1) with
  | none =>
    have absent : processes.toFinset ∉ combinationsOf types := by
      rw [← tabulates.complete.mem_combinationsOf]
      intro isKey
      obtain ⟨entry, member, same⟩ := List.mem_map.mp isKey
      exact List.find?_eq_none.mp found entry member
        ((sameProcesses_iff_toFinset _ _).mpr same.symm)
    rw [if_neg absent]
  | some entry =>
    have member := List.mem_of_find?_eq_some found
    have matched := List.find?_some found
    have same := (sameProcesses_iff_toFinset _ _).mp matched
    have isKey : entry.1.toFinset ∈ allocation.keys := List.mem_map.mpr ⟨entry, member, rfl⟩
    rw [same, if_pos (tabulates.complete.mem_combinationsOf.mp isKey)]
    exact congrArg Except.ok (tabulates.entry_eq entry member)

end Tabulates

/-- Whatever is made from new allocations of the same process types has one entry for every
combination of these, none of them negative. What at least some processes use falls with the set of
processes, and the total is its alternating sum over all combinations. Allocations of cycles can be
added in either order, and totals are added with them, as is what at least some processes use. -/
theorem recorded_laws {types : Finset String} {allocation : Allocation α}
    (recorded : Recorded R types allocation) :
    Complete types allocation.keys ∧
    (∀ entry ∈ allocation.amounts, ∃ amount : R, entry.2 = Exact.embed amount ∧ 0 ≤ amount) ∧
    (∃ (total : R) (inclusive : Finset String → R),
      allocation.total = .ok (Exact.embed total) ∧
      (∀ processes,
        allocation.inclusive processes = .ok (Exact.embed (inclusive processes.toFinset))) ∧
      Antitone inclusive ∧
      total = ∑ processes ∈ types.powerset.erase ∅,
        (-1) ^ (processes.card + 1) * inclusive processes) ∧
    ∀ other : Allocation α, Recorded R types other → allocation.resource = .cycles →
      other.resource = .cycles →
      ∃ sum swapped, allocation.sum other = .ok sum ∧ other.sum allocation = .ok swapped ∧
        (∀ processes, sum.exclusive processes = swapped.exclusive processes) ∧
        sum.total = allocation.total + other.total ∧
        ∀ processes,
          sum.inclusive processes = allocation.inclusive processes + other.inclusive processes := by
  obtain ⟨amount, records⟩ := recorded.records
  refine ⟨records.complete, ?_, ?_, ?_⟩
  · intro entry member
    exact ⟨_, records.entry_eq entry member, records.nonneg _⟩
  · exact ⟨_, atLeast types amount, records.total_eq, records.inclusive_eq,
      antitone_atLeast types amount records.nonneg, (inclusion_exclusion types amount).symm⟩
  · intro other otherRecorded cycles otherCycles
    obtain ⟨second, otherRecords⟩ := otherRecorded.records
    obtain ⟨sum, added, sumRecords⟩ := records.sum otherRecords cycles
    obtain ⟨swapped, alsoAdded, swappedRecords⟩ := otherRecords.sum records otherCycles
    refine ⟨sum, swapped, added, alsoAdded, ?_, ?_, ?_⟩
    · intro processes
      rw [sumRecords.exclusive_eq, swappedRecords.exclusive_eq, add_comm]
    · rw [sumRecords.total_eq, records.total_eq, otherRecords.total_eq]
      simp only [Pi.add_apply, Finset.sum_add_distrib]
      exact (Exact.add_embed _ _).symm
    · intro processes
      rw [sumRecords.inclusive_eq, records.inclusive_eq, otherRecords.inclusive_eq, atLeast_add]
      exact (Exact.add_embed _ _).symm

/-- Three processes that end one after the other, logged and then added to themselves. -/
theorem recorded_laws_threeProcesses :
    ∃ logged twice : Allocation Scalar,
      (logParallel [.whole 5, .whole 1, .whole 2] ["a", "b", "c"]).run
        (fresh .cycles ["a", "b", "c"]) = (.ok (), logged) ∧
      Complete {"a", "b", "c"} logged.keys ∧ logged.total = .ok (.whole 5) ∧
      logged.inclusive ["a", "c"] = .ok (.whole 2) ∧
      logged.sum logged = .ok twice ∧ twice.total = .ok (.whole 10) := by
  have recorded := Recorded.logParallel (R := Int) (α := Scalar) [5, 1, 2] ["a", "b", "c"]
    (.fresh .cycles ["a", "b", "c"] rfl) (Prod.ext rfl rfl)
  obtain ⟨complete, _, _, additive⟩ := recorded_laws recorded
  obtain ⟨twice, _, added, _, _, total, _⟩ := additive _ recorded rfl rfl
  exact ⟨_, twice, rfl, complete, rfl, rfl, added, total⟩

end QuantumResources.Allocation
