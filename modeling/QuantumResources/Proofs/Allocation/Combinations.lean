import Mathlib.Data.Finset.Powerset
import Mathlib.Data.List.Sublists
import QuantumResources.Proofs.Allocation.Spending

/-! The combinations of an allocation are the non-empty sets of its process types.

They are written as lists without an order of their own, so a combination is read as the set of its
processes. The list of process types may name a process twice; its sets are then found in several
ways, and each is kept once. -/

namespace QuantumResources

theorem mem_choose {β : Type} (size : Nat) (items combination : List β) :
    combination ∈ choose size items ↔ combination.Sublist items ∧ combination.length = size := by
  fun_induction choose size items generalizing combination with
  | case1 items =>
    rw [List.mem_singleton, List.length_eq_zero_iff]
    exact ⟨fun empty => ⟨empty ▸ List.nil_sublist items, empty⟩, And.right⟩
  | case2 size =>
    rw [List.sublist_nil]
    constructor
    · intro impossible
      cases impossible
    · rintro ⟨rfl, impossible⟩
      cases impossible
  | case3 size item rest fewer same =>
    simp only [List.mem_append, List.mem_map, fewer, same, List.sublist_cons_iff]
    constructor
    · rintro (⟨chosen, ⟨inside, length⟩, rfl⟩ | ⟨inside, length⟩)
      · exact ⟨.inr ⟨chosen, rfl, inside⟩, by rw [List.length_cons, length]⟩
      · exact ⟨.inl inside, length⟩
    · rintro ⟨inside | ⟨chosen, rfl, inside⟩, length⟩
      · exact .inr ⟨inside, length⟩
      · exact .inl ⟨chosen, ⟨inside, Nat.succ.inj length⟩, rfl⟩

theorem mem_combinations {β : Type} (items combination : List β) :
    combination ∈ combinations items ↔ combination ≠ [] ∧ combination.Sublist items := by
  simp only [combinations, List.mem_flatMap, List.mem_range, mem_choose]
  constructor
  · rintro ⟨size, _, inside, length⟩
    exact ⟨List.ne_nil_of_length_eq_add_one length, inside⟩
  · rintro ⟨filled, inside⟩
    have positive := List.length_pos_iff.mpr filled
    have shorter := inside.length_le
    exact ⟨combination.length - 1, by omega, inside, by omega⟩

/-- The sets with a number of items are chosen from different items in one way each. -/
theorem nodup_choose {β : Type} [DecidableEq β] (size : Nat) {items : List β}
    (nodup : items.Nodup) : ((choose size items).map List.toFinset).Nodup := by
  fun_induction choose size items with
  | case1 => exact List.nodup_singleton _
  | case2 => exact List.nodup_nil
  | case3 size item rest fewer same =>
    obtain ⟨new, restNodup⟩ := List.nodup_cons.mp nodup
    have absent : ∀ {size : Nat} {chosen : Finset β},
        chosen ∈ (choose size rest).map List.toFinset → item ∉ chosen := by
      intro size chosen member inside
      obtain ⟨combination, isChosen, rfl⟩ := List.mem_map.mp member
      exact new (((mem_choose _ _ _).mp isChosen).1.subset (List.mem_toFinset.mp inside))
    have inserted : ((choose size rest).map (item :: ·)).map List.toFinset =
        ((choose size rest).map List.toFinset).map (insert item) := by
      rw [List.map_map, List.map_map]
      exact List.map_congr_left fun combination _ => List.toFinset_cons
    rw [List.map_append, inserted, List.nodup_append]
    refine ⟨(fewer restNodup).map_on ?_, same restNodup, ?_⟩
    · intro first isFirst second isSecond equal
      rw [← Finset.erase_insert (absent isFirst), equal, Finset.erase_insert (absent isSecond)]
    · rintro chosen isInserted other isOther rfl
      obtain ⟨_, _, rfl⟩ := List.mem_map.mp isInserted
      exact absent isOther (Finset.mem_insert_self _ _)

/-- Of a list, the items that are in a set. -/
theorem toFinset_filter_mem {β : Type} [DecidableEq β] {items : List β} {chosen : Finset β}
    (within : chosen ⊆ items.toFinset) : (items.filter (· ∈ chosen)).toFinset = chosen := by
  ext item
  simpa using fun member => List.mem_toFinset.mp (within member)

theorem toFinset_choose {β : Type} [DecidableEq β] (size : Nat) {items : List β}
    (nodup : items.Nodup) :
    ((choose size items).map List.toFinset).toFinset = items.toFinset.powersetCard size := by
  ext chosen
  rw [List.mem_toFinset, List.mem_map, Finset.mem_powersetCard]
  constructor
  · rintro ⟨combination, isChosen, rfl⟩
    obtain ⟨inside, length⟩ := (mem_choose _ _ _).mp isChosen
    refine ⟨fun item => ?_, (List.toFinset_card_of_nodup (inside.nodup nodup)).trans length⟩
    simpa only [List.mem_toFinset] using fun member => inside.subset member
  · rintro ⟨within, card⟩
    refine ⟨items.filter (· ∈ chosen), (mem_choose _ _ _).mpr ⟨List.filter_sublist, ?_⟩,
      toFinset_filter_mem within⟩
    rw [← List.toFinset_card_of_nodup (nodup.filter _), toFinset_filter_mem within, card]

theorem sameProcesses_iff_toFinset (left right : List String) :
    sameProcesses left right = true ↔ left.toFinset = right.toFinset := by
  rw [sameProcesses_iff, Finset.ext_iff]
  simp only [List.mem_toFinset]

namespace Allocation

/-- Every non-empty set of process types stands in a list of keys, and stands there once. -/
structure Complete (types : Finset String) (keys : List (Finset String)) : Prop where
  nodup : keys.Nodup
  mem_iff (processes : Finset String) :
    processes ∈ keys ↔ processes.Nonempty ∧ processes ⊆ types

theorem toFinset_eraseDups (processes : List String) :
    processes.eraseDups.toFinset = processes.toFinset := by
  ext process
  simp

theorem mem_distinctCombinations (listed : List (List String)) (processes : Finset String) :
    processes ∈ (distinctCombinations listed).map List.toFinset ↔
      processes ∈ listed.map List.toFinset := by
  induction listed with
  | nil => rfl
  | cons combination rest ih =>
    have others : processes ∈ ((distinctCombinations rest).filter fun other =>
          !sameProcesses combination other).map List.toFinset ↔
        processes ≠ combination.toFinset ∧ processes ∈ rest.map List.toFinset := by
      rw [← ih]
      simp only [List.mem_map, List.mem_filter, Bool.not_eq_true', ← Bool.not_eq_true,
        sameProcesses_iff_toFinset]
      constructor
      · rintro ⟨key, ⟨member, different⟩, rfl⟩
        exact ⟨Ne.symm different, key, member, rfl⟩
      · rintro ⟨different, key, member, rfl⟩
        exact ⟨key, ⟨member, Ne.symm different⟩, rfl⟩
    rw [distinctCombinations, List.map_cons, List.map_cons, List.mem_cons, List.mem_cons, others,
      toFinset_eraseDups]
    tauto

theorem nodup_distinctCombinations (listed : List (List String)) :
    ((distinctCombinations listed).map List.toFinset).Nodup := by
  induction listed with
  | nil => exact List.nodup_nil
  | cons combination rest ih =>
    rw [distinctCombinations, List.map_cons, List.nodup_cons, toFinset_eraseDups]
    refine ⟨?_, ih.sublist (List.filter_sublist.map _)⟩
    rintro repeated
    obtain ⟨other, member, same⟩ := List.mem_map.mp repeated
    have different := (List.mem_filter.mp member).2
    rw [(sameProcesses_iff_toFinset _ _).mpr same.symm] at different
    cases different

/-- The combinations of a new allocation are all of them, each once. -/
theorem complete_distinctCombinations (processTypes : List String) :
    Complete processTypes.toFinset
      ((distinctCombinations (combinations processTypes)).map List.toFinset) where
  nodup := nodup_distinctCombinations _
  mem_iff processes := by
    rw [mem_distinctCombinations, List.mem_map]
    simp only [mem_combinations]
    constructor
    · rintro ⟨combination, ⟨filled, inside⟩, rfl⟩
      refine ⟨(List.toFinset_nonempty_iff _).mpr filled, ?_⟩
      intro process member
      exact List.mem_toFinset.mpr (inside.subset (List.mem_toFinset.mp member))
    · rintro ⟨⟨process, member⟩, within⟩
      refine ⟨processTypes.filter (· ∈ processes), ⟨?_, List.filter_sublist⟩,
        toFinset_filter_mem within⟩
      exact List.ne_nil_of_mem (List.mem_filter.mpr
        ⟨List.mem_toFinset.mp (within member), decide_eq_true member⟩)

end Allocation

end QuantumResources
