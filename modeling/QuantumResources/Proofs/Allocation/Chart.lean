import QuantumResources.Allocation.Chart
import QuantumResources.Proofs.Allocation.InclusionExclusion
import QuantumResources.Proofs.Number.Doubles

/-! What the stacked chart shows of an allocation.

A combination of `k` processes has its amount in the level `k` of `k` bars, and nowhere else. So a
bar is as high as the amount that its process uses at all, and a level is `k` times as long as the
amount that is used by `k` processes at once. -/

namespace QuantumResources

/-- A quotient of at most one of two counts is a number. -/
class Shares (α : Type) [Arithmetic α] : Prop where
  div_count_le (part whole : Nat) (inside : part ≤ whole) (positive : 0 < whole) :
    ∃ share, Arithmetic.div (Arithmetic.ofInt part : α) (Arithmetic.ofInt whole) = .ok share

instance : Shares Rat where
  div_count_le part whole _ positive := ⟨_, div_count part whole (by omega)⟩

instance : Shares Scalar where
  div_count_le part whole inside positive := by
    have found : ∃ value, Binary64.ofRatio false part whole = some value := by
      rcases Nat.eq_zero_or_pos part with rfl | some
      · exact ⟨_, rfl⟩
      · exact Binary64.exists_ofRatio some false inside
    obtain ⟨value, isFound⟩ := found
    have partNonneg : ¬ (part : Int) < 0 := by omega
    have wholeNonneg : ¬ (whole : Int) < 0 := by omega
    refine ⟨.real value, ?_⟩
    change Scalar.wholeQuotient part whole = _
    simp [Scalar.wholeQuotient, positive.ne', partNonneg, wholeNonneg, isFound]

namespace Allocation

variable {R α : Type} [CommRing R] [LinearOrder R] [IsStrictOrderedRing R] [Arithmetic α]
  [Exact R α]

/-! ## Levels and bars -/

section Amounts

variable (types : Finset String) (amount : Finset String → R)

/-- What a process uses in combinations of a number of processes. -/
def sharedAt (level : Nat) (process : String) : R :=
  ∑ key ∈ (types.powersetCard level).filter (process ∈ ·), amount key

omit [LinearOrder R] [IsStrictOrderedRing R]

/-- The combinations are sorted by the number of their processes. -/
theorem sum_levels (value : Finset String → R) :
    ∑ level ∈ Finset.Icc 1 types.card, ∑ key ∈ types.powersetCard level, value key =
      ∑ key ∈ combinationsOf types, value key := by
  have counted : ∀ key ∈ combinationsOf types, key.card ∈ Finset.Icc 1 types.card := by
    intro key isKey
    obtain ⟨filled, inside⟩ := mem_combinationsOf.mp isKey
    exact Finset.mem_Icc.mpr ⟨filled.card_pos, Finset.card_le_card inside⟩
  rw [← Finset.sum_fiberwise_of_maps_to counted]
  refine Finset.sum_congr rfl fun level isLevel => Finset.sum_congr ?_ fun _ _ => rfl
  have positive := (Finset.mem_Icc.mp isLevel).1
  ext key
  rw [Finset.mem_filter, mem_combinationsOf, Finset.mem_powersetCard]
  constructor
  · rintro ⟨inside, card⟩
    exact ⟨⟨Finset.card_pos.mp (by omega), inside⟩, card⟩
  · rintro ⟨⟨_, inside⟩, card⟩
    exact ⟨inside, card⟩

/-- The segments of a bar. -/
theorem sum_sharedAt_levels (process : String) :
    ∑ level ∈ Finset.Icc 1 types.card, sharedAt types amount level process =
      atLeast types amount {process} := by
  simp only [sharedAt, atLeast, Finset.sum_filter, Finset.singleton_subset_iff]
  exact sum_levels types fun key => if process ∈ key then amount key else 0

/-- The segments of a level: each combination is counted once for every process in it. -/
theorem sum_sharedAt_processes (level : Nat) :
    ∑ process ∈ types, sharedAt types amount level process =
      level * ∑ key ∈ types.powersetCard level, amount key := by
  have swapped : ∑ process ∈ types, ∑ key ∈ (types.powersetCard level).filter (process ∈ ·),
        amount key =
      ∑ key ∈ types.powersetCard level, ∑ process ∈ key, amount key := by
    apply Finset.sum_comm'
    intro process key
    simp only [Finset.mem_filter, Finset.mem_powersetCard]
    constructor
    · rintro ⟨_, isKey, inside⟩
      exact ⟨inside, isKey⟩
    · rintro ⟨inside, isKey⟩
      exact ⟨isKey.1 inside, isKey, inside⟩
  simp only [sharedAt]
  rw [swapped, Finset.mul_sum]
  refine Finset.sum_congr rfl fun key isKey => ?_
  rw [Finset.sum_const, (Finset.mem_powersetCard.mp isKey).2, nsmul_eq_mul]

end Amounts

/-! ## Drawing -/

/-- A number for each bar. -/
def bars (processes : List String) (height : String → R) : List α :=
  processes.map fun process => Exact.embed (height process)

theorem add_bars (processes : List String) (first second : String → R) :
    ((bars processes first : List α).zip (bars processes second)).mapM
        (fun pair => Arithmetic.add pair.1 pair.2) =
      .ok (bars processes fun process => first process + second process) := by
  rw [bars, bars, List.zip_map', List.mapM_map]
  exact Calc.mapM_eq_ok_map _ _ _ fun process _ => Exact.add_embed _ _

section Drawing

variable {processes : List String} (nodup : processes.Nodup)

include nodup

omit [LinearOrder R] [IsStrictOrderedRing R] in
theorem sum_choose (amount : Finset String → R) (level : Nat) (process : String) :
    (((choose level processes).filter (·.contains process)).map fun combination =>
        amount combination.toFinset).sum =
      sharedAt processes.toFinset amount level process := by
  have sets : ((choose level processes).filter (·.contains process)).map List.toFinset =
      ((choose level processes).map List.toFinset).filter (process ∈ ·) := by
    rw [List.filter_map]
    congr 1
    exact List.filter_congr fun combination _ => by simp
  have listed : (((choose level processes).filter (·.contains process)).map fun combination =>
        amount combination.toFinset) =
      (((choose level processes).map List.toFinset).filter (process ∈ ·)).map amount := by
    rw [← sets, List.map_map]
    rfl
  rw [listed, ← List.sum_toFinset amount ((nodup_choose level nodup).filter _),
    List.toFinset_filter, toFinset_choose level nodup, sharedAt]
  simp only [decide_eq_true_eq]

variable {amount : Finset String → R} {allocation : Allocation α}
  (tabulates : Tabulates processes.toFinset amount allocation)

include tabulates

omit nodup in
theorem exclusive_of_sublist {combination : List String} (filled : combination ≠ [])
    (inside : combination.Sublist processes) :
    allocation.exclusive combination = .ok (Exact.embed (amount combination.toFinset)) := by
  rw [tabulates.exclusive_eq, if_pos]
  refine mem_combinationsOf.mpr ⟨(List.toFinset_nonempty_iff _).mpr filled, fun other => ?_⟩
  simpa only [List.mem_toFinset] using fun isMember => inside.subset isMember

theorem segment_eq (level : Nat) (process : String) :
    allocation.segment processes (level + 1) process =
      .ok (Exact.embed (sharedAt processes.toFinset amount (level + 1) process)) := by
  have amounts := Calc.mapM_eq_ok_map
    ((choose (level + 1) processes).filter (·.contains process))
    (fun combination => allocation.exclusive combination)
    (fun combination => Exact.embed (amount combination.toFinset)) (by
      intro combination member
      obtain ⟨inside, length⟩ := (mem_choose _ _ _).mp (List.mem_filter.mp member).1
      exact exclusive_of_sublist tabulates (List.ne_nil_of_length_eq_add_one length) inside)
  have total := sum_embed (α := α) (((choose (level + 1) processes).filter
    (·.contains process)).map fun combination => amount combination.toFinset)
  rw [List.map_map, sum_choose nodup] at total
  rw [segment, amounts]
  exact total

/-- Each level is drawn on top of those that have been drawn. -/
theorem stack_eq [Shares α] (several : 2 ≤ processes.length) (level : Nat)
    (within : level ≤ processes.length) (base : String → R) :
    ∃ levels, allocation.stack processes level (bars processes base) = .ok levels ∧
      levels.map (·.parallel) = (List.range' 1 level).reverse ∧
      ∀ drawn ∈ levels, drawn.heights =
        bars processes (sharedAt processes.toFinset amount drawn.parallel) := by
  induction level generalizing base with
  | zero => exact ⟨[], rfl, rfl, by simp⟩
  | succ level ih =>
    have heights : processes.mapM (allocation.segment processes (level + 1)) =
        .ok (bars processes (sharedAt processes.toFinset amount (level + 1))) :=
      Calc.mapM_eq_ok_map _ _ _ fun process _ => segment_eq nodup tabulates level process
    obtain ⟨shade, isShade⟩ := Shares.div_count_le (α := α) level (processes.length - 1) (by omega)
      (by omega)
    rw [Nat.cast_sub (by omega), Nat.cast_one] at isShade
    obtain ⟨levels, drawn, numbers, segments⟩ := ih (by omega) fun process =>
      base process + sharedAt processes.toFinset amount (level + 1) process
    refine ⟨⟨level + 1, shade, bars processes (sharedAt processes.toFinset amount (level + 1)),
      bars processes base⟩ :: levels, ?_, ?_, List.forall_mem_cons.mpr ⟨rfl, segments⟩⟩
    · rw [stack, heights, Calc.ok_bind, isShade, Calc.ok_bind, add_bars, Calc.ok_bind, drawn]
      rfl
    · rw [List.map_cons, numbers, List.range'_1_concat, List.reverse_append, Nat.add_comm 1]
      rfl

end Drawing

end Allocation

end QuantumResources
