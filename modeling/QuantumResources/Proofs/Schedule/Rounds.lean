import Mathlib.Tactic.Linarith
import Mathlib.Tactic.Ring
import QuantumResources.Proofs.Number.Exact
import QuantumResources.Schedule

/-! The rounds of T measurements of a layer, counted.

Rotations come first and stay until their counts are used up, so they go through the machine in
full blocks. What is left of them shares its rounds with the T gates. -/

namespace QuantumResources.Schedule

/-! ## One round -/

@[simp] theorem consume_nil (parallel : Int) : consume parallel [] = [] := rfl

theorem consume_cons_pos (parallel entry : Int) (rest : List Int) (positive : 0 < entry) :
    consume parallel (entry :: rest) =
      if parallel = 1 then (entry - 1) :: rest
      else (entry - 1) :: consume (parallel - 1) rest := by
  simp [consume, consumeWith, positive]

theorem consume_cons_nonpos (parallel entry : Int) (rest : List Int) (spent : ¬ 0 < entry) :
    consume parallel (entry :: rest) = entry :: consume parallel rest := by
  simp [consume, consumeWith, spent]

/-- Entries that never were, or no longer are, waiting for a measurement do not matter. -/
def live (remaining : List Int) : List Int := remaining.filter fun entry => decide (0 < entry)

@[simp] theorem live_nil : live [] = [] := rfl

@[simp] theorem live_append (first second : List Int) :
    live (first ++ second) = live first ++ live second := by
  simp [live]

theorem live_cons_pos (entry : Int) (rest : List Int) (positive : 0 < entry) :
    live (entry :: rest) = entry :: live rest := by
  simp [live, positive]

theorem live_cons_nonpos (entry : Int) (rest : List Int) (spent : ¬ 0 < entry) :
    live (entry :: rest) = live rest := by
  simp [live, spent]

@[simp] theorem live_live (remaining : List Int) : live (live remaining) = live remaining := by
  simp [live]

@[simp] theorem live_replicate_zero (count : Nat) : live (List.replicate count 0) = [] := by
  simp [live]

theorem live_cons_congr (entry : Int) (first second : List Int)
    (same : live first = live second) : live (entry :: first) = live (entry :: second) := by
  by_cases positive : 0 < entry
  · rw [live_cons_pos _ _ positive, live_cons_pos _ _ positive, same]
  · rw [live_cons_nonpos _ _ positive, live_cons_nonpos _ _ positive, same]

theorem live_consume (parallel : Int) (remaining : List Int) :
    live (consume parallel (live remaining)) = live (consume parallel remaining) := by
  induction remaining generalizing parallel with
  | nil => rfl
  | cons entry rest ih =>
    by_cases positive : 0 < entry
    · rw [live_cons_pos _ _ positive, consume_cons_pos _ _ _ positive,
        consume_cons_pos _ _ _ positive]
      split
      · exact live_cons_congr _ _ _ (live_live rest)
      · exact live_cons_congr _ _ _ (ih _)
    · rw [live_cons_nonpos _ _ positive, consume_cons_nonpos _ _ _ positive,
        live_cons_nonpos _ _ positive]
      exact ih parallel

/-! ## The sum runs down -/

/-- Measurements still to be made. -/
def outstanding (remaining : List Int) : Nat := (remaining.map Int.toNat).foldr (· + ·) 0

@[simp] theorem outstanding_nil : outstanding [] = 0 := rfl

@[simp] theorem outstanding_cons (entry : Int) (rest : List Int) :
    outstanding (entry :: rest) = entry.toNat + outstanding rest := rfl

theorem tally_le_outstanding (remaining : List Int) :
    tally remaining ≤ outstanding remaining := by
  induction remaining with
  | nil => simp
  | cons entry rest ih =>
    rw [tally_cons, outstanding_cons]
    omega

theorem outstanding_consume_le (parallel : Int) (remaining : List Int) :
    outstanding (consume parallel remaining) ≤ outstanding remaining := by
  induction remaining generalizing parallel with
  | nil => simp
  | cons entry rest ih =>
    by_cases positive : 0 < entry
    · rw [consume_cons_pos _ _ _ positive]
      have later := ih (parallel - 1)
      split <;> simp only [outstanding_cons] <;> omega
    · rw [consume_cons_nonpos _ _ _ positive]
      have later := ih parallel
      simp only [outstanding_cons]
      omega

theorem outstanding_consume_lt (parallel : Int) (remaining : List Int)
    (waiting : 0 < tally remaining) :
    outstanding (consume parallel remaining) < outstanding remaining := by
  induction remaining with
  | nil => simp at waiting
  | cons entry rest ih =>
    by_cases positive : 0 < entry
    · rw [consume_cons_pos _ _ _ positive]
      have later := outstanding_consume_le (parallel - 1) rest
      split <;> simp only [outstanding_cons] <;> omega
    · rw [tally_cons] at waiting
      have later := ih (by omega)
      rw [consume_cons_nonpos _ _ _ positive]
      simp only [outstanding_cons]
      omega

/-- Any number of tries that covers what is outstanding gives the same count. -/
theorem roundsFrom_congr (parallel : Int) (first second : Nat) (remaining : List Int)
    (enough : outstanding remaining ≤ first) (alsoEnough : outstanding remaining ≤ second) :
    roundsFrom parallel first remaining = roundsFrom parallel second remaining := by
  induction first generalizing second remaining with
  | zero =>
    have bound := tally_le_outstanding remaining
    have finished : ¬ 0 < tally remaining := by omega
    cases second with
    | zero => rfl
    | succ second => simp [roundsFrom, finished]
  | succ first ih =>
    by_cases waiting : 0 < tally remaining
    · have less := outstanding_consume_lt parallel remaining waiting
      cases second with
      | zero => omega
      | succ second =>
        have later := ih second (consume parallel remaining) (by omega) (by omega)
        simp [roundsFrom, waiting, later]
    · cases second <;> simp [roundsFrom, waiting]

theorem rounds_eq (parallel : Int) (remaining : List Int) :
    rounds parallel remaining =
      if 0 < tally remaining then rounds parallel (consume parallel remaining) + 1 else 0 := by
  have unfolded : rounds parallel remaining =
      roundsFrom parallel (outstanding remaining + 1) remaining :=
    roundsFrom_congr parallel _ _ remaining (Nat.le_refl _) (Nat.le_succ _)
  rw [unfolded, roundsFrom]
  split
  · have shrinks := outstanding_consume_le parallel remaining
    rw [rounds, roundsFrom_congr parallel _ _ _ shrinks (Nat.le_refl _)]
    rfl
  · rfl

/-! ## Counts that are not negative -/

theorem tally_live (remaining : List Int) (nonneg : ∀ entry ∈ remaining, 0 ≤ entry) :
    tally (live remaining) = tally remaining := by
  induction remaining with
  | nil => rfl
  | cons entry rest ih =>
    have restNonneg := ih fun later member => nonneg later (List.mem_cons_of_mem _ member)
    have entryNonneg := nonneg entry (by simp)
    by_cases positive : 0 < entry
    · rw [live_cons_pos _ _ positive, tally_cons, tally_cons, restNonneg]
    · rw [live_cons_nonpos _ _ positive, tally_cons, restNonneg]
      omega

theorem tally_nonneg (counts : List Int) (nonneg : ∀ count ∈ counts, 0 ≤ count) :
    0 ≤ tally counts := by
  induction counts with
  | nil => simp
  | cons count rest ih =>
    have later := ih fun other member => nonneg other (List.mem_cons_of_mem _ member)
    have first := nonneg count (by simp)
    rw [tally_cons]
    omega

@[simp] theorem tally_replicate (count : Nat) (entry : Int) :
    tally (List.replicate count entry) = count * entry := by
  induction count with
  | zero => simp
  | succ count ih =>
    rw [List.replicate_succ, tally_cons, ih]
    push_cast
    ring

theorem consume_nonneg (parallel : Int) (remaining : List Int)
    (nonneg : ∀ entry ∈ remaining, 0 ≤ entry) :
    ∀ entry ∈ consume parallel remaining, 0 ≤ entry := by
  induction remaining generalizing parallel with
  | nil => simp
  | cons first rest ih =>
    have restNonneg : ∀ entry ∈ rest, 0 ≤ entry :=
      fun entry member => nonneg entry (List.mem_cons_of_mem _ member)
    have firstNonneg := nonneg first (by simp)
    intro entry member
    by_cases positive : 0 < first
    · rw [consume_cons_pos _ _ _ positive] at member
      split at member
      · rcases List.mem_cons.mp member with rfl | later
        · omega
        · exact restNonneg entry later
      · rcases List.mem_cons.mp member with rfl | later
        · omega
        · exact ih (parallel - 1) restNonneg entry later
    · rw [consume_cons_nonpos _ _ _ positive] at member
      rcases List.mem_cons.mp member with rfl | later
      · exact firstNonneg
      · exact ih parallel restNonneg entry later

/-- Only the live entries decide how many rounds there are. -/
theorem rounds_congr (parallel : Int) (first second : List Int)
    (firstNonneg : ∀ entry ∈ first, 0 ≤ entry) (secondNonneg : ∀ entry ∈ second, 0 ≤ entry)
    (same : live first = live second) : rounds parallel first = rounds parallel second := by
  induction size : outstanding first using Nat.strong_induction_on generalizing first second with
  | _ size ih =>
    have sums : tally first = tally second := by
      rw [← tally_live first firstNonneg, same, tally_live second secondNonneg]
    rw [rounds_eq parallel first, rounds_eq parallel second, sums]
    split
    · rename_i waiting
      have less := outstanding_consume_lt parallel first (by omega)
      have nextSame : live (consume parallel first) = live (consume parallel second) := by
        rw [← live_consume, same, live_consume]
      rw [ih _ (by omega) _ _ (consume_nonneg _ _ firstNonneg) (consume_nonneg _ _ secondNonneg)
        nextSame rfl]
    · rfl

/-- The first round is made in any case; it is one of the rounds unless nothing is waiting. -/
theorem rounds_consume (parallel : Int) (remaining : List Int)
    (nonneg : ∀ entry ∈ remaining, 0 ≤ entry) :
    rounds parallel (consume parallel remaining) + 1 = max 1 (rounds parallel remaining) := by
  rw [rounds_eq parallel remaining]
  by_cases waiting : 0 < tally remaining
  · rw [if_pos waiting]
    omega
  · have idle : rounds parallel (consume parallel remaining) = 0 := by
      rw [rounds_eq, if_neg]
      have none : live remaining = [] := by
        apply List.filter_eq_nil_iff.mpr
        intro entry member
        have entryNonneg := nonneg entry member
        obtain ⟨front, back, rfl⟩ := List.append_of_mem member
        have frontNonneg := tally_nonneg front fun other inside => nonneg other (by simp [inside])
        have backNonneg := tally_nonneg back fun other inside => nonneg other (by simp [inside])
        rw [tally_append, tally_cons] at waiting
        simp only [decide_eq_true_eq]
        omega
      have after : live (consume parallel remaining) = [] := by
        rw [← live_consume, none]
        rfl
      rw [← tally_live _ (consume_nonneg parallel remaining nonneg), after]
      simp
    rw [if_neg waiting, idle]
    rfl

/-! ## Blocks of equal counts -/

theorem consume_part_block (count : Nat) (parallel entry : Int) (rest : List Int)
    (positive : 0 < entry) (fits : (count : Int) < parallel) :
    consume parallel (List.replicate count entry ++ rest) =
      List.replicate count (entry - 1) ++ consume (parallel - count) rest := by
  induction count generalizing parallel with
  | zero => simp
  | succ count ih =>
    have more : parallel ≠ 1 := by omega
    rw [List.replicate_succ, List.cons_append, consume_cons_pos _ _ _ positive, if_neg more,
      ih (parallel - 1) (by omega)]
    have left : parallel - 1 - (count : Int) = parallel - ((count + 1 : Nat) : Int) := by omega
    rw [left, List.replicate_succ, List.cons_append]

theorem consume_full_block (parallel : Nat) (entry : Int) (rest : List Int)
    (positive : 0 < entry) (capacity : 0 < parallel) :
    consume parallel (List.replicate parallel entry ++ rest) =
      List.replicate parallel (entry - 1) ++ rest := by
  obtain ⟨count, rfl⟩ := Nat.exists_eq_succ_of_ne_zero (Nat.ne_of_gt capacity)
  have last : ((count.succ : Nat) : Int) - count = 1 := by omega
  rw [List.replicate_succ', List.append_assoc, consume_part_block _ _ _ _ positive (by omega),
    last, List.singleton_append, consume_cons_pos _ _ _ positive, if_pos rfl,
    List.replicate_succ', List.append_assoc, List.singleton_append]

/-- A full block takes as many rounds as each of its entries needs. -/
theorem rounds_full_block (parallel entry : Nat) (rest : List Int) (capacity : 0 < parallel)
    (nonneg : ∀ other ∈ rest, 0 ≤ other) :
    rounds parallel (List.replicate parallel (entry : Int) ++ rest) =
      entry + rounds parallel rest := by
  induction entry with
  | zero =>
    rw [Nat.zero_add]
    apply rounds_congr
    · intro other member
      rcases List.mem_append.mp member with zero | later
      · exact Int.le_of_eq (List.eq_of_mem_replicate zero).symm
      · exact nonneg other later
    · exact nonneg
    · simp
  | succ entry ih =>
    have restSum := tally_nonneg rest nonneg
    have blockSum : 0 < (parallel : Int) * ((entry + 1 : Nat) : Int) :=
      Int.mul_pos (by omega) (by omega)
    have waiting :
        0 < tally (List.replicate parallel ((entry + 1 : Nat) : Int) ++ rest) := by
      rw [tally_append, tally_replicate]
      omega
    have lower : ((entry + 1 : Nat) : Int) - 1 = entry := by omega
    rw [rounds_eq, if_pos waiting, consume_full_block _ _ _ (by omega) capacity, lower, ih]
    omega

theorem rounds_blocks (parallel entry full left : Nat) (rest : List Int) (capacity : 0 < parallel)
    (nonneg : ∀ other ∈ rest, 0 ≤ other) :
    rounds parallel (List.replicate (full * parallel + left) (entry : Int) ++ rest) =
      full * entry + rounds parallel (List.replicate left (entry : Int) ++ rest) := by
  induction full with
  | zero => simp
  | succ full ih =>
    have lengths : (full + 1) * parallel + left = parallel + (full * parallel + left) := by ring
    rw [lengths, ← List.replicate_append_replicate, List.append_assoc,
      rounds_full_block _ _ _ capacity, ih]
    · ring
    · intro other member
      rcases List.mem_append.mp member with block | later
      · rw [List.eq_of_mem_replicate block]
        omega
      · exact nonneg other later

/-! ## Rotations that share their rounds with T gates -/

theorem live_consume_ones (parallel count : Nat) (capacity : 0 < parallel) :
    live (consume parallel (List.replicate count 1)) = List.replicate (count - parallel) 1 := by
  by_cases fits : count < parallel
  · have one := consume_part_block count parallel 1 [] (by decide) (by omega)
    rw [List.append_nil] at one
    have none : count - parallel = 0 := by omega
    rw [one, none]
    simp
  · obtain ⟨later, rfl⟩ := Nat.exists_eq_add_of_le (Nat.le_of_not_lt fits)
    have left : parallel + later - parallel = later := by omega
    rw [← List.replicate_append_replicate, consume_full_block _ _ _ (by decide) capacity, left]
    simp [live]

theorem rounds_ones (parallel count : Nat) (capacity : 0 < parallel) :
    rounds parallel (List.replicate count 1) = count ⌈/⌉ parallel := by
  induction count using Nat.strong_induction_on with
  | _ count ih =>
    have nonneg : ∀ length : Nat, ∀ entry ∈ List.replicate length (1 : Int), 0 ≤ entry := by
      intro length entry member
      rw [List.eq_of_mem_replicate member]
      decide
    by_cases none : count = 0
    · subst none
      rw [zero_ceilDiv]
      rfl
    · have waiting : 0 < tally (List.replicate count 1) := by
        rw [tally_replicate]
        omega
      have next : rounds parallel (consume parallel (List.replicate count 1)) =
          rounds parallel (List.replicate (count - parallel) 1) := by
        apply rounds_congr _ _ _ (consume_nonneg _ _ (nonneg count)) (nonneg _)
        rw [live_consume_ones _ _ capacity]
        simp [live]
      rw [rounds_eq, if_pos waiting, next, ih _ (by omega)]
      by_cases fits : count ≤ parallel
      · have last : count - parallel = 0 := by omega
        have upper : count ⌈/⌉ parallel ≤ 1 := (ceilDiv_le_iff_le_mul capacity).mpr (by omega)
        have lower : ¬ count ⌈/⌉ parallel ≤ 0 := by
          rw [ceilDiv_le_iff_le_mul capacity]
          omega
        rw [last, zero_ceilDiv]
        omega
      · have whole : count - parallel + parallel = count := by omega
        rw [← ceilDiv_add_self _ _ capacity, whole]

theorem rounds_shared (parallel left entry count : Nat) (part : 0 < left)
    (fits : left < parallel) :
    rounds parallel (List.replicate left (entry : Int) ++ List.replicate count 1) =
      max entry ((left * entry + count) ⌈/⌉ parallel) := by
  have capacity : 0 < parallel := Nat.lt_trans part fits
  have nonneg : ∀ entry count : Nat,
      ∀ other ∈ List.replicate left (entry : Int) ++ List.replicate count 1, 0 ≤ other := by
    intro entry count other member
    rcases List.mem_append.mp member with rotation | single
    · rw [List.eq_of_mem_replicate rotation]
      omega
    · rw [List.eq_of_mem_replicate single]
      decide
  induction entry generalizing count with
  | zero =>
    have alone : rounds parallel (List.replicate left ((0 : Nat) : Int) ++ List.replicate count 1) =
        rounds parallel (List.replicate count 1) := by
      apply rounds_congr _ _ _ (nonneg 0 count)
      · exact fun other member => nonneg 0 count other (List.mem_append_right _ member)
      · simp
    rw [alone, rounds_ones _ _ capacity]
    simp
  | succ entry ih =>
    have rotationSum : 0 < (left : Int) * ((entry + 1 : Nat) : Int) :=
      Int.mul_pos (by omega) (by omega)
    have waiting :
        0 < tally (List.replicate left ((entry + 1 : Nat) : Int) ++ List.replicate count 1) := by
      rw [tally_append, tally_replicate, tally_replicate]
      omega
    have lower : ((entry + 1 : Nat) : Int) - 1 = entry := by omega
    have free : (parallel : Int) - left = ((parallel - left : Nat) : Int) := by omega
    -- The rotations take their share of the round; the T gates get what is free.
    have next :
        rounds parallel (consume parallel
          (List.replicate left ((entry + 1 : Nat) : Int) ++ List.replicate count 1)) =
        rounds parallel (List.replicate left (entry : Int) ++
          List.replicate (count - (parallel - left)) 1) := by
      apply rounds_congr _ _ _ (consume_nonneg _ _ (nonneg (entry + 1) count)) (nonneg entry _)
      rw [consume_part_block _ _ _ _ (by omega) (by omega), lower, live_append, live_append, free,
        live_consume_ones _ _ (by omega)]
      simp [live]
    rw [rounds_eq, if_pos waiting, next, ih]
    by_cases busy : parallel - left ≤ count
    · have sum : left * entry + (count - (parallel - left)) + parallel =
          left * (entry + 1) + count := by
        rw [Nat.mul_succ]
        omega
      rw [← sum, ceilDiv_add_self _ _ capacity]
      omega
    · have none : count - (parallel - left) = 0 := by omega
      have rotations : left * entry ≤ parallel * entry := Nat.mul_le_mul_right _ (by omega)
      have before : (left * entry + 0) ⌈/⌉ parallel ≤ entry :=
        (ceilDiv_le_iff_le_mul capacity).mpr rotations
      have after : (left * (entry + 1) + count) ⌈/⌉ parallel ≤ entry + 1 := by
        apply (ceilDiv_le_iff_le_mul capacity).mpr
        rw [Nat.mul_succ, Nat.mul_succ]
        omega
      rw [none]
      omega

/-- Rotations go in full blocks; what is left of them shares its rounds with the T gates. -/
theorem rounds_layer (parallel tStates rotations entry : Nat) (capacity : 0 < parallel) :
    rounds parallel (List.replicate rotations (entry : Int) ++ List.replicate tStates 1) =
      rotations / parallel * entry +
        if 0 < rotations % parallel then
          max entry ((rotations % parallel * entry + tStates) ⌈/⌉ parallel)
        else tStates ⌈/⌉ parallel := by
  have nonneg : ∀ other ∈ List.replicate tStates (1 : Int), 0 ≤ other := by
    intro other member
    rw [List.eq_of_mem_replicate member]
    decide
  have divided : rotations / parallel * parallel + rotations % parallel = rotations := by
    rw [Nat.mul_comm]
    exact Nat.div_add_mod rotations parallel
  conv_lhs => rw [← divided]
  rw [rounds_blocks _ _ _ _ _ capacity nonneg]
  split
  · rename_i part
    rw [rounds_shared _ _ _ _ part (Nat.mod_lt _ capacity)]
  · rename_i whole
    have none : rotations % parallel = 0 := by omega
    rw [none, List.replicate_zero, List.nil_append, rounds_ones _ _ capacity]

end QuantumResources.Schedule
