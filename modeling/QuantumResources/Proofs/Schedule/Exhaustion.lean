import QuantumResources.Proofs.Schedule.Supply

/-! Rounds of T measurements until nothing is left.

A round serves the nodes that wait, from the first on, as far as its measurements go. While the
counts add up to something positive some node waits, so each round leaves less to be done. -/

namespace QuantumResources.Schedule

/-! ## One round, entry by entry -/

/-- How many nodes wait for a measurement. -/
def waitingNodes (remaining : List Int) : Nat := remaining.countP fun entry => decide (0 < entry)

theorem waitingNodes_cons_pos (entry : Int) (rest : List Int) (positive : 0 < entry) :
    waitingNodes (entry :: rest) = waitingNodes rest + 1 :=
  List.countP_cons_of_pos (by simpa using positive)

theorem waitingNodes_cons_nonpos (entry : Int) (rest : List Int) (spent : ¬ 0 < entry) :
    waitingNodes (entry :: rest) = waitingNodes rest :=
  List.countP_cons_of_neg (by simpa using spent)

/-- A node that waits is not counted among those before it. -/
theorem waitingNodes_take_lt {remaining : List Int} {place : Nat} {entry : Int}
    (found : remaining[place]? = some entry) (positive : 0 < entry) :
    waitingNodes (remaining.take place) < waitingNodes remaining := by
  induction remaining generalizing place with
  | nil => simp at found
  | cons first rest ih =>
    cases place with
    | zero =>
      obtain rfl : first = entry := by simpa using found
      rw [List.take_zero, waitingNodes_cons_pos _ _ positive]
      exact Nat.succ_pos _
    | succ place =>
      have later := ih (by simpa using found)
      rw [List.take_succ_cons]
      by_cases firstPositive : 0 < first
      · rw [waitingNodes_cons_pos _ _ firstPositive, waitingNodes_cons_pos _ _ firstPositive]
        omega
      · rw [waitingNodes_cons_nonpos _ _ firstPositive, waitingNodes_cons_nonpos _ _ firstPositive]
        exact later

/-- An entry changes if it waits and the round has measurements left for it. -/
theorem getElem?_consume {parallel : Int} (capacity : 1 ≤ parallel) (remaining : List Int)
    (place : Nat) :
    (consume parallel remaining)[place]? = remaining[place]?.map fun entry =>
      if 0 < entry ∧ (waitingNodes (remaining.take place) : Int) < parallel then entry - 1
      else entry := by
  induction remaining generalizing parallel place with
  | nil => simp
  | cons first rest ih =>
    by_cases positive : 0 < first
    · rw [consume_cons_pos _ _ _ positive]
      cases place with
      | zero =>
        have reached : ((waitingNodes [] : Nat) : Int) < parallel := by
          rw [waitingNodes, List.countP_nil]
          omega
        split <;> simp [positive, reached]
      | succ place =>
        rw [List.take_succ_cons, waitingNodes_cons_pos _ _ positive]
        split
        · next last =>
          -- the round ends here, and all that follows has at least one waiting node before it
          have passed : ∀ entry : Int, ¬ (0 < entry ∧
              ((waitingNodes (rest.take place) + 1 : Nat) : Int) < parallel) := by omega
          simp only [List.getElem?_cons_succ, passed, if_false, Option.map_id']
        · next more =>
          have shifted : ((waitingNodes (rest.take place) + 1 : Nat) : Int) < parallel ↔
              (waitingNodes (rest.take place) : Int) < parallel - 1 := by omega
          simp only [List.getElem?_cons_succ, shifted]
          exact ih (by omega) place
    · rw [consume_cons_nonpos _ _ _ positive]
      cases place with
      | zero => simp [positive]
      | succ place =>
        rw [List.take_succ_cons, waitingNodes_cons_nonpos _ _ positive]
        exact ih capacity place

/-! ## All rounds -/

theorem tally_live_eq (remaining : List Int) : tally (live remaining) = outstanding remaining := by
  induction remaining with
  | nil => rfl
  | cons entry rest ih =>
    rw [outstanding_cons]
    by_cases positive : 0 < entry
    · rw [live_cons_pos _ _ positive, tally_cons, ih]
      omega
    · rw [live_cons_nonpos _ _ positive, ih]
      omega

theorem roundsFrom_le (parallel : Int) (tries : Nat) (remaining : List Int) :
    roundsFrom parallel tries remaining ≤ tries := by
  induction tries generalizing remaining with
  | zero => exact Nat.le_refl 0
  | succ tries ih =>
    rw [roundsFrom]
    split
    · exact Nat.succ_le_succ (ih _)
    · exact Nat.zero_le _

/-- Before each of its rounds there is something left. -/
theorem tally_before_rounds (parallel : Int) (before : Nat) (remaining : List Int)
    (early : before < rounds parallel remaining) :
    0 < tally ((consume parallel)^[before] remaining) := by
  induction before generalizing remaining with
  | zero =>
    by_contra finished
    rw [Function.iterate_zero, id] at finished
    rw [rounds_eq, if_neg finished] at early
    omega
  | succ before ih =>
    rw [Function.iterate_succ_apply]
    refine ih _ ?_
    rw [rounds_eq] at early
    split at early
    · omega
    · omega

theorem iterate_consume_nonneg (parallel : Int) (count : Nat) (remaining : List Int)
    (nonneg : ∀ entry ∈ remaining, 0 ≤ entry) :
    ∀ entry ∈ (consume parallel)^[count] remaining, 0 ≤ entry := by
  induction count generalizing remaining with
  | zero => exact nonneg
  | succ count ih =>
    rw [Function.iterate_succ_apply]
    exact ih _ (consume_nonneg parallel remaining nonneg)

/-- A round with measurements takes one off the first nodes that wait, as many as it has
measurements, and leaves all else. With any number of measurements, rounds are made while the counts
add up to something positive; there are no more of them than the waiting nodes need together, and
counts that were not negative have then run down to zero. -/
theorem rounds_exhaust (parallel : Int) (remaining : List Int) :
    (1 ≤ parallel →
      (consume parallel remaining).length = remaining.length ∧
      ∀ place entry, remaining[place]? = some entry →
        (consume parallel remaining)[place]? = some (if 0 < entry ∧
          (waitingNodes (remaining.take place) : Int) < min parallel (waitingNodes remaining)
          then entry - 1 else entry)) ∧
    ((∀ entry ∈ remaining, 0 ≤ entry) → ∀ entry ∈ consume parallel remaining, 0 ≤ entry) ∧
    (∀ before < rounds parallel remaining, 0 < tally ((consume parallel)^[before] remaining)) ∧
    tally ((consume parallel)^[rounds parallel remaining] remaining) ≤ 0 ∧
    (rounds parallel remaining : Int) ≤ tally (live remaining) ∧
    ((∀ entry ∈ remaining, 0 ≤ entry) →
      ∀ entry ∈ (consume parallel)^[rounds parallel remaining] remaining, entry = 0) := by
  have finished := tally_after_rounds parallel _ remaining rfl
  refine ⟨fun capacity => ⟨length_consume parallel remaining, ?_⟩, consume_nonneg parallel remaining,
    fun before => tally_before_rounds parallel before remaining, finished, ?_, ?_⟩
  · intro place entry found
    rw [getElem?_consume capacity, found, Option.map_some]
    have exactly : (0 < entry ∧ (waitingNodes (remaining.take place) : Int) < parallel) ↔
        0 < entry ∧
          (waitingNodes (remaining.take place) : Int) < min parallel (waitingNodes remaining) := by
      refine and_congr_right fun positive => ?_
      have inside := waitingNodes_take_lt found positive
      omega
    simp only [exactly]
  · rw [tally_live_eq]
    exact_mod_cast roundsFrom_le parallel _ remaining
  · intro nonneg
    have still := iterate_consume_nonneg parallel (rounds parallel remaining) remaining nonneg
    have none := Int.le_antisymm finished (tally_nonneg _ still)
    exact (tally_eq_zero_iff _ still).mp none

/-- Two measurements in parallel on nodes of which some wait for nothing: the fourth node gets the
second measurement, and the last one gets none. -/
theorem rounds_exhaust_gaps :
    (1 : Int) ≤ 2 ∧ (∀ entry ∈ [0, 2, 0, 1, 3], (0 : Int) ≤ entry) ∧
      (consume 2 [0, 2, 0, 1, 3])[3]? = some 0 ∧ (consume 2 [0, 2, 0, 1, 3])[4]? = some 3 ∧
      rounds 2 [0, 2, 0, 1, 3] ≤ (6 : Int) ∧
      ∀ entry ∈ (consume 2)^[rounds 2 [0, 2, 0, 1, 3]] [0, 2, 0, 1, 3], entry = 0 := by
  obtain ⟨round, _, _, _, few, none⟩ := rounds_exhaust 2 [0, 2, 0, 1, 3]
  obtain ⟨_, entries⟩ := round (by decide)
  exact ⟨by decide, by decide, entries 3 1 rfl, entries 4 3 rfl, few, none (by decide)⟩

end QuantumResources.Schedule
