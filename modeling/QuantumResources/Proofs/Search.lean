import Mathlib.Order.Lattice
import QuantumResources.Proofs.Sequence

/-! Searches along a list for the first of the cheapest items.

A search keeps one item. Only a good item that costs strictly less replaces it, so of equal ones the
first stays. -/

namespace QuantumResources.Search

variable {β γ R : Type} [LinearOrder R] {good : β → Prop} {key : β → R}

/-- The first of the good items with the least key. -/
structure FirstLeast (good : β → Prop) (key : β → R) (items : List β) (best : β) : Prop where
  fits : good best
  place : ∃ before after, items = before ++ best :: after ∧
    (∀ other ∈ before, good other → key best < key other) ∧
    ∀ other ∈ after, good other → key best ≤ key other

namespace FirstLeast

variable {items : List β} {best : β}

theorem mem (first : FirstLeast good key items best) : best ∈ items := by
  obtain ⟨before, after, rfl, _, _⟩ := first.place
  simp

theorem le (first : FirstLeast good key items best) {other : β} (member : other ∈ items)
    (fits : good other) : key best ≤ key other := by
  obtain ⟨before, after, rfl, earlier, later⟩ := first.place
  rcases List.mem_append.mp member with inFront | behind
  · exact (earlier other inFront fits).le
  · rcases List.mem_cons.mp behind with rfl | inside
    · exact le_rfl
    · exact later other inside fits

theorem unique {first second : β} (one : FirstLeast good key items first)
    (two : FirstLeast good key items second) : first = second := by
  obtain ⟨before, after, isItems, earlier, _⟩ := one.place
  obtain ⟨front, back, split, ahead, _⟩ := two.place
  rw [isItems, List.append_eq_append_iff] at split
  -- Whichever stands behind the other one is among the items in which that one is least.
  rcases split with ⟨between, isFront, rest⟩ | ⟨between, isBefore, rest⟩
  · cases between with
    | nil => exact (List.cons.inj rest).1
    | cons item between =>
      obtain ⟨rfl, _⟩ := List.cons.inj rest
      have less := ahead first (by simp [isFront]) one.fits
      exact absurd (one.le two.mem two.fits) (not_le.mpr less)
  · cases between with
    | nil => exact (List.cons.inj rest).1.symm
    | cons item between =>
      obtain ⟨rfl, _⟩ := List.cons.inj rest
      have less := earlier second (by simp [isBefore]) two.fits
      exact absurd (two.le one.mem one.fits) (not_le.mpr less)

end FirstLeast

/-- What a search has found among some items. -/
def Finds (good : β → Prop) (key : β → R) (items : List β) : Option β → Prop
  | none => ∀ item ∈ items, ¬ good item
  | some best => FirstLeast good key items best

/-- How the item that is kept changes with the next one. -/
inductive Advances (good : β → Prop) (key : β → R) (best : Option β) (item : β) : Option β → Prop
  | take (fits : good item) (less : ∀ known ∈ best, key item < key known) :
      Advances good key best item (some item)
  | keep (enough : good item → ∃ known ∈ best, key known ≤ key item) :
      Advances good key best item best

theorem Finds.advance {items : List β} {best next : Option β} {item : β}
    (found : Finds good key items best) (advances : Advances good key best item next) :
    Finds good key (items ++ [item]) next := by
  cases advances with
  | take fits less =>
    refine ⟨fits, items, [], rfl, ?_, by simp⟩
    intro other member isGood
    cases best with
    | none => exact absurd isGood (found other member)
    | some known => exact (less known rfl).trans_le (FirstLeast.le found member isGood)
  | keep enough =>
    cases best with
    | none =>
      intro other member isGood
      rcases List.mem_append.mp member with before | last
      · exact found other before isGood
      · rw [List.mem_singleton.mp last] at isGood
        obtain ⟨known, absent, _⟩ := enough isGood
        cases absent
    | some known =>
      obtain ⟨before, after, rfl, earlier, later⟩ := found.place
      refine ⟨found.fits, before, after ++ [item], by simp, earlier, ?_⟩
      intro other member isGood
      rcases List.mem_append.mp member with inside | last
      · exact later other inside isGood
      · rw [List.mem_singleton.mp last] at isGood ⊢
        obtain ⟨_, isKnown, order⟩ := enough isGood
        cases isKnown
        exact order

theorem Finds.mem {items : List β} {best : Option β} (found : Finds good key items best) :
    ∀ known ∈ best, known ∈ items ∧ good known := by
  rintro known rfl
  exact ⟨FirstLeast.mem found, FirstLeast.fits found⟩

theorem Finds.eq_none_iff {items : List β} {best : Option β} (found : Finds good key items best) :
    best = none ↔ ∀ item ∈ items, ¬ good item := by
  cases best with
  | none => exact ⟨fun _ => found, fun _ => rfl⟩
  | some known =>
    refine ⟨nofun, fun nothing => ?_⟩
    exact absurd (FirstLeast.fits found) (nothing known (FirstLeast.mem found))

theorem Finds.eq_some_iff {items : List β} {best : Option β} (found : Finds good key items best)
    (item : β) : best = some item ↔ FirstLeast good key items item := by
  constructor
  · rintro rfl
    exact found
  · intro first
    cases best with
    | none => exact absurd first.fits (found item first.mem)
    | some known => exact congrArg some (FirstLeast.unique found first)

/-- More good items never make the least key larger. -/
theorem Finds.le_of_more {good' : β → Prop} {items : List β} {best best' : Option β}
    (found : Finds good key items best) (found' : Finds good' key items best')
    (more : ∀ item ∈ items, good item → good' item) {item : β} (isBest : best = some item) :
    ∃ other, best' = some other ∧ key other ≤ key item := by
  have first := (found.eq_some_iff item).mp isBest
  have fits := more item first.mem first.fits
  cases best' with
  | none => exact absurd fits (found' item first.mem)
  | some other => exact ⟨other, rfl, FirstLeast.le found' first.mem fits⟩

section Loop

variable (make : β → γ) (step : Option γ → β → Calc (Option γ)) (items : List β)
  (steps : ∀ item ∈ items, ∀ best, (∀ known ∈ best, known ∈ items ∧ good known) →
    ∃ next, step (best.map make) item = .ok (next.map make) ∧ Advances good key best item next)

include steps

theorem foldlM_finds_rest (seen rest : List β) (best : Option β) (isItems : items = seen ++ rest)
    (found : Finds good key seen best) :
    ∃ final, rest.foldlM step (best.map make) = .ok (final.map make) ∧
      Finds good key items final := by
  induction rest generalizing seen best with
  | nil =>
    rw [isItems, List.append_nil]
    exact ⟨best, rfl, found⟩
  | cons item rest ih =>
    have known : ∀ known ∈ best, known ∈ items ∧ good known := by
      intro known isBest
      obtain ⟨member, fits⟩ := found.mem known isBest
      exact ⟨isItems ▸ List.mem_append_left _ member, fits⟩
    obtain ⟨next, stepped, advances⟩ := steps item (by simp [isItems]) best known
    rw [List.foldlM_cons, stepped, Calc.ok_bind]
    exact ih (seen ++ [item]) next (by simp [isItems]) (found.advance advances)

/-- A loop finds the first of the least if each of its steps advances the item that it keeps. The
loop may hold something that is made from the item. -/
theorem foldlM_finds :
    ∃ best, items.foldlM step none = .ok (best.map make) ∧ Finds good key items best :=
  foldlM_finds_rest make step items steps [] items none rfl
    fun _ member => absurd member List.not_mem_nil

end Loop

end QuantumResources.Search
