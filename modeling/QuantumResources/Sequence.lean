import QuantumResources.Number.Arithmetic

/-! Orders in which the subroutines of a program run.

Subroutines are named by their place in the program; negative places count from the end. -/

namespace QuantumResources

/-- The item at a place. -/
def pick {β : Type} (items : List β) (place : Int) : Calc β :=
  let index := if place < 0 then place + items.length else place
  if index < 0 then .error .indexOutOfRange
  else
    match items[index.toNat]? with
    | some item => .ok item
    | none => .error .indexOutOfRange

/-- An opening, a body that is repeated for every step, and a closing. -/
structure Sequence where
  opening : List Int
  body : List Int
  closing : List Int

def Sequence.at (sequence : Sequence) (steps : Int) : List Int :=
  sequence.opening ++ (List.replicate steps.toNat sequence.body).flatten ++ sequence.closing

/-- The order of the subroutines for a number of steps; working it out may fail. -/
abbrev Order := Int → Calc (List Int)

def Sequence.toOrder (sequence : Sequence) : Order := fun steps => .ok (sequence.at steps)

/-- The sum of some counts. -/
def tally (counts : List Int) : Int := counts.foldr (· + ·) 0

@[simp] theorem tally_nil : tally [] = 0 := rfl

@[simp] theorem tally_cons (count : Int) (counts : List Int) :
    tally (count :: counts) = count + tally counts := rfl

@[simp] theorem tally_append (first second : List Int) :
    tally (first ++ second) = tally first + tally second := by
  induction first with
  | nil => simp
  | cons count rest ih =>
    rw [List.cons_append, tally_cons, tally_cons, ih]
    omega

/-- Sum of the counts of all subroutines that run, with repetition. -/
def countAlong (counts : List Int) (sequence : List Int) : Calc Int := do
  return tally (← sequence.mapM (pick counts))

end QuantumResources
