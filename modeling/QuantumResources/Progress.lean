import QuantumResources.Run
import QuantumResources.Timing

/-! The progress that is shown while a long list is worked through. -/

namespace QuantumResources

namespace Progress

/-- Progress is shown after so many items. -/
def interval : Nat := 10000

def twoPlaces (x : Scalar) : Calc String := do
  match ← x.toReal with
  | .real value => return Digits.fixedDouble Scalar.realFormat.special 2 value
  | _ => .error .wrongKind

/-- The line for `done` of `total` items. -/
def line (finished total : Nat) (seconds : Scalar) : Calc String := do
  let ratio ← Scalar.div (.whole finished) (.whole total)
  let percent ← Scalar.mul ratio (.whole 100)
  return "\r" ++ (← twoPlaces percent) ++ "% (" ++ Digits.ofNat finished ++ ")  completed in " ++
    (← twoPlaces seconds) ++ "s"

def linesFrom (total : Nat) (start : Scalar) : Nat → Nat → Clock → Calc String
  | 0, _, _ => .ok ""
  | count + 1, shown, clock => do
    let finished := (shown + 1) * interval
    let (now, rest) := clock.read
    let first ← line finished total (← Timing.total ⟨start, some now⟩)
    return first ++ (← linesFrom total start count (shown + 1) rest)

/-- Everything that is shown while a number of items is worked through. -/
def text (total : Nat) (clock : Clock) : Calc String := do
  let (start, rest) := clock.read
  let lines ← linesFrom total start (total / interval) 0 rest
  return lines ++ "\rProgress: 100.00% \n"

end Progress

end QuantumResources
