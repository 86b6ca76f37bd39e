import QuantumResources.Allocation.Table

/-! What the charts of an allocation show.

The stacked chart has a bar for every process, cut into levels by the number of processes that
run at once. The breakdown lists the combinations in use and the total of every process. -/

namespace QuantumResources.Allocation

/-- The segments of one level over all bars. -/
structure Level (α : Type) where
  parallel : Nat
  /-- Position on the colour scale, from 0 to 1. -/
  shade : α
  heights : List α
  bottoms : List α

structure Chart (α : Type) where
  title : String
  horizontal : String
  vertical : String
  ticks : List String
  levels : List (Level α)

section

variable {α : Type} [Arithmetic α]

/-- The segment of a process at a level: what it uses together with as many others as the level
says. -/
def segment (allocation : Allocation α) (processes : List String) (level : Nat)
    (process : String) : Calc α := do
  let shared := (choose level processes).filter (·.contains process)
  Arithmetic.sum (← shared.mapM fun combination => allocation.exclusive combination)

/-- Levels are drawn from the highest down, each on top of the ones before. -/
def stack (allocation : Allocation α) (processes : List String) :
    Nat → List α → Calc (List (Level α))
  | 0, _ => .ok []
  | level + 1, bottoms => do
    let heights ← processes.mapM (segment allocation processes (level + 1))
    let shade ← Arithmetic.div (Arithmetic.ofInt level : α)
      (Arithmetic.ofInt ((processes.length : Int) - 1))
    let tops ← (bottoms.zip heights).mapM fun pair => Arithmetic.add pair.1 pair.2
    return ⟨level + 1, shade, heights, bottoms⟩ :: (← stack allocation processes level tops)

def chartOf (title : String) (processes : List String) (allocation : Allocation α) :
    Calc (Chart α) := do
  let levels ← stack allocation processes processes.length
    (processes.map fun _ => Arithmetic.ofInt 0)
  return ⟨title, "Process Types", allocation.resource.name, processes, levels⟩

/-- The stacked chart in a figure of its own. -/
def chart (allocation : Allocation α) : Calc (Chart α) :=
  chartOf ("Total " ++ allocation.resource.name ++ " for each Process") allocation.processTypes
    allocation

end

/-- Where a chart is asked to be drawn. -/
inductive Canvas where
  | absent
  | axes
  | other
  deriving DecidableEq, Repr

/-- A chart inside another figure needs axes, one of its own must not be given any. -/
def requireCanvas (inside : Bool) : Canvas → Calc Unit
  | .absent => if inside then .error .conditionViolated else .ok ()
  | .axes => if inside then .ok () else .error .axesWithoutSubplot
  | .other => .error (if inside then .conditionViolated else .axesWithoutSubplot)

structure Breakdown where
  title : String
  horizontal : String
  /-- Amounts of the combinations in use, the smallest first. -/
  intersections : List Scalar
  percentages : List String
  /-- Processes with their inclusive amounts, the largest first. -/
  totals : List (String × Scalar)

def percentage (part whole : Scalar) : Calc String := do
  let ratio ← Scalar.div part whole
  match ← Scalar.toReal ratio with
  | .real x => return Digits.fixedDouble Scalar.realFormat.special 1 (x * 100.0) ++ "%"
  | _ => .error .wrongKind

/-- Sums amounts of one column, from a zero of its kind. -/
def columnSum (real : Bool) (amounts : List Scalar) : Calc Scalar :=
  amounts.foldlM Scalar.add (if real then .real 0.0 else .whole 0)

def breakdown (allocation : Allocation Scalar) : Calc Breakdown := do
  let entries := allocation.used
  if entries.isEmpty then .error .noSuchKey
  let real := entries.any fun e => isReal e.2
  let sorted ← sortDescending (entries.map fun e => (e.2, ""))
  let sizes := (sorted.map (·.1)).reverse
  let whole ← columnSum real sizes
  let totals ← allocation.processTypes.mapM fun process => do
    let shared := (entries.filter (·.1.contains process)).map (·.2)
    return (← columnSum real shared, process)
  return {
    title := "Parallelization Breakdown"
    horizontal := allocation.resource.name
    intersections := sizes
    percentages := ← sizes.mapM (percentage · whole)
    totals := (← sortDescending totals).map fun pair => (pair.2, pair.1) }

/-- The stacked chart inside the breakdown, its processes in the order of their totals. -/
def combinedChart (allocation : Allocation Scalar) : Calc (Chart Scalar) := do
  let found ← allocation.breakdown
  chartOf ("Total " ++ allocation.resource.name ++ " \nfor each Process")
    (found.totals.map (·.1)) allocation

end QuantumResources.Allocation
