import QuantumResources.Number.Arithmetic

/-! How much of a resource each combination of concurrent processes uses.

An allocation has one amount for every non-empty set of its process types: what is used while
exactly these processes run. -/

namespace QuantumResources

/-- All sublists with `k` items, in the order of the items. -/
def choose {β : Type} : Nat → List β → List (List β)
  | 0, _ => [[]]
  | _ + 1, [] => []
  | k + 1, item :: rest => (choose k rest).map (item :: ·) ++ choose (k + 1) rest

/-- All non-empty sublists, the short ones first. -/
def combinations {β : Type} (items : List β) : List (List β) :=
  (List.range items.length).flatMap fun k => choose (k + 1) items

/-- Whether two lists hold the same processes; order and repetition do not matter. -/
def sameProcesses (left right : List String) : Bool :=
  left.all (right.contains ·) && right.all (left.contains ·)

/-- What an allocation counts. Only cycles can be added up over several allocations. -/
inductive Resource where
  | cycles
  | named (name : String)
  deriving DecidableEq, Repr

def Resource.name : Resource → String
  | .cycles => "cycles"
  | .named name => name

structure Allocation (α : Type) where
  resource : Resource
  processTypes : List String
  /-- Each combination once, with its amount. -/
  amounts : List (List String × α)
  deriving Repr

namespace Allocation

def distillation : String := "distillation"

def tMeasurement : String := "T measurement"

def graphStatePrep : String := "graph state prep"

def standardProcesses : List String := [distillation, tMeasurement, graphStatePrep]

/-- Drops a combination that holds the same processes as an earlier one. -/
def distinctCombinations : List (List String) → List (List String)
  | [] => []
  | combination :: rest =>
    combination.eraseDups ::
      (distinctCombinations rest).filter fun other => !sameProcesses combination other

variable {α : Type} [Arithmetic α]

def fresh (resource : Resource) (processTypes : List String) : Allocation α where
  resource
  processTypes
  amounts := (distinctCombinations (combinations processTypes)).map (·, Arithmetic.ofInt 0)

/-- An allocation of cycles to the standard processes. -/
def cycles : Allocation α := fresh .cycles standardProcesses

/-- Changes the amount of one combination. -/
def modifyAmounts (change : α → Calc α) (processes : List String) :
    List (List String × α) → Calc (List (List String × α))
  | [] => .error .noSuchKey
  | entry :: rest =>
    if sameProcesses processes entry.1 then do return (entry.1, ← change entry.2) :: rest
    else do return entry :: (← modifyAmounts change processes rest)

def add (amount : α) (processes : List String) (allocation : Allocation α) :
    Calc (Allocation α) := do
  let amounts ← modifyAmounts (Arithmetic.add · amount) processes allocation.amounts
  return { allocation with amounts }

def requireNonneg (amount : α) : Calc Unit := do
  if !(← Arithmetic.le (Arithmetic.ofInt 0) amount) then .error .conditionViolated

/-- A step that changes an allocation; when it stops, what it had changed stays changed. -/
abbrev Step (α : Type) := ExceptT Failure (StateM (Allocation α))

def Step.run {β : Type} (step : Step α β) (allocation : Allocation α) :
    Calc β × Allocation α :=
  StateT.run (ExceptT.run step) allocation

/-- Adds to the amount of one combination. -/
def log (amount : α) (processes : List String) : Step α Unit := do
  requireNonneg amount
  set (← add amount processes (← get))

/-- Puts an entry behind the greater ones and before its equals. -/
def insertDescending (entry : α × String) : List (α × String) → Calc (List (α × String))
  | [] => .ok [entry]
  | first :: rest => do
    if ← Arithmetic.lt entry.1 first.1 then return first :: (← insertDescending entry rest)
    else return entry :: first :: rest

/-- Greatest amount first; of equal amounts the last one. -/
def sortDescending (entries : List (α × String)) : Calc (List (α × String)) :=
  entries.foldlM (fun sorted entry => insertDescending entry sorted) []

/-- Logs the steps of a descending staircase: while the longest processes run on, those already
seen share the difference to the next amount. -/
def logStaircase (everyone : List String) : List String → List (α × String) → Step α Unit
  | _, [] => throw .indexOutOfRange
  | _, [(amount, _)] => log amount everyone
  | running, (amount, process) :: (next, name) :: rest => do
    let ahead := running ++ [process]
    log (← Arithmetic.sub amount next) ahead
    logStaircase everyone ahead ((next, name) :: rest)

/-- Logs processes that start at the same time and end after their own amounts. -/
def logParallel (amounts : List α) (processes : List String) : Step α Unit := do
  if amounts.length != processes.length then throw .conditionViolated
  amounts.forM fun amount => liftM (requireNonneg amount)
  logStaircase processes [] (← sortDescending (amounts.zip processes))

def total (allocation : Allocation α) : Calc α := Arithmetic.sum (allocation.amounts.map (·.2))

/-- The amount used by exactly these processes. -/
def exclusive (processes : List String) (allocation : Allocation α) : Calc α :=
  match allocation.amounts.find? (sameProcesses processes ·.1) with
  | some entry => .ok entry.2
  | none => .error .noSuchKey

/-- The amount used by at least these processes. -/
def inclusive (processes : List String) (allocation : Allocation α) : Calc α :=
  Arithmetic.sum
    ((allocation.amounts.filter fun entry => processes.all (entry.1.contains ·)).map (·.2))

/-- The sum of two allocations of cycles, over the process types of the first. -/
def sum (left right : Allocation α) : Calc (Allocation α) :=
  match left.resource with
  | .named _ => .error .wrongKind
  | .cycles => right.amounts.foldlM (fun allocation entry => allocation.add entry.2 entry.1) left

end Allocation

end QuantumResources
