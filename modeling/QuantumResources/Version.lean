import QuantumResources.Number.Digits
import QuantumResources.Number.Numeral
import QuantumResources.Run

/-! Version numbers of packages.

A version is written as numbers with points between them, maybe followed by the name of a
pre-release. What follows a readable beginning is ignored. -/

namespace QuantumResources

structure Version where
  major : Nat
  minor : Nat
  patch : Option Nat
  pre : Option String
  deriving DecidableEq, Repr

namespace Version

/-- The most digits that a number may have. -/
def digitLimit : Nat := 4300

/-- The value of digits that stand in a text. -/
def number (digits : List Char) : Except Failure Nat :=
  if digitLimit < digits.length then .error .noValue
  else .ok (digits.foldl (fun value c => 10 * value + Numeral.digitValue c) 0)

/-- The digits at the beginning, and the rest. -/
def digits (text : List Char) : List Char × List Char := text.span Numeral.isDigit

/-- Digits behind a point; without them nothing is taken. -/
def pointed? (text : List Char) : Option (List Char × List Char) :=
  match text with
  | '.' :: rest =>
    match digits rest with
    | ([], _) => none
    | found => some found
  | _ => none

/-- A pre-release stands behind a point or a dash and ends with the line. -/
def pre? (text : List Char) : Option String :=
  let name (rest : List Char) : Option String :=
    match rest.takeWhile (· ≠ '\n') with
    | [] => none
    | found => some (String.ofList found)
  match text with
  | '.' :: rest => name rest
  | '-' :: rest => name rest
  | _ => none

/-- The parts of a version before their numbers are read. -/
structure Spelling where
  major : List Char
  minor : List Char
  patch : Option (List Char)
  pre : Option String

def spelling? (text : List Char) : Option Spelling := do
  let (major, rest) := digits text
  if major.isEmpty then none
  let (minor, rest) ← pointed? rest
  match pointed? rest with
  | some (patch, rest) => return ⟨major, minor, some patch, pre? rest⟩
  | none => return ⟨major, minor, none, pre? rest⟩

def parse (text : String) : Except Failure Version :=
  match spelling? text.toList with
  | none => .error (.malformedVersion text)
  | some found => do
    let patch ← found.patch.mapM number
    return ⟨← number found.major, ← number found.minor, patch, found.pre⟩

/-- A number in digits, if these are not too many. -/
def digitText (n : Nat) : Except Failure String :=
  let text := Digits.ofNat n
  if digitLimit < text.length then .error .noValue else .ok text

def text (version : Version) : Except Failure String := do
  let start := (← digitText version.major) ++ "." ++ (← digitText version.minor)
  let patch ←
    match version.patch with
    | some n => do pure ("." ++ (← digitText n))
    | none => pure ""
  let pre :=
    match version.pre with
    | some name => if name.isEmpty then "" else "." ++ name
    | none => ""
  return start ++ patch ++ pre

/-- The next minor version. -/
def bumpMinor (version : Version) : Version := ⟨version.major, version.minor + 1, some 0, none⟩

/-- Tells the next version of the package named first, for people and for a workflow. -/
def announce (installed : List (String × String)) (arguments : List String) : Run Unit := do
  let some package := arguments.head? | throw .indexOutOfRange
  let some current := installed.lookup package | throw (.packageMissing package)
  Run.print ("Read current version as: " ++ current ++ "\n")
  let next ← (← parse current).bumpMinor.text
  Run.print ("Next version: " ++ next ++ "\n")
  Run.print ("::set-output name=next_version::" ++ next ++ "\n")

end Version

end QuantumResources
