import QuantumResources.Version

/-! The command line: tells the next version of a package.

The installed packages come from standard input, one in a line, as `name==version`. The package is
named by the first argument. -/

namespace QuantumResources.CommandLine

/-- A line names a package and its version. -/
def package? (line : String) : Option (String × String) :=
  match line.trimAscii.toString.splitOn "==" with
  | name :: rest => if rest.isEmpty then none else some (name, "==".intercalate rest)
  | [] => none

def packages (lines : List String) : List (String × String) := lines.filterMap package?

/-- What is told when the program stops. -/
def complaint (failure : Failure) : String :=
  match failure with
  | .packageMissing name => "No package metadata was found for " ++ name
  | .indexOutOfRange => "The name of a package is missing"
  | other => other.message.getD "The version is not usable"

partial def readLines (input : IO.FS.Stream) (found : List String) : IO (List String) := do
  let line ← input.getLine
  if line.isEmpty then return found.reverse
  readLines input (line :: found)

end QuantumResources.CommandLine

open QuantumResources QuantumResources.CommandLine in
def main (arguments : List String) : IO UInt32 := do
  let lines ← readLines (← IO.getStdin) []
  let (value, journal) := (Version.announce (packages lines) arguments).result
  IO.print journal.printed
  match value with
  | .ok _ => return 0
  | .error failure =>
    IO.eprintln (complaint failure)
    return 1
