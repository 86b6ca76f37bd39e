import QuantumResources.Failure

/-! Computations that may stop, with what they have told their user so far. -/

namespace QuantumResources

structure Journal where
  warnings : List String := []
  printed : String := ""

/-- What was told stays told when the computation stops. -/
abbrev Run := ExceptT Failure (StateM Journal)

namespace Run

def warn (text : String) : Run Unit :=
  modify fun journal => { journal with warnings := journal.warnings ++ [text] }

def print (text : String) : Run Unit :=
  modify fun journal => { journal with printed := journal.printed ++ text }

def result {β : Type} (run : Run β) : Except Failure β × Journal :=
  StateT.run (ExceptT.run run) {}

end Run

end QuantumResources
