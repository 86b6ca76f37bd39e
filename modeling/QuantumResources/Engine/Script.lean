import QuantumResources.Engine.Dialogue

/-! An engine that answers from a script.

The script has answers for some questions, by name. Any other question is answered by a new handle
that is named after the question. -/

namespace QuantumResources

inductive Reply where
  | always (answer : Datum)
  /-- The answers to one question after another. -/
  | each (answers : List Datum)

structure Script where
  replies : List (String × Reply) := []
  /-- Properties that have been assigned, the last one first. -/
  assigned : List ((Handle × String) × Datum) := []
  /-- The number of the next new handle. -/
  next : Nat := 1

namespace Script

/-- Puts the answers that are left in the place of those that were there. -/
def setReply (question : String) (reply : Reply) :
    List (String × Reply) → List (String × Reply)
  | [] => []
  | (name, old) :: rest =>
    if name = question then (name, reply) :: rest else (name, old) :: setReply question reply rest

def answer (question : String) (script : Script) : Except Failure Datum × Script :=
  match script.replies.lookup question with
  | some (.always reply) => (.ok reply, script)
  | some (.each []) => (.error .indexOutOfRange, script)
  | some (.each (reply :: rest)) =>
    (.ok reply, { script with replies := setReply question (.each rest) script.replies })
  | none => (.ok (.handle ⟨question, script.next⟩), { script with next := script.next + 1 })

/-- An assigned property is read back; otherwise the script is asked. -/
def readProperty (object : Handle) (property : String) (script : Script) :
    Except Failure Datum × Script :=
  match script.assigned.lookup (object, property) with
  | some value => (.ok value, script)
  | none => script.answer (object.name ++ "." ++ property)

def engine : Engine Script where
  read := readProperty
  assign object property value script :=
    { script with assigned := ((object, property), value) :: script.assigned }
  call function _ _ script := script.answer (function.name ++ "()")

end Script

/-- Holds a dialogue with a script. -/
def Dialogue.perform {β : Type} (dialogue : Dialogue β) (script : Script) :
    Except Failure β × Transcript :=
  dialogue.run Script.engine script {}

end QuantumResources
