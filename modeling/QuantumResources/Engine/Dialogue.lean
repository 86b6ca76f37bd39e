import QuantumResources.Engine.Datum

/-! Conversations with an engine.

A dialogue is a tree of questions: what comes next depends on the answers. It does nothing by
itself; an engine answers it, and what was asked, printed and published stands in a transcript. -/

namespace QuantumResources

inductive Dialogue (β : Type) where
  | done (value : β)
  | failed (failure : Failure)
  | read (object : Handle) (property : String) (next : Datum → Dialogue β)
  | assign (object : Handle) (property : String) (value : Datum) (next : Dialogue β)
  | call (function : Handle) (arguments : List Datum) (named : List (String × Datum))
      (next : Datum → Dialogue β)
  | print (text : String) (next : Dialogue β)
  /-- Makes a secret known to the environment. -/
  | publish (secret : String) (next : Dialogue β)

namespace Dialogue

variable {β γ σ : Type}

def andThen : Dialogue β → (β → Dialogue γ) → Dialogue γ
  | done value, f => f value
  | failed failure, _ => failed failure
  | read object property next, f => read object property fun answer => (next answer).andThen f
  | assign object property value next, f => assign object property value (next.andThen f)
  | call function arguments named next, f =>
    call function arguments named fun answer => (next answer).andThen f
  | print text next, f => print text (next.andThen f)
  | publish secret next, f => publish secret (next.andThen f)

instance : Monad Dialogue where
  pure := done
  bind := andThen

def ofExcept : Except Failure β → Dialogue β
  | .ok value => done value
  | .error failure => failed failure

instance : MonadLift (Except Failure) Dialogue := ⟨ofExcept⟩

def say (text : String) : Dialogue Unit := print text (done ())

/-- Says something only if it is wanted. -/
def sayIf (wanted : Bool) (text : String) : Dialogue Unit :=
  if wanted then say text else done ()

/-- Calls a function that the engine knows by name. -/
def ask (function : String) (arguments : List Datum := []) (named : List (String × Datum) := []) :
    Dialogue Datum :=
  call ⟨function, 0⟩ arguments named done

def property (object : Datum) (name : String) : Dialogue Datum :=
  match object with
  | .handle handle => read handle name done
  | .array values =>
    if name = "shape" then done (.list (values.shape.map fun (n : Nat) => .whole n))
    else failed .absentRecord
  | .file _ attributes =>
    if name = "attrs" then done (.record attributes) else failed .absentRecord
  | _ => failed .absentRecord

def setProperty (object : Datum) (name : String) (value : Datum) : Dialogue Unit :=
  match object with
  | .handle handle => assign handle name value (done ())
  | _ => failed .absentRecord

def invoke (function : Datum) (arguments : List Datum := [])
    (named : List (String × Datum) := []) : Dialogue Datum :=
  match function with
  | .handle handle => call handle arguments named done
  | _ => failed .wrongKind

/-- Calls a function that belongs to an object. -/
def method (object : Datum) (name : String) (arguments : List Datum := [])
    (named : List (String × Datum) := []) : Dialogue Datum := do
  invoke (← property object name) arguments named

end Dialogue

/-- What was asked of an engine. -/
inductive Note where
  | assigned (object : Handle) (property : String) (value : Datum)
  | called (function : Handle) (arguments : List Datum) (named : List (String × Datum))

structure Transcript where
  notes : List Note := []
  printed : String := ""
  published : Option String := none

/-- Answers questions, with a state of its own. -/
structure Engine (σ : Type) where
  read : Handle → String → σ → Except Failure Datum × σ
  assign : Handle → String → Datum → σ → σ
  call : Handle → List Datum → List (String × Datum) → σ → Except Failure Datum × σ

namespace Dialogue

variable {β σ : Type}

/-- Holds a dialogue with an engine. A question without an answer ends it. -/
def run (engine : Engine σ) : Dialogue β → σ → Transcript → Except Failure β × Transcript
  | done value, _, transcript => (.ok value, transcript)
  | failed failure, _, transcript => (.error failure, transcript)
  | read object property next, state, transcript =>
    match engine.read object property state with
    | (.ok answer, after) => (next answer).run engine after transcript
    | (.error failure, _) => (.error failure, transcript)
  | assign object property value next, state, transcript =>
    next.run engine (engine.assign object property value state)
      { transcript with notes := transcript.notes ++ [.assigned object property value] }
  | call function arguments named next, state, transcript =>
    let noted := { transcript with notes := transcript.notes ++ [.called function arguments named] }
    match engine.call function arguments named state with
    | (.ok answer, after) => (next answer).run engine after noted
    | (.error failure, _) => (.error failure, noted)
  | print text next, state, transcript =>
    next.run engine state { transcript with printed := transcript.printed ++ text }
  | publish secret next, state, transcript =>
    next.run engine state { transcript with published := some secret }

end Dialogue

end QuantumResources
