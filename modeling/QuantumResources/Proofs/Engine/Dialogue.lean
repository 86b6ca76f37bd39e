import QuantumResources.Engine.Dialogue
import QuantumResources.Proofs.Sequence

/-! Dialogues one after the other, and what an engine makes of them. -/

namespace QuantumResources.Dialogue

variable {β γ δ σ : Type}

theorem andThen_done (dialogue : Dialogue β) : dialogue.andThen done = dialogue := by
  induction dialogue with
  | done value => rfl
  | failed failure => rfl
  | read object property next ih => simp only [andThen, ih]
  | assign object property value next ih => simp only [andThen, ih]
  | call function arguments named next ih => simp only [andThen, ih]
  | print text next ih => simp only [andThen, ih]
  | publish secret next ih => simp only [andThen, ih]

theorem andThen_assoc (dialogue : Dialogue β) (second : β → Dialogue γ) (third : γ → Dialogue δ) :
    (dialogue.andThen second).andThen third =
      dialogue.andThen fun value => (second value).andThen third := by
  induction dialogue with
  | done value => rfl
  | failed failure => rfl
  | read object property next ih => simp only [andThen, ih]
  | assign object property value next ih => simp only [andThen, ih]
  | call function arguments named next ih => simp only [andThen, ih]
  | print text next ih => simp only [andThen, ih]
  | publish secret next ih => simp only [andThen, ih]

instance : LawfulMonad Dialogue := LawfulMonad.mk' Dialogue
  (fun dialogue => andThen_done dialogue) (fun _ _ => rfl) andThen_assoc

/-- The value that a dialogue ends with and the state in which it leaves the engine, whatever is
written down on the way. -/
def outcome (engine : Engine σ) : Dialogue β → σ → Except Failure (β × σ)
  | done value, state => .ok (value, state)
  | failed failure, _ => .error failure
  | read object property next, state =>
    match engine.read object property state with
    | (.ok answer, after) => (next answer).outcome engine after
    | (.error failure, _) => .error failure
  | assign object property value next, state =>
    next.outcome engine (engine.assign object property value state)
  | call function arguments named next, state =>
    match engine.call function arguments named state with
    | (.ok answer, after) => (next answer).outcome engine after
    | (.error failure, _) => .error failure
  | print _ next, state => next.outcome engine state
  | publish _ next, state => next.outcome engine state

/-- The transcript has no influence on the value. -/
theorem run_eq_outcome (engine : Engine σ) (dialogue : Dialogue β) (state : σ)
    (transcript : Transcript) :
    (dialogue.run engine state transcript).1 = Prod.fst <$> dialogue.outcome engine state := by
  induction dialogue generalizing state transcript with
  | done value => rfl
  | failed failure => rfl
  | read object property next ih =>
    simp only [run, outcome]
    rcases engine.read object property state with ⟨failure | answer, after⟩
    · rfl
    · exact ih answer after transcript
  | assign object property value next ih => exact ih _ _
  | call function arguments named next ih =>
    simp only [run, outcome]
    rcases engine.call function arguments named state with ⟨failure | answer, after⟩
    · rfl
    · exact ih answer after _
  | print text next ih => exact ih _ _
  | publish secret next ih => exact ih _ _

theorem outcome_bind (engine : Engine σ) (first : Dialogue β) (next : β → Dialogue γ) (state : σ) :
    (first >>= next).outcome engine state =
      first.outcome engine state >>= fun ended => (next ended.1).outcome engine ended.2 := by
  change (first.andThen next).outcome engine state = _
  induction first generalizing state with
  | done value => rfl
  | failed failure => rfl
  | read object property further ih =>
    simp only [andThen, outcome]
    rcases engine.read object property state with ⟨failure | answer, after⟩
    · rfl
    · exact ih answer after
  | assign object property value further ih => exact ih _
  | call function arguments named further ih =>
    simp only [andThen, outcome]
    rcases engine.call function arguments named state with ⟨failure | answer, after⟩
    · rfl
    · exact ih answer after
  | print text further ih => exact ih _
  | publish secret further ih => exact ih _

theorem outcome_sayIf_bind (engine : Engine σ) (wanted : Bool) (text : String)
    (next : Unit → Dialogue β) (before : σ) :
    (sayIf wanted text >>= next).outcome engine before = (next ()).outcome engine before := by
  cases wanted <;> rfl

theorem outcome_lift_bind (engine : Engine σ) {computation : Except Failure β} {value : β}
    (succeeds : computation = .ok value) (next : β → Dialogue γ) (before : σ) :
    (liftM computation >>= next).outcome engine before = (next value).outcome engine before := by
  rw [succeeds]
  rfl

theorem outcome_mapM_congr (engine : Engine σ) {items : List β} {first second : β → Dialogue γ}
    (same : ∀ item ∈ items, ∀ state,
      (first item).outcome engine state = (second item).outcome engine state) (before : σ) :
    (items.mapM first).outcome engine before = (items.mapM second).outcome engine before := by
  induction items generalizing before with
  | nil => rfl
  | cons item rest ih =>
    have later := ih fun other member => same other (List.mem_cons_of_mem _ member)
    rw [List.mapM_cons, List.mapM_cons, outcome_bind, outcome_bind, same item (by simp)]
    congr 1
    funext ended
    rw [outcome_bind, outcome_bind, later]

/-- The dialogue ends with a value. -/
def Ends (engine : Engine σ) (dialogue : Dialogue β) (before : σ) (value : β) (after : σ) : Prop :=
  dialogue.outcome engine before = .ok (value, after)

section Ends

variable {engine : Engine σ} {before between after : σ}

theorem ends_pure (value : β) : Ends engine (pure value) before value before := rfl

theorem ends_say (text : String) : Ends engine (say text) before () before := rfl

theorem ends_sayIf (wanted : Bool) (text : String) :
    Ends engine (sayIf wanted text) before () before := by
  cases wanted <;> rfl

theorem ends_lift {computation : Except Failure β} {value : β}
    (succeeds : computation = .ok value) :
    Ends engine (liftM computation) before value before := by
  rw [succeeds]
  rfl

theorem Ends.bind {first : Dialogue β} {next : β → Dialogue γ} {value : β} {result : γ}
    (ended : Ends engine first before value between)
    (continued : Ends engine (next value) between result after) :
    Ends engine (first >>= next) before result after := by
  unfold Ends at ended continued ⊢
  rw [outcome_bind, ended]
  exact continued

/-- Dialogues that all end, one after the other. -/
theorem exists_ends_mapM {items : List β} {dialogue : β → Dialogue γ} (before : σ)
    (each : ∀ item ∈ items, ∀ state, ∃ value next, Ends engine (dialogue item) state value next) :
    ∃ values last, values.length = items.length ∧
      Ends engine (items.mapM dialogue) before values last := by
  induction items generalizing before with
  | nil => exact ⟨[], before, rfl, rfl⟩
  | cons item rest ih =>
    obtain ⟨value, next, ended⟩ := each item (by simp) before
    obtain ⟨values, last, length, restEnded⟩ :=
      ih next fun later member => each later (List.mem_cons_of_mem _ member)
    refine ⟨value :: values, last, by simp [length], ?_⟩
    rw [List.mapM_cons]
    exact ended.bind (restEnded.bind (ends_pure _))

end Ends

end QuantumResources.Dialogue
