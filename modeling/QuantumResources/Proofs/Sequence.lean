import QuantumResources.Sequence

/-! Places in a list, and computations along a list of them. -/

namespace QuantumResources

/-! ## Computations that may stop -/

@[simp] theorem Calc.ok_bind {β γ : Type} (value : β) (next : β → Calc γ) :
    (Except.ok value : Calc β) >>= next = next value := rfl

@[simp] theorem Calc.error_bind {β γ : Type} (failure : Failure) (next : β → Calc γ) :
    (Except.error failure : Calc β) >>= next = .error failure := rfl

theorem Calc.bind_eq_ok {β γ : Type} {computation : Calc β} {next : β → Calc γ} {result : γ} :
    computation >>= next = .ok result ↔
      ∃ value, computation = .ok value ∧ next value = .ok result := by
  cases computation with
  | error failure =>
    constructor
    · intro impossible
      cases impossible
    · rintro ⟨value, impossible, _⟩
      cases impossible
  | ok value =>
    constructor
    · intro continued
      exact ⟨value, rfl, continued⟩
    · rintro ⟨_, same, continued⟩
      cases same
      exact continued

theorem Calc.mapM_eq_ok_map {β γ : Type} (items : List β) (compute : β → Calc γ) (value : β → γ)
    (succeeds : ∀ item ∈ items, compute item = .ok (value item)) :
    items.mapM compute = .ok (items.map value) := by
  induction items with
  | nil => rfl
  | cons item rest ih =>
    rw [List.mapM_cons, succeeds item (by simp),
      ih fun later member => succeeds later (List.mem_cons_of_mem _ member)]
    rfl

/-- Where items can stop for one reason only, so can all of them together. -/
theorem Calc.mapM_eq_ite {β γ : Type} (items : List β) (compute : β → Calc γ) (value : β → γ)
    (passes : β → Prop) [DecidablePred passes] (failure : Failure)
    (each : ∀ item ∈ items,
      compute item = if passes item then .ok (value item) else .error failure) :
    items.mapM compute =
      if ∀ item ∈ items, passes item then .ok (items.map value) else .error failure := by
  induction items with
  | nil => rfl
  | cons item rest ih =>
    have later := ih fun other member => each other (List.mem_cons_of_mem _ member)
    rw [List.mapM_cons, each item (by simp), later]
    by_cases first : passes item
    · by_cases others : ∀ other ∈ rest, passes other
      · rw [if_pos first, if_pos others, if_pos (List.forall_mem_cons.mpr ⟨first, others⟩)]
        rfl
      · rw [if_pos first, if_neg others, if_neg fun all => others (List.forall_mem_cons.mp all).2]
        rfl
    · rw [if_neg first, if_neg fun all => first (List.forall_mem_cons.mp all).1]
      rfl

theorem Calc.mapM_eq_ok_cons {β γ : Type} {item : β} {rest : List β} {compute : β → Calc γ}
    {values : List γ} (succeeds : (item :: rest).mapM compute = .ok values) :
    ∃ first later, compute item = .ok first ∧ rest.mapM compute = .ok later ∧
      values = first :: later := by
  rw [List.mapM_cons] at succeeds
  obtain ⟨first, computed, continued⟩ := Calc.bind_eq_ok.mp succeeds
  obtain ⟨later, rest, finished⟩ := Calc.bind_eq_ok.mp continued
  cases finished
  exact ⟨first, later, computed, rest, rfl⟩

theorem Calc.mem_of_mapM {β γ : Type} {items : List β} {compute : β → Calc γ} {values : List γ}
    (succeeds : items.mapM compute = .ok values) {value : γ} :
    value ∈ values ↔ ∃ item ∈ items, compute item = .ok value := by
  induction items generalizing values with
  | nil =>
    cases succeeds
    simp
  | cons item rest ih =>
    obtain ⟨first, later, computed, remaining, rfl⟩ := Calc.mapM_eq_ok_cons succeeds
    rw [List.mem_cons, ih remaining]
    simp only [List.mem_cons, exists_eq_or_imp, computed, Except.ok.injEq]
    rw [eq_comm]

theorem Calc.mapM_append_ok {β γ : Type} {first second : List β} {compute : β → Calc γ}
    {values others : List γ} (succeeds : first.mapM compute = .ok values)
    (alsoSucceeds : second.mapM compute = .ok others) :
    (first ++ second).mapM compute = .ok (values ++ others) := by
  rw [List.mapM_append, succeeds, alsoSucceeds]
  rfl

/-- A property that every step keeps holds after the last one. -/
theorem Calc.foldlM_keeps {β γ : Type} {step : β → γ → Calc β} {items : List γ}
    (property : β → Prop) {start result : β} (initially : property start)
    (keeps : ∀ state item next, item ∈ items → property state → step state item = .ok next →
      property next)
    (finished : items.foldlM step start = .ok result) : property result := by
  induction items generalizing start with
  | nil =>
    cases finished
    exact initially
  | cons item rest ih =>
    rw [List.foldlM_cons] at finished
    obtain ⟨next, stepped, remaining⟩ := Calc.bind_eq_ok.mp finished
    refine ih (keeps start item next (by simp) initially stepped) ?_ remaining
    intro state later after member
    exact keeps state later after (List.mem_cons_of_mem _ member)

theorem Calc.foldlM_succeeds {β γ : Type} {step : β → γ → Calc β} (items : List γ) (start : β)
    (succeeds : ∀ item ∈ items, ∀ state, ∃ next, step state item = .ok next) :
    ∃ result, items.foldlM step start = .ok result := by
  induction items generalizing start with
  | nil => exact ⟨start, rfl⟩
  | cons item rest ih =>
    obtain ⟨next, stepped⟩ := succeeds item (by simp) start
    rw [List.foldlM_cons, stepped]
    exact ih next fun later member => succeeds later (List.mem_cons_of_mem _ member)

/-! ## Two computations -/

/-- Both computations stop for the same reason, or their results are related. -/
inductive Calc.Alike {β γ : Type} (related : β → γ → Prop) : Calc β → Calc γ → Prop
  | ok {first : β} {second : γ} (holds : related first second) :
      Calc.Alike related (.ok first) (.ok second)
  | error (failure : Failure) : Calc.Alike related (.error failure) (.error failure)

theorem Calc.Alike.bind {β γ δ ε : Type} {related : β → γ → Prop} {after : δ → ε → Prop}
    {first : Calc β} {second : Calc γ} {next : β → Calc δ} {other : γ → Calc ε}
    (alike : Calc.Alike related first second)
    (continues : ∀ value result, related value result →
      Calc.Alike after (next value) (other result)) :
    Calc.Alike after (first >>= next) (second >>= other) := by
  cases alike with
  | ok holds => exact continues _ _ holds
  | error failure => exact .error failure

theorem Calc.Alike.bind_same {β γ δ : Type} {after : γ → δ → Prop} (computation : Calc β)
    {next : β → Calc γ} {other : β → Calc δ}
    (continues : ∀ value, Calc.Alike after (next value) (other value)) :
    Calc.Alike after (computation >>= next) (computation >>= other) := by
  cases computation with
  | ok value => exact continues value
  | error failure => exact .error failure

/-- Two loops over the same items whose steps keep a relation end in related states. -/
theorem Calc.Alike.foldlM {β γ ι : Type} {related : β → γ → Prop} {step : β → ι → Calc β}
    {other : γ → ι → Calc γ} (items : List ι) {start : β} {begin : γ}
    (initially : related start begin)
    (keeps : ∀ item ∈ items, ∀ state partner, related state partner →
      Calc.Alike related (step state item) (other partner item)) :
    Calc.Alike related (items.foldlM step start) (items.foldlM other begin) := by
  induction items generalizing start begin with
  | nil => exact .ok initially
  | cons item rest ih =>
    rw [List.foldlM_cons, List.foldlM_cons]
    refine (keeps item (by simp) start begin initially).bind fun next partner stillRelated => ?_
    exact ih stillRelated fun later member => keeps later (List.mem_cons_of_mem _ member)

/-! ## Places -/

/-- A place that stands for an item, counted from the start or from the end. -/
def ValidPlace (count : Nat) (place : Int) : Prop := -(count : Int) ≤ place ∧ place < count

instance (count : Nat) (place : Int) : Decidable (ValidPlace count place) :=
  inferInstanceAs (Decidable (_ ∧ _))

/-- The place counted from the start. -/
def fromStart (count : Nat) (place : Int) : Nat :=
  (if place < 0 then place + count else place).toNat

theorem fromStart_lt (count : Nat) (place : Int) (valid : ValidPlace count place) :
    fromStart count place < count := by
  obtain ⟨low, high⟩ := valid
  unfold fromStart
  split <;> omega

@[simp] theorem fromStart_natCast (count index : Nat) : fromStart count index = index := by
  unfold fromStart
  split <;> omega

theorem pick_eq_ok_iff {β : Type} (items : List β) (place : Int) (item : β) :
    pick items place = .ok item ↔
      -(items.length : Int) ≤ place ∧ items[fromStart items.length place]? = some item := by
  unfold pick fromStart
  generalize shifted : (if place < 0 then place + (items.length : Int) else place) = index
  by_cases outside : index < 0
  · have tooLow : ¬ -(items.length : Int) ≤ place := by
      split at shifted <;> omega
    simp [outside, tooLow]
  · have inside : -(items.length : Int) ≤ place := by
      split at shifted <;> omega
    cases found : items[index.toNat]? <;> simp [outside, inside, found]

theorem pick_valid {β : Type} (items : List β) (place : Int)
    (valid : ValidPlace items.length place) :
    ∃ item, pick items place = .ok item ∧ items[fromStart items.length place]? = some item := by
  have inside := fromStart_lt _ _ valid
  have found := List.getElem?_eq_getElem inside
  exact ⟨_, (pick_eq_ok_iff _ _ _).mpr ⟨valid.1, found⟩, found⟩

theorem pick_natCast {β : Type} (items : List β) (index : Nat) (item : β)
    (found : items[index]? = some item) : pick items (index : Int) = .ok item := by
  rw [pick_eq_ok_iff, fromStart_natCast]
  exact ⟨by omega, found⟩

theorem pick_map {β γ : Type} (change : β → γ) (items : List β) (place : Int) :
    pick (items.map change) place = change <$> pick items place := by
  unfold pick
  rw [List.length_map]
  generalize (if place < 0 then place + (items.length : Int) else place) = index
  by_cases outside : index < 0
  · simp only [if_pos outside]
    rfl
  · simp only [if_neg outside, List.getElem?_map]
    cases items[index.toNat]? <;> rfl

/-- What runs when the places of a sequence are followed. -/
theorem mapM_pick {β : Type} (items : List β) (sequence : List Int)
    (valid : ∀ place ∈ sequence, ValidPlace items.length place) :
    ∃ running, sequence.mapM (pick items) = .ok running := by
  induction sequence with
  | nil => exact ⟨[], rfl⟩
  | cons place rest ih =>
    obtain ⟨later, found⟩ := ih fun other member => valid other (List.mem_cons_of_mem _ member)
    obtain ⟨first, picked, _⟩ := pick_valid items place (valid place (by simp))
    rw [List.mapM_cons, picked, found]
    exact ⟨_, rfl⟩

theorem mapM_pick_map {β γ : Type} (change : β → γ) (items : List β) (sequence : List Int) :
    sequence.mapM (pick (items.map change)) = List.map change <$> sequence.mapM (pick items) := by
  induction sequence with
  | nil => rfl
  | cons place rest ih =>
    rw [List.mapM_cons, List.mapM_cons, ih, pick_map]
    cases pick items place with
    | error failure => rfl
    | ok item => cases rest.mapM (pick items) <;> rfl

/-- A block in the middle of a list is read by the places that follow on its start. -/
theorem mapM_pick_block {β : Type} (front block back : List β) :
    ((List.range block.length).map fun j => ((front.length + j : Nat) : Int)).mapM
      (pick (front ++ block ++ back)) = .ok block := by
  induction block generalizing front with
  | nil => rfl
  | cons item block ih =>
    have first : pick (front ++ item :: block ++ back) (front.length : Int) = .ok item :=
      pick_natCast _ _ _ (by simp)
    have shifted : ((List.range block.length).map fun j => ((front.length + (j + 1) : Nat) : Int)) =
        (List.range block.length).map fun j => (((front ++ [item]).length + j : Nat) : Int) := by
      apply List.map_congr_left
      intro j _
      rw [List.length_append, List.length_singleton, Nat.add_assoc, Nat.add_comm 1 j]
    have later := ih (front ++ [item])
    rw [List.append_assoc front [item] block, List.singleton_append] at later
    rw [List.length_cons, List.range_succ_eq_map, List.map_cons, List.map_map, List.mapM_cons,
      Nat.add_zero, first]
    simp only [Function.comp_def, Nat.succ_eq_add_one]
    rw [shifted, later]
    rfl

/-- Acting on the places of a list is acting on what stands there. -/
theorem forM_range {m : Type → Type} [Monad m] {β : Type} (items : List β)
    (step : Nat → m PUnit) (act : β → m PUnit)
    (same : ∀ place item, items[place]? = some item → step place = act item) :
    (List.range items.length).forM step = items.forM act := by
  induction items generalizing step with
  | nil => rfl
  | cons item rest ih =>
    have first := same 0 item rfl
    have later := ih (fun place => step (place + 1)) fun place next found =>
      same (place + 1) next found
    have shifted : ∀ places : List Nat,
        (places.map Nat.succ).forM step = places.forM fun place => step (place + 1) := by
      intro places
      induction places with
      | nil => rfl
      | cons place more ih => simp only [List.map_cons, List.forM, ih, Nat.succ_eq_add_one]
    rw [List.length_cons, List.range_succ_eq_map, List.forM, List.forM, first, shifted, later]

/-! ## Greatest items -/

theorem foldl_max_le_iff (items : List Int) (start bound : Int) :
    items.foldl max start ≤ bound ↔ start ≤ bound ∧ ∀ item ∈ items, item ≤ bound := by
  induction items generalizing start with
  | nil => simp
  | cons item rest ih =>
    rw [List.foldl_cons, ih, List.forall_mem_cons, Int.max_le, and_assoc]

/-! ## Blocks -/

theorem mem_take_iff {β : Type} (items : List β) (bound : Nat) (item : β) :
    item ∈ items.take bound ↔ ∃ index < bound, items[index]? = some item := by
  rw [List.mem_iff_getElem?]
  constructor
  · rintro ⟨index, found⟩
    rw [List.getElem?_take] at found
    split at found
    · next inside => exact ⟨index, inside, found⟩
    · cases found
  · rintro ⟨index, inside, found⟩
    exact ⟨index, by rw [List.getElem?_take, if_pos inside, found]⟩

/-- What stands at a position belongs to the block of one item. -/
theorem exists_block {β γ : Type} (items : List β) (expand : β → List γ) (position : Nat)
    (value : γ) (found : (items.flatMap expand)[position]? = some value) :
    ∃ index item offset, items[index]? = some item ∧ (expand item)[offset]? = some value ∧
      position = ((items.take index).flatMap expand).length + offset := by
  induction items generalizing position with
  | nil => cases found
  | cons item rest ih =>
    rw [List.flatMap_cons] at found
    by_cases here : position < (expand item).length
    · rw [List.getElem?_append_left here] at found
      exact ⟨0, item, position, rfl, found, by simp⟩
    · rw [List.getElem?_append_right (by omega)] at found
      obtain ⟨index, later, offset, isLater, inside, equal⟩ := ih _ found
      refine ⟨index + 1, later, offset, isLater, inside, ?_⟩
      rw [List.take_succ_cons, List.flatMap_cons, List.length_append]
      omega

theorem flatMap_around {β γ : Type} (items : List β) (expand : β → List γ) (index : Nat) (item : β)
    (found : items[index]? = some item) :
    items.flatMap expand = (items.take index).flatMap expand ++ expand item ++
      (items.drop (index + 1)).flatMap expand := by
  obtain ⟨inside, same⟩ := List.getElem?_eq_some_iff.mp found
  have whole : items = items.take index ++ item :: items.drop (index + 1) := by
    rw [← same, List.getElem_cons_drop, List.take_append_drop]
  conv => lhs; rw [whole]
  rw [List.flatMap_append, List.flatMap_cons, List.append_assoc]

theorem getElem?_block {β γ : Type} (items : List β) (expand : β → List γ) (index offset : Nat)
    (item : β) (value : γ) (found : items[index]? = some item)
    (inside : (expand item)[offset]? = some value) :
    (items.flatMap expand)[((items.take index).flatMap expand).length + offset]? = some value := by
  have within := (List.getElem?_eq_some_iff.mp inside).1
  rw [flatMap_around items expand index item found, List.append_assoc,
    List.getElem?_append_right (Nat.le_add_right _ _), Nat.add_sub_cancel_left,
    List.getElem?_append_left within, inside]

end QuantumResources
