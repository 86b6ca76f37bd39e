import QuantumResources.Decoder.Csv
import QuantumResources.Proofs.Number.Lawful
import QuantumResources.Proofs.Number.Numerals
import QuantumResources.Proofs.Search

/-! Decoder tables in arrays of numbers, which any reader may give.

The first row is taken for a heading. The other ones may come in any order and may repeat a
distance. A distance up to the highest one takes the first of the rows with the least distance that
is not below it, so what is not listed is never assumed to cost less than the next distance that
is. -/

namespace QuantumResources

open Search (FirstLeast)

/-! ## The greatest of some numbers -/

section Greatest

variable {α β : Type} [Arithmetic α] [LawfulArithmetic α] (number : β → α) (natural : β → Nat)

theorem maximum_naturals (first second : β)
    (isFirst : LawfulArithmetic.value? (number first) = some ((natural first : ℝ) : EReal))
    (isSecond : LawfulArithmetic.value? (number second) = some ((natural second : ℝ) : EReal)) :
    Arithmetic.maximum (number first) (number second) =
      .ok (number (if natural first < natural second then second else first)) := by
  have less : Arithmetic.lt (number first) (number second) =
      .ok (decide (natural first < natural second)) := by
    rw [LawfulArithmetic.lt_eq isFirst isSecond]
    simp
  rw [Arithmetic.maximum, less, Calc.ok_bind]
  by_cases order : natural first < natural second
  · simp [order, pure, Except.pure]
  · simp [order, pure, Except.pure]

theorem foldlM_maximum (first : β) (rest : List β)
    (isNatural : ∀ item ∈ first :: rest,
      LawfulArithmetic.value? (number item) = some ((natural item : ℝ) : EReal)) :
    ∃ best ∈ first :: rest, (rest.map number).foldlM Arithmetic.maximum (number first) =
      .ok (number best) ∧ ∀ item ∈ first :: rest, natural item ≤ natural best := by
  induction rest generalizing first with
  | nil => exact ⟨first, by simp, rfl, by simp⟩
  | cons item rest ih =>
    have larger := maximum_naturals number natural first item (isNatural first (by simp))
      (isNatural item (by simp))
    -- The larger of the first two takes the place of both.
    generalize isNext : (if natural first < natural item then item else first) = next at larger
    have among : next = item ∨ next = first := by
      split at isNext <;> simp [isNext]
    have above : natural first ≤ natural next ∧ natural item ≤ natural next := by
      split at isNext <;> subst isNext <;> omega
    obtain ⟨best, member, found, most⟩ := ih next (by
      intro other member
      rcases List.mem_cons.mp member with rfl | later
      · rcases among with rfl | rfl
        · exact isNatural _ (by simp)
        · exact isNatural _ (by simp)
      · exact isNatural other (by simp [later]))
    refine ⟨best, ?_, ?_, ?_⟩
    · rcases List.mem_cons.mp member with rfl | later
      · rcases among with rfl | rfl <;> simp
      · simp [later]
    · rw [List.map_cons, List.foldlM_cons, larger, Calc.ok_bind, found]
    · have next := most next (by simp)
      simp only [List.forall_mem_cons] at most ⊢
      exact ⟨by omega, by omega, most.2⟩

theorem greatest_naturals (items : List β) (nonempty : items ≠ [])
    (isNatural : ∀ item ∈ items,
      LawfulArithmetic.value? (number item) = some ((natural item : ℝ) : EReal)) :
    ∃ best ∈ items, Arithmetic.greatest (items.map number) = .ok (number best) ∧
      ∀ item ∈ items, natural item ≤ natural best := by
  cases items with
  | nil => exact absurd rfl nonempty
  | cons first rest => exact foldlM_maximum number natural first rest isNatural

end Greatest

/-! ## The next distance that is listed -/

theorem findSome?_range {γ : Type} {find : Nat → Option γ} (bound place : Nat) {found : γ}
    (inside : place < bound) (before : ∀ earlier < place, find earlier = none)
    (isFound : find place = some found) : (List.range bound).findSome? find = some found := by
  induction bound with
  | zero => omega
  | succ bound ih =>
    rw [List.range_succ, List.findSome?_append]
    by_cases last : place = bound
    · have nothing : (List.range bound).findSome? find = none := by
        rw [List.findSome?_eq_none_iff]
        intro earlier member
        exact before earlier (by simpa [last] using member)
      subst last
      simp [nothing, isFound]
    · rw [ih (by omega)]
      rfl

/-- The least number from a distance on that is listed, and where it stands first. -/
theorem exists_next {β : Type} (items : List β) (listed : β → Nat) {highest distance : Nat}
    (reached : ∃ item ∈ items, listed item = highest) (within : distance ≤ highest) :
    ∃ next place, distance ≤ next ∧ next ≤ highest ∧
      (∀ item ∈ items, distance ≤ listed item → next ≤ listed item) ∧
      (items.findIdx? fun item => listed item = next) = some place := by
  classical
  have exist : ∃ next, distance ≤ next ∧ ∃ item ∈ items, listed item = next :=
    ⟨highest, within, reached⟩
  obtain ⟨notBelow, item, member, isNext⟩ := Nat.find_spec exist
  cases isPlace : items.findIdx? fun item => listed item = Nat.find exist with
  | none =>
    rw [List.findIdx?_eq_none_iff] at isPlace
    exact absurd (isPlace item member) (by simp [isNext])
  | some place =>
    refine ⟨Nat.find exist, place, notBelow, Nat.find_min' exist ⟨within, reached⟩, ?_, isPlace⟩
    intro other isOther fits
    exact Nat.find_min' exist ⟨fits, other, isOther, rfl⟩

/-- The first item with the least number from a distance on. -/
theorem firstLeast_of_findIdx? {β : Type} {items : List β} {listed : β → Nat}
    {distance next place : Nat} (notBelow : distance ≤ next)
    (least : ∀ item ∈ items, distance ≤ listed item → next ≤ listed item)
    (isPlace : (items.findIdx? fun item => listed item = next) = some place) :
    ∃ item, items[place]? = some item ∧
      FirstLeast (fun item => distance ≤ listed item) listed items item := by
  obtain ⟨inside, isNext, earlier⟩ := List.findIdx?_eq_some_iff_getElem.mp isPlace
  have same : listed items[place] = next := of_decide_eq_true isNext
  refine ⟨items[place], List.getElem?_eq_getElem inside, by omega, items.take place,
    items.drop (place + 1), ?_, ?_, ?_⟩
  · rw [List.getElem_cons_drop, List.take_append_drop]
  · intro other member fits
    obtain ⟨index, before, isOther⟩ := (mem_take_iff items place other).mp member
    obtain ⟨_, rfl⟩ := List.getElem?_eq_some_iff.mp isOther
    have different := earlier index before
    have atLeast := least _ (List.getElem_mem _) fits
    simp only [decide_eq_true_eq] at different
    omega
  · intro other member fits
    have atLeast := least other (List.mem_of_mem_drop member) fits
    omega

/-- The decoder with a line for every distance up to the highest one. -/
def Decoder.tabulated {α : Type} (highest : Nat) (row : Nat → DecoderRow α) : Decoder α where
  power := (List.range (highest + 1)).map fun (d : Nat) => ((d : Int), (row d).power)
  area := (List.range (highest + 1)).map fun (d : Nat) => ((d : Int), (row d).area)
  delay := (List.range (highest + 1)).map fun (d : Nat) => ((d : Int), (row d).delay)
  highestDistance := highest

section Rows

variable {β : Type} (items : List β) (row : β → DecoderRow Scalar) (listed : β → Nat)
  (isListed : ∀ item ∈ items, (row item).distance.value? = some ((listed item : ℝ) : EReal))

include isListed

theorem exists_highest (nonempty : items ≠ []) :
    ∃ (highest : Nat) (top : Scalar), (∃ item ∈ items, listed item = highest) ∧
      (∀ item ∈ items, listed item ≤ highest) ∧
      Arithmetic.greatest ((items.map row).map (·.distance)) = .ok top ∧
      Arithmetic.truncate top = .ok (highest : Int) := by
  obtain ⟨best, member, found, most⟩ :=
    greatest_naturals (fun item => (row item).distance) listed items nonempty isListed
  refine ⟨listed best, (row best).distance, ⟨best, member, rfl⟩, most, ?_, ?_⟩
  · rw [List.map_map]
    exact found
  · exact Scalar.truncate_of_value (isListed best member)

/-- A distance is found where it stands first. -/
theorem findIdx?_distance (distance : Nat) :
    ((items.map row).map (·.distance)).findIdx?
        (Arithmetic.eq (Arithmetic.ofInt (distance : Int))) =
      items.findIdx? fun item => listed item = distance := by
  induction items with
  | nil => rfl
  | cons item rest ih =>
    have later := ih fun other member => isListed other (List.mem_cons_of_mem _ member)
    have here : Arithmetic.eq (Arithmetic.ofInt (distance : Int)) (row item).distance =
        decide (listed item = distance) := by
      have isValue := isListed item (by simp)
      rw [← Int.cast_natCast] at isValue
      exact (Scalar.eq_whole_of_value isValue distance).trans (decide_eq_decide.mpr (by omega))
    rw [List.map_cons, List.map_cons, List.findIdx?_cons, List.findIdx?_cons, here, later]

/-- Going up from a distance, the search ends with the first line of the next distance listed. -/
theorem nextDistance_first {highest : Nat} {top : Scalar}
    (reached : ∃ item ∈ items, listed item = highest)
    (isTop : Arithmetic.greatest ((items.map row).map (·.distance)) = .ok top)
    (isHighest : Arithmetic.truncate top = .ok (highest : Int)) (distance : Nat)
    (within : distance ≤ highest) :
    ∃ place item, nextDistance ((items.map row).map (·.distance)) distance = .ok place ∧
      items[place]? = some item ∧
      FirstLeast (fun item => distance ≤ listed item) listed items item := by
  obtain ⟨next, place, notBelow, atMost, least, isPlace⟩ :=
    exists_next items listed reached within
  obtain ⟨item, isItem, first⟩ := firstLeast_of_findIdx? notBelow least isPlace
  refine ⟨place, item, ?_, isItem, first⟩
  have position (step : Nat) : ((items.map row).map (·.distance)).findIdx?
      (Arithmetic.eq (Arithmetic.ofInt ((distance : Int) + step))) =
        items.findIdx? fun item => listed item = distance + step := by
    rw [← Nat.cast_add]
    exact findIdx?_distance items row listed isListed (distance + step)
  -- No distance between this one and the next one listed is found, so the search passes them by.
  have steps : ((highest : Int) + 1 - distance).toNat = highest + 1 - distance := by omega
  have ends : ((List.range (highest + 1 - distance)).map fun (step : Nat) =>
      (distance : Int) + step).findSome? (fun candidate =>
        ((items.map row).map (·.distance)).findIdx? (Arithmetic.eq (Arithmetic.ofInt candidate))) =
      some place := by
    rw [List.findSome?_map]
    apply findSome?_range _ (next - distance)
    · omega
    · intro step earlier
      rw [Function.comp_apply, position, List.findIdx?_eq_none_iff]
      intro other member
      have atLeast := least other member
      rw [decide_eq_false_iff_not]
      omega
    · rw [Function.comp_apply, position, Nat.add_sub_cancel' notBelow]
      exact isPlace
  rw [nextDistance, isTop, Calc.ok_bind, isHighest, Calc.ok_bind, steps]
  simp only [ends]
  rfl

/-- The lines that are taken for the distances up to the highest one. -/
theorem ofRows_eq (nonempty : items ≠ []) :
    ∃ (highest : Nat) (taken : Nat → β), (∃ item ∈ items, listed item = highest) ∧
      (∀ item ∈ items, listed item ≤ highest) ∧
      (∀ distance ≤ highest,
        FirstLeast (fun item => distance ≤ listed item) listed items (taken distance)) ∧
      Decoder.ofRows (items.map row) = .ok (Decoder.tabulated highest fun distance =>
        row (taken distance)) := by
  obtain ⟨highest, top, reached, most, isTop, isHighest⟩ :=
    exists_highest items row listed isListed nonempty
  have next := nextDistance_first items row listed isListed reached isTop isHighest
  have : Nonempty β := ⟨items.head nonempty⟩
  -- Above the highest distance the choice is free and never used.
  choose! place taken found standing first using next
  refine ⟨highest, taken, reached, most, first, ?_⟩
  have bound : ((highest : Int) + 1).toNat = highest + 1 := by omega
  rw [Decoder.ofRows, isTop, Calc.ok_bind, isHighest, Calc.ok_bind, bound,
    Calc.mapM_eq_ok_map _ _ fun (distance : Nat) => ((distance : Int), row (taken distance))]
  · simp [Decoder.tabulated, Function.comp_def, pure, Except.pure]
  · intro distance member
    have within : distance ≤ highest := by simpa [Nat.lt_succ_iff] using member
    rw [found distance within, Calc.ok_bind, List.getElem?_map, standing distance within]
    rfl

end Rows

/-! ## Looking up -/

theorem Decoder.lookup_range {α : Type} [Arithmetic α] [ExactWholes α] (bound : Nat)
    (value : Nat → α) (distance : Nat) :
    lookup ((List.range bound).map fun (d : Nat) => ((d : Int), value d))
        (Arithmetic.ofInt (distance : Int)) =
      if distance < bound then .ok (value distance) else Arithmetic.infinity := by
  have entry : entry? ((List.range bound).map fun (d : Nat) => ((d : Int), value d))
      (Arithmetic.ofInt (distance : Int)) =
        if distance < bound then some (value distance) else none := by
    induction bound with
    | zero => rfl
    | succ bound ih =>
      unfold entry? at ih ⊢
      rw [List.range_succ, List.map_append, List.reverse_append, List.map_singleton,
        List.reverse_singleton, List.singleton_append, List.find?_cons, ExactWholes.eq_ofInt]
      by_cases last : bound = distance
      · simp [last]
      · have apart : ¬ (bound : Int) = distance := by omega
        have below : distance < bound + 1 ↔ distance < bound := by omega
        simp only [apart, decide_false, below]
        exact ih
  rw [lookup, entry]
  by_cases inside : distance < bound
  · rw [if_pos inside, if_pos inside]
  · rw [if_neg inside, if_neg inside]

/-! ## Arrays of numbers -/

namespace Decoder

namespace Csv

theorem cells_eq {text : String} {first second : List (List Char)} {rest : List (List (List Char))}
    (isLines : lines text = first :: second :: rest) (wide : first.length ≠ 1)
    (even : ∀ line ∈ second :: rest, line.length = first.length) :
    cells text =
      .ok (.table first.length ((first :: second :: rest).map (row first.length))) := by
  have all : (second :: rest).all (·.length == first.length) = true := by
    simpa only [List.all_eq_true, beq_iff_eq] using even
  simp only [cells, isLines, if_pos all, if_neg wide]

theorem number_digits (digits : List Char) (nonempty : digits ≠ [])
    (all : ∀ c ∈ digits, Numeral.isDigit c = true) (small : Numeral.valueOf digits < 2 ^ 53) :
    (number digits).value? = some ((Numeral.valueOf digits : ℝ) : EReal) := by
  rw [number, Numeral.read?_digits digits nonempty all]
  exact Numeral.toFloat_natural _ small

end Csv

/-- The distance of a row, cut to a whole number. -/
def rowDistance (row : Fin 4 → Scalar) : Nat :=
  match Arithmetic.truncate (DecoderRow.ofColumns row).distance with
  | .ok distance => distance.toNat
  | .error _ => 0

theorem read_table {reader : Reader Scalar} {text : String} {heading : Fin 4 → Scalar}
    {rows : List (Fin 4 → Scalar)} (isTable : reader text = .ok (.table 4 (heading :: rows))) :
    read reader text = ofRows (rows.map .ofColumns) := by
  rw [read, isTable]
  rfl

/-- Wherever a reader finds a heading and rows of four columns, whose distances are natural numbers,
there is a table with an entry for every distance up to the highest one. -/
theorem table_completed (reader : Reader Scalar) (text : String) (heading : Fin 4 → Scalar)
    (rows : List (Fin 4 → Scalar)) (listed : (Fin 4 → Scalar) → Nat)
    (isTable : reader text = .ok (.table 4 (heading :: rows))) (nonempty : rows ≠ [])
    (isListed : ∀ row ∈ rows, (row 0).value? = some ((listed row : ℝ) : EReal)) :
    ∃ (decoder : Decoder Scalar) (highest : Nat),
      read reader text = .ok decoder ∧ decoder.highestDistance = highest ∧
      (∃ row ∈ rows, listed row = highest) ∧ (∀ row ∈ rows, listed row ≤ highest) ∧
      decoder.delay.map (·.1) = (List.range (highest + 1)).map Nat.cast ∧
      decoder.area.map (·.1) = (List.range (highest + 1)).map Nat.cast ∧
      decoder.power.map (·.1) = (List.range (highest + 1)).map Nat.cast ∧
      (∀ distance ≤ highest, ∃ row,
        FirstLeast (fun row => distance ≤ listed row) listed rows row ∧
        lookup decoder.delay (.whole distance) = .ok (row 1) ∧
        lookup decoder.area (.whole distance) = .ok (row 2) ∧
        lookup decoder.power (.whole distance) = .ok (row 3)) ∧
      ∀ distance > highest,
        lookup decoder.delay (.whole distance) = .ok (.real (Binary64.infinity false)) ∧
        lookup decoder.area (.whole distance) = .ok (.real (Binary64.infinity false)) ∧
        lookup decoder.power (.whole distance) = .ok (.real (Binary64.infinity false)) := by
  obtain ⟨highest, taken, reached, most, first, completed⟩ :=
    ofRows_eq rows DecoderRow.ofColumns listed isListed nonempty
  have outside : (Arithmetic.infinity : Calc Scalar) = .ok (.real (Binary64.infinity false)) := rfl
  have looked (value : Nat → Scalar) (distance : Nat) :
      lookup ((List.range (highest + 1)).map fun (d : Nat) => ((d : Int), value d))
        (.whole distance) =
          if distance < highest + 1 then .ok (value distance)
          else .ok (.real (Binary64.infinity false)) := by
    rw [← outside]
    exact lookup_range (highest + 1) value distance
  refine ⟨_, highest, (read_table isTable).trans completed, rfl, reached, most, ?_, ?_, ?_, ?_, ?_⟩
  · simp [tabulated]
  · simp [tabulated]
  · simp [tabulated]
  · intro distance within
    refine ⟨taken distance, first distance within, ?_⟩
    have inside : distance < highest + 1 := by omega
    simp only [tabulated, looked, inside, if_true, DecoderRow.ofColumns, true_and]
  · intro distance above
    have beyond : ¬ distance < highest + 1 := by omega
    simp only [tabulated, looked, beyond, if_false, true_and]

/-- The first of two lines for distance 4 serves all distances up to it, and the line above them
serves the rest. -/
theorem table_completed_unsorted :
    ∃ decoder,
      read Csv.cells "distance,delay,area,power\n9,1,2,3\n4,5,6,7\n4,8,9,10" = .ok decoder ∧
      decoder.highestDistance = 9 ∧
      lookup decoder.delay (.whole 0) = .ok (Csv.number ['5']) ∧
      lookup decoder.area (.whole 5) = .ok (Csv.number ['2']) ∧
      lookup decoder.power (.whole 10) = .ok (.real (Binary64.infinity false)) := by
  have isLines : Csv.lines "distance,delay,area,power\n9,1,2,3\n4,5,6,7\n4,8,9,10" =
      [["distance".toList, "delay".toList, "area".toList, "power".toList],
        [['9'], ['1'], ['2'], ['3']], [['4'], ['5'], ['6'], ['7']],
        [['4'], ['8'], ['9'], ['1', '0']]] := by
    decide +kernel
  have isNine : rowDistance (Csv.row 4 [['9'], ['1'], ['2'], ['3']]) = 9 := by decide +kernel
  have isFour : rowDistance (Csv.row 4 [['4'], ['5'], ['6'], ['7']]) = 4 := by decide +kernel
  have alsoFour : rowDistance (Csv.row 4 [['4'], ['8'], ['9'], ['1', '0']]) = 4 := by
    decide +kernel
  have nineRead : (Csv.number ['9']).value? = some (((9 : Nat) : ℝ) : EReal) :=
    Csv.number_digits _ (by decide) (by simp [Numeral.isDigit]) (by decide)
  have fourRead : (Csv.number ['4']).value? = some (((4 : Nat) : ℝ) : EReal) :=
    Csv.number_digits _ (by decide) (by simp [Numeral.isDigit]) (by decide)
  obtain ⟨decoder, highest, isRead, isHighest, reached, most, -, -, -, within, beyond⟩ :=
    table_completed Csv.cells _ (Csv.row 4 _)
      [Csv.row 4 [['9'], ['1'], ['2'], ['3']], Csv.row 4 [['4'], ['5'], ['6'], ['7']],
        Csv.row 4 [['4'], ['8'], ['9'], ['1', '0']]]
      rowDistance (Csv.cells_eq isLines (by decide) (by decide)) (by simp) (by
        simp only [List.forall_mem_cons, isNine, isFour, alsoFour]
        exact ⟨nineRead, fourRead, fourRead, by simp⟩)
  have nine : highest = 9 := by
    have first := most _ (List.mem_cons_self ..)
    simp only [List.mem_cons, List.not_mem_nil, or_false, exists_eq_or_imp, exists_eq_left, isNine,
      isFour, alsoFour] at reached first
    omega
  subst nine
  refine ⟨decoder, isRead, isHighest, ?_, ?_, ?_⟩
  · obtain ⟨row, first, isDelay, -, -⟩ := within 0 (by omega)
    rw [first.unique ⟨by omega, [Csv.row 4 [['9'], ['1'], ['2'], ['3']]], _, rfl,
      by simp [isNine, isFour], by simp [isFour, alsoFour]⟩] at isDelay
    exact isDelay
  · obtain ⟨row, first, -, isArea, -⟩ := within 5 (by omega)
    rw [first.unique ⟨by omega, [], _, rfl, by simp, by simp [isNine, isFour, alsoFour]⟩] at isArea
    exact isArea
  · exact (beyond 10 (by omega)).2.2

/-- The delay that is found for distance 3 under some heading, where 1 is listed for it. -/
def delayUnder (heading : String) : Calc Int := do
  let decoder ← read Csv.cells (heading ++ "\n3,1,100,10000\n5,2,200,20000")
  Arithmetic.truncate (← lookup decoder.delay (.whole 3))

/-- Under a comment the first line is taken for the heading and is lost. A heading that is cut short
by a comment, or that has a comma in quotes, does not go with the lines below it. -/
theorem table_under_comment :
    delayUnder "distance,delay,area,power" = .ok 1 ∧
      delayUnder "#distance,delay,area,power" = .ok 2 ∧
      delayUnder "distance #,delay,area,power" = .error .noValue ∧
      delayUnder "\"distance, odd\",delay,area,power" = .error .noValue := by
  decide +kernel

end Decoder

end QuantumResources
