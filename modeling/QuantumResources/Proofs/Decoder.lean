import QuantumResources.Decoder
import QuantumResources.Proofs.Number.Doubles
import QuantumResources.Proofs.Number.Exact
import QuantumResources.Proofs.Run

/-! How far a decoder keeps up with the hardware, and up to which distance its costs are given.

The search for the speed limit goes up from the least distance and stops at the first one that is too
slow. Where none is, it ends at zero. A report is given below the highest distance of the tables, up
to the speed limit; at the highest distance itself there is none. -/

namespace QuantumResources.Decoder

/-! ## The search -/

section Search

variable {α : Type} [Arithmetic α] {hardware : Hardware α} {decoder : Decoder α}

/-- The search stops below the first distance that is too slow, and at zero if all keep up. -/
theorem speedLimitFrom_cases {slow : Int → Prop} [DecidablePred slow] (count : Nat) (low : Int)
    (decides : ∀ x, low ≤ x → x < low + count →
      decoder.isTooSlow hardware x = .ok (decide (slow x))) :
    (∃ first, low ≤ first ∧ first < low + count ∧ slow first ∧
      (∀ x, low ≤ x → x < first → ¬ slow x) ∧
      decoder.speedLimitFrom hardware count low = .ok (first - 1)) ∨
    (∀ x, low ≤ x → x < low + count → ¬ slow x) ∧
      decoder.speedLimitFrom hardware count low = .ok 0 := by
  induction count generalizing low with
  | zero => exact .inr ⟨fun x above below => by omega, rfl⟩
  | succ count ih =>
    have step : decoder.speedLimitFrom hardware (count + 1) low =
        if slow low then .ok (low - 1) else decoder.speedLimitFrom hardware count (low + 1) := by
      rw [speedLimitFrom, decides low (by omega) (by omega)]
      by_cases here : slow low <;> simp [here, pure, Except.pure]
    rw [step]
    by_cases here : slow low
    · exact .inl ⟨low, by omega, by omega, here, fun x above below => by omega, if_pos here⟩
    · rw [if_neg here]
      have later (x : Int) (above : low ≤ x) : x = low ∨ low + 1 ≤ x := by omega
      rcases ih (low + 1) (fun x above below => decides x (by omega) (by omega)) with
        ⟨first, above, below, isSlow, before, found⟩ | ⟨none, found⟩
      · refine .inl ⟨first, by omega, by omega, isSlow, fun x atLeast less => ?_, found⟩
        rcases later x atLeast with rfl | beyond
        · exact here
        · exact before x beyond less
      · refine .inr ⟨fun x atLeast less => ?_, found⟩
        rcases later x atLeast with rfl | beyond
        · exact here
        · exact none x beyond (by omega)

end Search

/-! ## The speed limit in exact arithmetic -/

/-- The delay is known and, in seconds, not longer than a logical operation. -/
def KeepsUp (decoder : Decoder Rat) (cycleTime : Rat) (distance : Int) : Prop :=
  ∃ delay ∈ entry? decoder.delay (distance : Rat),
    delay / (Nat.pow 10 9 : Nat) ≤ 6 * cycleTime * distance

instance (decoder : Decoder Rat) (cycleTime : Rat) (distance : Int) :
    Decidable (decoder.KeepsUp cycleTime distance) :=
  inferInstanceAs (Decidable (∃ delay ∈ entry? decoder.delay (distance : Rat),
    delay / (Nat.pow 10 9 : Nat) ≤ 6 * cycleTime * distance))

theorem isTooSlow_eq (decoder : Decoder Rat) (technology : Technology) (errorRate cycleTime : Rat)
    (distance : Int) :
    decoder.isTooSlow (.described technology errorRate cycleTime) distance =
      .ok (decide (¬ decoder.KeepsUp cycleTime distance)) := by
  have available : (6 * (Hardware.described technology errorRate cycleTime).cycleTime *
      (Arithmetic.num distance : Calc Rat) : Calc Rat) = .ok (6 * cycleTime * distance) := by
    change Except.ok (((6 : Nat) : Int) * cycleTime * (distance : Rat)) = _
    norm_cast
  have seconds (delay : Rat) : Arithmetic.mul delay (Arithmetic.constant 1 9 : Rat) =
      .ok (delay / (Nat.pow 10 9 : Nat)) := by
    change Except.ok (delay * (((1 : Nat) : Rat) / (Nat.pow 10 9 : Nat))) = _
    rw [Nat.cast_one, mul_one_div]
  rw [isTooSlow, available, Calc.ok_bind]
  split
  · next delay isDelay =>
    have slow : ¬ decoder.KeepsUp cycleTime distance ↔
        6 * cycleTime * distance < delay / (Nat.pow 10 9 : Nat) := by
      unfold KeepsUp
      rw [show entry? decoder.delay (distance : Rat) = some delay from isDelay]
      simp
    rw [seconds, Calc.ok_bind]
    exact congrArg Except.ok (decide_eq_decide.mpr slow).symm
  · next unknown =>
    have slow : ¬ decoder.KeepsUp cycleTime distance := by
      rintro ⟨delay, isDelay, -⟩
      cases (show entry? decoder.delay (distance : Rat) = none from unknown).symm.trans isDelay
    rw [decide_eq_true slow]
    rfl

theorem speedLimit_cases (decoder : Decoder Rat) (technology : Technology)
    (errorRate cycleTime : Rat) {low high : Int} (order : low ≤ high) :
    (∃ first, low ≤ first ∧ first < high ∧ ¬ decoder.KeepsUp cycleTime first ∧
      (∀ x, low ≤ x → x < first → decoder.KeepsUp cycleTime x) ∧
      decoder.speedLimit (.described technology errorRate cycleTime) low high = .ok (first - 1)) ∨
    (∀ x, low ≤ x → x < high → decoder.KeepsUp cycleTime x) ∧
      decoder.speedLimit (.described technology errorRate cycleTime) low high = .ok 0 := by
  have range : low + ((high - low).toNat : Int) = high := by omega
  have cases := speedLimitFrom_cases (high - low).toNat low
    fun x _ _ => decoder.isTooSlow_eq technology errorRate cycleTime x
  simpa only [speedLimit, range, not_not] using cases

/-- The limit is one below the first distance that is too slow, as it should be, if there is one in
the range. If there is none it is zero, which is right only if zero is the last distance of the range
or if distance one, outside of the range, is too slow. -/
theorem speed_limit_iff (decoder : Decoder Rat) (technology : Technology)
    (errorRate cycleTime : Rat) (low high : Int) (order : low < high) :
    ∃ limit, decoder.speedLimit (.described technology errorRate cycleTime) low high = .ok limit ∧
      ((∀ x, low ≤ x → x < high → decoder.KeepsUp cycleTime x) → limit = 0) ∧
      ((∀ x, low ≤ x → x ≤ limit → decoder.KeepsUp cycleTime x) ∧
          (limit = high - 1 ∨ ¬ decoder.KeepsUp cycleTime (limit + 1)) ↔
        (∃ x, low ≤ x ∧ x < high ∧ ¬ decoder.KeepsUp cycleTime x) ∨
          (∀ x, high ≤ x → x ≤ 0 → decoder.KeepsUp cycleTime x) ∧
            (high = 1 ∨ ¬ decoder.KeepsUp cycleTime 1)) := by
  rcases decoder.speedLimit_cases technology errorRate cycleTime order.le with
    ⟨first, above, below, slow, before, found⟩ | ⟨all, found⟩
  · refine ⟨first - 1, found, fun all => absurd (all first above below) slow, ?_⟩
    refine iff_of_true ⟨fun x atLeast atMost => before x atLeast (by omega), .inr ?_⟩
      (.inl ⟨first, above, below, slow⟩)
    rwa [Int.sub_add_cancel]
  · have noneSlow : ¬ ∃ x, low ≤ x ∧ x < high ∧ ¬ decoder.KeepsUp cycleTime x :=
      fun ⟨x, atLeast, less, slow⟩ => slow (all x atLeast less)
    refine ⟨0, found, fun _ => rfl, ?_⟩
    rw [or_iff_right noneSlow]
    refine and_congr ⟨fun keeps x above atMost => keeps x (by omega) atMost,
      fun keeps x atLeast atMost => ?_⟩ (or_congr (by omega) (by rw [Int.zero_add]))
    rcases lt_or_ge x high with less | more
    · exact all x atLeast less
    · exact keeps x more atMost

/-- A decoder with the same entry for every distance of its tables. -/
def uniform {α : Type} (entry : α) (highest : Nat) : Decoder α where
  power := (List.range (highest + 1)).map fun (d : Nat) => ((d : Int), entry)
  area := (List.range (highest + 1)).map fun (d : Nat) => ((d : Int), entry)
  delay := (List.range (highest + 1)).map fun (d : Nat) => ((d : Int), entry)
  highestDistance := highest

/-- With a table that ends at thirty-one, the search stops there. -/
theorem speed_limit_shortTable :
    let decoder : Decoder Rat := uniform 1 31
    ∃ limit,
      decoder.speedLimit (.described .superconducting (1 / 1000) (1 / 1000000)) 4 100 = .ok limit ∧
      (∀ x, 4 ≤ x → x ≤ limit → decoder.KeepsUp (1 / 1000000) x) ∧
      (limit = 100 - 1 ∨ ¬ decoder.KeepsUp (1 / 1000000) (limit + 1)) := by
  intro decoder
  obtain ⟨limit, found, -, right⟩ := speed_limit_iff decoder .superconducting (1 / 1000)
    (1 / 1000000) 4 100 (by decide)
  exact ⟨limit, found, right.mpr (.inl ⟨32, by decide, by decide, by decide +kernel⟩)⟩

/-- With a table for every distance of the search and no delay that is too long, the limit is zero
and not ninety-nine. -/
theorem speed_limit_fullTable :
    let decoder : Decoder Rat := uniform 1 99
    decoder.speedLimit (.described .superconducting (1 / 1000) (1 / 1000000)) 4 100 = .ok 0 ∧
      (∀ x, 1 ≤ x → x ≤ 99 → decoder.KeepsUp (1 / 1000000) x) ∧
      ¬ ((0 : Int) = 100 - 1 ∨ ¬ decoder.KeepsUp (1 / 1000000) (0 + 1)) := by
  intro decoder
  have keeps : ∀ x, 1 ≤ x → x ≤ 99 → decoder.KeepsUp (1 / 1000000) x := by decide +kernel
  refine ⟨?_, keeps, by simpa using keeps 1 (by decide) (by decide)⟩
  rcases decoder.speedLimit_cases .superconducting (1 / 1000) (1 / 1000000)
    (show (4 : Int) ≤ 100 by decide) with ⟨first, above, below, slow, -⟩ | ⟨-, found⟩
  · exact absurd (keeps first (by omega) (by omega)) slow
  · exact found

/-! ## Reports -/

section Report

variable {α : Type} [Arithmetic α] [ExactWholes α]

/-- What a report says about a distance that the decoder manages. -/
def costs (decoder : Decoder α) (limit : Int) (distance volume logicalQubits : α) :
    Calc (DecoderReport α) := do
  let power := lookup decoder.power distance
  let energy ← (volume * power * lookup decoder.delay distance *
    (Arithmetic.constant 1 18 : α) : Calc α)
  let watts ← (logicalQubits * power * (Arithmetic.constant 1 9 : α) : Calc α)
  let area ← (logicalQubits * lookup decoder.area distance : Calc α)
  return ⟨energy, watts, area, min limit decoder.highestDistance⟩

/-- Costs are worked out below the highest distance of the tables and up to the speed limit. For any
other distance there is a warning only. -/
theorem report_cases {decoder : Decoder α} {hardware : Hardware α} {limit : Int}
    (limited : decoder.speedLimit hardware 4 100 = .ok limit) (distance : Int)
    (volume logicalQubits : α) :
    (distance < decoder.highestDistance ∧ distance ≤ limit ∧
      decoder.report hardware (Arithmetic.ofInt distance) volume logicalQubits = do
        return some (← decoder.costs limit (Arithmetic.ofInt distance) volume logicalQubits)) ∨
    ((decoder.highestDistance ≤ distance ∨ limit < distance) ∧ ∃ text,
      decoder.report hardware (Arithmetic.ofInt distance) volume logicalQubits = do
        Run.warn text
        return none) := by
  unfold report
  rw [limited, Run.lift_ok_bind, ExactWholes.le_ofInt, Run.lift_ok_bind, ExactWholes.lt_ofInt,
    Run.lift_ok_bind]
  rcases lt_or_ge distance decoder.highestDistance with covered | uncovered
  · rw [decide_eq_false (not_le.mpr covered), if_neg Bool.false_ne_true]
    rcases le_or_gt distance limit with fast | slow
    · refine .inl ⟨covered, fast, ?_⟩
      rw [decide_eq_false (not_lt.mpr fast), if_neg Bool.false_ne_true, costs]
      simp only [Run.lift_bind, bind_assoc]
      rfl
    · exact .inr ⟨.inr slow, _, by rw [decide_eq_true slow, if_pos rfl]⟩
  · exact .inr ⟨.inl uncovered, _, by rw [decide_eq_true uncovered, if_pos rfl]⟩

section Returns

variable {decoder : Decoder α} {hardware : Hardware α} {limit distance : Int}
  {volume logicalQubits : α} {before : Journal}
  (limited : decoder.speedLimit hardware 4 100 = .ok limit)

include limited

theorem report_returns_some_iff {report : DecoderReport α} {after : Journal} :
    (decoder.report hardware (Arithmetic.ofInt distance) volume logicalQubits).Returns before
        (some report) after ↔
      distance < decoder.highestDistance ∧ distance ≤ limit ∧
        decoder.costs limit (Arithmetic.ofInt distance) volume logicalQubits = .ok report ∧
        before = after := by
  rcases report_cases limited distance volume logicalQubits with
    ⟨covered, fast, isReport⟩ | ⟨outside, text, isReport⟩ <;> rw [isReport]
  · rw [Run.returns_lift_bind]
    simp [Run.returns_pure, covered, fast]
  · refine iff_of_false (fun returned => ?_) (by omega)
    obtain ⟨_, _, _, finished⟩ := Run.returns_bind.mp returned
    cases (Run.returns_pure.mp finished).1

theorem report_returns_none_iff :
    (∃ after, (decoder.report hardware (Arithmetic.ofInt distance) volume logicalQubits).Returns
        before none after) ↔
      decoder.highestDistance ≤ distance ∨ limit < distance := by
  rcases report_cases limited distance volume logicalQubits with
    ⟨covered, fast, isReport⟩ | ⟨outside, text, isReport⟩ <;> rw [isReport]
  · refine iff_of_false (fun ⟨_, returned⟩ => ?_) (by omega)
    obtain ⟨_, _, finished⟩ := Run.returns_lift_bind.mp returned
    cases (Run.returns_pure.mp finished).1
  · exact iff_of_true ⟨_, rfl⟩ outside

end Returns

omit [ExactWholes α] in
theorem maxDistance_of_costs {decoder : Decoder α} {limit : Int}
    {distance volume logicalQubits : α} {report : DecoderReport α}
    (worked : decoder.costs limit distance volume logicalQubits = .ok report) :
    report.maxDistance = min limit decoder.highestDistance := by
  obtain ⟨_, _, afterEnergy⟩ := Calc.bind_eq_ok.mp worked
  obtain ⟨_, _, afterPower⟩ := Calc.bind_eq_ok.mp afterEnergy
  obtain ⟨_, _, finished⟩ := Calc.bind_eq_ok.mp afterPower
  cases finished
  rfl

end Report

/-! ## Reports in doubles -/

/-- All entries are doubles, as in tables that were read. -/
structure HasDoubles (decoder : Decoder Scalar) : Prop where
  power : ∀ entry ∈ decoder.power, ∃ value, entry.2 = .real value
  area : ∀ entry ∈ decoder.area, ∃ value, entry.2 = .real value
  delay : ∀ entry ∈ decoder.delay, ∃ value, entry.2 = .real value

theorem uniform_hasDoubles (value : Float) (highest : Nat) :
    (uniform (Scalar.real value) highest).HasDoubles := by
  constructor <;>
  · intro entry listed
    obtain ⟨_, _, rfl⟩ := List.mem_map.mp listed
    exact ⟨value, rfl⟩

theorem entry?_double {table : List (Int × Scalar)}
    (doubles : ∀ entry ∈ table, ∃ value, entry.2 = .real value) {distance entry : Scalar}
    (found : entry? table distance = some entry) : ∃ value, entry = .real value := by
  obtain ⟨pair, isPair, rfl⟩ := Option.map_eq_some_iff.mp found
  exact doubles pair (List.mem_reverse.mp (List.mem_of_find?_eq_some isPair))

theorem lookup_double {table : List (Int × Scalar)}
    (doubles : ∀ entry ∈ table, ∃ value, entry.2 = .real value) (distance : Scalar) :
    ∃ value, lookup table distance = .ok (.real value) := by
  unfold lookup
  split
  · next entry found =>
    obtain ⟨value, rfl⟩ := entry?_double doubles found
    exact ⟨value, rfl⟩
  · exact ⟨_, rfl⟩

/-- A whole number in the range of doubles can be multiplied with one, any other one can not. -/
theorem whole_mul_real (n : Int) (x : Float) :
    (∃ value, Scalar.mul (.whole n) (.real x) = .ok (.real value)) ∧ n.natAbs < Binary64.overflow ∨
      Scalar.mul (.whole n) (.real x) = .error .outOfRange ∧ ¬ n.natAbs < Binary64.overflow := by
  have product : Scalar.mul (.whole n) (.real x) =
      (Scalar.realOfInt n >>= fun value => .ok (.real (value * x))) := rfl
  rw [product, Scalar.realOfInt, ← Binary64.exists_ofInt_iff]
  cases Binary64.ofInt n with
  | none => exact .inr ⟨rfl, by simp⟩
  | some value => exact .inl ⟨⟨value * x, rfl⟩, value, rfl⟩

theorem isTooSlow_returns {decoder : Decoder Scalar} (doubles : decoder.HasDoubles)
    (technology : Technology) (errorRate : Scalar) (cycleTime : Float) {distance : Int}
    (small : distance.natAbs < Nat.pow 2 53) :
    ∃ slow, decoder.isTooSlow (.described technology errorRate (.real cycleTime)) distance =
      .ok slow := by
  have available : (6 * (Hardware.described technology errorRate (.real cycleTime)).cycleTime *
      (Arithmetic.num distance : Calc Scalar) : Calc Scalar) =
        .ok (.real (Float.ofInt 6 * cycleTime * Float.ofInt distance)) := by
    change (Scalar.realOfInt distance >>= fun value =>
      (.ok (.real (Float.ofInt 6 * cycleTime * value)) : Calc Scalar)) = _
    rw [Scalar.realOfInt, Binary64.ofInt, if_pos small]
    rfl
  rw [isTooSlow, available, Calc.ok_bind]
  split
  · next entry found =>
    obtain ⟨value, rfl⟩ := entry?_double doubles.delay found
    exact ⟨_, rfl⟩
  · exact ⟨_, rfl⟩

/-- The search for the speed limit never stops in doubles. -/
theorem speedLimit_returns {decoder : Decoder Scalar} (doubles : decoder.HasDoubles)
    (technology : Technology) (errorRate : Scalar) (cycleTime : Float) :
    ∃ limit, decoder.speedLimit (.described technology errorRate (.real cycleTime)) 4 100 =
      .ok limit := by
  have decides (x : Int) (above : 4 ≤ x) (below : x < 4 + (96 : Nat)) :
      decoder.isTooSlow (.described technology errorRate (.real cycleTime)) x = .ok
        (@decide (decoder.isTooSlow (.described technology errorRate (.real cycleTime)) x = .ok true)
          (Classical.propDecidable _)) := by
    have small : x.natAbs < Nat.pow 2 53 := by
      rw [Nat.pow_eq]
      omega
    obtain ⟨slow, isSlow⟩ := isTooSlow_returns doubles technology errorRate cycleTime small
    rw [isSlow]
    cases slow <;> simp
  rcases @speedLimitFrom_cases _ _ _ _ _ (fun _ => Classical.propDecidable _) 96 4 decides with
    ⟨_, _, _, _, _, found⟩ | ⟨_, found⟩
  · exact ⟨_, found⟩
  · exact ⟨_, found⟩

/-- Costs can be worked out for every number of logical qubits that a double can hold. -/
theorem costs_double {decoder : Decoder Scalar} (doubles : decoder.HasDoubles) (limit : Int)
    (distance : Scalar) (volume : Float) (logicalQubits : Int) :
    (∃ report, decoder.costs limit distance (.real volume) (.whole logicalQubits) = .ok report) ↔
      logicalQubits.natAbs < Binary64.overflow := by
  obtain ⟨power, isPower⟩ := lookup_double doubles.power distance
  obtain ⟨delay, isDelay⟩ := lookup_double doubles.delay distance
  obtain ⟨area, isArea⟩ := lookup_double doubles.area distance
  have product (x : Float) : (Except.ok (.whole logicalQubits) * .ok (.real x) : Calc Scalar) =
      Scalar.mul (.whole logicalQubits) (.real x) := rfl
  simp only [costs, isPower, isDelay, isArea, product]
  rcases whole_mul_real logicalQubits power with ⟨⟨watts, isWatts⟩, fits⟩ | ⟨stops, beyond⟩
  · rcases whole_mul_real logicalQubits area with ⟨⟨size, isSize⟩, -⟩ | ⟨-, beyond⟩
    · rw [isWatts, isSize]
      exact ⟨fun _ => fits, fun _ => ⟨_, rfl⟩⟩
    · exact absurd fits beyond
  · rw [stops]
    exact iff_of_false (fun ⟨_, impossible⟩ => by cases impossible) beyond

/-- A report is given for the distances up to the speed limit that are below the highest one of the
tables, and says how far the decoder can go. At the highest distance it is missing though the limit
that reports name allows that distance. The only other distances without a report that this limit
allows are those where the number of logical qubits is beyond the doubles. -/
theorem report_given_iff (decoder : Decoder Scalar) (doubles : decoder.HasDoubles)
    (technology : Technology) (errorRate : Scalar) (cycleTime volume : Float)
    (distance logicalQubits : Int) (before : Journal) :
    let hardware := .described technology errorRate (.real cycleTime)
    let run := decoder.report hardware (.whole distance) (.real volume) (.whole logicalQubits)
    ∃ limit, decoder.speedLimit hardware 4 100 = .ok limit ∧
      ((∃ report after, run.Returns before (some report) after) ↔
        distance < decoder.highestDistance ∧ distance ≤ limit ∧
          logicalQubits.natAbs < Binary64.overflow) ∧
      ((∃ after, run.Returns before none after) ↔
        decoder.highestDistance ≤ distance ∨ limit < distance) ∧
      (∀ report after, run.Returns before (some report) after →
        report.maxDistance = min limit decoder.highestDistance) ∧
      (((∃ report after, run.Returns before (some report) after) ↔
          distance ≤ min limit decoder.highestDistance) ↔
        ¬ (distance = decoder.highestDistance ∧ distance ≤ limit) ∧
          (distance ≤ min limit decoder.highestDistance →
            logicalQubits.natAbs < Binary64.overflow)) := by
  intro hardware run
  obtain ⟨limit, limited⟩ := speedLimit_returns doubles technology errorRate cycleTime
  have given : (∃ report after, run.Returns before (some report) after) ↔
      distance < decoder.highestDistance ∧ distance ≤ limit ∧
        logicalQubits.natAbs < Binary64.overflow := by
    rw [← costs_double doubles limit (Arithmetic.ofInt distance) volume logicalQubits]
    constructor
    · rintro ⟨report, after, returned⟩
      obtain ⟨covered, fast, worked, -⟩ := (report_returns_some_iff limited).mp returned
      exact ⟨covered, fast, report, worked⟩
    · rintro ⟨covered, fast, report, worked⟩
      exact ⟨report, before, (report_returns_some_iff limited).mpr ⟨covered, fast, worked, rfl⟩⟩
  refine ⟨limit, limited, given, report_returns_none_iff limited, fun report after returned => ?_,
    ?_⟩
  · exact maxDistance_of_costs ((report_returns_some_iff limited).mp returned).2.2.1
  · rw [given, le_min_iff]
    generalize (logicalQubits.natAbs < Binary64.overflow) = fits
    constructor
    · intro same
      exact ⟨fun ⟨highest, fast⟩ => absurd (same.mpr ⟨fast, highest.le⟩).1 (by omega),
        fun allowed => (same.mpr allowed).2.2⟩
    · rintro ⟨notHighest, holds⟩
      exact ⟨fun ⟨covered, fast, _⟩ => ⟨fast, covered.le⟩,
        fun allowed => ⟨by omega, allowed.1, holds allowed⟩⟩

/-- Below the highest distance of five there is a report, and it names five. -/
theorem report_given_belowHighest :
    let decoder := uniform (Scalar.real 1) 5
    ∃ report after, (decoder.report (.standard .superconducting) (.whole 4) (.real 1)
        (.whole 1)).Returns {} (some report) after ∧ report.maxDistance = 5 := by
  intro decoder
  have five : (decoder.speedLimit (.standard .superconducting) 4 100).toOption = some 5 := by
    decide +kernel
  obtain ⟨limit, limited, given, -, named, -⟩ := report_given_iff decoder (uniform_hasDoubles 1 5)
    .superconducting (.real 1e-3) 1e-6 1 4 1 {}
  have isFive : limit = 5 := by
    rw [show decoder.speedLimit (.standard .superconducting) 4 100 = .ok limit from limited] at five
    exact Option.some.inj five
  obtain ⟨report, after, returned⟩ := given.mpr
    ⟨by decide, by omega, by decide +kernel⟩
  exact ⟨report, after, returned, (named report after returned).trans (by rw [isFive]; rfl)⟩

/-- The tables reach five and the decoder is fast enough for five, but at five there is no report. -/
theorem report_missing_atHighest :
    let decoder := uniform (Scalar.real 1) 5
    decoder.speedLimit (.standard .superconducting) 4 100 = .ok 5 ∧
      ¬ ((∃ report after, (decoder.report (.standard .superconducting) (.whole 5) (.real 1)
          (.whole 1)).Returns {} (some report) after) ↔ 5 ≤ min 5 decoder.highestDistance) := by
  intro decoder
  have five : (decoder.speedLimit (.standard .superconducting) 4 100).toOption = some 5 := by
    decide +kernel
  have limited : decoder.speedLimit (.standard .superconducting) 4 100 = .ok 5 := by
    cases found : decoder.speedLimit (.standard .superconducting) 4 100 with
    | error failure =>
      rw [found] at five
      cases five
    | ok limit =>
      rw [found] at five
      rw [show limit = 5 from Option.some.inj five]
  refine ⟨limited, fun same => ?_⟩
  obtain ⟨report, after, returned⟩ := same.mpr (by decide)
  exact absurd ((report_returns_some_iff limited).mp returned).1 (by decide)

end QuantumResources.Decoder
