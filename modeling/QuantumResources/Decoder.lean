import QuantumResources.Hardware
import QuantumResources.Run

/-! Decoders of the surface code.

A decoder is known by three tables over the code distance. Outside the tables its power, area and
delay are infinite. -/

namespace QuantumResources

structure Decoder (α : Type) where
  /-- Nanowatts. -/
  power : List (Int × α)
  /-- Square micrometers. -/
  area : List (Int × α)
  /-- Nanoseconds. -/
  delay : List (Int × α)
  highestDistance : Int := 31

/-- What decoding costs for a whole computation. -/
structure DecoderReport (α : Type) where
  /-- Joules. -/
  energy : α
  /-- Watts. -/
  power : α
  /-- Square micrometers. -/
  area : α
  maxDistance : Int

/-- One line of a decoder table. -/
structure DecoderRow (α : Type) where
  distance : α
  delay : α
  area : α
  power : α

def DecoderRow.ofColumns {α : Type} (row : Fin 4 → α) : DecoderRow α :=
  ⟨row 0, row 1, row 2, row 3⟩

/-- An array of numbers as a reader gives it. -/
inductive Cells (α : Type) where
  /-- Without columns, as for a single line. -/
  | flat
  | table (columns : Nat) (rows : List (Fin columns → α))

/-- Whatever turns a text into an array. -/
abbrev Reader (α : Type) := String → Calc (Cells α)

variable {α : Type} [Arithmetic α]

/-- Position of the least listed distance from `d` on, among the whole ones. -/
def nextDistance (distances : List α) (d : Int) : Calc Nat := do
  let highest ← Arithmetic.truncate (← Arithmetic.greatest distances)
  let candidates := (List.range (highest + 1 - d).toNat).map fun (i : Nat) => d + i
  let position (candidate : Int) : Option Nat :=
    distances.findIdx? (Arithmetic.eq (Arithmetic.ofInt candidate))
  match candidates.findSome? position with
  | some place => return place
  | none => .error .noHigherDistance

namespace Decoder

/-- The entry for a distance; a later entry replaces an earlier one. -/
def entry? (table : List (Int × α)) (distance : α) : Option α :=
  (table.reverse.find? fun e => Arithmetic.eq (Arithmetic.ofInt e.1) distance).map (·.2)

def lookup (table : List (Int × α)) (distance : α) : Calc α :=
  match entry? table distance with
  | some value => .ok value
  | none => Arithmetic.infinity

/-- Tables for every distance up to the highest one listed: an unlisted distance takes the row of
the next listed one. -/
def ofRows (rows : List (DecoderRow α)) : Calc (Decoder α) := do
  let distances := rows.map (·.distance)
  let highest ← Arithmetic.truncate (← Arithmetic.greatest distances)
  let completed ← (List.range (highest + 1).toNat).mapM fun (d : Nat) => do
    match rows[← nextDistance distances d]? with
    | some row => return ((d : Int), row)
    | none => .error .indexOutOfRange
  return {
    power := completed.map fun e => (e.1, e.2.power)
    area := completed.map fun e => (e.1, e.2.area)
    delay := completed.map fun e => (e.1, e.2.delay)
    highestDistance := highest }

/-- The decoder in an array of four columns: distance, delay, area and power. The first row is
taken for a heading. -/
def ofCells : Cells α → Calc (Decoder α)
  | .flat => .error .indexOutOfRange
  | .table 4 rows => ofRows (rows.tail.map .ofColumns)
  | .table _ _ => .error .malformedDecoderTable

def read (reader : Reader α) (text : String) : Calc (Decoder α) := do ofCells (← reader text)

/-- Whether decoding takes longer than a logical operation of six rounds. -/
def isTooSlow (hardware : Hardware α) (decoder : Decoder α) (distance : Int) : Calc Bool := do
  let available ← (6 * hardware.cycleTime * (Arithmetic.num distance : Calc α) : Calc α)
  match entry? decoder.delay (Arithmetic.ofInt distance) with
  | some delay =>
    let seconds ← Arithmetic.mul delay (Arithmetic.constant 1 9)
    Arithmetic.lt available seconds
  | none => Arithmetic.isBounded available

/-- One below the first distance that is too slow, and zero if there is none. -/
def speedLimitFrom (hardware : Hardware α) (decoder : Decoder α) : Nat → Int → Calc Int
  | 0, _ => .ok 0
  | count + 1, distance => do
    if ← decoder.isTooSlow hardware distance then return distance - 1
    else speedLimitFrom hardware decoder count (distance + 1)

/-- The distance up to which the decoder keeps up with the hardware, for distances from `low` up
to but not including `high`. -/
def speedLimit (hardware : Hardware α) (decoder : Decoder α) (low high : Int) : Calc Int :=
  decoder.speedLimitFrom hardware (high - low).toNat low

/-- Cost of decoding a volume in cells on a number of logical qubits. A distance that the tables
do not cover, or that the decoder is too slow for, is left out with a warning. -/
def report (hardware : Hardware α) (decoder : Decoder α) (distance volume logicalQubits : α) :
    Run (Option (DecoderReport α)) := do
  let limit ← decoder.speedLimit hardware 4 100
  if ← Arithmetic.le (Arithmetic.ofInt decoder.highestDistance) distance then
    Run.warn ("Code distance " ++ Arithmetic.display distance ++
      " is too high to get decoder resource estimates because decoder properties have not " ++
      "been calculated for distances beyond " ++ Digits.ofInt decoder.highestDistance ++ ".")
    return none
  else if ← Arithmetic.lt (Arithmetic.ofInt limit) distance then
    Run.warn ("Code distance " ++ Arithmetic.display distance ++
      " is too high to be decoded because the decoder is too slow.")
    return none
  else
    let power := lookup decoder.power distance
    let delay := lookup decoder.delay distance
    let energy ← (volume * power * delay * (Arithmetic.constant 1 18 : α) : Calc α)
    let watts ← (logicalQubits * power * (Arithmetic.constant 1 9 : α) : Calc α)
    let area ← (logicalQubits * lookup decoder.area distance : Calc α)
    return some ⟨energy, watts, area, min limit decoder.highestDistance⟩

end Decoder

end QuantumResources
