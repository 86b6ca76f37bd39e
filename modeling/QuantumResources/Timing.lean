import QuantumResources.Number.Arithmetic

/-! Clocks, and the time that passes between two of their readings. -/

namespace QuantumResources

/-- The readings that a clock still gives; the last one repeats. -/
abbrev Clock := List Scalar

/-- The next reading, and the clock after it. -/
def Clock.read : Clock → Scalar × Clock
  | [] => (.real 0.0, [])
  | [last] => (last, [last])
  | reading :: rest => (reading, rest)

/-- A span of time that may still be running. -/
structure Timing where
  start : Scalar
  stop : Option Scalar := none

namespace Timing

/-- The length of a span that has ended. -/
def total (timing : Timing) : Calc Scalar :=
  match timing.stop with
  | some stop => Scalar.sub stop timing.start
  | none => .error .conditionViolated

/-- A span that starts and stops with the next two readings. -/
def measure (clock : Clock) : Timing × Clock :=
  let (start, rest) := clock.read
  let (stop, rest) := rest.read
  (⟨start, some stop⟩, rest)

end Timing

end QuantumResources
