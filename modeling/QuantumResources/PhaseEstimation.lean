import QuantumResources.Engine.Dialogue
import QuantumResources.Integrals

/-! Costs of phase estimation with factorised Hamiltonians. Engines factorise the integrals and
count gates; each count is asked for twice, because the second needs the first one's steps. -/

namespace QuantumResources.PhaseEstimation

/-- The integrals of a molecule. -/
structure System where
  core : Tensor Float
  repulsion : Tensor Float

/-- Two spin orbitals for each orbital. -/
def System.spinOrbitals (system : System) : Except Failure Datum :=
  match system.core.shape with
  | size :: _ => .ok (.whole (2 * size))
  | [] => .error .indexOutOfRange

def initialSteps : Datum := .whole 20000

/-- Toffoli gates in all, and qubits, for a single factorisation. -/
def singleFactorized (system : System) (rank error bits : Datum) :
    Dialogue (Datum × Datum) := do
  Integrals.requireSymmetric system.repulsion
  let orbitals ← system.spinOrbitals
  let factorized ← Dialogue.ask "openfermion.resource_estimates.sf.factorize"
    [.array system.repulsion, rank]
  let (repulsion, factors) ← factorized.pair
  let norm ← Integrals.singleFactorizedNorm system.core (← repulsion.toArray) (← factors.toArray)
  let cost (steps : Datum) : Dialogue Datum := do
    let precision ← (← bits.number).ceil
    Dialogue.ask "openfermion.resource_estimates.sf.compute_cost" [orbitals, .real norm, error]
      [("L", rank), ("chi", .whole precision), ("stps", steps)]
  let steps ← (← cost initialSteps).item 0
  let (_, toffolis, qubits) ← (← cost steps).triple
  return (toffolis, qubits)

/-- What is known of a double factorisation. -/
structure Factorization where
  norm : Float
  rank : Datum
  vectors : Datum

def factorize (system : System) (threshold : Datum) : Dialogue Factorization := do
  let reply ← Dialogue.ask "openfermion.resource_estimates.df.factorize"
    [.array system.repulsion, threshold]
  match ← reply.unpack 4 with
  | [repulsion, factors, rank, vectors] =>
    let norm ← Integrals.doubleFactorizedNorm system.core (← repulsion.toArray)
      (← factors.toArray)
    return ⟨norm, rank, vectors⟩
  | _ => .failed .noValue

/-- Toffoli gates of a step, of all steps, and qubits, for a double factorisation. -/
def doubleFactorizedCosts (system : System) (threshold error bits rotationBits : Datum) :
    Dialogue (Datum × Datum × Datum) := do
  Integrals.requireSymmetric system.repulsion
  let orbitals ← system.spinOrbitals
  let found ← factorize system threshold
  let cost (steps : Datum) : Dialogue (Datum × Datum × Datum) := do
    let reply ← Dialogue.ask "openfermion.resource_estimates.df.compute_cost"
      [orbitals, .real found.norm, error, found.rank, found.vectors, bits, rotationBits]
      [("stps", steps), ("verbose", .flag false)]
    reply.triple
  let (steps, _, _) ← cost initialSteps
  cost steps

def doubleFactorized (system : System) (threshold error bits rotationBits : Datum) :
    Dialogue (Datum × Datum) := do
  let (_, toffolis, qubits) ← doubleFactorizedCosts system threshold error bits rotationBits
  return (toffolis, qubits)

/-- Qubits of the register that holds the energy, for an error of one. -/
def energyQubits (norm : Float) : Float :=
  let repetitions := (3.141592653589793 * norm / 2.0).ceil
  2.0 * (Float.log2 repetitions).ceil - 1.0

/-- Toffoli gates and qubits of a step without the energy register, and the norm. -/
def blockEncoding (system : System) (threshold bits rotationBits : Datum) :
    Dialogue (Datum × Datum × Datum) := do
  let found ← factorize system threshold
  let (step, _, qubits) ←
    doubleFactorizedCosts system threshold (.whole 1) bits rotationBits
  let without ← Scalar.sub (← qubits.number) (.real (energyQubits found.norm))
  let controlled ← Scalar.add without (.whole 1)
  return (step, .scalar controlled, .real found.norm)

/-- A parameter that is given by its place or by its name, or has a standard value. -/
structure Parameter where
  name : String
  standard : Option Datum := none

/-- The values of parameters. Each is given at most once, and those without a standard value are
given. -/
def arguments (parameters : List Parameter) (given : List Datum)
    (named : List (String × Datum)) : Except Failure (List Datum) := do
  let later := parameters.drop given.length
  if parameters.length < given.length then throw .wrongKind
  if !named.all fun entry => later.any (·.name == entry.1) then throw .wrongKind
  let rest ← later.mapM fun parameter =>
    match (named.lookup parameter.name).or parameter.standard with
    | some value => Except.ok value
    | none => .error .wrongKind
  return given ++ rest

def singleParameters : List Parameter :=
  [⟨"rank", none⟩, ⟨"allowable_phase_estimation_error", some (.real 0.001)⟩,
    ⟨"bits_precision_coefficients", some (.whole 10)⟩]

def doubleParameters : List Parameter :=
  [⟨"threshold", none⟩, ⟨"allowable_phase_estimation_error", some (.real 0.001)⟩,
    ⟨"bits_precision_coefficients", some (.whole 10)⟩,
    ⟨"bits_precision_rotation", some (.whole 20)⟩]

def encodingParameters : List Parameter :=
  [⟨"threshold", none⟩, ⟨"bits_precision_state_prep", some (.whole 10)⟩,
    ⟨"bits_precision_rotation", some (.whole 20)⟩]

/-- The costs of a kind of factorisation, as a list. -/
def costs (kind : String) (system : System) (given : List Datum)
    (named : List (String × Datum)) : Dialogue (List Datum) := do
  match kind with
  | "sf" =>
    let [rank, error, bits] ← arguments singleParameters given named | .failed .wrongKind
    let (toffolis, qubits) ← singleFactorized system rank error bits
    return [toffolis, qubits]
  | "df" =>
    let [threshold, error, bits, rotationBits] ← arguments doubleParameters given named
      | .failed .wrongKind
    let (toffolis, qubits) ← doubleFactorized system threshold error bits rotationBits
    return [toffolis, qubits]
  | _ =>
    let [threshold, bits, rotationBits] ← arguments encodingParameters given named
      | .failed .wrongKind
    let (step, qubits, norm) ← blockEncoding system threshold bits rotationBits
    return [step, qubits, norm]

end QuantumResources.PhaseEstimation
