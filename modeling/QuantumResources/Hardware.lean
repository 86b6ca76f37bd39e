import QuantumResources.Number.Arithmetic

/-! Models of quantum hardware. -/

namespace QuantumResources

inductive Technology where
  | ionTrap
  | superconducting
  /-- Ion traps joined by photonic links, with an account of their parts. -/
  | networkedIonTrap
  deriving DecidableEq, Repr

inductive Hardware (α : Type) where
  | described (technology : Technology) (errorRate cycleTime : α)
  /-- Hardware about which nothing is known. -/
  | undescribed

namespace Technology

def standardErrorRate : Technology → Scalar
  | ionTrap => .real 1e-4
  | superconducting => .real 1e-3
  | networkedIonTrap => .real 1e-4

/-- Seconds for one cycle of the surface code. -/
def standardCycleTime : Technology → Scalar
  | ionTrap => .real 1e-3
  | superconducting => .real 1e-6
  | networkedIonTrap => .real 3e-3

end Technology

namespace Hardware

/-- A technology with its usual numbers. -/
def standard (technology : Technology) : Hardware Scalar :=
  .described technology technology.standardErrorRate technology.standardCycleTime

variable {α : Type}

/-- Error rate of a physical qubit. -/
def errorRate : Hardware α → Calc α
  | described _ rate _ => .ok rate
  | undescribed => .error .hardwareNotDescribed

/-- Seconds for one cycle of the surface code. -/
def cycleTime : Hardware α → Calc α
  | described _ _ time => .ok time
  | undescribed => .error .hardwareNotDescribed

/-- Whether the parts of the machine can be counted. -/
def isDetailed : Hardware α → Bool
  | described .networkedIonTrap _ _ => true
  | _ => false

end Hardware

end QuantumResources
