import QuantumResources.Number.Arithmetic
import QuantumResources.Number.LogGamma

/-! Binomial tails and the least number of trials for a wanted success probability. -/

namespace QuantumResources.Binomial

/-- Logarithm of the number of ways to choose `k` out of `n`. -/
def logCoefficient (n k : Int) : Calc Float := do
  let total ← LogGamma.atInteger (n + 1)
  let chosen ← LogGamma.atInteger (k + 1)
  let left ← LogGamma.atInteger (n - k + 1)
  return total - chosen - left

def logOf (x : Scalar) : Calc Float := do
  match ← x.toReal with
  | .real value =>
    if value.isNaN then return value
    else if value ≤ 0.0 then .error .noValue
    else return value.log
  | _ => .error .wrongKind

def largest : List Float → Calc Float
  | [] => .error .noValue
  | first :: rest => .ok (rest.foldl (fun top x => if top < x then x else top) first)

/-- The integers from zero up to but not including `n`. -/
def below (n : Int) : List Int := (List.range n.toNat).map Int.ofNat

/-- Probability of at most `x` successes in `n` trials, summed relative to the largest term so
that no term is lost to underflow. -/
def cdf (x n : Int) (p : Scalar) : Calc Scalar := do
  let logP ← logOf p
  let logQ ← logOf (← Scalar.sub (.whole 1) p)
  let terms ← (below (x + 1)).mapM fun k => do
    let ways ← logCoefficient n k
    return ways + (← Scalar.realOfInt k) * logP + (← Scalar.realOfInt (n - k)) * logQ
  let top ← largest terms
  let sum := terms.foldl (fun total term => total + (term - top).exp) 0.0
  return .real (top.exp * sum)

/-- The first of `start`, `start + 1`, … at which a condition holds. -/
def leastFrom (holds : Int → Calc Bool) : Nat → Int → Calc Int
  | 0, _ => .error .noValue
  | fuel + 1, n => do if ← holds n then return n else leastFrom holds fuel (n + 1)

section

variable {α : Type} [Arithmetic α]

/-- Whether `n` trials give at least `needed` successes often enough: not below 0.999. -/
def isEnough (cdf : Int → Int → α → Calc α) (needed : Int) (success : α) (n : Int) :
    Calc Bool := do
  let reached ← (1 - cdf (needed - 1) n success : Calc α)
  return !(← Arithmetic.lt reached (Arithmetic.constant 999 3))

/-- The least number of trials that suffices. Twice the needed number and some thousands over a
bound of the inverse success probability always do, so the search ends within them. -/
def leastTrials (cdf : Int → Int → α → Calc α) (inverseBound : Nat) (needed : Int)
    (success : α) : Calc Int :=
  leastFrom (isEnough cdf needed success) ((2 * needed.toNat + 4000) * inverseBound) needed

end

end QuantumResources.Binomial
