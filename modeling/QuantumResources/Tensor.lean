import QuantumResources.Failure

/-! Arrays with any number of axes.

The entries stand in the order of their indices, the last index fastest. Where two arrays meet,
their axes are aligned from the last one, and an axis of length one is repeated. -/

namespace QuantumResources

structure Tensor (α : Type) where
  shape : List Nat
  entries : List α

namespace Tensor

variable {α β γ : Type}

/-- All indices of a shape, in the order of the entries. -/
def indices : List Nat → List (List Nat)
  | [] => [[]]
  | size :: rest => (List.range size).flatMap fun i => (indices rest).map (i :: ·)

def generate (shape : List Nat) (entry : List Nat → α) : Tensor α :=
  ⟨shape, (indices shape).map entry⟩

def single (value : α) : Tensor α := ⟨[], [value]⟩

/-- The place of an index among the entries. -/
def offset : List Nat → List Nat → Nat
  | _ :: sizes, i :: index => i * sizes.foldl (· * ·) 1 + offset sizes index
  | _, _ => 0

def getD (tensor : Tensor α) (index : List Nat) (default : α) : α :=
  (tensor.entries[offset tensor.shape index]?).getD default

def map (f : α → β) (tensor : Tensor α) : Tensor β := ⟨tensor.shape, tensor.entries.map f⟩

def mapM {m : Type → Type} [Monad m] (f : α → m β) (tensor : Tensor α) : m (Tensor β) := do
  return ⟨tensor.shape, ← tensor.entries.mapM f⟩

/-- Joins parts of one shape along a new first axis. -/
def stack (parts : List (Tensor α)) : Except Failure (Tensor α) :=
  match parts with
  | [] => .ok ⟨[0], []⟩
  | first :: _ =>
    if parts.all (·.shape == first.shape) then
      .ok ⟨parts.length :: first.shape, parts.flatMap (·.entries)⟩
    else .error .noValue

/-- The length of a common axis. -/
def commonAxis (m n : Nat) : Except Failure Nat :=
  if m = n then .ok m else if m = 1 then .ok n else if n = 1 then .ok m else .error .noValue

/-- A shape with leading axes of length one, so that it has a given number of axes. -/
def padded (axes : Nat) (shape : List Nat) : List Nat :=
  List.replicate (axes - shape.length) 1 ++ shape

def commonShape (a b : List Nat) : Except Failure (List Nat) :=
  let axes := max a.length b.length
  ((padded axes a).zip (padded axes b)).mapM fun (m, n) => commonAxis m n

/-- The index at which an array stands for a larger shape. -/
def alignedIndex (shape index : List Nat) : List Nat :=
  (shape.zip (index.drop (index.length - shape.length))).map fun (size, i) =>
    if size = 1 then 0 else i

def alignedGetD (tensor : Tensor α) (index : List Nat) (default : α) : α :=
  tensor.getD (alignedIndex tensor.shape index) default

def combine (f : α → β → γ) (a : Tensor α) (b : Tensor β) (none₁ : α) (none₂ : β) :
    Except Failure (Tensor γ) := do
  let shape ← commonShape a.shape b.shape
  return generate shape fun index => f (a.alignedGetD index none₁) (b.alignedGetD index none₂)

def add (a b : Tensor Float) : Except Failure (Tensor Float) := combine (· + ·) a b 0.0 0.0

def sub (a b : Tensor Float) : Except Failure (Tensor Float) := combine (· - ·) a b 0.0 0.0

def scale (factor : Float) (tensor : Tensor Float) : Tensor Float := tensor.map (factor * ·)

/-- Whether a number is near another: by one part in a hundred thousand of the second, or by
a hundred millionth. -/
def isNear (a b : Float) : Bool :=
  a == b || (b.isFinite && (a - b).abs ≤ 1e-8 + 1e-5 * b.abs)

def isNearAll (a b : Tensor Float) : Except Failure Bool := do
  let near ← combine isNear a b 0.0 0.0
  return near.entries.all id

end Tensor

end QuantumResources
