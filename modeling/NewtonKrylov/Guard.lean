import NewtonKrylov.Tensor.Algebra

/-!
# Guards of states and steps

A guard mends the first state of an iteration and every step proposed for a state `x`, where the
new state is `x - dx`. A `Bounds` guard keeps states between a lower and an upper bound: states are
clamped, and a step that leads out is shortened by a factor, a limited number of times.
-/

namespace NewtonKrylov

/-- How states and steps are mended. -/
structure Guard (α : Type) where
  /-- The state to start from. -/
  value : Operator α
  /-- The step to take from a state, for a proposed one. -/
  step : Tensor α → Operator α

/-- Bounds for the entries of a state. A bound is a number that holds for all entries, or has one
entry for each. -/
structure Bounds (α : Type) where
  lower : Option (Tensor α) := none
  upper : Option (Tensor α) := none
  /-- The factor by which a step is shortened. -/
  relax : α
  maxRelax : Nat
  deriving Repr

variable {α : Type}

/-- The guard that changes nothing. -/
def Guard.none : Guard α := ⟨.ok, fun _ dx => .ok dx⟩

namespace Bounds

variable [Scalar α]

/-- Is some entry of a state on the wrong side of a bound? -/
def violates (wrong : α → α → Bool) (x : Tensor α) : Option (Tensor α) → Except Error Bool
  | .none => .ok false
  | some b => return (← Tensor.combine wrong x b).entries.any id

/-- Is some entry of a state outside the bounds? -/
def outside (g : Bounds α) (x : Tensor α) : Except Error Bool := do
  if ← violates (fun a b => a < b) x g.lower then return true
  violates (fun a b => b < a) x g.upper

/-- Move an entry to a bound, entrywise. -/
def clampTo (move : α → α → α) (x : Tensor α) : Option (Tensor α) → Except Error (Tensor α)
  | .none => .ok x
  | some b => Tensor.combine move x b

/-- Move a state between the bounds. -/
def clamp (g : Bounds α) (x : Tensor α) : Except Error (Tensor α) := do
  clampTo Scalar.min (← clampTo Scalar.max x g.lower) g.upper

/-- Shorten a step from `x`, at most `n` times, until it stays inside the bounds. -/
def shorten (g : Bounds α) (x : Tensor α) : Nat → Tensor α → Except Error (Tensor α)
  | 0, dx => .ok dx
  | n + 1, dx => do
    if ← g.outside (← Tensor.combine (· - ·) x dx) then g.shorten x n (dx.smul g.relax)
    else return dx

/-- The guard that keeps states inside the bounds. -/
def guard (g : Bounds α) : Guard α := ⟨g.clamp, fun x dx => g.shorten x g.maxRelax dx⟩

end Bounds

end NewtonKrylov
