import NewtonKrylov.Limit
import NewtonKrylov.LineSearch.Cubic
import NewtonKrylov.Tolerance

/-!
# The inexact line search

A step that increased the residual norm is shrunk. The first trial scale is the minimum of a
quadratic model, and each further one comes from the cubic model of the two latest samples, until
the residual norm does not exceed the one at scale zero, the scale changes by no more than the
tolerance, or all cubic steps are used up. There may be no limit for these.

The residual norm as a function of the scale is evaluated once per trial, in any monad that can
fail, and the trials are part of the result.

A scale that was found from residual norms is a computed number. As long as the scales have only
been halved, because no norm was finite so far or no model has a minimum, they are plain numbers.
-/

namespace NewtonKrylov

namespace LineSearch

/-- The trials of a line search, the last of them apart. -/
structure Outcome (α : Type) where
  /-- The trials before the last, in order. -/
  earlier : List (Sample α)
  last : Sample α
  deriving Repr

/-- All trials in order. -/
def Outcome.trials {α : Type} (o : Outcome α) : List (Sample α) := o.earlier ++ [o.last]

variable {α : Type} [CheckedScalar α] {m : Type → Type} [Monad m] [MonadExceptOf Error m]

/-- The scale of the minimum of the quadratic model, or one half if the full step has no finite
residual norm. -/
def quadraticScale (r₀ r₁ : α) : Except Error α :=
  if Scalar.isFinite r₁ then
    CheckedScalar.quotient (1 * r₀) (((2 : Nat) : α) * (1 * r₀ + r₁ - r₀))
  else .ok (Scalar.half * 1)

/-- Evaluate the residual norm at a scale. -/
def trial (norm : α → m α) (s : α) : m (Sample α) := do return ⟨s, ← norm s⟩

/-- Fail where a computation without effects does. -/
def liftExcept {β : Type} (x : Except Error β) : m β :=
  match x with
  | .ok b => pure b
  | .error e => throw e

/-- Does the search go on from the latest sample `last` and the sample `before` it? It does not ask
for the tolerance once the residual norm is small enough. -/
def goesOn (r₀ : α) (tolerance : Setting α) (before last : Sample α) : Except Error Bool := do
  if last.norm ≤ r₀ then return false
  return decide ((← tolerance) < Scalar.abs (before.scale - last.scale))

/-- Backtrack from the latest sample `last` and the sample `before` it. It has to be told whether
the scales so far have only been halved. The tolerance is asked for even if no steps are left. -/
def backtrack (norm : α → m α) (r₀ : α) (tolerance : Tolerance α) :
    Nat → Bool → Sample α → Sample α → m (Outcome α)
  | 0, halved, before, last => do
    let _ ← liftExcept (goesOn r₀ (tolerance.bound halved) before last)
    return ⟨[], last⟩
  | n + 1, halved, before, last => do
    if ← liftExcept (goesOn r₀ (tolerance.bound halved) before last) then
      let s ← liftExcept (Cubic.minimizer? r₀ last before)
      let next ← trial norm (Cubic.orHalf last s)
      let out ← backtrack norm r₀ tolerance n (halved && s.isNone) last next
      return ⟨last :: out.earlier, out.last⟩
    else return ⟨[], last⟩

/-- Shrink a step with residual norm `r₀` at scale zero and `r₁` at scale one. Only a search that
goes on from the first trial asks for the number of steps. -/
def search (norm : α → m α) (r₀ r₁ : α) (tolerance : Tolerance α) (maxSteps : Setting Nat) :
    m (Outcome α) := do
  let s ← liftExcept (quadraticScale r₀ r₁)
  let first ← trial norm s
  let full : Sample α := ⟨1, r₁⟩
  let halved := !Scalar.isFinite r₁
  if ← liftExcept (goesOn r₀ (tolerance.bound halved) full first) then
    backtrack norm r₀ tolerance (← liftExcept maxSteps) halved full first
  else return ⟨[], first⟩

/-- Search under a limit. Without one the search is given up if it does not end before its patience
is used up. -/
def searchWithin (norm : α → m α) (r₀ r₁ : α) (tolerance : Tolerance α) (limit : Setting Limit) :
    m (Outcome α) := do
  let out ← search norm r₀ r₁ tolerance (limit.map Limit.room)
  match limit with
  | .ok (.endless patience cause) =>
    if out.earlier.length < patience then return out else throw cause
  | _ => return out

end LineSearch

end NewtonKrylov
