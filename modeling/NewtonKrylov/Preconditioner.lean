import NewtonKrylov.Tensor.Algebra

/-!
# Preconditioners

A right preconditioner acts on directions before the Jacobian does. What it does may depend on the
state: it is built anew at the start of an iteration and after each accepted step. A
`Preconditioner` is the action in force together with the way in which it is built from a state.

How it is built depends on this state alone. A preconditioner that keeps a history of its own, and
builds its action from all the states it has seen, is not among these.

The Jacobi preconditioner divides by a diagonal, and leaves alone the entries at which the diagonal
is zero.
-/

namespace NewtonKrylov

/-- A right preconditioner with its present action. -/
structure Preconditioner (α : Type) where
  /-- The action at the start of an iteration. -/
  start : Tensor α → Except Error (Operator α)
  /-- The action after an accepted step. -/
  refresh : Tensor α → Except Error (Operator α)
  action : Operator α

namespace Preconditioner

variable {α : Type}

/-- The preconditioner that changes nothing. -/
def identity : Preconditioner α := ⟨fun _ => .ok .ok, fun _ => .ok .ok, .ok⟩

/-- Build the action at the start of an iteration from `x`. -/
def startAt (p : Preconditioner α) (x : Tensor α) : Except Error (Preconditioner α) :=
  return { p with action := ← p.start x }

/-- Build the action anew at an accepted state `x`. -/
def refreshAt (p : Preconditioner α) (x : Tensor α) : Except Error (Preconditioner α) :=
  return { p with action := ← p.refresh x }

variable [Scalar α]

/-- The reciprocals of a diagonal, and one where it is zero. -/
def inverseDiagonal (d : Tensor α) : Tensor α := d.map fun a => if a != 0 then 1 / a else 1

/-- Division by the diagonal at a state. -/
def jacobiAction (diagonal : Operator α) (x : Tensor α) : Except Error (Operator α) := do
  let inverse := inverseDiagonal (← diagonal x)
  return fun v => Tensor.combine (· * ·) inverse v

/-- The preconditioner that divides by a diagonal, once it has seen a state. -/
def jacobi (diagonal : Operator α) : Preconditioner α :=
  ⟨jacobiAction diagonal, jacobiAction diagonal, fun _ => .error .notInitialized⟩

end Preconditioner

end NewtonKrylov
