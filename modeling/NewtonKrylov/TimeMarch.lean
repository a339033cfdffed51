import NewtonKrylov.ImplicitEuler

/-!
# Marching in time

A `TimeProblem` solves the residual of implicit Euler steps with one solver, whose preconditioner
may be the diagonal of the Jacobian of that residual. Whatever the stepper holds when a solve starts
is what the solver sees.

`march` takes steps of one size, each from the state that the last one arrived at, and ends early
after a step that did not converge.
-/

namespace NewtonKrylov

/-- A stepper with the solver for its steps. -/
structure TimeProblem (α : Type) where
  stepper : Stepper α
  guard : Guard α
  /-- Is the diagonal of the Jacobian the preconditioner? -/
  jacobi : Bool
  solver : Solver α

/-- The steps taken, each with the number of its iterations and why they ended, and the last
state. -/
structure March (α : Type) where
  /-- The iterations of each step and why they ended. -/
  steps : List (Nat × StopReason)
  state : Tensor α

/-- A computation with a time-dependent problem. -/
abbrev TimeProblemM (α : Type) := ExceptT Error (StateM (TimeProblem α))

namespace TimeProblem

variable {α : Type} [CheckedScalar α]

/-- The solver for the step that the stepper holds. -/
def currentSolver (p : TimeProblem α) : Solver α :=
  let preconditioner :=
    if p.jacobi then
      { Preconditioner.jacobi p.stepper.diagonal with action := p.solver.preconditioner.action }
    else p.solver.preconditioner
  { p.solver with
    system := some (p.stepper.system p.guard)
    preconditioner := preconditioner }

/-- Accept a state, set the size of the next step and move to a time. -/
def update (q : Tensor α) (t dt : α) : TimeProblemM α Unit := do
  let p ← get
  let (result, stepper) := (Stepper.update q t dt).run p.stepper
  set { p with stepper := stepper }
  result

/-- Bind a discretization. -/
def bind (candidate : DiscretizationCandidate α) : TimeProblemM α Unit := do
  let p ← get
  let stepper ← p.stepper.bind candidate
  set { p with stepper := stepper }

/-- Solve for the state after the step. -/
def solve (q : Tensor α) : TimeProblemM α (Solution α) := do
  let p ← get
  let (result, solver) := (Solver.solve q).run p.currentSolver
  set { p with solver := solver }
  result

/-- Take `n` steps of size `dt`, of which `i` are done. -/
def marchFrom (t dt : α) : Nat → Nat → Tensor α → TimeProblemM α (March α)
  | 0, _, q => return ⟨[], q⟩
  | n + 1, i, q => do
    update q (t + (i : α) * dt) dt
    let out ← solve q
    if out.converged then
      let rest ← marchFrom t dt n (i + 1) out.state
      return { rest with steps := (out.iterations, out.reason) :: rest.steps }
    else return ⟨[(out.iterations, out.reason)], out.state⟩

/-- Take `n` steps of size `dt` from a state at a time. -/
def march (q : Tensor α) (t dt : α) (n : Nat) : TimeProblemM α (March α) := marchFrom t dt n 0 q

end TimeProblem

end NewtonKrylov
