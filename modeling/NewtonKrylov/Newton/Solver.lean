import NewtonKrylov.Krylov.Cycle
import NewtonKrylov.Newton.Report
import NewtonKrylov.Newton.Settings
import NewtonKrylov.Preconditioner
import NewtonKrylov.NonlinearSystem

/-!
# The solver and its calls

A `Solver` is what outlives a solve: the problem, the preconditioner, the work space of the cycles,
the number of calls of each hook and the reports. The log of the present solve lists the calls of
hooks, of the preconditioner and of the residual, and what came of each step looked for, in order.

`SolverM` is a computation with a solver. A computation that fails keeps what it has done so far.
-/

namespace NewtonKrylov

/-- The result of looking for a Newton step. -/
structure StepOutcome (α : Type) where
  /-- The new state, unless the step was rejected. -/
  state : Option (Tensor α)
  norm : α
  /-- The largest entry of the accepted step. -/
  size : α
  /-- The number of steps of the linear solve. -/
  linearSteps : Nat
  /-- The number of trials of the line search, which is zero if there was none. -/
  trials : Nat
  deriving Repr

/-- How often the residual was evaluated: in each step of the linear solve, after the full step, and
in each trial. -/
def StepOutcome.evaluations {α : Type} (out : StepOutcome α) : Nat :=
  out.linearSteps + 1 + out.trials

/-- An entry of the log of a solve. -/
inductive Event (α : Type) where
  | hook (point : HookPoint) (x : Tensor α)
  | guarded (x : Tensor α)
  | evaluated (x : Tensor α)
  /-- The preconditioner was built for the state to start from. -/
  | started (x : Tensor α)
  /-- The preconditioner was built anew for an accepted state. -/
  | refreshed (x : Tensor α)
  /-- A step from a state was looked for, with this result. -/
  | attempted (x : Tensor α) (out : StepOutcome α)
  deriving Repr

/-- How often the residual was evaluated. -/
def Event.evaluations {α : Type} : Event α → Nat
  | .evaluated _ => 1
  | .attempted _ out => out.evaluations
  | _ => 0

/-- A problem with what its iteration needs and has written. -/
structure Solver (α : Type) where
  settings : Settings α
  /-- The system to solve, once it is bound. -/
  system : Option (NonlinearSystem α)
  preconditioner : Preconditioner α
  /-- The work space of the cycles, once the dimension is known. -/
  workspace : Option (Workspace α) := none
  /-- How often each hook has been called. -/
  calls : HookPoint → Nat := fun _ => 0
  files : ReportFiles α := []
  log : List (Event α) := []

/-- A computation with a solver. -/
abbrev SolverM (α : Type) := ExceptT Error (StateM (Solver α))

namespace Solver

variable {α : Type}

/-- Add an entry to the log. -/
def record (e : Event α) : SolverM α Unit := modify fun s => { s with log := s.log ++ [e] }

/-- Change the reports. -/
def report (f : ReportFiles α → ReportFiles α) : SolverM α Unit :=
  modify fun s => { s with files := f s.files }

/-- Call the hook at a point. A hook that is not given answers nothing. -/
def callHook (point : HookPoint) (x : Tensor α) : SolverM α HookAnswer := do
  let s ← get
  match s.settings.hooks point with
  | none => return .value .null
  | some hook =>
    let hook ← hook
    let n := s.calls point
    set { s with calls := fun p => if p = point then n + 1 else s.calls p }
    record (.hook point x)
    return hook n x

/-- The system, which must be bound. -/
def boundSystem : SolverM α (NonlinearSystem α) := do
  match (← get).system with
  | none => throw .notSet
  | some F => return F

/-- The work space, which must be allocated. -/
def allocatedWorkspace : SolverM α (Workspace α) := do
  match (← get).workspace with
  | none => throw .notSet
  | some ws => return ws

/-- Replace the system or the preconditioner, where one is given. -/
def bind (s : Solver α) (system : Option (NonlinearSystem α))
    (preconditioner : Option (Preconditioner α)) : Solver α :=
  { s with
    system := system.or s.system
    preconditioner := preconditioner.getD s.preconditioner }

/-- Provide a work space for problems of dimension `n`, and tell whether the present one was
kept. -/
def allocate (n : Int) : SolverM α Bool := do
  let s ← get
  let limit ← s.settings.krylovSteps.getD (.ok (.count n))
  let steps := limit.atMost n
  let fits := s.workspace.any fun ws => ws.dimension = n && steps.equals ws.capacity
  if fits then return true
  let ws ← Workspace.create n (← steps.size)
  set { s with workspace := some ws }
  return false

end Solver

end NewtonKrylov
