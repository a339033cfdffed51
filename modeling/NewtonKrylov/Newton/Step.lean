import NewtonKrylov.LineSearch.Search
import NewtonKrylov.Newton.Solver

/-!
# One Newton step

A step from a state `x` with residual `r` solves `J dx = r`, where the Jacobian is only applied, by
finite differences of the residual. The guard mends the step, and the state `x - dx` is taken if
its residual norm is not larger than that of `x`. Otherwise a line search shrinks the step, and a
step that does not make the residual norm smaller is rejected.
-/

namespace NewtonKrylov

namespace Solver

variable {α : Type} [Scalar α]

/-- The Jacobian at `x`, where the residual is `r`, after the preconditioner. -/
def jacobian (s : Solver α) (x r : Tensor α) : Operator α := fun z => do
  let w ← s.preconditioner.action z
  match s.system with
  | none => throw .notSet
  | some system =>
    let ε := s.settings.difference
    let probe ← Tensor.combine (· + ·) x (← ε.times w)
    let change ← Tensor.combine (· - ·) (← system.residual probe) r
    ε.quotient change

/-- One cycle for `J dx = rₖ`, with its update as a step in the variables of the problem. -/
def krylovCycle (x r rₖ : Tensor α) (norm : α) : SolverM α (Tensor α × Cycle.Outcome α) := do
  let ws ← allocatedWorkspace
  let s ← get
  let (result, ws') := (Cycle.run (s.jacobian x r) rₖ norm s.settings.threshold
    s.settings.krylovTolerance.computed ws.capacity).run ws
  set { s with workspace := some ws' }
  let out ← result
  let u := Tensor.ofVec out.update
  if out.steps = 0 then return (u, out) else return (← s.preconditioner.action u, out)

/-- Sum up the steps of at most `n` cycles, with the linear residual norms on the way. Without a
residual to start from a cycle leaves a plain zero. -/
def krylovCycles (x r : Tensor α) :
    Nat → Tensor α → Tensor α → α → SolverM α (Tensor α × List α)
  | 0, dx, _, _ => return (dx, [])
  | n + 1, dx, rₖ, norm => do
    let (step, out) ← krylovCycle x r rₖ norm
    let dx ← dx.update (· + ·) step
    let tolerance := (← get).settings.krylovTolerance.bound (norm == 0)
    if out.norm ≤ (← tolerance) ∨ out.steps = 0 then
      return (dx, out.history)
    else
      let (dx, norms) ← krylovCycles x r n dx out.residual out.norm
      return (dx, out.history ++ norms)

/-- The step that solves `J dx = r`, with the linear residual norms after the first. -/
def linearSolve (x r : Tensor α) (norm : α) (index : Int) : SolverM α (Tensor α × List α) := do
  let settings := (← get).settings
  let (dx, norms) ← krylovCycles x r (← settings.restarts) (Tensor.zeros x.shape) r norm
  if let some directory := settings.krylovDirectory then
    let path := krylovPath (← directory) index
    let lines := (norm :: norms).zipIdx.map fun (a, i) => ReportLine.krylov i a
    report (·.write path (.krylovHeading :: lines))
  return (dx, norms)

/-- The residual norm at `x - dx`. -/
def normAfter (system : NonlinearSystem α) (x dx : Tensor α) : Except Error α := do
  return (← system.residual (← Tensor.combine (· - ·) x dx)).norm

end Solver

namespace Solver

variable {α : Type} [CheckedScalar α]

/-- Look for a step from `x`, where the residual is `r`, that does not increase the residual
norm. -/
def newtonStep (x r : Tensor α) (norm : α) (index : Int) : SolverM α (StepOutcome α) := do
  let (dx, norms) ← linearSolve x r norm index
  let system ← boundSystem
  let dx ← system.guard.step x dx
  let fullNorm ← normAfter system x dx
  let accept (dx : Tensor α) (newNorm : α) (trials : Nat) : SolverM α (StepOutcome α) := do
    let x ← Tensor.combine (· - ·) x dx
    return ⟨some x, newNorm, ← dx.maxNorm, norms.length, trials⟩
  if fullNorm ≤ norm then accept dx fullNorm 0
  else
    let settings := (← get).settings
    let search : Except Error (LineSearch.Outcome α) :=
      LineSearch.searchWithin (fun s => normAfter system x (dx.smul s)) norm fullNorm
        settings.searchTolerance settings.searchSteps
    let out ← search
    if let some directory := settings.searchDirectory then
      let path := searchPath (← directory) index
      let lines := out.trials.zipIdx.map fun (t, i) => ReportLine.search i t.scale t.norm
      report (·.write path (.searchHeading :: lines))
    if out.last.norm < norm ∧ 0 < out.last.scale then
      accept (dx.smul out.last.scale) out.last.norm out.trials.length
    else return ⟨none, norm, 0, norms.length, out.trials.length⟩

end Solver

end NewtonKrylov
