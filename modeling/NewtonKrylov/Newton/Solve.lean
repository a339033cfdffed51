import NewtonKrylov.Newton.Step

/-!
# The Newton iteration

`Solver.solve` takes Newton steps from a given state until the residual norm or the size of a step
is small enough, all steps are used up, a step is rejected, or a hook asks for the end. A hook may
also ask for a further step where the iteration would end.

The result is the state reached, the statistics of the iteration, the reason for its end and the
answer of the last hook.
-/

namespace NewtonKrylov

/-- Why an iteration ended. -/
inductive StopReason where
  | normConverged
  /-- The last step was small enough, or none could be taken. -/
  | tooSmallStepNorm
  | iterationMaximumReached
  | hookExitRequest
  deriving Repr, DecidableEq

/-- The name of a reason. -/
def StopReason.name : StopReason → String
  | normConverged => "NormConverged"
  | tooSmallStepNorm => "TooSmallStepNorm"
  | iterationMaximumReached => "IterationMaximumReached"
  | hookExitRequest => "HookExitRequest"

/-- Where an iteration is. -/
structure Iteration (α : Type) where
  state : Tensor α
  /-- The number of steps taken and recorded. -/
  iterations : Nat := 0
  norms : List α := []
  /-- The residual norm has to become smaller. -/
  normPending : Bool
  /-- The steps have to become smaller. -/
  stepPending : Bool := true
  /-- The last step was rejected. -/
  stalled : Bool := false
  exited : Bool := false
  deriving Repr

/-- The result of an iteration. -/
structure Solution (α : Type) where
  state : Tensor α
  /-- The number of steps. -/
  iterations : Nat
  initialNorm : α
  norms : List α
  converged : Bool
  reason : StopReason
  answer : HookAnswer
  log : List (Event α)

/-- How often the residual was evaluated. -/
def Solution.evaluations {α : Type} (s : Solution α) : Nat :=
  (s.log.map Event.evaluations).foldr (· + ·) 0

namespace Iteration

variable {α : Type}

/-- Is the state reached a solution? -/
def converged (it : Iteration α) : Bool := !it.normPending || (!it.stepPending && !it.stalled)

/-- The reason why an iteration that is here has ended. -/
def reason (it : Iteration α) : StopReason :=
  if it.exited then .hookExitRequest
  else if !it.normPending then .normConverged
  else if !it.stepPending then .tooSmallStepNorm
  else .iterationMaximumReached

variable [Scalar α]

/-- Record a step to a new state with its residual norm and size. -/
def advance (it : Iteration α) (settings : Settings α) (x : Tensor α) (norm size : α) :
    Except Error (Iteration α) := do
  let tolerance ← settings.tolerance
  let stepPending ← match settings.stepTolerance with
    | none => pure it.stepPending
    | some relative => do
      let scale ← x.maxNorm
      pure (decide ((← relative) * scale ≤ size))
  return { it with
    state := x
    iterations := it.iterations + 1
    norms := it.norms ++ [norm]
    normPending := !decide (norm < tolerance)
    stepPending := stepPending }

/-- Does the iteration go on by itself, under a limit for its steps? -/
def goesOn (it : Iteration α) (limit : Limit) : Bool :=
  it.normPending && it.stepPending && limit.allows it.iterations

end Iteration

namespace Solver

variable {α : Type} [CheckedScalar α]

/-- Evaluate the residual. -/
def evaluate (x : Tensor α) : SolverM α (Tensor α) := do
  let system ← boundSystem
  record (.evaluated x)
  system.residual x

/-- Report a Newton step. -/
def reportNewton (step : Int) (norm size : α) (x : Tensor α) (heading : Bool) :
    SolverM α Unit := do
  if let some directory := (← get).settings.newtonDirectory then
    let path := newtonPath (← directory)
    let line := ReportLine.newton step norm size x.norm
    report (·.append path (if heading then [.newtonHeading, line] else [line]))

/-- One pass of the iteration, which tells whether another one follows. -/
def pass (it : Iteration α) : SolverM α (Iteration α × Bool) := do
  let pre ← callHook .prestep it.state
  if pre.asksFor .exit then return ({ it with exited := true }, false)
  let r ← evaluate it.state
  let index := it.iterations + 1
  let step ← newtonStep it.state r r.norm index
  record (.attempted it.state step)
  match step.state with
  | none => return ({ it with stalled := true, stepPending := false }, false)
  | some x =>
    let post ← callHook .poststep x
    if post.asksFor .exit then return ({ it with state := x, exited := true }, false)
    record (.refreshed x)
    let p ← (← get).preconditioner.refreshAt x
    modify fun s => { s with preconditioner := p }
    reportNewton index step.norm step.size x false
    let settings := (← get).settings
    let next ← it.advance settings x step.norm step.size
    let asked := pre.asksFor .notDone || post.asksFor .notDone
    return (next, next.goesOn (← settings.maxIterations) || asked)

/-- Passes as long as they ask for another one, at most a given number of them. -/
def passes : Nat → Iteration α → SolverM α (Iteration α)
  | 0, _ => throw .passLimit
  | n + 1, it => do
    let (next, again) ← pass it
    if again then passes n next else return next

/-- The state to start from: a vector, or a single number as a vector of length one. -/
def initialState (x : Tensor α) : Except Error (Vec α) :=
  if x.shape.length ≤ 1 then .ok x.entries else .error (.stateShape x.shape)

/-- Iterate from a state. -/
def solve (x : Tensor α) : SolverM α (Solution α) := do
  modify fun s => { s with log := [] }
  if (← get).system.isNone then throw .noResidual
  let v ← initialState x
  let _ ← allocate v.length
  let x := Tensor.ofVec v
  let pre ← callHook .presolve x
  let system ← boundSystem
  record (.guarded x)
  let x ← system.guard.value x
  let r ← evaluate x
  let norm := r.norm
  record (.started x)
  let p ← (← get).preconditioner.startAt x
  modify fun s => { s with preconditioner := p }
  reportNewton 0 norm 0 x true
  let settings := (← get).settings
  let tolerance ← settings.tolerance
  let maxIterations ← settings.maxIterations
  let start : Iteration α :=
    { state := x
      normPending := !decide (norm ≤ tolerance)
      exited := pre.asksFor .exit }
  let last ←
    if start.goesOn maxIterations && !start.exited then
      passes (maxIterations.room + settings.extraPasses) start
    else pure start
  let answer ← callHook .postsolve last.state
  return ⟨last.state, last.iterations, norm, last.norms, last.converged, last.reason, answer,
    (← get).log⟩

end Solver

end NewtonKrylov
