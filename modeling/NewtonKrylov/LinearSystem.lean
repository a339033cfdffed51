import NewtonKrylov.Krylov.Cycle

/-!
# The restarted method for linear systems

`LinearSystem.solve` looks for `x` with `A x = b`. It runs cycles on the preconditioned residual,
each from where the last one ended, and sums up their updates, until the residual norm is at most
`tolerance` times the one at the start, all steps are used up, or a cycle takes no step. A cycle
takes at most `restart` steps, the last one what is left of all steps.

The history is the residual norm at the start and after each step of each cycle.

The right hand side may have any shape. The number of equations is the size of its first dimension,
and the guess has the same shape. Only for a vector do the cycles have a system to solve; for other
shapes the method may still find that the guess is good enough.
-/

namespace NewtonKrylov

/-- The operator of a linear system: a matrix, which is checked to be square, or a function. -/
inductive LinearOperator (α : Type) where
  | matrix (A : Tensor α)
  | function (f : Operator α)

/-- What a linear system is solved with, besides the operator and the right hand side. -/
structure LinearOptions (α : Type) where
  guess : Option (Tensor α) := none
  /-- The largest number of steps of a cycle. -/
  restart : Option Int := none
  /-- The largest number of steps of all cycles. -/
  maxSteps : Option Int := none
  /-- The reduction of the residual norm to reach. -/
  tolerance : α
  /-- The decay of the residual norm up to which the residual gives the next direction. -/
  threshold : α
  left : Operator α := Except.ok
  right : Operator α := Except.ok

/-- An approximate solution with the residual norms on the way to it. -/
structure LinearSolution (α : Type) where
  x : Tensor α
  history : List α
  deriving Repr

/-- The report of a solution: each residual norm with the number of steps before it. -/
def LinearSolution.report {α : Type} (s : LinearSolution α) : List (Nat × α) :=
  s.history.zipIdx.map fun (norm, i) => (i, norm)

namespace LinearSystem

variable {α : Type} [Scalar α]

/-- Where the cycles are: what they have summed up and what is left. -/
structure State (α : Type) where
  workspace : Workspace α
  update : Vec α
  residual : Tensor α
  norm : α
  history : List α

/-- Cycles of at most `limit` steps each, with `remaining` steps in all. -/
def cycles (op : Operator α) (threshold tolerance : α) (remaining limit : Nat) (s : State α) :
    Except Error (State α) :=
  match (Cycle.run op s.residual s.norm (.ok threshold) (.ok tolerance) limit).run s.workspace with
  | (.error e, _) => .error e
  | (.ok out, ws) =>
    let next : State α :=
      ⟨ws, Vec.add s.update out.update, out.residual, out.norm, s.history ++ out.history⟩
    if _ : tolerance < out.norm ∧ out.steps < remaining ∧ 0 < out.steps then
      let left := remaining - out.steps
      cycles op threshold tolerance left (min limit left) next
    else .ok next
termination_by remaining
decreasing_by omega

/-- The function that applies the operator of a system of `n` equations. -/
def resolve (n : Nat) : LinearOperator α → Except Error (Operator α)
  | .function f => .ok f
  | .matrix A =>
    if A.shape = [n, n] then .ok A.product else .error (.matrixShape n A.shape)

/-- The initial guess, which has the shape of the right hand side. Without one it is the zero vector
as long as the right hand side. -/
def initialGuess (n : Nat) (shape : List Nat) (guess : Option (Tensor α)) :
    Except Error (Tensor α) :=
  let x := guess.getD (Tensor.zeros [n])
  if x.shape = shape then .ok x else .error (.guessShape x.shape shape)

/-- Solve `A x = b`. -/
def solve (A : LinearOperator α) (b : Tensor α) (o : LinearOptions α) :
    Except Error (LinearSolution α) := do
  let n ← b.length
  let x ← initialGuess n b.shape o.guess
  let apply ← resolve n A
  match o.restart with
  | some m => if m < 1 then throw (.restartTooSmall m)
  | none => pure ()
  let maxSteps := o.maxSteps.getD n
  if maxSteps < 0 then throw (.negativeStepLimit maxSteps)
  let limit := min (o.restart.getD maxSteps) (min maxSteps n)
  let op : Operator α := fun z => do o.left (← apply (← o.right z))
  let r ← o.left (← Tensor.combine (· - ·) b (← apply x))
  let norm := r.norm
  let tolerance := o.tolerance * norm
  let start : State α := ⟨Workspace.empty n limit.toNat, Vec.zeros n, r, norm, [norm]⟩
  let last ←
    if tolerance < norm ∧ 0 < maxSteps then
      cycles op o.threshold tolerance maxSteps.toNat limit.toNat start
    else pure start
  let x ← Tensor.combine (· + ·) x (← o.right (Tensor.ofVec last.update))
  return ⟨x, last.history⟩

end LinearSystem

end NewtonKrylov
