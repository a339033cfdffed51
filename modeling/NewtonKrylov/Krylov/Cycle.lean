import NewtonKrylov.Krylov.Workspace
import NewtonKrylov.LeastSquares

/-!
# One cycle of the adaptive simpler GMRES method

A cycle looks for an update `u` such that the operator takes `u` close to a residual `r`. Each step
chooses a direction, applies the operator to it, folds the image into the factorization, and removes
from the residual its part along the new orthogonal column. In the end the coefficients of the
directions solve a triangular system.

A cycle ends when the residual norm falls below the tolerance or is zero, and at the latest after
the number of steps allowed. It is a computation on a work space: what it has put there stays, also
when the operator fails in the middle of a step.

The residual to start from may have any shape. A step goes through if the residual fits into a
direction, its image is a vector of the dimension of the problem, and its product with the new
column is a number; for a vector of that dimension the last follows from the first two.
-/

namespace NewtonKrylov

namespace Cycle

/-- A computation on a work space. -/
abbrev CycleM (α : Type) := ExceptT Error (StateM (Workspace α))

/-- What one step hands on to the next. -/
structure Progress (α : Type) where
  residual : Tensor α
  norm : α
  /-- The norm before the last step. -/
  previousNorm : α
  /-- The last column of the orthogonal factor, if there is one. -/
  column : Option (Vec α)

/-- The result of a cycle. -/
structure Outcome (α : Type) where
  /-- The combination of the directions. -/
  update : Vec α
  residual : Tensor α
  norm : α
  steps : Nat
  history : List α
  deriving Repr

variable {α : Type} [Scalar α]

/-- The direction of the next step. The first one is the normalized residual, and only later ones
are a choice. -/
def nextDirection (threshold : Setting α) (p : Progress α) :
    Except Error (DirectionSource × Tensor α) := do
  match p.column with
  | none => return (.residual, DirectionSource.residual.direction p.residual p.norm p.residual)
  | some q =>
    let choice := DirectionSource.after p.norm p.previousNorm (← threshold)
    return (choice, choice.direction p.residual p.norm (Tensor.ofVec q))

/-- One Krylov step. -/
def step (op : Operator α) (threshold : Setting α) (p : Progress α) : CycleM α (Progress α) := do
  let (choice, z) ← nextDirection threshold p
  let ws ← get
  let stored ← z.fill ws.dimension
  set (ws.record choice stored)
  let image ← op z
  let f ← ws.factorization.extend image
  modify fun ws => { ws with factorization := f }
  let q := f.column (f.size - 1)
  let c ← (← Tensor.product (Tensor.ofVec q) p.residual).number
  modify fun ws => { ws with coefficients := ws.coefficients ++ [c] }
  let r ← Tensor.combine (· - ·) p.residual (Tensor.ofVec (Vec.smul c q))
  return ⟨r, r.norm, p.norm, some q⟩

/-- At most the given number of steps, with the residual norm after each. -/
def iterate (op : Operator α) (threshold tolerance : Setting α) :
    Nat → Progress α → CycleM α (Progress α × List α)
  | 0, p => return (p, [])
  | n + 1, p => do
    let p' ← step op threshold p
    if p'.norm < (← tolerance) ∨ (p'.norm == 0) = true then return (p', [p'.norm])
    else
      let (last, norms) ← iterate op threshold tolerance n p'
      return (last, p'.norm :: norms)

/-- A cycle from a residual of a given norm. -/
def run (op : Operator α) (r : Tensor α) (norm : α) (threshold tolerance : Setting α)
    (maxSteps : Int) : CycleM α (Outcome α) := do
  modify Workspace.reset
  let ws ← get
  let steps := (min maxSteps ws.capacity).toNat
  if norm == 0 then return ⟨Vec.zeros ws.dimension, r, 0, 0, []⟩
  else if steps = 0 then return ⟨Vec.zeros ws.dimension, r, norm, 0, []⟩
  else
    let (last, norms) ← iterate op threshold tolerance steps ⟨r, norm, norm, none⟩
    let ws ← get
    let y ← Triangular.leastSquares ws.factorization.triangular ws.coefficients
    return ⟨Vec.linearCombination ws.dimension y ws.directions, last.residual, last.norm,
      norms.length, norms⟩

end Cycle

end NewtonKrylov
