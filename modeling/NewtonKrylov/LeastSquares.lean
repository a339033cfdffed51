import NewtonKrylov.Condition
import NewtonKrylov.Triangular

/-!
# The triangular least-squares problem

The coefficients of a Krylov step solve a triangular system. Where the matrix is so badly
conditioned that rounding may spoil the substitution, each unknown is measured in units of its
pivot: the columns are divided by the diagonal, the system is solved, and the solution is divided
in turn. Both ways have the same solution.
-/

namespace NewtonKrylov

namespace Triangular

variable {α : Type} [Scalar α]

/-- The factors that bring the diagonal to one, where it is not zero. -/
def columnScales (R : Rows α) : Vec α :=
  (Rows.diagonal R).map fun d => if d != 0 then 1 / d else 1

/-- Solve a triangular system with its columns scaled by the diagonal. -/
def solveScaled (R : Rows α) (b : Vec α) : Except Error (Vec α) := do
  let s := columnScales R
  let w ← solve (R.scaleColumns s) b
  Vec.combine (· * ·) s w

/-- Solve the triangular system `R y = b`, scaled where it is badly conditioned. -/
def leastSquares (R : Rows α) (b : Vec α) : Except Error (Vec α) :=
  if !R.isSquare then .error .conditionUndefined
  else if R.isWellConditioned then solve R b
  else solveScaled R b

/-- Solve a triangular system given by arrays, scaled where it is badly conditioned. A stack of
matrices has a condition number for each of them, which tells something only if there is one, and
nothing to scale it by. -/
def leastSquaresArray (R b : Tensor α) : Except Error (Vec α) :=
  match R.shape.reverse with
  | [_, _] =>
    let rows := R.slices.map Tensor.entries
    if Rows.isSquare rows then withRightHandSide (leastSquares rows) rows b
    else .error .conditionUndefined
  | n :: m :: stacked =>
    let rows := (List.range n).map fun i => (R.entries.drop (i * n)).take n
    if n ≠ m ∨ n = 0 then .error .conditionUndefined
    else if Tensor.count stacked = 1 ∧ Rows.isWellConditioned rows then solveArray R b
    else .error .shapeMismatch
  | _ => .error .conditionUndefined

end Triangular

end NewtonKrylov
