import NewtonKrylov.Tensor

/-!
# Back substitution

An upper triangular system is solved from its last equation up. An equation whose pivot is zero
determines nothing, and its unknown is left at zero.

`backSubstitute` works on rows that start at the diagonal, so each is one entry shorter than the row
above. `solve` takes whole rows and checks that they fit, and `solveArray` takes arrays of any
shape.
-/

namespace NewtonKrylov

namespace Triangular

variable {α : Type} [Scalar α]

/-- Solve a triangular system, given by its rows from the diagonal on. -/
def backSubstitute : Rows α → Vec α → Vec α
  | (pivot :: tail) :: rows, b :: bs =>
    let x := backSubstitute rows bs
    (if pivot == 0 then 0 else (b - Vec.dot tail x) / pivot) :: x
  | _, _ => []

/-- The rows of a matrix from the diagonal on. -/
def fromDiagonal (R : Rows α) : Rows α := R.zipIdx.map fun (row, i) => row.drop i

/-- Has one of the first `n` equations a pivot? -/
def hasPivot (R : Rows α) (n : Nat) : Bool := ((Rows.diagonal R).take n).any (· != 0)

/-- Solve a triangular system. The right hand side may not have more entries than the matrix has
rows or columns, nor, as soon as there is an equation to solve, fewer than it has columns. -/
def solve (R : Rows α) (b : Vec α) : Except Error (Vec α) :=
  let n := b.length
  if R.length < n ∨ (0 < n ∧ R.width < n) then .error .indexOutOfRange
  else if R.width ≠ n ∧ hasPivot R n then .error .shapeMismatch
  else .ok (backSubstitute (fromDiagonal R) b)

/-- Apply a method for vectors to a right hand side of any shape. An equation with a pivot needs a
number on its right hand side. -/
def withRightHandSide (method : Vec α → Except Error (Vec α)) (R : Rows α) (b : Tensor α) :
    Except Error (Vec α) := do
  let n ← b.length
  if b.shape = [n] then method b.entries
  else
    let x ← method (Vec.zeros n)
    if hasPivot R n then throw .shapeMismatch else return x

/-- Solve a triangular system given by arrays. Only a matrix has pivots by which the right hand side
can be divided. In an array of higher rank a single zero counts as a zero pivot, and in an array of
lower rank there is nothing to look for a pivot in. -/
def solveArray (R b : Tensor α) : Except Error (Vec α) := do
  let n ← b.length
  let rows := R.slices.map Tensor.entries
  match R.shape with
  | [_, _] => withRightHandSide (solve rows) rows b
  | m :: k :: parts =>
    if n = 0 then return []
    else if m < n ∨ k < n then throw .indexOutOfRange
    else if Tensor.count parts ≠ 1 ∨ hasPivot rows n then throw .shapeMismatch
    else return Vec.zeros n
  | _ => if n = 0 then return [] else throw .indexOutOfRange

end Triangular

end NewtonKrylov
