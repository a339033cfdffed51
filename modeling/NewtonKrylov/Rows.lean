import NewtonKrylov.Vec

/-!
# Matrices

A matrix is the list of its rows. A matrix with no row and a matrix with rows of no entry are both
possible, and `ofColumns` takes the number of rows, which a list of columns alone does not tell.
-/

namespace NewtonKrylov

/-- A matrix, as the list of its rows. -/
abbrev Rows (α : Type) := List (Vec α)

namespace Rows

variable {α : Type} [Scalar α]

/-- The matrix with `n` rows that has the given columns. -/
def ofColumns (n : Nat) (columns : List (Vec α)) : Rows α :=
  (List.range n).map fun i => columns.map (·.getD i 0)

/-- The product with a vector. -/
def apply (A : Rows α) (v : Vec α) : Vec α := A.map (Vec.dot · v)

/-- The product with a matrix that has `n` columns. -/
def mul (n : Nat) (A B : Rows α) : Rows α :=
  A.map fun row => (List.range n).map fun j => Vec.dot row (B.map (·.getD j 0))

/-- The entries on the diagonal. -/
def diagonal (A : Rows α) : Vec α :=
  (A.zipIdx.map fun (row, i) => row[i]?).filterMap id

/-- Multiply column `j` by the `j`-th factor. -/
def scaleColumns (A : Rows α) (s : Vec α) : Rows α := A.map (List.zipWith (· * ·) · s)

/-- The largest sum of absolute values of a column. -/
def oneNorm (A : Rows α) : α :=
  let sums := A.foldl (fun s row =>
    if s.isEmpty then row.map Scalar.abs else Vec.add s (row.map Scalar.abs)) []
  sums.foldl Scalar.max 0

/-- The number of columns, read off the first row. -/
def width (A : Rows α) : Nat := (A.head?.map List.length).getD 0

/-- Does every row have as many entries as there are rows? -/
def isSquare (A : Rows α) : Bool := !A.isEmpty && A.all (·.length == A.length)

/-! ### Numbers of rows -/

@[simp] theorem length_ofColumns (n : Nat) (columns : List (Vec α)) :
    (ofColumns n columns).length = n := by
  simp [ofColumns]

@[simp] theorem length_apply (A : Rows α) (v : Vec α) : (apply A v).length = A.length := by
  simp [apply]

@[simp] theorem length_scaleColumns (A : Rows α) (s : Vec α) :
    (scaleColumns A s).length = A.length := by
  simp [scaleColumns]

end Rows

end NewtonKrylov
