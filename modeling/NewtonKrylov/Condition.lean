import NewtonKrylov.Rows

/-!
# The condition of a matrix

The condition number of a square matrix is the product of its one norm with that of its inverse. It
is infinite for a singular matrix, and also where the inverse is out of the range of the number
format; it is undefined where the matrix itself has an undefined entry.

`inverse` eliminates with the largest pivot of each column, on pairs of what is left of a row and
the row of the identity beside it.
-/

namespace NewtonKrylov

namespace Rows

variable {α : Type} [Scalar α]

/-- A row under elimination, beside its right hand sides. -/
abbrev AugmentedRow (α : Type) := Vec α × Vec α

/-- The first entry of the part of a row that is left. -/
def AugmentedRow.leading (r : AugmentedRow α) : α := r.1.headD 0

/-- The row whose leading entry is largest, with the other rows. -/
def takePivot (r : AugmentedRow α) :
    List (AugmentedRow α) → AugmentedRow α × List (AugmentedRow α)
  | [] => (r, [])
  | s :: rest =>
    if Scalar.abs r.leading < Scalar.abs s.leading then
      let (p, others) := takePivot s rest
      (p, r :: others)
    else
      let (p, others) := takePivot r rest
      (p, s :: others)

/-- Remove the leading entry of a row by subtracting a multiple of the pivot row. -/
def cancelLeading (p r : AugmentedRow α) : AugmentedRow α :=
  let factor := r.leading / p.leading
  (Vec.sub (r.1.drop 1) (Vec.smul factor (p.1.drop 1)), Vec.sub r.2 (Vec.smul factor p.2))

/-- Bring `n` rows into triangular form, unless a pivot is zero. -/
def eliminate : Nat → List (AugmentedRow α) → Option (List (AugmentedRow α))
  | n + 1, r :: rows =>
    let (p, others) := takePivot r rows
    if p.leading == 0 then none
    else (eliminate n (others.map (cancelLeading p))).map (p :: ·)
  | _, _ => some []

/-- Solve a triangular system for several right hand sides; the unknowns come as rows. -/
def solveRows : List (AugmentedRow α) → Rows α
  | [] => []
  | r :: rows =>
    let unknowns := solveRows rows
    let known := (List.zip (r.1.drop 1) unknowns).foldl
      (fun b (c, x) => Vec.sub b (Vec.smul c x)) r.2
    Vec.divBy known r.leading :: unknowns

/-- The inverse of a square matrix that has one. -/
def inverse (A : Rows α) : Option (Rows α) :=
  let n := A.length
  let augmented := A.zipIdx.map fun (row, i) =>
    (row, (List.range n).map fun j => if i = j then (1 : α) else 0)
  (eliminate n augmented).map solveRows

/-- The condition number in the one norm, or nothing where it is infinite. -/
def conditionNumber (A : Rows α) : Option α :=
  let norm := A.oneNorm
  if Scalar.isNaN norm && A.any (·.any Scalar.isNaN) then some norm
  else
    match A.inverse with
    | none => none
    | some B =>
      let c := norm * B.oneNorm
      if Scalar.isNaN c then none else some c

/-- Is the reciprocal of the condition number above a hundred roundings of one? -/
def isWellConditioned (A : Rows α) : Bool :=
  match A.conditionNumber with
  | none => false
  | some c => Scalar.hundredUlps < 1 / c

end Rows

end NewtonKrylov
