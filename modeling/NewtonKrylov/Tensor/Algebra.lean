import NewtonKrylov.Tensor

/-!
# Linear algebra on arrays

The Euclidean norm of an array is that of its entries. The maximum norm is the largest absolute
value of a vector, and the largest sum of absolute values of a row of a matrix; other arrays have
none.

The product of two arrays is the inner product of two vectors, the product of a matrix with a
vector, and in general a product of the matrices in the last two dimensions, where the dimensions
before them are spread. A single number has no product with an array. Lengths that have to agree
are never spread.
-/

namespace NewtonKrylov

namespace Tensor

variable {α : Type} [Scalar α]

/-- An array of zeros. -/
def zeros (shape : List Nat) : Tensor α := constant shape 0

/-- A multiple of an array. -/
def smul (c : α) (t : Tensor α) : Tensor α := t.map (c * ·)

/-- The Euclidean norm, without scaling. -/
def norm (t : Tensor α) : α := Vec.norm t.entries

/-- The maximum norm of a vector or of a matrix. -/
def maxNorm (t : Tensor α) : Except Error α :=
  match t.shape with
  | [_] => .ok (Vec.maxNorm t.entries)
  | [_, _] => .ok (Vec.maxNorm (t.slices.map fun row => (row.entries.map Scalar.abs).sum))
  | _ => .error .shapeMismatch

/-! ### Products -/

/-- The shape of a stack of matrices. -/
structure StackShape where
  /-- The sizes of the dimensions along which matrices are stacked. -/
  stacked : List Nat
  rows : Nat
  columns : Nat

namespace StackShape

/-- An array on the left of a product, where a vector is a matrix of one row. -/
def left? (shape : List Nat) : Option StackShape :=
  match shape.reverse with
  | [] => none
  | [n] => some ⟨[], 1, n⟩
  | n :: m :: stacked => some ⟨stacked.reverse, m, n⟩

/-- An array on the right of a product, where a vector is a matrix of one column. -/
def right? (shape : List Nat) : Option StackShape :=
  match shape.reverse with
  | [] => none
  | [n] => some ⟨[], n, 1⟩
  | n :: m :: stacked => some ⟨stacked.reverse, m, n⟩

/-- The matrices of a stack with the given entries. -/
def matrices (s : StackShape) (entries : List α) : Tensor (Rows α) :=
  ⟨s.stacked, (List.range (count s.stacked)).map fun i => (List.range s.rows).map fun j =>
    (entries.drop ((i * s.rows + j) * s.columns)).take s.columns⟩

end StackShape

/-- The dimensions of a shape, unless it is that of a vector. -/
def unlessVector (shape dimensions : List Nat) : List Nat :=
  if shape.length = 1 then [] else dimensions

/-- The product of two arrays. -/
def product (s t : Tensor α) : Except Error (Tensor α) :=
  match s.shape, t.shape with
  | [], [] => .error .wrongType
  | [n], [k] =>
    if n = k then .ok (ofScalar (Vec.dot s.entries t.entries)) else .error .shapeMismatch
  | [_, n], [k] =>
    if n = k then .ok (ofVec (Rows.apply (s.slices.map Tensor.entries) t.entries))
    else .error .shapeMismatch
  | _, _ =>
    match StackShape.left? s.shape, StackShape.right? t.shape with
    | some l, some r =>
      if l.columns = r.rows then do
        let stack ← combine (fun A B => Rows.mul r.columns A B) (l.matrices s.entries)
          (r.matrices t.entries)
        return ⟨stack.shape ++ unlessVector s.shape [l.rows] ++ unlessVector t.shape [r.columns],
          stack.entries.flatMap List.flatten⟩
      else .error .shapeMismatch
    | _, _ => .error .shapeMismatch

/-! ### Vectors -/

@[simp] theorem norm_ofVec (v : Vec α) : (ofVec v).norm = Vec.norm v := rfl

@[simp] theorem maxNorm_ofVec (v : Vec α) : (ofVec v).maxNorm = .ok (Vec.maxNorm v) := rfl

@[simp] theorem smul_ofVec (c : α) (v : Vec α) : (ofVec v).smul c = ofVec (Vec.smul c v) := by
  simp [smul, Vec.smul]

@[simp] theorem zeros_vector (n : Nat) : (zeros [n] : Tensor α) = ofVec (Vec.zeros n) := by
  simp [zeros, constant, count, ofVec, Vec.zeros]

theorem product_ofVec {u v : Vec α} (same : u.length = v.length) :
    product (ofVec u) (ofVec v) = .ok (ofScalar (Vec.dot u v)) := by
  simp [product, ofVec, same]

theorem product_matrix (A : Tensor α) {m : Nat} {v : Vec α} (square : A.shape = [m, v.length]) :
    product A (ofVec v) = .ok (ofVec (Rows.apply (A.slices.map Tensor.entries) v)) := by
  simp [product, ofVec, square]

end Tensor

end NewtonKrylov
