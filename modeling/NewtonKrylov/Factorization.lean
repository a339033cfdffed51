import NewtonKrylov.Reflection
import NewtonKrylov.Rows
import NewtonKrylov.Tensor

/-!
# A factorization that grows by columns

A `Factorization` holds the columns it has been given, transformed by one reflection each, for up
to `capacity` columns of `rows` entries. Reflection `m` acts on the entries from `m` on.

`extend` folds a column in: the reflections so far act on it, a new one is made for the entries that
are left, and acts on these entries of all columns. `column j` is column `j` of the orthogonal
factor and `triangular` the triangular one. The entries of a transformed column below the diagonal
are round-off; they stay with the column and `triangular` leaves them out.
-/

namespace NewtonKrylov

/-- A factorization of the columns given so far. -/
structure Factorization (α : Type) where
  rows : Nat
  /-- The largest number of columns. -/
  capacity : Nat
  /-- The reflectors, each of them on the entries it acts on. -/
  reflectors : List (Vec α)
  columns : List (Vec α)
  deriving Repr

namespace Factorization

variable {α : Type}

/-- A factorization of no columns. -/
def empty (rows capacity : Nat) : Factorization α := ⟨rows, capacity, [], []⟩

/-- A factorization of no columns, with room for `capacity` columns of length `rows`. -/
def create (rows capacity : Int) : Except Error (Factorization α) :=
  if capacity > rows then .error (.capacityExceedsRows capacity rows)
  else if capacity < 0 then .error .negativeDimension
  else .ok (empty rows.toNat capacity.toNat)

/-- The number of columns. -/
def size (f : Factorization α) : Nat := f.reflectors.length

/-- Forget all columns. -/
def reset (f : Factorization α) : Factorization α := empty f.rows f.capacity

variable [Scalar α]

/-- Reflect the entries of a column from `k` on, as one column of a block. -/
def reflectFrom (k : Nat) (h column : Vec α) : Vec α :=
  let active := column.drop k
  let d := Vec.dot h active
  column.take k ++ List.zipWith (fun a b => a - ((2 : Nat) : α) * (b * d)) active h

/-- Fold in a vector of the right length. -/
def push (f : Factorization α) (v : Vec α) : Factorization α :=
  let w := Reflection.applyAll f.reflectors v
  let h := Reflection.reflector (w.drop f.size)
  { f with
    reflectors := f.reflectors ++ [h]
    columns := (f.columns ++ [w]).map (reflectFrom f.size h) }

/-- Fold in a column, if there is room for it and it has the right shape. -/
def extend (f : Factorization α) (column : Tensor α) : Except Error (Factorization α) :=
  if f.capacity ≤ f.size then .error (.factorizationFull f.capacity)
  else if column.shape = [f.rows] then .ok (f.push column.entries)
  else .error (.columnShape f.rows column.shape)

/-- Column `j` of the orthogonal factor. -/
def column (f : Factorization α) (j : Nat) : Vec α := Reflection.axisImage f.reflectors j

/-- Column `j` of the orthogonal factor, if there is one. -/
def column? (f : Factorization α) (j : Int) : Except Error (Vec α) :=
  if 0 ≤ j ∧ j < f.size then .ok (f.column j.toNat) else .error (.columnUnavailable j f.size)

/-- The orthogonal factor. -/
def orthogonal (f : Factorization α) : Rows α :=
  Rows.ofColumns f.rows ((List.range f.size).map f.column)

/-- The triangular factor. -/
def triangular (f : Factorization α) : Rows α :=
  (List.range f.size).map fun i =>
    f.columns.zipIdx.map fun (c, j) => if j < i then 0 else c.getD i 0

/-- The matrix of all columns there is room for, where the unused ones are zero. -/
def arena (f : Factorization α) (columns : List (Vec α)) : Rows α :=
  Rows.ofColumns f.rows
    (columns ++ List.replicate (f.capacity - columns.length) (Vec.zeros f.rows))

/-- The matrix of reflectors, each with zeros in the entries it does not act on. -/
def reflectorArena (f : Factorization α) : Rows α :=
  f.arena (f.reflectors.zipIdx.map fun (h, m) => Vec.zeros m ++ h)

/-- The matrix of transformed columns. -/
def columnArena (f : Factorization α) : Rows α := f.arena f.columns

/-! ### Size and shape -/

omit [Scalar α] in
@[simp] theorem size_empty (rows capacity : Nat) :
    (empty rows capacity : Factorization α).size = 0 := rfl

omit [Scalar α] in
@[simp] theorem size_reset (f : Factorization α) : f.reset.size = 0 := rfl

@[simp] theorem size_push (f : Factorization α) (v : Vec α) : (f.push v).size = f.size + 1 := by
  simp [push, size]

@[simp] theorem rows_push (f : Factorization α) (v : Vec α) : (f.push v).rows = f.rows := rfl

@[simp] theorem capacity_push (f : Factorization α) (v : Vec α) :
    (f.push v).capacity = f.capacity := rfl

theorem extend_eq_ok_iff (f g : Factorization α) (column : Tensor α) :
    f.extend column = .ok g ↔
      f.size < f.capacity ∧ column.shape = [f.rows] ∧ g = f.push column.entries := by
  unfold extend
  split
  · next full => simp; omega
  · next room =>
    split
    · next shape => simp [shape, eq_comm]; omega
    · next shape => simp [shape]

theorem column?_eq_ok_iff (f : Factorization α) (j : Int) (q : Vec α) :
    f.column? j = .ok q ↔ 0 ≤ j ∧ j < f.size ∧ q = f.column j.toNat := by
  unfold column?
  split
  · next available => simp [available, eq_comm]
  · next missing =>
    simp only [reduceCtorEq, false_iff, not_and]
    intro nonneg below
    exact absurd ⟨nonneg, below⟩ missing

end Factorization

end NewtonKrylov
