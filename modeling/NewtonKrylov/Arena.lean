import NewtonKrylov.Factorization

/-!
# A factorization in place

An `Arena` keeps a factorization in two matrices that are allocated once: one for the reflectors and
one for the transformed columns. `extend` tests its column, writes the new reflector and the new
column into their places, and then reflects the lower part of all columns in use. `reset` writes
zeros everywhere. Both are computations on the arena, so what they have written stays, also where
they fail.

Here a matrix is the list of its columns, and a slice of a column is a part of a list.
-/

namespace NewtonKrylov

/-- The matrices of a factorization, by their columns, and how many columns are in use. -/
structure Arena (α : Type) where
  rows : Nat
  /-- The number of columns of either matrix. -/
  capacity : Nat
  /-- The matrix of reflectors. -/
  reflectors : List (Vec α)
  /-- The matrix of transformed columns. -/
  columns : List (Vec α)
  size : Nat
  deriving Repr

namespace Arena

/-- A computation on an arena. -/
abbrev ArenaM (α : Type) := ExceptT Error (StateM (Arena α))

variable {α : Type} [Scalar α]

/-- An arena of zeros. -/
def blank (rows capacity : Nat) : Arena α where
  rows := rows
  capacity := capacity
  reflectors := List.replicate capacity (Vec.zeros rows)
  columns := List.replicate capacity (Vec.zeros rows)
  size := 0

/-- An arena for up to `capacity` columns of length `rows`. -/
def create (rows capacity : Int) : Except Error (Arena α) :=
  if capacity > rows then .error (.capacityExceedsRows capacity rows)
  else if capacity < 0 then .error .negativeDimension
  else .ok (blank rows.toNat capacity.toNat)

/-- Write zeros into both matrices. -/
def reset : ArenaM α Unit :=
  modify fun a => { a with
    reflectors := a.reflectors.map fun c => c.map fun _ => 0
    columns := a.columns.map fun c => c.map fun _ => 0
    size := 0 }

/-- Write into the entries of a column from `k` on. -/
def writeFrom (k : Nat) (part column : Vec α) : Vec α := column.take k ++ part

/-- Reflect the entries of a vector from `m` on, along the same part of reflector `m`. -/
def reflectAt (a : Arena α) (v : Vec α) (m : Nat) : Vec α :=
  writeFrom m (Reflection.image ((a.reflectors.getD m []).drop m) (v.drop m)) v

/-- Write a new reflector and a new column into their places, and reflect the lower part of all
columns in use. The answer is the new number of columns. -/
def fold (column : Vec α) : ArenaM α Nat := do
  let a ← get
  let k := a.size
  let v := (List.range k).foldl a.reflectAt column
  let h := Reflection.reflector (v.drop k)
  modify fun a => { a with reflectors := a.reflectors.modify k (writeFrom k h) }
  modify fun a => { a with columns := a.columns.set k v }
  modify fun a => { a with
    columns := (a.columns.take (k + 1)).map (Factorization.reflectFrom k h)
      ++ a.columns.drop (k + 1) }
  modify fun a => { a with size := k + 1 }
  return k + 1

/-- Fold in a column, if there is room for it and it has the right shape. -/
def extend (column : Tensor α) : ArenaM α Nat := do
  let a ← get
  if a.capacity ≤ a.size then
    throw (.factorizationFull a.capacity)
  else if column.shape = [a.rows] then
    fold column.entries
  else
    throw (.columnShape a.rows column.shape)

/-- The image of axis `j` under the reflections up to `j`, the last one first. -/
def axisImage (a : Arena α) (j : Nat) : Vec α :=
  (List.range (j + 1)).reverse.foldl a.reflectAt ((Vec.zeros a.rows).set j 1)

/-- Column `j` of the orthogonal factor, if there is one. -/
def column (a : Arena α) (j : Int) : Except Error (Vec α) :=
  if 0 ≤ j ∧ j < a.size then .ok (a.axisImage j.toNat) else .error (.columnUnavailable j a.size)

/-- The orthogonal factor. -/
def orthogonal (a : Arena α) : Rows α :=
  Rows.ofColumns a.rows ((List.range a.size).map a.axisImage)

/-- The triangular factor: the upper part of the transformed columns in use. -/
def triangular (a : Arena α) : Rows α :=
  (List.range a.size).map fun i => (List.range a.size).map fun j =>
    if j < i then 0 else (a.columns.getD j []).getD i 0

end Arena

end NewtonKrylov
