import NewtonKrylov.Arena
import NewtonKrylov.Krylov.Cycle

/-!
# A cycle in place

`Arrays` keeps a work space in arrays that are allocated once: a matrix for the directions, a vector
for the coefficients, and the arena of the factorization. Step `k` of a cycle writes its direction
into column `k` of the matrix and its coefficient into entry `k` of the vector, and a cycle begins
by writing zeros everywhere. What has been written stays, also where a step fails.

Here a matrix is the list of its columns, as it is in an arena.
-/

namespace NewtonKrylov

/-- The arrays of a work space. -/
structure Arrays (α : Type) where
  dimension : Nat
  /-- The largest number of steps of a cycle. -/
  capacity : Nat
  /-- The matrix of directions. -/
  directions : List (Vec α)
  /-- The choices of the directions so far, which are not kept in an array. -/
  choices : List DirectionSource
  coefficients : Vec α
  arena : Arena α
  deriving Repr

namespace Arrays

open NewtonKrylov.Cycle

/-- A computation on arrays. -/
abbrev ArraysM (α : Type) := ExceptT Error (StateM (Arrays α))

variable {α : Type} [Scalar α]

/-- Arrays of zeros. -/
def blank (dimension capacity : Nat) : Arrays α where
  dimension := dimension
  capacity := capacity
  directions := List.replicate capacity (Vec.zeros dimension)
  choices := []
  coefficients := Vec.zeros capacity
  arena := Arena.blank dimension capacity

/-- Arrays for at most `steps` steps, and no more than the dimension has. -/
def create (dimension steps : Int) : Except Error (Arrays α) :=
  let capacity := min steps dimension
  if dimension < 0 ∨ capacity < 0 then .error .negativeDimension
  else .ok (blank dimension.toNat capacity.toNat)

omit [Scalar α] in
/-- A computation on the arena, which leaves the other arrays as they are. -/
def onArena {β : Type} (m : Arena.ArenaM α β) : ArraysM α β :=
  ExceptT.mk fun a => ((m.run a.arena).1, { a with arena := (m.run a.arena).2 })

/-- Write zeros everywhere and forget the choices. -/
def reset : ArraysM α Unit := do
  modify fun a => { a with
    directions := a.directions.map fun c => c.map fun _ => 0
    coefficients := a.coefficients.map fun _ => 0 }
  onArena Arena.reset
  modify fun a => { a with choices := [] }

omit [Scalar α] in
/-- Write a direction into its column. -/
def record (a : Arrays α) (k : Nat) (choice : DirectionSource) (z : Vec α) : Arrays α :=
  { a with directions := a.directions.set k z, choices := a.choices ++ [choice] }

/-- Krylov step `k`. -/
def step (op : Operator α) (threshold : Setting α) (k : Nat) (p : Progress α) :
    ArraysM α (Progress α) := do
  let (choice, z) ← nextDirection threshold p
  let a ← get
  let stored ← z.fill a.dimension
  set (a.record k choice stored)
  let image ← op z
  let _ ← onArena (Arena.extend image)
  let q ← (← get).arena.column k
  let c ← (← Tensor.product (Tensor.ofVec q) p.residual).number
  modify fun a => { a with coefficients := a.coefficients.set k c }
  let r ← Tensor.combine (· - ·) p.residual (Tensor.ofVec (Vec.smul c q))
  return ⟨r, r.norm, p.norm, some q⟩

/-- At most the given number of steps from step `k` on, with the residual norm after each. -/
def iterate (op : Operator α) (threshold tolerance : Setting α) :
    Nat → Nat → Progress α → ArraysM α (Progress α × List α)
  | _, 0, p => return (p, [])
  | k, n + 1, p => do
    let p' ← step op threshold k p
    if p'.norm < (← tolerance) ∨ (p'.norm == 0) = true then return (p', [p'.norm])
    else
      let (last, norms) ← iterate op threshold tolerance (k + 1) n p'
      return (last, p'.norm :: norms)

/-- A cycle from a residual of a given norm. Only the columns and entries that its steps have
written are read in the end. -/
def run (op : Operator α) (r : Tensor α) (norm : α) (threshold tolerance : Setting α)
    (maxSteps : Int) : ArraysM α (Outcome α) := do
  reset
  let a ← get
  let steps := (min maxSteps a.capacity).toNat
  if norm == 0 then return ⟨Vec.zeros a.dimension, r, 0, 0, []⟩
  else if steps = 0 then return ⟨Vec.zeros a.dimension, r, norm, 0, []⟩
  else
    let (last, norms) ← iterate op threshold tolerance 0 steps ⟨r, norm, norm, none⟩
    let a ← get
    let y ← Triangular.leastSquares a.arena.triangular (a.coefficients.take norms.length)
    return ⟨Vec.linearCombination a.dimension y (a.directions.take norms.length), last.residual,
      last.norm, norms.length, norms⟩

end Arrays

end NewtonKrylov
