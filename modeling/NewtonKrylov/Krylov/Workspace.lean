import NewtonKrylov.Factorization
import NewtonKrylov.Krylov.Direction

/-!
# The work space of a cycle

A `Workspace` holds what a cycle has built so far: the directions with their choices, the
factorization of their images, and the coefficients of the residual in the orthogonal factor. It
outlives the cycle, also one that was given up between two of these, and the next cycle starts by
forgetting all of it.
-/

namespace NewtonKrylov

/-- The directions, images and coefficients of a cycle. -/
structure Workspace (α : Type) where
  dimension : Nat
  /-- The largest number of steps of a cycle. -/
  capacity : Nat
  /-- The directions, in the order in which they were chosen. -/
  basis : List (DirectionSource × Vec α)
  /-- The coefficients of the residual in the orthogonal factor. -/
  coefficients : List α
  factorization : Factorization α
  deriving Repr

namespace Workspace

variable {α : Type}

/-- A work space that holds nothing. -/
def empty (dimension capacity : Nat) : Workspace α :=
  ⟨dimension, capacity, [], [], Factorization.empty dimension capacity⟩

/-- A work space for at most `steps` steps, and no more than the dimension has. -/
def create (dimension steps : Int) : Except Error (Workspace α) :=
  let capacity := min steps dimension
  if dimension < 0 ∨ capacity < 0 then .error .negativeDimension
  else .ok (empty dimension.toNat capacity.toNat)

/-- Forget the last cycle. -/
def reset (ws : Workspace α) : Workspace α := empty ws.dimension ws.capacity

/-- The choices of the directions. -/
def choices (ws : Workspace α) : List DirectionSource := ws.basis.map Prod.fst

/-- The directions. -/
def directions (ws : Workspace α) : List (Vec α) := ws.basis.map Prod.snd

/-- Add a direction. -/
def record (ws : Workspace α) (choice : DirectionSource) (z : Vec α) : Workspace α :=
  { ws with basis := ws.basis ++ [(choice, z)] }

variable [Scalar α]

/-- The matrix of directions, with zero columns for the steps not taken. -/
def directionArena (ws : Workspace α) : Rows α :=
  Rows.ofColumns ws.dimension
    (ws.directions
      ++ List.replicate (ws.capacity - ws.basis.length) (Vec.zeros ws.dimension))

/-- The coefficients, with zeros for the steps not taken. -/
def coefficientArena (ws : Workspace α) : Vec α :=
  ws.coefficients ++ Vec.zeros (ws.capacity - ws.coefficients.length)

/-! ### Size -/

omit [Scalar α] in
@[simp] theorem dimension_reset (ws : Workspace α) : ws.reset.dimension = ws.dimension := rfl

omit [Scalar α] in
@[simp] theorem capacity_reset (ws : Workspace α) : ws.reset.capacity = ws.capacity := rfl

omit [Scalar α] in
@[simp] theorem reset_reset (ws : Workspace α) : ws.reset.reset = ws.reset := rfl

omit [Scalar α] in
@[simp] theorem choices_record (ws : Workspace α) (choice : DirectionSource) (z : Vec α) :
    (ws.record choice z).choices = ws.choices ++ [choice] := by
  simp [record, choices]

omit [Scalar α] in
@[simp] theorem directions_record (ws : Workspace α) (choice : DirectionSource) (z : Vec α) :
    (ws.record choice z).directions = ws.directions ++ [z] := by
  simp [record, directions]

omit [Scalar α] in
theorem create_eq_ok_iff (dimension steps : Int) (ws : Workspace α) :
    create dimension steps = .ok ws ↔
      0 ≤ dimension ∧ 0 ≤ min steps dimension ∧
        ws = empty dimension.toNat (min steps dimension).toNat := by
  unfold create
  simp only
  split
  · next negative =>
    simp only [reduceCtorEq, false_iff, not_and]
    omega
  · next nonneg =>
    rw [Except.ok.injEq, eq_comm]
    constructor
    · intro same
      exact ⟨by omega, by omega, same⟩
    · rintro ⟨_, _, same⟩
      exact same

end Workspace

end NewtonKrylov
