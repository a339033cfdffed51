import NewtonKrylov.Tensor

/-!
# The choice of the next direction

A Krylov step continues from one of two unit vectors: the normalized residual, as long as the
residual decays fast, or the last column of the orthogonal factor, which keeps the directions apart
when the decay stalls.
-/

namespace NewtonKrylov

/-- Where a Krylov direction comes from. -/
inductive DirectionSource where
  | residual
  | column
  deriving Repr, DecidableEq

namespace DirectionSource

variable {α : Type} [Scalar α]

/-- The name of a source. -/
def name : DirectionSource → String
  | residual => "residual"
  | column => "gcr"

/-- The source of the next direction after a residual norm `norm` that follows `previous`. -/
def after (norm previous threshold : α) : DirectionSource :=
  if norm ≤ threshold * previous then residual else column

/-- The direction from a source, for a residual of a given norm and the last column. -/
def direction (source : DirectionSource) (r : Tensor α) (norm : α) (q : Tensor α) : Tensor α :=
  match source with
  | residual => r.map (· / norm)
  | column => q

end DirectionSource

end NewtonKrylov
