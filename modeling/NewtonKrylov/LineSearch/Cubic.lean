import NewtonKrylov.LineSearch.Quadratic

/-!
# The cubic model of the residual norm

Along a step the residual norm is modelled by `r(s) = a' s³ + b' s² - r₀ s + r₀` through two
samples. `Cubic.minimizer?` is the scale of its local minimum between zero and one. There is none if
the samples coincide or are not finite. `Cubic.nextScale` then halves the scale of the later sample.
-/

namespace NewtonKrylov

/-- A scale of the step with the residual norm there. -/
structure Sample (α : Type) where
  scale : α
  norm : α
  deriving Repr, DecidableEq

namespace Cubic

variable {α : Type} [CheckedScalar α]

/-- The least of a list of numbers, the first of them if several are least. -/
def least : List α → Option α
  | [] => none
  | s :: rest => some (rest.foldl (fun m t => if t < m then t else m) s)

/-- The roots of the derivative `a s² + b s + c` between zero and one where it increases. -/
def minimizers (a b c : α) : Except Error (List α) := do
  return (← Quadratic.roots a b c).filter fun s =>
    0 < s ∧ s < 1 ∧ 0 < ((2 : Nat) : α) * a * s + b

/-- The minimizer of the model between zero and one, from the norm `r₀` at zero and the two latest
samples. -/
def minimizer? (r₀ : α) (later earlier : Sample α) : Except Error (Option α) := do
  let sβ := later.scale
  let sγ := earlier.scale
  let sqβ ← CheckedScalar.square sβ
  let sqγ ← CheckedScalar.square sγ
  let det := sqβ * sqγ * (sβ - sγ)
  if det == 0 || !Scalar.isFinite det || !Scalar.isFinite (later.norm + earlier.norm) then
    return none
  let b₁ := sqβ * (earlier.norm + r₀ * (sγ - 1))
  let b₂ := sqγ * (later.norm + r₀ * (sβ - 1))
  let b ← CheckedScalar.quotient (((2 : Nat) : α) * (sβ * b₁ - sγ * b₂)) det
  let a ← CheckedScalar.quotient (-((3 : Nat) : α) * (b₁ - b₂)) det
  return least (← minimizers a b (-r₀))

/-- A minimizer, or half of the scale of the later sample where there is none. -/
def orHalf (later : Sample α) (s : Option α) : α := s.getD (Scalar.half * later.scale)

/-- The next scale, from the norm `r₀` at zero and the two latest samples. -/
def nextScale (r₀ : α) (later earlier : Sample α) : Except Error α :=
  (minimizer? r₀ later earlier).map (orHalf later)

end Cubic

end NewtonKrylov
