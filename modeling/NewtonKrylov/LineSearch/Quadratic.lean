import NewtonKrylov.LineSearch.Arithmetic

/-!
# The real roots of a quadratic polynomial

`Quadratic.roots a b c` lists the real roots of `a s² + b s + c`. The root that is formed as a sum
takes the sign of `b`, so that no cancellation occurs in it, and the other is `c` divided by it.
-/

namespace NewtonKrylov

namespace Quadratic

variable {α : Type} [CheckedScalar α]

/-- The real roots of `a s² + b s + c`, none if `a` and `b` are both zero. -/
def roots (a b c : α) : Except Error (List α) := do
  if a == 0 then
    if b == 0 then return [] else return [← CheckedScalar.quotient (-c) b]
  let discriminant := (← CheckedScalar.square b) - ((4 : Nat) : α) * a * c
  if discriminant < 0 then return []
  let q := -Scalar.half * (b + Scalar.sign b * Scalar.sqrt discriminant)
  if q == 0 then return [0]
  return [← CheckedScalar.quotient q a, ← CheckedScalar.quotient c q]

end Quadratic

end NewtonKrylov
