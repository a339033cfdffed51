import NewtonKrylov.Guard

/-!
# Nonlinear systems

The problem to solve is `F(x) = 0`. A `NonlinearSystem` is its residual `F` with the guard for its
states.
-/

namespace NewtonKrylov

/-- A residual whose zero is looked for, with a guard for its states. -/
structure NonlinearSystem (α : Type) where
  residual : Operator α
  guard : Guard α := Guard.none

end NewtonKrylov
