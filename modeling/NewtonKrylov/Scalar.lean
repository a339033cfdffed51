/-!
# The arithmetic of the solver

Every method of the library is written once, over a type of numbers that has the operations of a
floating point format and no laws: sums, products, quotients, square roots, comparisons, and two
tests that tell the ordinary numbers from the exceptional ones.

The running program uses binary64. Exact arithmetic is another instance of the same class, so a
statement that needs no law holds of rounded and of exact computations alike.

Comparisons are those of the number format: with a number that is not one (NaN) each of them is
false, so `¬ a ≤ b` and `b < a` are different tests.
-/

namespace NewtonKrylov

/-- The operations the methods compute with. -/
class Scalar (α : Type) extends
    Zero α, One α, NatCast α, Add α, Sub α, Mul α, Div α, Neg α, LT α, LE α, BEq α where
  /-- Comparisons are tests of the program. -/
  decidableLT : DecidableLT α
  decidableLE : DecidableLE α
  sqrt : α → α
  abs : α → α
  /-- Is this the result of an undefined operation? -/
  isNaN : α → Bool
  /-- Is this neither infinite nor undefined? -/
  isFinite : α → Bool

instance Scalar.instDecidableLT {α : Type} [Scalar α] : DecidableLT α := Scalar.decidableLT

instance Scalar.instDecidableLE {α : Type} [Scalar α] : DecidableLE α := Scalar.decidableLE

instance : Scalar Float where
  zero := 0
  one := 1
  natCast := Float.ofNat
  decidableLT := inferInstance
  decidableLE := inferInstance
  sqrt := Float.sqrt
  abs := Float.abs
  isNaN := Float.isNaN
  isFinite := Float.isFinite

namespace Scalar

variable {α : Type} [Scalar α]

/-- One half. -/
def half : α := 1 / ((2 : Nat) : α)

/-- The sign of a number, where zero counts as positive. -/
def sign (s : α) : α := if 0 ≤ s then 1 else -1

/-- The spacing of binary64 numbers at one, a hundred times. -/
def hundredUlps : α := ((100 : Nat) : α) / ((4503599627370496 : Nat) : α)

/-- The larger of two numbers, NaN as soon as one of them is. -/
def max (a b : α) : α := if b < a ∨ isNaN a = true then a else b

/-- The smaller of two numbers, NaN as soon as one of them is. -/
def min (a b : α) : α := if a < b ∨ isNaN a = true then a else b

end Scalar

end NewtonKrylov
