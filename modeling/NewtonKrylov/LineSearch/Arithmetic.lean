import NewtonKrylov.Error
import NewtonKrylov.Scalar

/-!
# Arithmetic that refuses exceptional operations

Quotients and squares can be computed in two manners: a number format may go on with an infinity
where a divisor is zero or a square overflows, or the operation may be refused. A type of numbers
says through `CheckedScalar` what it does.

Binary64 numbers refuse nothing. A `Strict` number is a binary64 number with a mark: an operation is
refused if all its operands are marked, and its result is marked if they all are. A square root is
never marked.
-/

namespace NewtonKrylov

/-- Numbers with quotients and squares that may be refused. -/
class CheckedScalar (α : Type) extends Scalar α where
  quotient : α → α → Except Error α
  square : α → Except Error α

instance : CheckedScalar Float where
  quotient a b := .ok (a / b)
  square a := .ok (a * a)

/-- A number that may refuse exceptional operations. -/
structure Strict where
  value : Float
  /-- Does it refuse? -/
  refuses : Bool := true
  deriving Repr

namespace Strict

/-- An operation on values, the result of which refuses if both operands do. -/
def lift₂ (f : Float → Float → Float) (a b : Strict) : Strict :=
  ⟨f a.value b.value, a.refuses && b.refuses⟩

/-- The quotient by zero is refused. -/
def quotient (a b : Strict) : Except Error Strict :=
  if a.refuses && b.refuses && b.value == 0 then .error .zeroDivision
  else .ok (lift₂ (· / ·) a b)

/-- A square that is infinite although the number is not is refused. -/
def square (a : Strict) : Except Error Strict :=
  let s := lift₂ (· * ·) a a
  if a.refuses && a.value.isFinite && s.value.isInf then .error .overflow else .ok s

instance : Scalar Strict where
  zero := ⟨0, true⟩
  one := ⟨1, true⟩
  natCast n := ⟨Float.ofNat n, true⟩
  add := lift₂ (· + ·)
  sub := lift₂ (· - ·)
  mul := lift₂ (· * ·)
  div := lift₂ (· / ·)
  neg a := ⟨-a.value, a.refuses⟩
  lt a b := a.value < b.value
  le a b := a.value ≤ b.value
  beq a b := a.value == b.value
  decidableLT a b := inferInstanceAs (Decidable (a.value < b.value))
  decidableLE a b := inferInstanceAs (Decidable (a.value ≤ b.value))
  sqrt a := ⟨a.value.sqrt, false⟩
  abs a := ⟨a.value.abs, a.refuses⟩
  isNaN a := a.value.isNaN
  isFinite a := a.value.isFinite

instance : CheckedScalar Strict where
  quotient := quotient
  square := square

end Strict

end NewtonKrylov
