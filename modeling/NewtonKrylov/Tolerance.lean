import NewtonKrylov.Error

/-!
# Tolerances

A tolerance is what a number is compared with. A number that comes out of a computation with arrays
is compared like an array: the tolerance may then be an array with a single entry, but no integer
beyond the number format. A plain number is compared with plain numbers only, and these may be as
large as they like.

So what stands for a tolerance may be usable for the one comparison and not for the other, and a
`Tolerance` says of both what it is.
-/

namespace NewtonKrylov

/-- What numbers are compared with. -/
structure Tolerance (α : Type) where
  /-- The bound for a number that comes out of a computation with arrays. -/
  computed : Setting α
  /-- The bound for a plain number. -/
  plain : Setting α

namespace Tolerance

variable {α : Type}

/-- A number as a tolerance. -/
def ofNumber (a : α) : Tolerance α := ⟨.ok a, .ok a⟩

/-- The bound for a number, by whether it is plain. -/
def bound (t : Tolerance α) (isPlain : Bool) : Setting α := if isPlain then t.plain else t.computed

@[simp] theorem bound_true (t : Tolerance α) : t.bound true = t.plain := rfl

@[simp] theorem bound_false (t : Tolerance α) : t.bound false = t.computed := rfl

@[simp] theorem bound_ofNumber (a : α) (isPlain : Bool) :
    (ofNumber a).bound isPlain = .ok a := by cases isPlain <;> rfl

end Tolerance

end NewtonKrylov
