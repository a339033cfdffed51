import NewtonKrylov.Tensor.Algebra

/-!
# Finite differences

The Jacobian is only applied, by the difference quotient of the residual along a direction. Its
scale is a number, or an array that scales each entry of the direction by itself. Then the direction
and the difference may change their shapes, and an entry of the scale that is no number does harm
only where it meets another entry.
-/

namespace NewtonKrylov

/-- The scale of finite differences. -/
inductive DifferenceScale (α : Type) where
  | number (ε : Setting α)
  /-- An array, of which some entries or all may be unusable. -/
  | array (ε : Setting (Tensor (Setting α)))

namespace DifferenceScale

variable {α : Type} [Scalar α]

/-- Apply an operation to the entries of an array and of the scale that meet. -/
def entrywise (f : α → α → α) (t : Tensor α) (ε : Tensor (Setting α)) :
    Except Error (Tensor α) := do
  let u ← Tensor.combine (fun a e => e.map (f a)) t ε
  return ⟨u.shape, ← u.entries.mapM id⟩

/-- A direction times the scale. A single number cannot be scaled by an array. -/
def times (w : Tensor α) : DifferenceScale α → Except Error (Tensor α)
  | number ε => return w.smul (← ε)
  | array ε => if w.shape = [] then .error .wrongType else do entrywise (fun a e => e * a) w (← ε)

/-- A difference divided by the scale. -/
def quotient (change : Tensor α) : DifferenceScale α → Except Error (Tensor α)
  | number ε => do
    let ε ← ε
    return change.map (· / ε)
  | array ε => do entrywise (· / ·) change (← ε)

theorem times_number (ε : α) (w : Tensor α) : times w (number (.ok ε)) = .ok (w.smul ε) := rfl

theorem quotient_number (ε : α) (d : Tensor α) :
    quotient d (number (.ok ε)) = .ok (d.map (· / ε)) := rfl

end DifferenceScale

end NewtonKrylov
