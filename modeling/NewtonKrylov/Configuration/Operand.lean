import NewtonKrylov.Tensor
import NewtonKrylov.Value

/-!
# Values as arrays

A list is an array if its items are arrays of one shape. All entries of an array are of one kind:
they are numbers if each of them is a number of a fixed width, texts if each is a text or such a
number, and otherwise the array keeps them as the values that they are. So an integer of more than
64 bits, or a missing value, makes all entries plain values.
-/

namespace NewtonKrylov

namespace Value

/-- The number that a value holds, if a fixed width is enough for it. -/
def fixedWidth? : Value → Option Float
  | .bool b => some (if b then 1 else 0)
  | .int n => if -Int.pow 2 63 ≤ n ∧ n < Int.pow 2 64 then some (Float.ofInt n) else none
  | .float x => some x
  | _ => none

mutual

/-- The array that a value is, which is a single entry unless the value is a list. -/
def toTensor? : Value → Option (Tensor Value)
  | .list vs => toTensors? vs >>= Tensor.stack?
  | v => some (Tensor.ofScalar v)

/-- The arrays that values are. -/
def toTensors? : List Value → Option (List (Tensor Value))
  | [] => some []
  | v :: vs => do return (← toTensor? v) :: (← toTensors? vs)

end

end Value

/-- An array of values, by the kind of its entries. -/
inductive Operand where
  | numbers (t : Tensor Float)
  | texts
  /-- Values of several kinds. -/
  | values (t : Tensor Value)

namespace Operand

/-- The kind of an array of values. -/
def ofTensor (t : Tensor Value) : Operand :=
  match t.entries.mapM Value.fixedWidth? with
  | some xs => numbers ⟨t.shape, xs⟩
  | none =>
    if t.entries.all fun v => v.codes?.isSome || v.fixedWidth?.isSome then texts else values t

/-- A value as an operand of operations on arrays. -/
def ofValue (v : Value) : Except Error Operand :=
  match v.toTensor? with
  | some t => .ok (ofTensor t)
  | none => .error .shapeMismatch

end Operand

end NewtonKrylov
