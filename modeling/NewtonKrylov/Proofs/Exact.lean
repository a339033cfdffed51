import Mathlib.Analysis.InnerProductSpace.PiL2
import NewtonKrylov.LineSearch.Arithmetic

/-!
# Exact arithmetic

The real numbers are an arithmetic of the methods: every operation is the one of the field, the
square root is that of the reals, every number is finite and none is undefined. Statements about
`Scalar ℝ` are statements about the methods without rounding.

A quotient by zero is zero here, where the number format has an exceptional value, so a statement
that relies on a quotient says beside it that the divisor is not zero.
-/

namespace NewtonKrylov

/-- Two is at least two. With a name for this fact a definition that mentions two holds no proof of
its own. -/
instance instAtLeastTwoTwo : Nat.AtLeastTwo 2 := ⟨le_rfl⟩

/-- The quotient of the field, whichever of its other instances are in scope. -/
noncomputable instance instDivReal : Div ℝ := DivInvMonoid.toDiv

noncomputable instance : Scalar ℝ where
  toZero := Real.instZero
  toOne := Real.instOne
  toNatCast := Real.instNatCast
  toAdd := Real.instAdd
  toSub := Real.instSub
  toMul := Real.instMul
  toDiv := inferInstance
  toNeg := Real.instNeg
  toLT := Real.instLT
  toLE := Real.instLE
  beq a b := decide (a = b)
  decidableLT := Real.decidableLT
  decidableLE := Real.decidableLE
  sqrt := Real.sqrt
  abs a := |a|
  isNaN _ := false
  isFinite _ := true

/-- A quotient is refused where there is none. -/
noncomputable instance : CheckedScalar ℝ where
  quotient a b := if b = 0 then .error .zeroDivision else .ok (a / b)
  square a := .ok (a * a)

namespace Scalar

instance : @LawfulBEq ℝ Scalar.toBEq where
  rfl := decide_eq_true rfl
  eq_of_beq := of_decide_eq_true

@[simp] lemma sqrt_real (a : ℝ) : sqrt a = √a := rfl

@[simp] lemma abs_real (a : ℝ) : abs a = |a| := rfl

@[simp] lemma isNaN_real (a : ℝ) : isNaN a = false := rfl

@[simp] lemma isFinite_real (a : ℝ) : isFinite a = true := rfl

lemma half_real : (half : ℝ) = 1 / 2 := by norm_num [half]

lemma quotient_real {b : ℝ} (a : ℝ) (nonzero : b ≠ 0) :
    CheckedScalar.quotient a b = .ok (a / b) := if_neg nonzero

lemma square_real (a : ℝ) : CheckedScalar.square a = .ok (a * a) := rfl

/-- A sign is never zero. -/
lemma sign_mul_self (a : ℝ) : sign a * sign a = 1 := by
  unfold sign
  split_ifs <;> norm_num

end Scalar

end NewtonKrylov
