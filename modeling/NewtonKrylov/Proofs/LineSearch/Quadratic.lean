import Mathlib.Algebra.QuadraticDiscriminant
import NewtonKrylov.LineSearch.Quadratic
import NewtonKrylov.Proofs.Effects
import NewtonKrylov.Proofs.Extended

/-!
# The roots of a quadratic polynomial with real coefficients

Without rounding the list of roots is complete, and no quotient on the way to it is refused: the
first root vanishes only with both coefficients after the leading one.
-/

namespace NewtonKrylov

namespace Quadratic

open Extended

variable {a b c : ℝ}

/-- The root of a polynomial that is linear. -/
lemma linear_eq_zero_iff (nonzero : b ≠ 0) (s : ℝ) : b * s + c = 0 ↔ s = -c / b := by
  rw [eq_div_iff nonzero, mul_comm s b]
  exact eq_neg_iff_add_eq_zero.symm

/-- The square root of the discriminant, with the sign of the middle coefficient. -/
noncomputable def signedRoot (a b c : ℝ) : ℝ := Scalar.sign b * √(b * b - 4 * a * c)

/-- The numerator of the root that is formed without cancellation. -/
noncomputable def stable (a b c : ℝ) : ℝ := -(1 / 2) * (b + signedRoot a b c)

lemma signedRoot_mul_self (real : 0 ≤ b * b - 4 * a * c) :
    signedRoot a b c * signedRoot a b c = b * b - 4 * a * c := by
  rw [signedRoot, mul_mul_mul_comm, Scalar.sign_mul_self, one_mul, Real.mul_self_sqrt real]

/-- The two roots have the product `c / a`. -/
lemma stable_mul (real : 0 ≤ b * b - 4 * a * c) :
    stable a b c * ((-b + signedRoot a b c) / 2) = a * c := by
  unfold stable
  linear_combination (-1 / 4) * signedRoot_mul_self real

/-- Both terms of the sum have the same sign, so it is zero only if both are. -/
lemma eq_zero_of_stable_eq_zero (leading : a ≠ 0) (real : 0 ≤ b * b - 4 * a * c)
    (vanishes : stable a b c = 0) : b = 0 ∧ c = 0 := by
  have nonneg : 0 ≤ √(b * b - 4 * a * c) := Real.sqrt_nonneg _
  have flat : b = 0 ∧ √(b * b - 4 * a * c) = 0 := by
    unfold stable signedRoot Scalar.sign at vanishes
    split_ifs at vanishes with sign
    · constructor <;> linarith
    · exact absurd vanishes (by linarith)
  obtain ⟨rfl, root⟩ := flat
  have product : a * c = 0 := by linarith [(Real.sqrt_eq_zero real).mp root]
  exact ⟨rfl, (mul_eq_zero.mp product).resolve_left leading⟩

/-- The formula for the roots where the leading coefficient and the numerator are not zero. -/
lemma eq_zero_iff_of_stable_ne_zero (leading : a ≠ 0) (real : 0 ≤ b * b - 4 * a * c)
    (nonzero : stable a b c ≠ 0) (s : ℝ) :
    a * (s * s) + b * s + c = 0 ↔ s = stable a b c / a ∨ s = c / stable a b c := by
  have first : stable a b c / a = (-b - signedRoot a b c) / (2 * a) := by
    unfold stable
    field_simp
    ring
  have second : c / stable a b c = (-b + signedRoot a b c) / (2 * a) := by
    rw [div_eq_div_iff nonzero (mul_ne_zero two_ne_zero leading)]
    linear_combination (-2) * stable_mul real
  have square : discrim a b c = signedRoot a b c * signedRoot a b c := by
    rw [discrim, signedRoot_mul_self real, sq]
  rw [quadratic_eq_zero_iff leading square, first, second]
  exact or_comm

/-- A polynomial with a negative discriminant has no root. -/
lemma ne_zero_of_discriminant_neg (negative : b * b - 4 * a * c < 0) (s : ℝ) :
    a * (s * s) + b * s + c ≠ 0 := by
  intro zero
  have square := discrim_eq_sq_of_quadratic_eq_zero zero
  rw [discrim, sq b] at square
  exact absurd negative (not_lt.mpr (square ▸ sq_nonneg _))

lemma roots_of_discriminant_nonneg (leading : a ≠ 0) (real : 0 ≤ b * b - 4 * a * c) :
    roots (a : Extended) (b : Extended) (c : Extended)
      = if stable a b c = 0 then .ok [0] else do
        return [← CheckedScalar.quotient (stable a b c : Extended) (a : Extended),
          ← CheckedScalar.quotient (c : Extended) (stable a b c : Extended)] := by
  simp [roots, leading, not_lt.mpr real, sqrt_coe real, stable, signedRoot]

/-- No quotient is refused, and the list holds all roots. -/
lemma roots_coe (a b c : ℝ) : ∃ l : List ℝ,
    roots (a : Extended) (b : Extended) (c : Extended) = .ok (l.map Extended.ofReal) ∧
      (a ≠ 0 ∨ b ≠ 0 → ∀ s, s ∈ l ↔ a * (s * s) + b * s + c = 0) := by
  -- The cases are the branches of the code: a polynomial of degree one at most, a negative
  -- discriminant, a numerator that is zero, and one that is not.
  by_cases leading : a = 0
  · subst leading
    by_cases middle : b = 0
    · exact ⟨[], by simp [roots, middle], by simp [middle]⟩
    · refine ⟨[-c / b], ?_, fun _ s => ?_⟩
      · simp [roots, middle, quotient_coe]
      · rw [List.mem_singleton, ← linear_eq_zero_iff middle, zero_mul, zero_add]
  by_cases imaginary : b * b - 4 * a * c < 0
  · refine ⟨[], ?_, fun _ s => ?_⟩
    · simp [roots, leading, imaginary]
    · simp [ne_zero_of_discriminant_neg imaginary s]
  rw [roots_of_discriminant_nonneg leading (not_lt.mp imaginary)]
  by_cases vanishes : stable a b c = 0
  · obtain ⟨rfl, rfl⟩ := eq_zero_of_stable_eq_zero leading (not_lt.mp imaginary) vanishes
    exact ⟨[0], if_pos vanishes, fun _ s => by simp [leading]⟩
  · refine ⟨[stable a b c / a, c / stable a b c], ?_, fun _ s => ?_⟩
    · simp [vanishes, quotient_coe _ leading, quotient_coe _ vanishes]
    · rw [eq_zero_iff_of_stable_ne_zero leading (not_lt.mp imaginary) vanishes]
      simp

/-! ### The two exact arithmetics -/

lemma roots_real_of_discriminant_nonneg (leading : a ≠ 0) (real : 0 ≤ b * b - 4 * a * c) :
    roots a b c = if stable a b c = 0 then .ok [0] else do
        return [← CheckedScalar.quotient (stable a b c) a,
          ← CheckedScalar.quotient c (stable a b c)] := by
  simp [roots, Scalar.square_real, leading, sub_nonneg.mp real, stable, signedRoot,
    Scalar.half_real]

/-- The list of roots is the same in the arithmetic of the real numbers, where no value is
exceptional. -/
lemma roots_ofReal (a b c : ℝ) :
    roots (a : Extended) (b : Extended) (c : Extended) = (roots a b c).map (List.map ofReal) := by
  by_cases leading : a = 0
  · by_cases middle : b = 0
    · simp [roots, leading, middle, Except.map]
    · simp [roots, leading, middle, quotient_coe, Scalar.quotient_real, Except.map]
  by_cases imaginary : b * b - 4 * a * c < 0
  · have negative : b * b < 4 * a * c := sub_neg.mp imaginary
    simp [roots, leading, negative, Scalar.square_real, Except.map]
  rw [roots_of_discriminant_nonneg leading (not_lt.mp imaginary),
    roots_real_of_discriminant_nonneg leading (not_lt.mp imaginary)]
  by_cases vanishes : stable a b c = 0
  · simp [vanishes, Except.map]
  · simp [vanishes, leading, quotient_coe, Scalar.quotient_real, Except.map]

/-- The sum that both roots are formed from is zero only if there is nothing to be formed. -/
lemma numerator_eq_zero_iff (leading : a ≠ 0) (real : 0 ≤ b * b - 4 * a * c) :
    -Scalar.half * (b + Scalar.sign b * Scalar.sqrt (b * b - 4 * a * c)) = 0 ↔ b = 0 ∧ c = 0 := by
  rw [Scalar.half_real, Scalar.sqrt_real]
  constructor
  · exact eq_zero_of_stable_eq_zero leading real
  · rintro ⟨rfl, rfl⟩
    simp

/-- Unless a polynomial is constant, the list of its roots is complete. No quotient on the way to it
is refused, no value is exceptional, and the sum by which the second root is divided is zero only if
both coefficients after the leading one are. -/
theorem roots_complete (nonconstant : (a, b) ≠ (0, 0)) :
    ∃ l : List ℝ, roots a b c = .ok l ∧
      roots (a : Extended) (b : Extended) (c : Extended) = .ok (l.map Extended.ofReal) ∧
      (∀ s, s ∈ l ↔ a * s ^ 2 + b * s + c = 0) ∧
      (a ≠ 0 → 0 ≤ b ^ 2 - 4 * a * c →
        (-Scalar.half * (b + Scalar.sign b * Scalar.sqrt (b ^ 2 - 4 * a * c)) = 0
          ↔ b = 0 ∧ c = 0)) := by
  have some_nonzero : a ≠ 0 ∨ b ≠ 0 := by
    by_contra both
    push Not at both
    exact nonconstant (Prod.ext both.1 both.2)
  obtain ⟨l, extended, mem⟩ := roots_coe a b c
  obtain ⟨l', run, same⟩ := map_eq_ok.mp ((roots_ofReal a b c).symm.trans extended)
  obtain rfl : l' = l := List.map_injective_iff.mpr ofReal_injective same
  refine ⟨l', run, extended, fun s => ?_, fun leading real => ?_⟩
  · rw [sq]
    exact mem some_nonzero s
  · rw [sq] at real ⊢
    exact numerator_eq_zero_iff leading real

/-- Two roots, a double root at zero, and the root of a polynomial that is linear. -/
theorem roots_complete_oneAndTwo :
    (∃ l : List ℝ, roots 1 (-3) 2 = .ok l ∧ ∀ s, s ∈ l ↔ s = 1 ∨ s = 2) ∧
      (∃ l : List ℝ, roots 1 0 0 = .ok l ∧ ∀ s, s ∈ l ↔ s = 0) ∧
      ∃ l : List ℝ, roots 0 2 (-1) = .ok l ∧ ∀ s, s ∈ l ↔ s = 1 / 2 := by
  obtain ⟨l, two, -, two_mem, -⟩ := roots_complete (a := 1) (b := -3) (c := 2) (by simp)
  obtain ⟨k, double, -, double_mem, -⟩ := roots_complete (a := 1) (b := 0) (c := 0) (by simp)
  obtain ⟨m, linear, -, linear_mem, -⟩ := roots_complete (a := 0) (b := 2) (c := -1) (by simp)
  refine ⟨⟨l, two, fun s => (two_mem s).trans ?_⟩, ⟨k, double, fun s => (double_mem s).trans ?_⟩,
    m, linear, fun s => (linear_mem s).trans ?_⟩
  · rw [← sub_eq_zero (b := (1 : ℝ)), ← sub_eq_zero (b := (2 : ℝ)), ← mul_eq_zero]
    ring_nf
  · simp
  · constructor <;> intro root <;> linarith

end Quadratic

end NewtonKrylov
