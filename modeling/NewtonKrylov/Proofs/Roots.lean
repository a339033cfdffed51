import Mathlib
import NewtonKrylov.Proofs.Comparison

/-!
# Roots are not below zero

Whatever the number format, a tolerance is a product of a factor that is not negative with a
Euclidean norm, which is a root. Such a product is not below zero, though it may be `nan`. So a
number that is zero never exceeds a tolerance. `LawfulRoots` says so of an arithmetic, beside that
the root of zero is zero.

A binary64 number is not below zero if its sign is positive, or if it is a zero or `nan`. A product
gets the product of the signs, a root that is not a zero is positive, and what is stored for a
rounded number keeps the sign.
-/

namespace NewtonKrylov

/-- The laws of square roots of a number format. -/
class LawfulRoots (α : Type) [Scalar α] : Prop where
  sqrt_zero : (Scalar.sqrt (0 : α) == 0) = true
  not_mul_sqrt_lt {t a c : α} : 0 ≤ t → (c == 0) = true → ¬ t * Scalar.sqrt a < c

instance : LawfulRoots ℝ where
  sqrt_zero := by simp
  not_mul_sqrt_lt {t a c} nonneg zero := by
    rw [beq_iff_eq] at zero
    rw [zero, not_lt]
    exact mul_nonneg nonneg (Real.sqrt_nonneg a)

namespace Extended

open scoped Classical in
/-- The root of a number is `nan` or at least zero. -/
lemma root_cases (a : Extended) : root a = nan ∨ ∃ y : EReal, 0 ≤ y ∧ root a = number y := by
  match a with
  | nan => exact .inl rfl
  | number x =>
    unfold root
    dsimp only
    split_ifs
    · exact .inl rfl
    · exact .inr ⟨⊤, le_top, rfl⟩
    · exact .inr ⟨_, EReal.coe_nonneg.mpr (Real.sqrt_nonneg _), rfl⟩

lemma not_nan_lt (c : Extended) : ¬ nan < c := id

/-- A product of numbers that are not negative is `nan` or not negative. -/
lemma not_mul_lt_zero {x y : EReal} (hx : 0 ≤ x) (hy : 0 ≤ y) :
    ¬ number x * number y < number 0 := by
  change ¬ lift₂ _ _ (number x) (number y) < number 0
  unfold lift₂
  dsimp only
  split_ifs
  · exact not_nan_lt _
  · exact not_lt.mpr (EReal.mul_nonneg hx hy)

end Extended

open scoped Classical in
instance : LawfulRoots Extended where
  sqrt_zero := by
    change decide (Extended.Holds (· = ·) (Extended.root (.number 0)) (.number 0)) = true
    simp [Extended.root, Extended.Holds]
  not_mul_sqrt_lt {t a c} nonneg zero := by
    match t, c with
    | .nan, _ => exact absurd nonneg id
    | .number _, .nan => exact absurd (of_decide_eq_true zero) id
    | .number x, .number z =>
      have same : Extended.Holds (· = ·) (.number z) (.number 0) := of_decide_eq_true zero
      obtain rfl : z = 0 := same
      change ¬ Extended.number x * Extended.root a < Extended.number 0
      rcases Extended.root_cases a with undefined | ⟨y, hy, root⟩
      · rw [undefined]
        exact Extended.not_nan_lt _
      · rw [root]
        exact Extended.not_mul_lt_zero nonneg hy

namespace Binary64

open Float.Model UnpackedFloat

/-- Is this a number that is not below zero, or no number? -/
def NotNegative : UnpackedFloat → Prop
  | .infinity .negative | .finite .negative _ _ _ => False
  | _ => True

variable {u v : UnpackedFloat}

lemma notNegative_of_le {s : Sign} (le : (UnpackedFloat.zero s).le u = true) : NotNegative u := by
  rcases u with (_ | _) | _ | _ | ⟨_ | _⟩
  all_goals trivial

lemma NotNegative.not_lt_zero {s : Sign} (notNegative : NotNegative u)
    (zero : v.beq (.zero s) = true) : u.lt v = false := by
  have isZero : ∃ t, v = .zero t := by
    rcases v with (_ | _) | _ | t | ⟨_ | _⟩
    case zero => exact ⟨t, rfl⟩
    all_goals exact absurd zero Bool.false_ne_true
  obtain ⟨t, rfl⟩ := isZero
  rcases u with (_ | _) | _ | _ | ⟨_ | _⟩
  case infinity.negative | finite.negative => exact absurd notNegative id
  all_goals rfl

lemma notNegative_roundWithAccuracy (spec : Format) (m : ℕ) (e : ℤ) (acc : Accuracy) :
    NotNegative (roundWithAccuracy spec .positive m e acc) := by
  unfold roundWithAccuracy
  dsimp only
  split <;> trivial

lemma NotNegative.mul (spec : Format) (hu : NotNegative u) (hv : NotNegative v) :
    NotNegative (u.mul spec v) := by
  rcases u with (_ | _) | _ | _ | ⟨_ | _⟩ <;> rcases v with (_ | _) | _ | _ | ⟨_ | _⟩
  case finite.positive.finite.positive => exact notNegative_roundWithAccuracy _ _ _ _
  all_goals trivial

lemma notNegative_sqrt (spec : Format) (u : UnpackedFloat) : NotNegative (u.sqrt spec) := by
  rcases u with (_ | _) | _ | _ | ⟨_ | _⟩
  case finite.positive => exact notNegative_roundWithAccuracy _ _ _ _
  all_goals trivial

/-- A word whose sign is positive holds nothing negative. -/
lemma notNegative_unpack_packComponents (spec : Format) (e : BitVec spec.exponentBits)
    (m : BitVec spec.mantissaBitsWithoutImplicit) :
    NotNegative (UnpackedFloat.unpack spec (packComponents spec .positive e m)) := by
  unfold UnpackedFloat.unpack
  rw [unpackSign_packComponents]
  dsimp only
  split_ifs <;> trivial

/-- What is stored for a number that is not negative is not negative. -/
lemma NotNegative.unpack_pack (notNegative : NotNegative u) :
    NotNegative (Float.Model.pack u).unpack := by
  rcases u with (_ | _) | _ | (_ | _) | ⟨_ | _⟩
  case infinity.negative | finite.negative => exact absurd notNegative id
  case zero.negative => trivial
  case finite.positive =>
    change NotNegative (UnpackedFloat.unpack _ (UnpackedFloat.pack _ _))
    unfold UnpackedFloat.pack
    dsimp only
    split_ifs <;> exact notNegative_unpack_packComponents _ _ _
  all_goals exact notNegative_unpack_packComponents _ _ _

end Binary64

instance : LawfulRoots Float where
  sqrt_zero := by decide
  not_mul_sqrt_lt {t a c} nonneg zero := by
    have factor : Binary64.NotNegative t.toModel.unpack :=
      Binary64.notNegative_of_le (of_decide_eq_true nonneg : (0 : Float).toModel ≤ t.toModel)
    have root : Binary64.NotNegative a.sqrt.toModel.unpack :=
      (Binary64.notNegative_sqrt _ _).unpack_pack
    have product : Binary64.NotNegative (t * a.sqrt).toModel.unpack :=
      (factor.mul _ root).unpack_pack
    intro lt
    have lt : (t * a.sqrt).toModel < c.toModel := of_decide_eq_true lt
    exact Bool.false_ne_true ((product.not_lt_zero zero).symm.trans lt)

end NewtonKrylov
