import Mathlib.Data.EReal.Inv
import NewtonKrylov.LineSearch.Arithmetic
import NewtonKrylov.Proofs.Exact
import NewtonKrylov.Vec

/-!
# Exact arithmetic with exceptional values

The extended real numbers, together with one value that is not a number, are an arithmetic of the
methods without rounding in which a computation can leave the real numbers, as it can in a floating
point format. Opposite infinities have no sum, zero and an infinity no product, two zeros and two
infinities no quotient, and negative numbers no square root. The result is then `nan`, and so is
every result computed from it. Every comparison with `nan` is false.

A checked quotient by zero is refused, so a checked computation that succeeds has divided by
nothing that is zero.
-/

namespace NewtonKrylov

/-- A real number, an infinity, or the result of an undefined operation. -/
inductive Extended where
  | number (x : EReal)
  | nan

namespace Extended

open scoped Classical in
/-- An operation on numbers as one that may be undefined. -/
noncomputable def lift₂ (isUndefined : EReal → EReal → Prop) (f : EReal → EReal → EReal) :
    Extended → Extended → Extended
  | number x, number y => if isUndefined x y then nan else number (f x y)
  | _, _ => nan

/-- A comparison of numbers, which is false for what is none. -/
def Holds (r : EReal → EReal → Prop) : Extended → Extended → Prop
  | number x, number y => r x y
  | _, _ => False

/-- Is this one of the two infinities? -/
def IsInfinite (x : EReal) : Prop := x = ⊤ ∨ x = ⊥

/-- The quotient of extended real numbers. That by zero is infinite. -/
noncomputable def ratio (x y : EReal) : EReal := if y = 0 then x * ⊤ else x / y

noncomputable def neg : Extended → Extended
  | number x => number (-x)
  | nan => nan

noncomputable def sum : Extended → Extended → Extended :=
  lift₂ (fun x y => IsInfinite x ∧ y = -x) (· + ·)

open scoped Classical in
/-- The square root, which negative numbers do not have. -/
noncomputable def root : Extended → Extended
  | number x => if x < 0 then nan else if x = ⊤ then number ⊤ else number (√x.toReal : ℝ)
  | nan => nan

noncomputable def magnitude : Extended → Extended
  | number x => number (max x (-x))
  | nan => nan

open scoped Classical in
noncomputable instance : Scalar Extended where
  zero := number 0
  one := number 1
  natCast n := number ((n : ℝ) : EReal)
  add := sum
  sub a b := sum a b.neg
  mul := lift₂ (fun x y => x = 0 ∧ IsInfinite y ∨ IsInfinite x ∧ y = 0) (· * ·)
  div := lift₂ (fun x y => x = 0 ∧ y = 0 ∨ IsInfinite x ∧ IsInfinite y) ratio
  neg := neg
  lt := Holds (· < ·)
  le := Holds (· ≤ ·)
  beq a b := decide (Holds (· = ·) a b)
  decidableLT _ _ := inferInstance
  decidableLE _ _ := inferInstance
  sqrt := root
  abs := magnitude
  isNaN a := decide (a = nan)
  isFinite a := decide (∃ x : ℝ, a = number x)

noncomputable instance : CheckedScalar Extended where
  quotient a b := if b == 0 then .error .zeroDivision else .ok (a / b)
  square a := .ok (a * a)

/-- A real number as an extended one. -/
@[coe] noncomputable def ofReal (x : ℝ) : Extended := number x

noncomputable instance : Coe ℝ Extended := ⟨ofReal⟩

section Real

variable (a b : ℝ)

lemma ofReal_eq : (a : Extended) = number (a : EReal) := rfl

lemma ofReal_injective : Function.Injective ofReal := by
  rintro a b ⟨⟩
  rfl

lemma not_isInfinite : ¬ IsInfinite (a : EReal) := by simp [IsInfinite]

@[simp] lemma zero_eq_coe : (0 : Extended) = (0 : ℝ) := rfl

@[simp] lemma one_eq_coe : (1 : Extended) = (1 : ℝ) := rfl

@[simp] lemma natCast_eq_coe (n : ℕ) : (n : Extended) = (n : ℝ) := rfl

@[simp] lemma ofNat_eq_coe (n : ℕ) [n.AtLeastTwo] :
    (OfNat.ofNat n : Extended) = (OfNat.ofNat n : ℝ) := rfl

@[simp] lemma neg_coe : -(a : Extended) = ((-a : ℝ) : Extended) := by
  rw [ofReal_eq (-a), EReal.coe_neg]
  rfl

@[simp] lemma add_coe : (a : Extended) + b = ((a + b : ℝ) : Extended) := by
  rw [ofReal_eq (a + b), EReal.coe_add]
  have defined : ¬ (IsInfinite (a : EReal) ∧ (b : EReal) = -a) := fun opposite =>
    not_isInfinite a opposite.1
  exact if_neg defined

@[simp] lemma sub_coe : (a : Extended) - b = ((a - b : ℝ) : Extended) := by
  rw [sub_eq_add_neg, ← add_coe, ← neg_coe]
  rfl

@[simp] lemma mul_coe : (a : Extended) * b = ((a * b : ℝ) : Extended) := by
  rw [ofReal_eq (a * b), EReal.coe_mul]
  have defined : ¬ ((a : EReal) = 0 ∧ IsInfinite b ∨ IsInfinite a ∧ (b : EReal) = 0) := by
    rintro (⟨-, infinite⟩ | ⟨infinite, -⟩)
    · exact not_isInfinite b infinite
    · exact not_isInfinite a infinite
  exact if_neg defined

lemma div_coe {b : ℝ} (nonzero : b ≠ 0) : (a : Extended) / b = ((a / b : ℝ) : Extended) := by
  have value : ratio a b = ((a / b : ℝ) : EReal) := by
    rw [ratio, if_neg (EReal.coe_ne_zero.mpr nonzero), EReal.coe_div]
  have defined : ¬ ((a : EReal) = 0 ∧ (b : EReal) = 0 ∨ IsInfinite a ∧ IsInfinite b) := by
    rintro (⟨-, zero⟩ | ⟨infinite, -⟩)
    · exact nonzero (EReal.coe_eq_zero.mp zero)
    · exact not_isInfinite a infinite
  rw [ofReal_eq (a / b), ← value]
  exact if_neg defined

@[simp] lemma coe_le_coe : (a : Extended) ≤ b ↔ a ≤ b := EReal.coe_le_coe_iff

@[simp] lemma coe_lt_coe : (a : Extended) < b ↔ a < b := EReal.coe_lt_coe_iff

@[simp] lemma coe_beq_coe : ((a : Extended) == b) = decide (a = b) :=
  decide_eq_decide.mpr EReal.coe_eq_coe_iff

open scoped Classical in
@[simp] lemma isFinite_coe : Scalar.isFinite (a : Extended) = true := decide_eq_true ⟨a, rfl⟩

@[simp] lemma abs_coe : Scalar.abs (a : Extended) = (|a| : ℝ) := by
  have value : max (a : EReal) (-a) = ((|a| : ℝ) : EReal) := by
    rw [abs_eq_max_neg, ← EReal.coe_neg]
    exact (EReal.coe_strictMono.monotone.map_max).symm
  rw [ofReal_eq |a|, ← value]
  rfl

lemma sqrt_coe {a : ℝ} (nonneg : 0 ≤ a) : Scalar.sqrt (a : Extended) = (√a : ℝ) := by
  have defined : ¬ (a : EReal) < 0 := not_lt.mpr (EReal.coe_nonneg.mpr nonneg)
  exact (if_neg defined).trans (if_neg (EReal.coe_ne_top a))

@[simp] lemma half_eq_coe : (Scalar.half : Extended) = (1 / 2 : ℝ) := by
  rw [Scalar.half, one_eq_coe, natCast_eq_coe, Nat.cast_ofNat, div_coe 1 two_ne_zero]

@[simp] lemma sign_coe : Scalar.sign (a : Extended) = (Scalar.sign a : ℝ) := by
  simp only [Scalar.sign, zero_eq_coe, one_eq_coe, coe_le_coe, neg_coe, apply_ite ofReal]

lemma quotient_coe {b : ℝ} (nonzero : b ≠ 0) :
    CheckedScalar.quotient (a : Extended) b = .ok ((a / b : ℝ) : Extended) := by
  rw [← div_coe a nonzero]
  exact if_neg (by simpa using nonzero)

@[simp] lemma square_coe :
    CheckedScalar.square (a : Extended) = .ok ((a * a : ℝ) : Extended) :=
  congrArg Except.ok (mul_coe a a)

end Real

open scoped Classical in
lemma isFinite_iff {x : Extended} : Scalar.isFinite x = true ↔ ∃ a : ℝ, x = a :=
  decide_eq_true_iff

lemma lt_of_le_of_lt {x y z : Extended} (le : x ≤ y) (lt : y < z) : x < z := by
  match x, y, z with
  | number x, number y, number z =>
    have le : x ≤ y := le
    exact le.trans_lt lt

/-- A sum is finite only if both its terms are. -/
lemma isFinite_of_isFinite_add {x y : Extended} (finite : Scalar.isFinite (x + y) = true) :
    (∃ a : ℝ, x = a) ∧ ∃ b : ℝ, y = b := by
  obtain ⟨c, total⟩ := isFinite_iff.mp finite
  match x, y with
  | nan, _ => cases total
  | number _, nan => cases total
  | number x, number y =>
    have defined : number (x + y) = number c := by
      by_cases opposite : IsInfinite x ∧ y = -x
      · cases (if_pos opposite).symm.trans total
      · exact (if_neg opposite).symm.trans total
    injection defined with value
    induction x with
    | bot => simp at value
    | top => induction y <;> simp at value
    | coe a =>
      induction y with
      | bot => simp at value
      | top => simp at value
      | coe b => exact ⟨⟨a, rfl⟩, b, rfl⟩

end Extended

namespace Vec

/-! ### Vectors of real numbers -/

/-- A vector of real numbers in the arithmetic with exceptional values. -/
noncomputable def ofReals (v : Vec ℝ) : Vec Extended := v.map Extended.ofReal

@[simp] lemma ofReals_nil : ofReals [] = [] := rfl

@[simp] lemma ofReals_cons (a : ℝ) (v : Vec ℝ) :
    ofReals (a :: v) = (a : Extended) :: ofReals v := rfl

@[simp] lemma length_ofReals (v : Vec ℝ) : (ofReals v).length = v.length := List.length_map _

@[simp] lemma dot_ofReals (u v : Vec ℝ) : dot (ofReals u) (ofReals v) = (dot u v : ℝ) := by
  induction u generalizing v with
  | nil => simp [dot]
  | cons a u ih =>
    cases v with
    | nil => simp [dot]
    | cons b v =>
      have rest := ih v
      simp only [dot] at rest ⊢
      simp [rest]

end Vec

end NewtonKrylov
