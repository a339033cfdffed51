import NewtonKrylov.Proofs.Effects
import NewtonKrylov.Proofs.Extended
import NewtonKrylov.Proofs.Reflection
import NewtonKrylov.Proofs.Spreading

/-!
# The reflector of a vector

In exact arithmetic the reflector of a vector is a point of norm one, and zero for the vector zero.
What the program calls the reflection along it is the reflection of the space in the hyperplane
orthogonal to it. So it is linear, its own inverse and keeps inner products, and it takes the vector
to the first axis.

No quotient by zero occurs on the way to a reflector. In an arithmetic with exceptional values such
a quotient would not be a real number, but the reflector of a vector of real numbers is the same
there.
-/

namespace NewtonKrylov

open scoped InnerProductSpace

variable {n : ℕ}

/-! ### Real numbers among exceptional values -/

namespace Vec

open Extended

lemma norm_ofReals (v : Vec ℝ) : norm (ofReals v) = (norm v : ℝ) := by
  have nonneg : 0 ≤ dot v v := by
    rw [← inner_toSpace (n := v.length) rfl rfl]
    exact real_inner_self_nonneg
  rw [norm, dot_ofReals, sqrt_coe nonneg]
  rfl

lemma divBy_ofReals (v : Vec ℝ) {c : ℝ} (nonzero : c ≠ 0) :
    divBy (ofReals v) (c : Extended) = ofReals (divBy v c) := by
  simp [divBy, ofReals, div_coe _ nonzero]

end Vec

namespace Reflection

open Vec Extended

lemma offset_ofReals (v : Vec ℝ) : offset (ofReals v) = ofReals (offset v) := by
  cases v with
  | nil => rfl
  | cons a t =>
    have norm := norm_ofReals (a :: t)
    simp only [ofReals, List.map_cons] at norm ⊢
    simp [offset, norm]

/-- The only quotient on the way to a reflector has a divisor that is not zero. -/
lemma reflector_ofReals (v : Vec ℝ) : reflector (ofReals v) = ofReals (reflector v) := by
  have zero_iff : (norm (ofReals (offset v)) == 0) = (norm (offset v) == 0) := by
    rw [norm_ofReals, zero_eq_coe, coe_beq_coe]
    rfl
  simp only [reflector, offset_ofReals, zero_iff]
  split_ifs with vanishes
  · rfl
  · rw [norm_ofReals, divBy_ofReals]
    exact fun zero => vanishes (beq_iff_eq.mpr zero)

/-! ### The reflection along a vector -/

/-- On vectors of one length the reflection of arrays is that of vectors. -/
lemma image?_ofVec {α : Type} [Scalar α] {h v : Vec α} (same : h.length = v.length) :
    image? (Tensor.ofVec h) (Tensor.ofVec v) = .ok (Tensor.ofVec (image h v)) := by
  rw [image?, Tensor.product_ofVec same, ok_bind, Tensor.smul_ofVec, Tensor.combine_ofScalar,
    ok_bind, Tensor.combine_ofVec _ (by simp [same])]
  simp [image, smul, List.zipWith_map_right]

/-! ### The reflector -/

/-- The vector goes to the first axis, as long as it is and turned away from it. -/
lemma toSpace_image_reflector (x : Space (n + 1)) :
    toSpace (n + 1) (image (reflector (ofSpace x)) (ofSpace x))
      = -(Scalar.sign (x 0) * ‖x‖) • EuclideanSpace.single 0 1 := by
  have entries : ofSpace x = x 0 :: List.ofFn fun i : Fin n => x i.succ := List.ofFn_succ
  rw [← norm_ofSpace, entries, image_reflector]
  ext i
  refine Fin.cases ?_ (fun j => ?_) i
  · simp
  · simp [zeros, List.getD]

/-- A vector that is turned away from itself is zero. -/
lemma eq_zero_of_turned_away {x : Space (n + 1)}
    (turned : x = -(Scalar.sign (x 0) * ‖x‖) • EuclideanSpace.single 0 1) : x = 0 := by
  have first : x 0 = -(Scalar.sign (x 0) * ‖x‖) := by
    simpa using congrArg (fun y : Space (n + 1) => y 0) turned
  have nonneg := norm_nonneg x
  rw [← norm_le_zero_iff]
  unfold Scalar.sign at first
  split_ifs at first <;> linarith

/-- Only the vector zero has the reflector zero. -/
lemma toSpace_reflector_eq_zero_iff (x : Space (n + 1)) :
    toSpace (n + 1) (reflector (ofSpace x)) = 0 ↔ x = 0 := by
  constructor
  · intro zero
    have turned := toSpace_image_reflector x
    rw [toSpace_image (by simp) (by simp), zero, smul_zero, sub_zero, toSpace_ofSpace] at turned
    exact eq_zero_of_turned_away turned
  · rintro rfl
    have offset_zero : toSpace (n + 1) (offset (ofSpace (0 : Space (n + 1)))) = 0 := by
      have length : (zeros (n + 1) : Vec ℝ) = 0 :: zeros n := List.replicate_succ
      have point := toSpace_offset 0 (zeros n)
      rw [← length, length_zeros, toSpace_zeros, ← norm_toSpace (length_zeros (n + 1)),
        toSpace_zeros] at point
      simpa [ofSpace_zero] using point
    simp only [reflector]
    split_ifs
    · exact offset_zero
    · rw [toSpace_divBy, offset_zero, smul_zero]

/-- The reflector of a vector is zero exactly if the vector is, and of norm one otherwise, and it is
formed without a quotient by zero. The reflection along it takes the vector to the first axis. It is
linear, its own inverse, and keeps inner products and norms. -/
theorem reflector_reflects (x : Space (n + 1)) :
    ∃ (h : Space (n + 1)) (S : Space (n + 1) →ₗ[ℝ] Space (n + 1)),
      reflector? (Tensor.ofVec (ofSpace x)) = .ok (Tensor.ofVec (ofSpace h)) ∧
      reflector? (Tensor.ofVec (ofReals (ofSpace x)))
        = .ok (Tensor.ofVec (ofReals (ofSpace h))) ∧
      (h = 0 ↔ x = 0) ∧ (x ≠ 0 → ‖h‖ = 1) ∧
      (∀ w, image? (Tensor.ofVec (ofSpace h)) (Tensor.ofVec (ofSpace w))
        = .ok (Tensor.ofVec (ofSpace (S w)))) ∧
      S x = -(Scalar.sign (x 0) * ‖x‖) • EuclideanSpace.single 0 1 ∧
      (∀ w, S (S w) = w) ∧ (∀ u w, ⟪S u, S w⟫_ℝ = ⟪u, w⟫_ℝ) ∧ ∀ w, ‖S w‖ = ‖w‖ := by
  set h := toSpace (n + 1) (reflector (ofSpace x))
  have written : ofSpace h = reflector (ofSpace x) := ofSpace_toSpace (by simp)
  have isReflector := isReflector_reflector (ofSpace x)
  -- The formula is the reflection in the complement of a line, of which the rest is known.
  have reflects (w : Space (n + 1)) :
      toSpace (n + 1) (image (reflector (ofSpace x)) (ofSpace w)) = (ℝ ∙ h)ᗮ.reflection w := by
    rw [toSpace_image_eq_reflection isReflector (by simp) (by simp), toSpace_ofSpace]
  refine ⟨h, (ℝ ∙ h)ᗮ.reflection.toLinearMap, ?_, ?_, toSpace_reflector_eq_zero_iff x, ?_, ?_, ?_,
    (ℝ ∙ h)ᗮ.reflection_reflection, (ℝ ∙ h)ᗮ.reflection.inner_map_map,
    (ℝ ∙ h)ᗮ.reflection.norm_map⟩
  · rw [written]
    exact reflector?_ofVec (by simp [← List.length_pos_iff])
  · rw [written, ← reflector_ofReals]
    exact reflector?_ofVec (by simp [← List.length_pos_iff, ofReals])
  · intro nonzero
    rw [norm_toSpace (by simp)]
    refine isReflector.resolve_right fun zero => nonzero ?_
    rwa [← toSpace_reflector_eq_zero_iff, ← norm_eq_zero, norm_toSpace (by simp)]
  · intro w
    have kept : (image (reflector (ofSpace x)) (ofSpace w)).length = n + 1 := by
      rw [length_image (by simp), length_ofSpace]
    rw [written, image?_ofVec (by simp), ← ofSpace_toSpace kept, reflects]
    rfl
  · exact (reflects x).symm.trans (toSpace_image_reflector x)

/-- The vector with the entries three and four goes to minus five on the first axis, and back. -/
theorem reflector_reflects_threeFour :
    ∃ h : Space 2, reflector? (Tensor.ofVec (ofSpace !₂[3, 4])) = .ok (Tensor.ofVec (ofSpace h)) ∧
      ‖h‖ = 1 ∧
      image? (Tensor.ofVec (ofSpace h)) (Tensor.ofVec (ofSpace !₂[3, 4]))
        = .ok (Tensor.ofVec (ofSpace !₂[-5, 0])) ∧
      image? (Tensor.ofVec (ofSpace h)) (Tensor.ofVec (ofSpace !₂[-5, 0]))
        = .ok (Tensor.ofVec (ofSpace !₂[3, 4])) := by
  obtain ⟨h, S, found, -, -, unit, applied, onto, back, -, -⟩ :=
    reflector_reflects !₂[(3 : ℝ), 4]
  have length : ‖!₂[(3 : ℝ), 4]‖ = 5 := by
    rw [EuclideanSpace.norm_eq, Real.sqrt_eq_iff_mul_self_eq_of_pos (by norm_num)]
    norm_num [Fin.sum_univ_two]
  have nonzero : !₂[(3 : ℝ), 4] ≠ 0 := by
    rw [← norm_ne_zero_iff, length]
    norm_num
  have turned : S !₂[3, 4] = !₂[-5, 0] := by
    rw [onto, length]
    ext i
    fin_cases i <;> simp [Scalar.sign]
  refine ⟨h, found, unit nonzero, ?_, ?_⟩
  · rw [applied, turned]
  · rw [applied, ← turned, back]

end Reflection

end NewtonKrylov
