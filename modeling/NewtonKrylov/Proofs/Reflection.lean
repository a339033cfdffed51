import Mathlib.Analysis.InnerProductSpace.Projection.Reflection
import NewtonKrylov.Proofs.Space
import NewtonKrylov.Reflection

/-!
# Reflections in exact arithmetic

The reflection along a vector of norm one, and along the zero vector, is that in the hyperplane
orthogonal to it, so it is its own inverse and keeps inner products. The reflector of a vector takes
it to a multiple of the first axis.

A list of reflectors on shrinking parts of a vector therefore stands for an isometry, `rotation`,
and `axisImage` gives the vectors that this isometry takes to the axes.
-/

namespace NewtonKrylov

namespace Reflection

open Vec
open scoped InnerProductSpace

variable {n : ℕ}

/-- Is this a vector along which the program reflects: one of norm one, or zero? -/
def IsReflector (h : Vec ℝ) : Prop := norm h = 1 ∨ norm h = 0

/-! ### One reflection -/

lemma toSpace_image {h v : Vec ℝ} (hh : h.length = n) (hv : v.length = n) :
    toSpace n (image h v)
      = toSpace n v - (2 * ⟪toSpace n h, toSpace n v⟫_ℝ) • toSpace n h := by
  ext i
  rw [inner_toSpace hh hv]
  unfold image
  rw [toSpace_zipWith _ hv hh]
  simp
  ring

/-- The point of a reflector has norm one or is zero. -/
lemma IsReflector.point {h : Vec ℝ} (isReflector : IsReflector h) (hh : h.length = n) :
    ⟪toSpace n h, toSpace n h⟫_ℝ = 1 ∨ toSpace n h = 0 := by
  rw [real_inner_self_eq_norm_sq, ← norm_eq_zero, norm_toSpace hh]
  rcases isReflector with unit | zero
  · left
    rw [unit, one_pow]
  · right
    exact zero

/-- The reflection along a reflector is the one in the hyperplane orthogonal to it. -/
lemma toSpace_image_eq_reflection {h v : Vec ℝ} (isReflector : IsReflector h) (hh : h.length = n)
    (hv : v.length = n) :
    toSpace n (image h v) = (ℝ ∙ toSpace n h)ᗮ.reflection (toSpace n v) := by
  rw [toSpace_image hh hv, Submodule.reflection_orthogonal_apply,
    Submodule.reflection_singleton_apply]
  rcases isReflector.point hh with unit | zero
  · rw [real_inner_self_eq_norm_sq] at unit
    simp only [RCLike.ofReal_real_eq_id, id_eq, unit, div_one]
    module
  · simp [zero]

/-- The reflection keeps inner products. -/
lemma inner_image {h u v : Vec ℝ} (isReflector : IsReflector h) (hh : h.length = n)
    (hu : u.length = n) (hv : v.length = n) :
    ⟪toSpace n (image h u), toSpace n (image h v)⟫_ℝ = ⟪toSpace n u, toSpace n v⟫_ℝ := by
  rw [toSpace_image_eq_reflection isReflector hh hu, toSpace_image_eq_reflection isReflector hh hv]
  exact LinearIsometryEquiv.inner_map_map _ _ _

/-- The reflection is its own inverse. -/
lemma image_image {h v : Vec ℝ} (isReflector : IsReflector h) (same : h.length = v.length) :
    image h (image h v) = v := by
  have once : (image h v).length = v.length := length_image same
  apply eq_of_toSpace_eq (n := v.length) (by rw [length_image (by omega), once]) rfl
  rw [toSpace_image_eq_reflection isReflector same once,
    toSpace_image_eq_reflection isReflector same rfl]
  exact Submodule.reflection_reflection _ _

lemma image_add {h u v : Vec ℝ} (hu : h.length = u.length) (hv : h.length = v.length) :
    image h (add u v) = add (image h u) (image h v) := by
  have sum : (add u v).length = h.length := by simp [← hu, ← hv]
  apply eq_of_toSpace_eq (n := h.length) (by rw [length_image (by omega), sum])
    (by simp [length_image hu, length_image hv, ← hu, ← hv])
  rw [toSpace_image rfl sum, toSpace_add hu.symm hv.symm,
    toSpace_add (by rw [length_image hu, hu]) (by rw [length_image hv, hv]),
    toSpace_image rfl hu.symm, toSpace_image rfl hv.symm, inner_add_right]
  module

lemma image_smul (c : ℝ) {h v : Vec ℝ} (same : h.length = v.length) :
    image h (smul c v) = smul c (image h v) := by
  apply eq_of_toSpace_eq (n := h.length) (by rw [length_image (by simp [same])]; simp [same])
    (by simp [length_image same, same])
  rw [toSpace_image rfl (by simp [same]), toSpace_smul, toSpace_smul, toSpace_image rfl same.symm,
    inner_smul_right]
  module

/-! ### The reflector of a vector -/

lemma image_zeros {h : Vec ℝ} : image h (zeros h.length) = zeros h.length := by
  apply eq_of_toSpace_eq (n := h.length) (by rw [length_image (by simp)]; simp) (by simp)
  rw [toSpace_image rfl (by simp)]
  simp

lemma isReflector_reflector (v : Vec ℝ) : IsReflector (reflector v) := by
  simp only [reflector]
  split_ifs with vanishes
  · right
    exact eq_of_beq vanishes
  · left
    have nonzero : norm (offset v) ≠ 0 := fun zero => vanishes (beq_iff_eq.mpr zero)
    have point := norm_toSpace (n := v.length) (v := divBy (offset v) (norm (offset v))) (by simp)
    rw [← point, toSpace_divBy, norm_smul, norm_toSpace (by simp), norm_inv, Real.norm_eq_abs,
      abs_of_nonneg (Vec.norm_nonneg _)]
    exact inv_mul_cancel₀ nonzero

/-- The offset of a vector points from it to the first axis, as long as the vector and turned away
from it. -/
lemma toSpace_offset (a : ℝ) (t : Vec ℝ) :
    toSpace (t.length + 1) (offset (a :: t))
      = -(toSpace (t.length + 1) (a :: t)
          + (Scalar.sign a * norm (a :: t)) • EuclideanSpace.single 0 1) := by
  ext i
  refine Fin.cases ?_ (fun j => ?_) i
  · simp [offset]
    ring
  · simp [offset, List.getD]

/-- The part of a vector along its offset is half of the offset, turned around. -/
lemma inner_offset (a : ℝ) (t : Vec ℝ) :
    2 * ⟪toSpace (t.length + 1) (offset (a :: t)), toSpace (t.length + 1) (a :: t)⟫_ℝ
      = -(norm (offset (a :: t)) * norm (offset (a :: t))) := by
  have square := real_inner_self_eq_norm_mul_norm (toSpace (t.length + 1) (offset (a :: t)))
  rw [norm_toSpace (by simp)] at square
  have length := real_inner_self_eq_norm_mul_norm (toSpace (t.length + 1) (a :: t))
  rw [norm_toSpace (by simp)] at length
  have sign := Scalar.sign_mul_self a
  rw [← square, toSpace_offset]
  simp only [inner_neg_left, inner_neg_right, inner_add_left, inner_add_right, inner_smul_left,
    inner_smul_right, EuclideanSpace.inner_single_left, EuclideanSpace.inner_single_right, length]
  simp
  linear_combination norm (a :: t) * norm (a :: t) * sign

/-- The reflector of a vector takes it to the first axis, with the sign turned. -/
theorem image_reflector (a : ℝ) (t : Vec ℝ) :
    image (reflector (a :: t)) (a :: t)
      = -(Scalar.sign a * norm (a :: t)) :: zeros t.length := by
  have length : (reflector (a :: t)).length = t.length + 1 := by simp
  apply eq_of_toSpace_eq (n := t.length + 1) (by rw [length_image (by simp)]; simp) (by simp)
  -- The image is the vector with its offset added, so twice the part along the reflector has to be
  -- the negative offset.
  have target : toSpace (t.length + 1) (-(Scalar.sign a * norm (a :: t)) :: zeros t.length)
      = toSpace (t.length + 1) (a :: t) + toSpace (t.length + 1) (offset (a :: t)) := by
    rw [toSpace_offset]
    ext i
    refine Fin.cases ?_ (fun j => ?_) i
    · simp
    · simp [zeros, List.getD]
  rw [target, toSpace_image length (by simp)]
  simp only [reflector]
  split_ifs with vanishes
  · have zero : toSpace (t.length + 1) (offset (a :: t)) = 0 := by
      rw [← norm_eq_zero, norm_toSpace (by simp)]
      exact eq_of_beq vanishes
    simp [zero]
  · have nonzero : norm (offset (a :: t)) ≠ 0 := fun zero => vanishes (beq_iff_eq.mpr zero)
    have along := inner_offset a t
    rw [toSpace_divBy, real_inner_smul_left, smul_smul]
    have factor : 2 * ((norm (offset (a :: t)))⁻¹ *
        ⟪toSpace (t.length + 1) (offset (a :: t)), toSpace (t.length + 1) (a :: t)⟫_ℝ)
        * (norm (offset (a :: t)))⁻¹ = -1 := by
      field_simp
      linear_combination along
    rw [factor]
    module

/-! ### Products of reflections -/

/-- The reflectors of a list act on shrinking parts of a vector of length `n`. -/
structure Reflectors (n : ℕ) (hs : List (Vec ℝ)) : Prop where
  shrinking : Shrinking n hs
  reflect : ∀ h ∈ hs, IsReflector h

lemma Reflectors.head {h : Vec ℝ} {hs : List (Vec ℝ)} (R : Reflectors n (h :: hs)) :
    h.length = n ∧ 0 < n ∧ IsReflector h :=
  ⟨R.shrinking.1, R.shrinking.2.1, R.reflect h List.mem_cons_self⟩

lemma Reflectors.tail {h : Vec ℝ} {hs : List (Vec ℝ)} (R : Reflectors n (h :: hs)) :
    Reflectors (n - 1) hs :=
  ⟨R.shrinking.2.2, fun k member => R.reflect k (List.mem_cons_of_mem h member)⟩

/-- A reflection of a nonempty vector has a first entry and a rest. -/
lemma image_eq_cons {h v : Vec ℝ} (hh : h.length = n + 1) (hv : v.length = n + 1) :
    ∃ a t, image h v = a :: t ∧ t.length = n := by
  have length := length_image (hh.trans hv.symm)
  cases shape : image h v with
  | nil => simp [shape, hv] at length
  | cons a t => exact ⟨a, t, rfl, by simpa [shape, hv] using length⟩

lemma dot_applyAll {hs : List (Vec ℝ)} {u v : Vec ℝ} (R : Reflectors n hs) (hu : u.length = n)
    (hv : v.length = n) : dot (applyAll hs u) (applyAll hs v) = dot u v := by
  induction hs generalizing n u v with
  | nil => rfl
  | cons h hs ih =>
    obtain ⟨hh, positive, isReflector⟩ := R.head
    obtain ⟨m, rfl⟩ : ∃ m, n = m + 1 := ⟨n - 1, by omega⟩
    have kept := inner_image isReflector hh hu hv
    obtain ⟨a, s, hs', ls⟩ := image_eq_cons hh hu
    obtain ⟨b, t, ht', lt⟩ := image_eq_cons hh hv
    rw [hs', ht', inner_toSpace (by simp [ls]) (by simp [lt]), inner_toSpace hu hv,
      dot_cons] at kept
    rw [applyAll, applyAll, hs', ht', dot_cons, ih R.tail ls lt]
    exact kept

lemma applyAll_add {hs : List (Vec ℝ)} {u v : Vec ℝ} (shrinking : Shrinking n hs)
    (hu : u.length = n) (hv : v.length = n) :
    applyAll hs (add u v) = add (applyAll hs u) (applyAll hs v) := by
  induction hs generalizing n u v with
  | nil => rfl
  | cons h hs ih =>
    obtain ⟨hh, positive, rest⟩ := shrinking
    obtain ⟨m, rfl⟩ : ∃ m, n = m + 1 := ⟨n - 1, by omega⟩
    obtain ⟨a, s, hs', ls⟩ := image_eq_cons hh hu
    obtain ⟨b, t, ht', lt⟩ := image_eq_cons hh hv
    have tail := ih rest ls lt
    simp only [applyAll, image_add (hh.trans hu.symm) (hh.trans hv.symm), hs', ht']
    simpa [add] using tail

lemma applyAll_smul (c : ℝ) {hs : List (Vec ℝ)} {v : Vec ℝ} (shrinking : Shrinking n hs)
    (hv : v.length = n) : applyAll hs (smul c v) = smul c (applyAll hs v) := by
  induction hs generalizing n v with
  | nil => rfl
  | cons h hs ih =>
    obtain ⟨hh, positive, rest⟩ := shrinking
    obtain ⟨m, rfl⟩ : ∃ m, n = m + 1 := ⟨n - 1, by omega⟩
    obtain ⟨a, t, ht', lt⟩ := image_eq_cons hh hv
    have tail := ih rest lt
    simp only [applyAll, image_smul c (hh.trans hv.symm), ht']
    simpa [smul] using tail

/-- The product of the reflections of a list, as an isometry of the space. -/
noncomputable def rotation {hs : List (Vec ℝ)} (R : Reflectors n hs) :
    Space n →ₗᵢ[ℝ] Space n where
  toFun x := toSpace n (applyAll hs (ofSpace x))
  map_add' x y := by
    have kept (z : Space n) := length_applyAll R.shrinking (length_ofSpace z)
    rw [ofSpace_add, applyAll_add R.shrinking (length_ofSpace x) (length_ofSpace y),
      toSpace_add (kept x) (kept y)]
  map_smul' c x := by
    rw [ofSpace_smul, applyAll_smul c R.shrinking (length_ofSpace x), toSpace_smul]
    rfl
  norm_map' x := by
    have kept := length_applyAll R.shrinking (length_ofSpace x)
    change ‖toSpace n (applyAll hs (ofSpace x))‖ = ‖x‖
    rw [norm_toSpace kept, Vec.norm, dot_applyAll R (length_ofSpace x) (length_ofSpace x)]
    exact norm_ofSpace x

/-- The isometry of a list of reflectors is what the program computes. -/
lemma toSpace_applyAll {hs : List (Vec ℝ)} (R : Reflectors n hs) {v : Vec ℝ}
    (length : v.length = n) : toSpace n (applyAll hs v) = rotation R (toSpace n v) := by
  change _ = toSpace n (applyAll hs (ofSpace (toSpace n v)))
  rw [ofSpace_toSpace length]

/-! ### Images of the axes -/

lemma length_axisImage {α : Type} [Scalar α] {n : ℕ} {hs : List (Vec α)} {j : ℕ}
    (shrinking : Shrinking n hs) (below : j < hs.length) : (axisImage hs j).length = n := by
  induction hs generalizing n j with
  | nil => simp at below
  | cons h hs ih =>
    obtain ⟨hh, positive, rest⟩ := shrinking
    cases j with
    | zero => rw [axisImage, length_image (by simp), length_firstAxis, hh]
    | succ j =>
      have tail := ih rest (by simpa using below)
      rw [axisImage, length_image (by simp [tail]; omega)]
      simp [tail]
      omega

/-- An axis that a list of reflectors reaches does not depend on the reflectors after it. -/
lemma axisImage_append {α : Type} [Scalar α] (hs ks : List (Vec α)) {j : ℕ}
    (below : j < hs.length) : axisImage (hs ++ ks) j = axisImage hs j := by
  induction hs generalizing j with
  | nil => simp at below
  | cons h hs ih =>
    cases j with
    | zero => rfl
    | succ j => rw [List.cons_append, axisImage, axisImage, ih (by simpa using below)]

lemma applyAll_zeros {hs : List (Vec ℝ)} (shrinking : Shrinking n hs) :
    applyAll hs (zeros n) = zeros n := by
  have multiple : (zeros n : Vec ℝ) = smul 0 (zeros n) := by simp [zeros, smul]
  rw [multiple, applyAll_smul 0 shrinking (by simp)]
  have kept := length_applyAll shrinking (length_zeros (α := ℝ) n)
  apply eq_of_toSpace_eq (n := n) (by simp [kept]) (by simp)
  simp

/-- The product of the reflections takes the image of an axis back to the axis. -/
lemma applyAll_axisImage {hs : List (Vec ℝ)} (R : Reflectors n hs) {j : ℕ}
    (below : j < hs.length) : applyAll hs (axisImage hs j) = axis n j := by
  -- By induction on the reflectors. The first one is its own inverse, and the others act on what is
  -- behind the first entry: zeros, or the image of the axis one dimension below.
  induction hs generalizing n j with
  | nil => simp at below
  | cons h hs ih =>
    obtain ⟨hh, positive, isReflector⟩ := R.head
    obtain ⟨m, rfl⟩ : ∃ m, n = m + 1 := ⟨n - 1, by omega⟩
    have rest : Reflectors m hs := R.tail
    cases j with
    | zero =>
      have first : firstAxis h = 1 :: zeros m := by
        cases h with
        | nil => simp at hh
        | cons a t => simp at hh; simp [firstAxis, hh]
      rw [axisImage, applyAll, image_image isReflector (by simp), first]
      simp only [applyAll_zeros rest.shrinking]
      simp [axis, zeros, List.replicate_succ]
    | succ j =>
      have tail := ih rest (by simpa using below)
      have kept := length_axisImage rest.shrinking (by simpa using below : j < hs.length)
      rw [axisImage, applyAll, image_image isReflector (by simp [kept, hh])]
      simp [tail, axis, zeros, List.replicate_succ]

lemma rotation_axisImage {hs : List (Vec ℝ)} (R : Reflectors n hs) {j : ℕ}
    (below : j < hs.length) : rotation R (toSpace n (axisImage hs j)) = toSpace n (axis n j) := by
  rw [← toSpace_applyAll R (length_axisImage R.shrinking below), applyAll_axisImage R below]

end Reflection
end NewtonKrylov
