import Mathlib.LinearAlgebra.FiniteDimensional.Lemmas
import NewtonKrylov.Proofs.Space

/-!
# Krylov spaces

`krylov A r k` is spanned by the first `k` of the points `r`, `A r`, `A² r` and so on. A point of
the next Krylov space that is not in this one spans the next one together with it. So it does not
matter where the directions of a method come from, as long as each of them is new.

When the images of a Krylov space do not leave it, for an injective operator they are all of it.
-/

namespace NewtonKrylov

open Vec

variable {n : ℕ}

/-- The span of the first `k` points of a sequence. -/
noncomputable def spanBelow (z : ℕ → Space n) (k : ℕ) : Submodule ℝ (Space n) :=
  Submodule.span ℝ (z '' Set.Iio k)

/-- The span of the first `k` of the points `r`, `A r`, `A² r` and so on. -/
noncomputable def krylov (A : Space n →ₗ[ℝ] Space n) (r : Space n) (k : ℕ) :
    Submodule ℝ (Space n) :=
  spanBelow (fun i => (A ^ i) r) k

/-! ### The first points of a sequence -/

section Below

variable (z : ℕ → Space n)

lemma mem_spanBelow {j k : ℕ} (below : j < k) : z j ∈ spanBelow z k :=
  Submodule.subset_span ⟨j, below, rfl⟩

@[simp] lemma spanBelow_zero : spanBelow z 0 = ⊥ := by
  simp [spanBelow]

lemma spanBelow_succ (k : ℕ) :
    spanBelow z (k + 1) = spanBelow z k ⊔ Submodule.span ℝ {z k} := by
  have more : Set.Iio (k + 1) = insert k (Set.Iio k) := Order.Iio_succ_eq_insert k
  rw [spanBelow, spanBelow, more, Set.image_insert_eq, Submodule.span_insert, sup_comm]

variable {z}

lemma spanBelow_congr {y : ℕ → Space n} {k : ℕ} (same : ∀ j < k, y j = z j) :
    spanBelow y k = spanBelow z k :=
  congrArg (Submodule.span ℝ) (Set.image_congr same)

variable (z)

lemma map_spanBelow (A : Space n →ₗ[ℝ] Space n) (k : ℕ) :
    (spanBelow z k).map A = spanBelow (fun j => A (z j)) k := by
  rw [spanBelow, Submodule.map_span, Set.image_image, spanBelow]

lemma combination_mem_spanBelow (c : ℕ → ℝ) (k : ℕ) : combination n c z k ∈ spanBelow z k := by
  apply Submodule.sum_mem
  intro j member
  exact Submodule.smul_mem _ _ (mem_spanBelow z (Finset.mem_range.mp member))

end Below

/-! ### One point more -/

section OneMore

variable {W : Submodule ℝ (Space n)} {a z : Space n}

/-- A new point of a space with one dimension more spans it together with the old points. -/
lemma sup_span_singleton_eq (inside : z ∈ W ⊔ Submodule.span ℝ {a}) (new : z ∉ W) :
    W ⊔ Submodule.span ℝ {z} = W ⊔ Submodule.span ℝ {a} := by
  have generator : a ∉ W := by
    intro old
    rw [sup_eq_left.mpr ((Submodule.span_singleton_le_iff_mem a W).mpr old)] at inside
    exact new inside
  apply Submodule.eq_of_le_of_finrank_eq
  · exact sup_le le_sup_left ((Submodule.span_singleton_le_iff_mem z _).mpr inside)
  · rw [Submodule.finrank_sup_span_singleton new, Submodule.finrank_sup_span_singleton generator]

/-- Images that do not leave a space are all of it. -/
lemma map_eq_of_le {A : Space n →ₗ[ℝ] Space n} (injective : Function.Injective A)
    (stays : W.map A ≤ W) : W.map A = W := by
  apply Submodule.eq_of_le_of_finrank_eq stays
  exact (Submodule.equivMapOfInjective A injective W).finrank_eq.symm

end OneMore

/-! ### Krylov spaces -/

section Krylov

variable (A : Space n →ₗ[ℝ] Space n) (r : Space n)

@[simp] lemma krylov_zero : krylov A r 0 = ⊥ := spanBelow_zero _

lemma mem_krylov {k : ℕ} (positive : 0 < k) : r ∈ krylov A r k :=
  mem_spanBelow (fun i => (A ^ i) r) positive

lemma map_krylov_le (k : ℕ) : (krylov A r k).map A ≤ krylov A r (k + 1) := by
  rw [krylov, map_spanBelow, spanBelow, Submodule.span_le]
  rintro _ ⟨i, below, rfl⟩
  have power : A ((A ^ i) r) = (A ^ (i + 1)) r := by rw [pow_succ', Module.End.mul_apply]
  change A ((A ^ i) r) ∈ krylov A r (k + 1)
  rw [power]
  exact mem_spanBelow (fun i => (A ^ i) r) (Nat.succ_lt_succ below)

variable {A r}

/-- A new point of the next Krylov space spans it together with this one. -/
theorem krylov_succ_eq {k : ℕ} {z : Space n} (inside : z ∈ krylov A r (k + 1))
    (new : z ∉ krylov A r k) : krylov A r k ⊔ Submodule.span ℝ {z} = krylov A r (k + 1) := by
  have next : krylov A r (k + 1) = krylov A r k ⊔ Submodule.span ℝ {(A ^ k) r} :=
    spanBelow_succ _ k
  rw [next] at inside ⊢
  exact sup_span_singleton_eq inside new

end Krylov

end NewtonKrylov
