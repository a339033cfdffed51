import NewtonKrylov.Preconditioner
import NewtonKrylov.Proofs.Effects
import NewtonKrylov.Proofs.Operator

/-!
# Preconditioners on points

The identity and the Jacobi preconditioner, whatever its diagonal is, are invertible linear maps
once they have seen a state: where the diagonal is zero the map leaves an entry alone.
-/

namespace NewtonKrylov

open Vec

variable {n : ℕ}

/-! ### Scaling entries -/

/-- Multiply each entry by one of its own. -/
noncomputable def scaling (d : Space n) : Space n →ₗ[ℝ] Space n where
  toFun x := WithLp.toLp 2 fun i => d i * x i
  map_add' x y := by
    ext i
    simp [mul_add]
  map_smul' a x := by
    ext i
    simp [mul_left_comm]

@[simp] lemma scaling_apply (d x : Space n) (i : Fin n) : scaling d x i = d i * x i := rfl

lemma scaling_bijective {d : Space n} (nonzero : ∀ i, d i ≠ 0) :
    Function.Bijective (scaling d) := by
  have injective : Function.Injective (scaling d) := by
    intro x y same
    ext i
    have entry : d i * x i = d i * y i := congrArg (fun z : Space n => z i) same
    exact mul_left_cancel₀ (nonzero i) entry
  exact ⟨injective, LinearMap.injective_iff_surjective.mp injective⟩

lemma combine_mul_ofSpace (d x : Space n) :
    Tensor.combine (· * ·) (Tensor.ofVec (ofSpace d)) (Tensor.ofVec (ofSpace x))
      = .ok (Tensor.ofVec (ofSpace (scaling d x))) := by
  rw [Tensor.combine_ofVec _ (by simp)]
  congr 2
  apply eq_of_toSpace_eq (n := n) (by simp) (by simp)
  ext i
  rw [toSpace_zipWith _ (length_ofSpace d) (length_ofSpace x)]
  simp

namespace Preconditioner

/-- What an entry of a diagonal is multiplied with. -/
noncomputable def reciprocals (d : Space n) : Space n :=
  WithLp.toLp 2 fun i => if d i = 0 then 1 else 1 / d i

lemma reciprocals_ne_zero (d : Space n) (i : Fin n) : reciprocals d i ≠ 0 := by
  change (if d i = 0 then 1 else 1 / d i) ≠ 0
  split_ifs with zero
  · exact one_ne_zero
  · exact one_div_ne_zero zero

/-- Without zeros the reciprocals undo the diagonal. -/
lemma scaling_comp_reciprocals {d : Space n} (nonzero : ∀ i, d i ≠ 0) :
    scaling d ∘ₗ scaling (reciprocals d) = .id := by
  ext x i
  change d i * ((if d i = 0 then 1 else 1 / d i) * x i) = x i
  rw [if_neg (nonzero i), ← mul_assoc, mul_one_div_cancel (nonzero i), one_mul]

lemma inverseDiagonal_ofSpace (d : Space n) :
    inverseDiagonal (Tensor.ofVec (ofSpace d)) = Tensor.ofVec (ofSpace (reciprocals d)) := by
  rw [inverseDiagonal, Tensor.map_ofVec, ofSpace, ofSpace, List.map_ofFn]
  congr 2
  ext i
  simp [reciprocals, bne]

/-- The identity, or a Jacobi preconditioner with a diagonal of length `n`, in whatever state an
earlier iteration may have left it. -/
def IsDiagonal (n : ℕ) (p : Preconditioner ℝ) : Prop :=
  p = identity ∨ ∃ diagonal action, ∃ D : Space n → Space n,
    ActsAs diagonal D ∧ p = { jacobi diagonal with action := action }

lemma jacobiAction_eq_ok {diagonal : Operator ℝ} {D : Space n → Space n}
    (acts : ActsAs diagonal D) (x : Space n) :
    ∃ op, jacobiAction diagonal (Tensor.ofVec (ofSpace x)) = .ok op ∧
      ActsAs op (scaling (reciprocals (D x))) := by
  refine ⟨fun v => Tensor.combine (· * ·) (Tensor.ofVec (ofSpace (reciprocals (D x)))) v, ?_,
    fun v => combine_mul_ofSpace _ v⟩
  unfold jacobiAction
  simp only [acts x, ok_bind, inverseDiagonal_ofSpace]
  rfl

/-- At the start of an iteration the Jacobi preconditioner comes to divide by its diagonal there,
whatever it did before. -/
lemma jacobi_startAt_eq_ok {diagonal : Operator ℝ} {D : Space n → Space n}
    (acts : ActsAs diagonal D) (action : Operator ℝ) (x : Space n) :
    ∃ op, ActsAs op (scaling (reciprocals (D x))) ∧
      startAt { jacobi diagonal with action := action } (Tensor.ofVec (ofSpace x))
        = .ok { jacobi diagonal with action := op } := by
  obtain ⟨op, built, acts_op⟩ := jacobiAction_eq_ok acts x
  exact ⟨op, acts_op, by simp [startAt, jacobi, built]⟩

lemma jacobi_refreshAt_eq_ok {diagonal : Operator ℝ} {D : Space n → Space n}
    (acts : ActsAs diagonal D) (action : Operator ℝ) (x : Space n) :
    ∃ q, refreshAt { jacobi diagonal with action := action } (Tensor.ofVec (ofSpace x))
      = .ok q := by
  obtain ⟨op, built, -⟩ := jacobiAction_eq_ok acts x
  exact ⟨{ jacobi diagonal with action := op }, by simp [refreshAt, jacobi, built]⟩

namespace IsDiagonal

variable {p : Preconditioner ℝ} (diagonal : p.IsDiagonal n)
include diagonal

/-- At the start of an iteration the action becomes an invertible linear map. -/
theorem startAt_eq_ok (x : Space n) :
    ∃ q, ∃ P : Space n →ₗ[ℝ] Space n, p.startAt (Tensor.ofVec (ofSpace x)) = .ok q ∧
      q.IsDiagonal n ∧ ActsAs q.action P ∧ Function.Bijective P := by
  rcases diagonal with rfl | ⟨entries, action, D, acts, rfl⟩
  · exact ⟨identity, LinearMap.id, rfl, .inl rfl, ActsAs.ok, Function.bijective_id⟩
  · obtain ⟨op, acts_op, built⟩ := jacobi_startAt_eq_ok acts action x
    exact ⟨{ jacobi entries with action := op }, _, built, .inr ⟨entries, op, D, acts, rfl⟩,
      acts_op, scaling_bijective (reciprocals_ne_zero (D x))⟩

lemma refreshAt_eq_ok (x : Space n) : ∃ q, p.refreshAt (Tensor.ofVec (ofSpace x)) = .ok q := by
  rcases diagonal with rfl | ⟨entries, action, D, acts, rfl⟩
  · exact ⟨identity, rfl⟩
  · exact jacobi_refreshAt_eq_ok acts action x

end IsDiagonal

end Preconditioner

end NewtonKrylov
