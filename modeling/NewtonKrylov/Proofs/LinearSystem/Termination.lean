import NewtonKrylov.Proofs.Krylov.Breakdown
import NewtonKrylov.Proofs.LinearSystem.Residual

/-!
# Termination

With room for as many steps as there are dimensions, one cycle is enough for an invertible system.
It has no zero pivot, so the residual that it carries along is that of the solution. If the
tolerance is zero, the cycle ends with no residual left, at the latest when the columns fill the
whole space.
-/

namespace NewtonKrylov

namespace LinearSystem

open Vec NewtonKrylov.Cycle

variable {n : ℕ} {A : LinearOperator ℝ} {o : LinearOptions ℝ} {f : Operator ℝ}
  {M L R : Space n →ₗ[ℝ] Space n}

/-- The left factor of an invertible product is injective. -/
lemma injective_left (invertible : Function.Bijective (L ∘ₗ M ∘ₗ R)) : Function.Injective L := by
  have surjective : Function.Surjective L := by
    have product := invertible.surjective
    rw [LinearMap.coe_comp] at product
    exact product.of_comp
  exact LinearMap.injective_iff_surjective.mpr surjective

/-- An invertible system of `n` equations is solved in at most `n` steps, up to the tolerance, and
exactly if that is zero. -/
theorem Linear.solve_terminates (linear : Linear n A o f M L R)
    (invertible : Function.Bijective (L ∘ₗ M ∘ₗ R)) (dimension : 0 < n) (full : LimitsFull n o)
    (nonneg : 0 ≤ o.tolerance) (small : o.threshold < 1) {b x₀ : Space n}
    (guess : GuessIs n o x₀) :
    ∃ x history,
      solve A (Tensor.ofVec (ofSpace b)) o = .ok ⟨Tensor.ofVec (ofSpace x), history⟩ ∧
      history.length ≤ n + 1 ∧ ‖L (b - M x)‖ ≤ o.tolerance * ‖L (b - M x₀)‖ ∧
      (o.tolerance = 0 → M x = b) := by
  have limits := full.limitsOk dimension
  have reached : ∃ x history,
      solve A (Tensor.ofVec (ofSpace b)) o = .ok ⟨Tensor.ofVec (ofSpace x), history⟩ ∧
      history.length ≤ n + 1 ∧ ‖L (b - M x)‖ ≤ o.tolerance * ‖L (b - M x₀)‖ := by
    by_cases work : o.tolerance * ‖L (b - M x₀)‖ < ‖L (b - M x₀)‖
    · have some_step : (min (n : Int) n).toNat ≠ 0 := by omega
      obtain ⟨ws, p, out, run, -, E, S⟩ := run_adapted linear.actsAs_preconditioned
        invertible.injective small (o.tolerance * ‖L (b - M x₀)‖) le_rfl
        (show (Workspace.empty n n).reset = _ from rfl) (residual_ne_zero work) some_step
      rw [min_self, Int.toNat_natCast] at E
      obtain ⟨last, ran, update, history⟩ :=
        runCycles_of_finished full nonneg dimension work run E
      have length : last.update.length = n := by rw [update, E.update, length_ofSpace]
      refine ⟨_, _, linear.solve_eq limits guess ran length, ?_, ?_⟩
      · rw [history, List.length_cons, E.projected.length_norms]
        exact Nat.succ_le_succ E.atMost
      · rw [residual_of_update, update, E.sub_map_update_of_adapted S invertible.injective,
          ← E.norm]
        exact E.norm_le (by positivity)
    · refine ⟨_, _, linear.solve_eq limits guess (runCycles_of_small work) (length_zeros n), ?_, ?_⟩
      · exact Nat.succ_le_succ (Nat.zero_le n)
      · rw [residual_of_update]
        change ‖L (b - M x₀) - (L ∘ₗ M ∘ₗ R) (toSpace n (zeros n))‖ ≤ _
        rw [toSpace_zeros, map_zero, sub_zero]
        exact not_lt.mp work
  obtain ⟨x, history, solved, count, residual⟩ := reached
  refine ⟨x, history, solved, count, residual, ?_⟩
  intro exact_solution
  -- The residual is zero, but it is the preconditioned one: the left preconditioner is injective.
  rw [exact_solution, zero_mul, norm_le_zero_iff] at residual
  rw [← map_zero L] at residual
  exact (sub_eq_zero.mp (injective_left invertible residual)).symm

/-- A quarter turn, with another one as left preconditioner and a guess. The product of the two is
the half turn. -/
theorem solve_terminates_quarterTurn :
    ∃ x : Space 2, ∃ history,
      solve (.matrix quarterTurn) (Tensor.ofVec (ofSpace !₂[1, 0]))
          { guess := some (Tensor.ofVec (ofSpace !₂[1, 1])), tolerance := 0, threshold := 1 / 2,
            left := quarterTurn.product } = .ok ⟨Tensor.ofVec (ofSpace x), history⟩ ∧
      history.length ≤ 3 ∧ Matrix.toEuclideanLin (quarterTurn.toMatrix 2) x = !₂[1, 0] := by
  have turn := isSquare_quarterTurn.actsAs_product
  have linear : Linear 2 (.matrix quarterTurn)
      { guess := some (Tensor.ofVec (ofSpace !₂[1, 1])), tolerance := 0, threshold := 1 / 2,
        left := quarterTurn.product } quarterTurn.product
      (Matrix.toEuclideanLin (quarterTurn.toMatrix 2))
      (Matrix.toEuclideanLin (quarterTurn.toMatrix 2)) LinearMap.id :=
    ⟨rfl, turn, turn, ActsAs.ok⟩
  obtain ⟨x, history, solved, count, -, exact_solution⟩ := linear.solve_terminates
    (quarterTurn_bijective.comp quarterTurn_bijective) two_pos ⟨by simp, by simp⟩ le_rfl
    (by norm_num) (Or.inl rfl)
  exact ⟨x, history, solved, count, exact_solution rfl⟩

end LinearSystem

end NewtonKrylov
