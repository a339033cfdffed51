import NewtonKrylov.Proofs.Krylov.Decay

/-!
# The residual is as short as it can be

The images of the directions lie in the span of the columns of the orthogonal factor, and the
residual of a cycle is what the projection onto this span leaves of the first one. So no combination
of the images leaves less, whether or not the operator is linear. If no pivot is zero, what the
projection takes away is such a combination, and its coefficients are those of the update.
-/

namespace NewtonKrylov

open Vec
open scoped InnerProductSpace

variable {n : ℕ}

namespace Cycle

variable {F : Space n → Space n} {r₀ : Space n} {ws : Workspace ℝ} {p : Progress ℝ}
  {norms : List ℝ} {limit : ℕ} {out : Outcome ℝ}

/-- The image of the combination of the first `k` directions with coefficients `c`, if the operator
were linear. -/
noncomputable def imageCombination (F : Space n → Space n) (ws : Workspace ℝ) (c : ℕ → ℝ) (k : ℕ) :
    Space n :=
  combination n c (fun j => F (ws.direction n j)) k

namespace Projected

/-- Nothing in the span of the columns is closer to the first residual than its projection. -/
theorem norm_remainder_le (P : Projected F r₀ ws p norms) {v : Space n}
    (inside : v ∈ spanBelow (ws.column n) ws.factorization.size) :
    ‖ws.remainder n r₀ ws.factorization.size‖ ≤ ‖r₀ - v‖ := by
  let projection := combination n (ws.coefficients.getD · 0) (ws.column n) ws.factorization.size
  have gone : projection - v ∈ spanBelow (ws.column n) ws.factorization.size :=
    Submodule.sub_mem _ (combination_mem_spanBelow _ _ _) inside
  have split : r₀ - v = ws.remainder n r₀ ws.factorization.size + (projection - v) := by
    rw [Workspace.remainder]
    module
  have orthogonal := P.inner_remainder_of_mem le_rfl gone
  apply (sq_le_sq₀ (by positivity) (by positivity)).mp
  rw [split, norm_add_sq_real, real_inner_comm, orthogonal, mul_zero, add_zero]
  exact le_add_of_nonneg_right (sq_nonneg _)

/-- The images of the directions lie in the span of the columns. -/
lemma imageCombination_mem (P : Projected F r₀ ws p norms) (c : ℕ → ℝ) :
    imageCombination F ws c ws.factorization.size
      ∈ spanBelow (ws.column n) ws.factorization.size := by
  rw [imageCombination, combination]
  apply Submodule.sum_mem
  intro j member
  rw [P.image_direction (Finset.mem_range.mp member)]
  exact Submodule.smul_mem _ _ (combination_mem_spanBelow _ _ _)

/-- Without zero pivots the images, with the coefficients of the update, leave what the projection
leaves. -/
lemma sub_imageCombination (P : Projected F r₀ ws p norms)
    (pivots : ∀ i < ws.factorization.size, ws.factorization.entry i i ≠ 0) :
    r₀ - imageCombination F ws ((solution ws).getD · 0) ws.factorization.size
      = ws.remainder n r₀ ws.factorization.size := by
  have matched : Matched ws := fun i below zero => absurd zero (pivots i below)
  rw [imageCombination, P.sub_images, P.gap_eq_zero_iff.mpr matched, add_zero]

end Projected

/-- A cycle goes through, for every operator, from every residual and with every limit of its steps.
If the triangular factor has no zero on its diagonal, then the solution of its least-squares problem
gives the update as a combination of the directions, the residual is what the same combination of
their images leaves of the first one, and no other combination leaves less. -/
theorem run_optimal {op : Operator ℝ} (acts : ActsAs op F) {m : ℤ} {fresh used : Workspace ℝ}
    (created : Workspace.create n m = .ok fresh) (unused : used.reset = fresh) (r₀ : Space n)
    (ν tolerance : ℝ) (maxSteps : ℤ) :
    ∃ out ws,
      (run op (Tensor.ofVec (ofSpace r₀)) ‖r₀‖ (.ok ν) (.ok tolerance) maxSteps).run used
        = (.ok out, ws) ∧
      ws.directions.length = out.steps ∧
      ws.factorization.triangular.HasShape out.steps out.steps ∧
      ((∀ i < out.steps, ws.factorization.triangular.entry i i ≠ 0) →
        ∃ y : Vec ℝ, y.length = out.steps ∧
          (0 < out.steps →
            Triangular.leastSquares ws.factorization.triangular ws.coefficients = .ok y) ∧
          out.update = ofSpace (combination n (y.getD · 0) (ws.direction n) out.steps) ∧
          out.residual
            = Tensor.ofVec (ofSpace (r₀ - imageCombination F ws (y.getD · 0) out.steps)) ∧
          out.norm = ‖r₀ - imageCombination F ws (y.getD · 0) out.steps‖ ∧
          ∀ c : ℕ → ℝ, out.norm ≤ ‖r₀ - imageCombination F ws c out.steps‖) := by
  obtain ⟨-, -, rfl⟩ := (Workspace.create_eq_ok_iff _ _ _).mp created
  obtain ⟨ws, p, out, run, -, E⟩ := run_carried acts (by omega) unused r₀ ν tolerance maxSteps
  have P := E.projected
  have shape := P.factors.hasShape_triangular
  refine ⟨out, ws, run, ?_, ?_, ?_⟩
  · rw [E.steps, P.fits.length_directions]
  · rwa [E.steps]
  · rw [E.steps]
    intro pivots
    have entries : ∀ i < ws.factorization.size, ws.factorization.entry i i ≠ 0 := by
      intro i below
      rw [← P.factors.entry_triangular below below]
      exact pivots i below
    have left := P.sub_imageCombination entries
    refine ⟨solution ws, P.solves_solution.length, ?_, E.update, ?_, ?_, ?_⟩
    · intro positive
      exact Triangular.leastSquares_eq_ok positive shape P.fits.coefficients
    · rw [E.residual, left]
    · rw [E.norm, left]
    · intro c
      rw [E.norm]
      exact P.norm_remainder_le (P.imageCombination_mem c)

/-- The function that takes each entry to one more than its square. It is not linear, and nowhere
zero. -/
noncomputable def squarePlusOne : Operator ℝ := fun t => .ok (t.map fun a => a * a + 1)

/-- In dimension one the step of a cycle has a pivot, because the image of its direction is not
zero. -/
theorem run_optimal_squarePlusOne :
    ∃ out ws,
      (run squarePlusOne (Tensor.ofVec [2]) 2 (.ok (1 / 2)) (.ok 0) 1).run
        ⟨1, 1, [(.column, [1])], [3], .empty 1 1⟩ = (.ok out, ws) ∧ out.steps = 1 ∧
      ∃ y : Vec ℝ, y.length = 1 ∧
        out.update = ofSpace (combination 1 (y.getD · 0) (ws.direction 1) 1) ∧
        ∀ c : ℕ → ℝ, out.norm ≤ ‖(!₂[2] : Space 1) - imageCombination
          (fun x : Space 1 => WithLp.toLp 2 fun i => x i * x i + 1) ws c 1‖ := by
  have nonzero : (!₂[2] : Space 1) ≠ 0 := by
    intro zero
    simpa using congrArg (fun y : Space 1 => y 0) zero
  have vector : ofSpace (!₂[2] : Space 1) = [2] := by simp [ofSpace]
  have norm : ‖(!₂[2] : Space 1)‖ = 2 := by simp [EuclideanSpace.norm_eq]
  have acts : ActsAs squarePlusOne fun x : Space 1 => WithLp.toLp 2 fun i => x i * x i + 1 :=
    .entrywise fun a => a * a + 1
  have created : Workspace.create 1 1 = .ok (.empty 1 1 : Workspace ℝ) := rfl
  have unused : (⟨1, 1, [(.column, [1])], [3], .empty 1 1⟩ : Workspace ℝ).reset = .empty 1 1 := rfl
  obtain ⟨out, ws, cycle, -, -, optimal⟩ :=
    run_optimal acts created unused (!₂[2]) (1 / 2) 0 1
  -- The optimal cycle does not say that a step is taken, so the same run is read a second time.
  obtain ⟨ws', p, out', again, -, E⟩ :=
    run_ends acts le_rfl unused nonzero (1 / 2) 0 (show (min 1 ((1 : ℕ) : ℤ)).toNat ≠ 0 by decide)
  obtain ⟨⟨rfl⟩, rfl⟩ := Prod.mk.inj (cycle.symm.trans again)
  have P := E.projected
  have steps : out.steps = 1 := by
    have atMost := E.atMost
    have positive := E.positive
    rw [E.steps]
    omega
  have size : ws.factorization.size = 1 := E.steps.symm.trans steps
  have pivots : ∀ i < out.steps, ws.factorization.triangular.entry i i ≠ 0 := by
    intro i below
    obtain rfl : i = 0 := by omega
    rw [P.factors.entry_triangular (by omega) (by omega)]
    intro zero
    have image := P.image_direction (j := 0) (by omega)
    rw [size, combination, Finset.sum_range_one, zero, zero_smul] at image
    -- With no pivot the image of the direction would be the zero vector.
    have none : ws.direction 1 0 0 * ws.direction 1 0 0 + 1 = 0 :=
      congrArg (fun y : Space 1 => y 0) image
    exact (add_pos_of_nonneg_of_pos (mul_self_nonneg _) one_pos).ne' none
  obtain ⟨y, count, -, update, -, -, least⟩ := optimal pivots
  rw [vector, norm] at cycle
  rw [steps] at count update least
  exact ⟨out, ws, cycle, steps, y, count, update, least⟩

end Cycle

end NewtonKrylov
