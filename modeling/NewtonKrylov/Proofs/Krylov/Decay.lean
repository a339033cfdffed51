import NewtonKrylov.Proofs.Krylov.Residual

/-!
# The decay of the residual

`run_finished` is about cycles that take a step. `Carried` is what is left of it for all cycles,
those from the residual zero and those that may take no step included, and `run_carried` says that
every cycle goes through and ends there.

The columns of the orthogonal factor are orthonormal, and each step takes away the component along
one more of them. So the residual is the first one without its projection onto the columns,
`Decomposed`, and its norm does not increase from step to step.
-/

namespace NewtonKrylov

open Vec
open scoped InnerProductSpace

variable {n : ℕ}

namespace Cycle

variable {F : Space n → Space n} {r₀ : Space n} {ws : Workspace ℝ} {p : Progress ℝ}
  {norms : List ℝ} {limit : ℕ} {out : Outcome ℝ}

/-! ### The end of any cycle -/

/-- How a cycle ends that may have taken no steps. -/
structure Carried (F : Space n → Space n) (r₀ : Space n) (limit : ℕ) (ws : Workspace ℝ)
    (p : Progress ℝ) (out : Outcome ℝ) : Prop where
  projected : Projected F r₀ ws p out.history
  update : out.update
    = ofSpace (combination n ((solution ws).getD · 0) (ws.direction n) ws.factorization.size)
  residual : out.residual = Tensor.ofVec (ofSpace (ws.remainder n r₀ ws.factorization.size))
  norm : out.norm = ‖ws.remainder n r₀ ws.factorization.size‖
  steps : out.steps = ws.factorization.size
  atMost : ws.factorization.size ≤ limit

lemma Finished.carried {tolerance : ℝ} (E : Finished F r₀ tolerance limit ws p out) :
    Carried F r₀ limit ws p out :=
  ⟨E.projected, E.update, E.residual, E.norm, E.steps, E.atMost⟩

/-- A cycle without steps leaves everything as it is. -/
lemma carried_empty {capacity : ℕ} (fits : capacity ≤ n) (F : Space n → Space n) (r₀ : Space n)
    {norm : ℝ} (same : norm = ‖r₀‖) (limit : ℕ) :
    Carried F r₀ limit (.empty n capacity) ⟨Tensor.ofVec (ofSpace r₀), ‖r₀‖, ‖r₀‖, none⟩
      ⟨zeros n, Tensor.ofVec (ofSpace r₀), norm, 0, []⟩ where
  projected := projected_start fits F r₀
  update := ofSpace_zero.symm
  residual := (projected_start fits F r₀).residual
  norm := same.trans (projected_start fits F r₀).norm
  steps := rfl
  atMost := Nat.zero_le limit

/-- A cycle goes through, for every operator and from every residual. -/
theorem run_carried {op : Operator ℝ} (acts : ActsAs op F) {capacity : ℕ} (fits : capacity ≤ n)
    {used : Workspace ℝ} (empty : used.reset = .empty n capacity) (r₀ : Space n)
    (ν tolerance : ℝ) (maxSteps : ℤ) :
    ∃ ws p out,
      (run op (Tensor.ofVec (ofSpace r₀)) ‖r₀‖ (.ok ν) (.ok tolerance) maxSteps).run used
        = (.ok out, ws) ∧ ws.reset = .empty n capacity ∧
      Carried F r₀ (min maxSteps capacity).toNat ws p out := by
  -- Without a step the run ends at once. Otherwise the loop takes one, and its end is known.
  by_cases no_step : r₀ = 0 ∨ (min maxSteps capacity).toNat = 0
  · obtain rfl : used.dimension = n := congrArg Workspace.dimension empty
    obtain rfl : used.capacity = capacity := congrArg Workspace.capacity empty
    have none : (‖r₀‖ == 0) = true ∨ (min maxSteps used.capacity).toNat = 0 :=
      no_step.imp_left fun zero => by simp [zero]
    have same : (if ‖r₀‖ == 0 then 0 else ‖r₀‖) = ‖r₀‖ := by
      split_ifs with zero
      · exact (eq_of_beq zero).symm
      · rfl
    refine ⟨_, ⟨Tensor.ofVec (ofSpace r₀), ‖r₀‖, ‖r₀‖, .none⟩, _, run_of_no_step none, rfl, ?_⟩
    rw [empty]
    exact carried_empty fits F r₀ same _
  · obtain ⟨nonzero, positive⟩ := not_or.mp no_step
    obtain ⟨ws, p, out, run, reset, E⟩ :=
      run_ends acts fits empty nonzero ν tolerance positive
    exact ⟨ws, p, out, run, reset, E.carried⟩

/-! ### What the columns take away -/

namespace Projected

/-- A step takes the square of its coefficient from the square of the norm. -/
lemma norm_remainder_succ_sq (P : Projected F r₀ ws p norms) {k : ℕ}
    (below : k < ws.factorization.size) :
    ‖ws.remainder n r₀ (k + 1)‖ ^ 2
      = ‖ws.remainder n r₀ k‖ ^ 2 - ws.coefficients.getD k 0 ^ 2 := by
  have orthogonal := P.inner_column_remainder (Nat.lt_succ_self k) below
  have unit : ‖ws.column n k‖ ^ 2 = 1 := by
    rw [← real_inner_self_eq_norm_sq, P.inner_column below below, if_pos rfl]
  have before : ws.remainder n r₀ k
      = ws.remainder n r₀ (k + 1) + ws.coefficients.getD k 0 • ws.column n k := by
    rw [Workspace.remainder_succ]
    module
  rw [before, norm_add_sq_real, real_inner_smul_right, real_inner_comm, orthogonal, norm_smul,
    mul_pow, unit, Real.norm_eq_abs, sq_abs]
  ring

/-- The squares of the norms of what is left and of what the columns have taken away add up. -/
theorem norm_remainder_sq (P : Projected F r₀ ws p norms) {k : ℕ}
    (atMost : k ≤ ws.factorization.size) :
    ‖ws.remainder n r₀ k‖ ^ 2
      = ‖r₀‖ ^ 2 - ∑ j ∈ Finset.range k, ws.coefficients.getD j 0 ^ 2 := by
  induction k with
  | zero => simp
  | succ k ih =>
    rw [P.norm_remainder_succ_sq atMost, ih (by omega), Finset.sum_range_succ]
    ring

lemma norm_remainder_succ_le (P : Projected F r₀ ws p norms) {k : ℕ}
    (below : k < ws.factorization.size) :
    ‖ws.remainder n r₀ (k + 1)‖ ≤ ‖ws.remainder n r₀ k‖ := by
  apply (sq_le_sq₀ (by positivity) (by positivity)).mp
  rw [P.norm_remainder_succ_sq below]
  exact sub_le_self _ (sq_nonneg _)

/-- The norms from the first residual on. -/
lemma cons_norms (P : Projected F r₀ ws p norms) :
    ‖r₀‖ :: norms
      = (List.range (ws.factorization.size + 1)).map fun k => ‖ws.remainder n r₀ k‖ := by
  rw [List.range_succ_eq_map, List.map_cons, List.map_map, P.norms, Workspace.remainder_zero]
  rfl

/-- From step to step the norm does not increase. -/
theorem isChain_norms (P : Projected F r₀ ws p norms) : (‖r₀‖ :: norms).IsChain (· ≥ ·) := by
  rw [P.cons_norms, List.isChain_map, List.isChain_range_succ]
  exact fun k below => P.norm_remainder_succ_le below

end Projected

lemma Carried.getLast?_history (E : Carried F r₀ limit ws p out) :
    (‖r₀‖ :: out.history).getLast? = some out.norm := by
  rw [E.projected.cons_norms, E.norm, List.range_succ, List.map_append, List.map_singleton,
    List.getLast?_concat]

end Cycle

namespace Factorization.Factors

variable {f : Factorization ℝ} {inputs : List (Vec ℝ)}

/-- The transposed orthogonal factor takes a point to its components along the columns. -/
lemma transpose_orthogonal_apply (F : Factors n f inputs) (x : Space n) (i : Fin f.size) :
    Matrix.toEuclideanLin (f.orthogonal.toMatrix n f.size).transpose x i
      = ⟪f.columnPoint n i, x⟫_ℝ := by
  rw [Matrix.ofLp_toLpLin, Matrix.toLin'_apply, PiLp.inner_apply, Matrix.mulVec, dotProduct]
  apply Finset.sum_congr rfl
  intro j _
  rw [Matrix.transpose_apply, F.toMatrix_orthogonal]
  exact mul_comm _ _

/-- The orthogonal factor combines its columns. -/
lemma orthogonal_apply (F : Factors n f inputs) (c : Vec ℝ) :
    Matrix.toEuclideanLin (f.orthogonal.toMatrix n f.size) (toSpace f.size c)
      = combination n (c.getD · 0) (f.columnPoint n) f.size := by
  ext i
  rw [Matrix.ofLp_toLpLin, Matrix.toLin'_apply, combination, Finset.sum_range, WithLp.ofLp_sum,
    Finset.sum_apply, Matrix.mulVec, dotProduct]
  apply Finset.sum_congr rfl
  intro j _
  rw [F.toMatrix_orthogonal]
  exact mul_comm _ _

end Factorization.Factors

namespace Cycle

/-- The end of a cycle from `r₀` in terms of the matrix of its columns. The coefficients are the
components of `r₀`, and the residual is what the projection of `r₀` onto the columns leaves. -/
structure Decomposed (r₀ : Space n) (ws : Workspace ℝ) (out : Outcome ℝ) : Prop where
  count : ws.coefficients.length = out.steps
  shape : ws.factorization.orthogonal.HasShape n out.steps
  coefficients : toSpace out.steps ws.coefficients
    = Matrix.toEuclideanLin (ws.factorization.orthogonal.toMatrix n out.steps).transpose r₀
  residual : out.residual = Tensor.ofVec (ofSpace
    (r₀ - Matrix.toEuclideanLin (ws.factorization.orthogonal.toMatrix n out.steps)
      (toSpace out.steps ws.coefficients)))
  orthogonal : Matrix.toEuclideanLin
    (ws.factorization.orthogonal.toMatrix n out.steps).transpose
      (toSpace n out.residual.entries) = 0
  norm : out.norm = ‖toSpace n out.residual.entries‖
  norm_sq : ‖toSpace n out.residual.entries‖ ^ 2
    = ‖r₀‖ ^ 2 - ∑ j ∈ Finset.range out.steps, ws.coefficients.getD j 0 ^ 2

variable {F : Space n → Space n} {r₀ : Space n} {ws : Workspace ℝ} {p : Progress ℝ} {limit : ℕ}
  {out : Outcome ℝ}

theorem Carried.decomposed (E : Carried F r₀ limit ws p out) : Decomposed r₀ ws out := by
  have P := E.projected
  have left : toSpace n out.residual.entries = ws.remainder n r₀ ws.factorization.size := by
    rw [E.residual]
    exact toSpace_ofSpace _
  constructor
  · rw [E.steps, P.fits.coefficients]
  · rw [E.steps]
    exact P.factors.hasShape_orthogonal
  · rw [E.steps]
    ext i
    rw [P.factors.transpose_orthogonal_apply, toSpace_apply, P.coefficient i i.isLt]
    rfl
  · rw [E.residual, E.steps, P.factors.orthogonal_apply]
    rfl
  · rw [left, E.steps]
    ext i
    rw [P.factors.transpose_orthogonal_apply]
    exact P.inner_column_remainder i.isLt le_rfl
  · rw [left, E.norm]
  · rw [left, E.steps, P.norm_remainder_sq le_rfl]

end Cycle

end NewtonKrylov
