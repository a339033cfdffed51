import NewtonKrylov.Proofs.LinearSystem.Uniqueness

/-!
# The threshold does not change the solution

The threshold decides, step by step, where the next direction comes from. With two thresholds the
directions, the triangular systems and their solutions are different ones. For an invertible system
the outcome of each cycle is still the same, so the cycles run in step: they stop at the same norms,
restart from the same residuals, and end with the same solution and the same history.
-/

namespace NewtonKrylov

namespace LinearSystem

open Vec NewtonKrylov.Cycle

variable {n : ℕ}

/-- Cycles with different thresholds run in step. Only what they leave in the work space differs. -/
theorem cycles_threshold {op : Operator ℝ} {B : Space n →ₗ[ℝ] Space n} (acts : ActsAs op B)
    (injective : Function.Injective B) {ν₁ ν₂ : ℝ} (small₁ : ν₁ < 1) (small₂ : ν₂ < 1)
    {capacity : ℕ} (fits : capacity ≤ n) (room : 0 < capacity) (remaining : ℕ) {tolerance : ℝ}
    (nonneg : 0 ≤ tolerance) {limit : ℕ} {s : State ℝ} {used : Workspace ℝ}
    (T : Consistent n capacity s) (empty : used.reset = .empty n capacity)
    (large : tolerance < s.norm) (positive : 0 < limit) :
    ∃ last ws, cycles op ν₁ tolerance remaining limit s = .ok last ∧
      cycles op ν₂ tolerance remaining limit { s with workspace := used }
        = .ok { last with workspace := ws } ∧
      Consistent n capacity last := by
  obtain ⟨out, -, -, ran⟩ := cycles_unique acts injective nonneg remaining (T.norm ▸ large)
    (show 0 < min limit capacity by omega) (by omega)
  have T₂ : Consistent n capacity { s with workspace := used } :=
    ⟨empty, T.update, T.residual, T.norm, T.last⟩
  obtain ⟨ws₁, ran₁, kept⟩ := ran small₁ fits rfl T rfl
  obtain ⟨ws₂, ran₂, -⟩ := ran small₂ fits rfl T₂ rfl
  exact ⟨s.advance ws₁ out, ws₂, ran₁, ran₂, kept⟩

section Solve

variable {A : LinearOperator ℝ} {o : LinearOptions ℝ} {f : Operator ℝ}
  {M L R : Space n →ₗ[ℝ] Space n}

/-- A system does not know the threshold. -/
lemma Linear.withThreshold (linear : Linear n A o f M L R) (ν : ℝ) :
    Linear n A { o with threshold := ν } f M L R := linear.congr rfl rfl

lemma LimitsOk.withThreshold (limits : LimitsOk n o) (ν : ℝ) :
    LimitsOk n { o with threshold := ν } :=
  ⟨limits.restart, limits.steps⟩

lemma Linear.runCycles_threshold (linear : Linear n A o f M L R)
    (invertible : Function.Bijective (L ∘ₗ M ∘ₗ R)) (limits : LimitsOk n o)
    (nonneg : 0 ≤ o.tolerance) {ν₁ ν₂ : ℝ} (small₁ : ν₁ < 1) (small₂ : ν₂ < 1) (r : Space n) :
    ∃ last ws, runCycles n { o with threshold := ν₁ } f (ofSpace r) = .ok last ∧
      runCycles n { o with threshold := ν₂ } f (ofSpace r) = .ok { last with workspace := ws } ∧
      last.update.length = n := by
  by_cases work : o.tolerance * ‖r‖ < ‖r‖ ∧ 0 < stepsAllowed n o
  · have dimension := dimension_pos_of_ne_zero (residual_ne_zero work.1)
    have room := limits.cycleLimit_pos dimension work.2
    have above : o.tolerance * ‖r‖ < (start n o (ofSpace r)).norm := by
      rw [start, norm_ofSpace]
      exact work.1
    obtain ⟨last, ws, ran₁, ran₂, kept⟩ :=
      cycles_threshold linear.actsAs_preconditioned invertible.injective small₁ small₂
        (cycleLimit_le n o) room (stepsAllowed n o).toNat (by positivity)
        (consistent_start o r) (consistent_start o r).workspace above room
    rw [← norm_ofSpace] at work ran₁ ran₂
    exact ⟨last, ws, (if_pos work).trans ran₁, (if_pos work).trans ran₂, kept.update⟩
  · rw [← norm_ofSpace] at work
    exact ⟨start n o (ofSpace r), .empty n (cycleLimit n o), if_neg work, if_neg work,
      length_zeros n⟩

/-- An invertible system has the same solution and the same history with every threshold below one,
and a solution as soon as the limits of the steps are accepted. -/
theorem Linear.solve_threshold (linear : Linear n A o f M L R)
    (invertible : Function.Bijective (L ∘ₗ M ∘ₗ R)) (nonneg : 0 ≤ o.tolerance) {b x₀ : Space n}
    (guess : GuessIs n o x₀) {ν₁ ν₂ : ℝ} (small₁ : ν₁ < 1) (small₂ : ν₂ < 1) :
    solve A (Tensor.ofVec (ofSpace b)) { o with threshold := ν₁ }
        = solve A (Tensor.ofVec (ofSpace b)) { o with threshold := ν₂ } ∧
      (LimitsOk n o → ∃ x : Space n, ∃ history,
        solve A (Tensor.ofVec (ofSpace b)) { o with threshold := ν₁ }
          = .ok ⟨Tensor.ofVec (ofSpace x), history⟩) := by
  by_cases limits : LimitsOk n o
  · obtain ⟨last, ws, ran₁, ran₂, length⟩ :=
      linear.runCycles_threshold invertible limits nonneg small₁ small₂ (L (b - M x₀))
    have solved₁ := (linear.withThreshold ν₁).solve_eq (limits.withThreshold ν₁) guess ran₁ length
    have solved₂ := (linear.withThreshold ν₂).solve_eq (limits.withThreshold ν₂) guess ran₂ length
    exact ⟨solved₁.trans solved₂.symm, fun _ => ⟨_, _, solved₁⟩⟩
  · have refused (ν : ℝ) : solve A (Tensor.ofVec (ofSpace b)) { o with threshold := ν }
        = .error (limitsError n o) :=
      solve_eq_error (o := { o with threshold := ν }) (length_ofSpace b)
        (fun accepted => limits ⟨accepted.restart, accepted.steps⟩) guess.getD (length_ofSpace x₀)
        linear.resolved
    exact ⟨(refused ν₁).trans (refused ν₂).symm, fun accepted => absurd accepted limits⟩

end Solve

/-- The matrix that leaves the first entry of a vector and doubles the second. -/
noncomputable def secondDoubled : Tensor ℝ := ⟨[2, 2], [1, 0, 0, 2]⟩

lemma isSquare_secondDoubled : secondDoubled.IsSquare 2 := ⟨rfl, rfl⟩

lemma secondDoubled_bijective :
    Function.Bijective (Matrix.toEuclideanLin (secondDoubled.toMatrix 2)) := by
  have entries : secondDoubled.toMatrix 2 = !![1, 0; 0, 2] := by
    ext i j
    fin_cases i <;> fin_cases j <;> rfl
  have injective : Function.Injective (Matrix.toEuclideanLin (secondDoubled.toMatrix 2)) := by
    rw [entries, injective_iff_map_eq_zero]
    intro x zero
    have first := congrArg (fun y : Space 2 => y 0) zero
    have second := congrArg (fun y : Space 2 => y 1) zero
    simp [Matrix.toLpLin_apply, dotProduct, Fin.sum_univ_two] at first second
    ext i
    fin_cases i
    · exact first
    · exact second
  exact ⟨injective, LinearMap.injective_iff_surjective.mp injective⟩

/-- The residual of this system decays to less than a third in the first step. So the second
direction is the residual with one of the thresholds, and the first column with the other. -/
theorem solve_threshold_secondDoubled :
    ∃ x : Space 2, ∃ history,
      solve (.matrix secondDoubled) (Tensor.ofVec (ofSpace !₂[1, 1]))
          { usualOptions with threshold := 9 / 10 } = .ok ⟨Tensor.ofVec (ofSpace x), history⟩ ∧
      solve (.matrix secondDoubled) (Tensor.ofVec (ofSpace !₂[1, 1]))
          { usualOptions with threshold := 0 } = .ok ⟨Tensor.ofVec (ofSpace x), history⟩ := by
  have linear : Linear 2 (.matrix secondDoubled) usualOptions secondDoubled.product
      (Matrix.toEuclideanLin (secondDoubled.toMatrix 2)) LinearMap.id LinearMap.id :=
    ⟨rfl, isSquare_secondDoubled.actsAs_product, ActsAs.ok, ActsAs.ok⟩
  obtain ⟨same, solved⟩ := linear.solve_threshold secondDoubled_bijective
    usualOptions_tolerance_nonneg (b := !₂[1, 1]) (Or.inr ⟨rfl, rfl⟩)
    (show (9 / 10 : ℝ) < 1 by norm_num) zero_lt_one
  obtain ⟨x, history, first⟩ := solved ((limitsFull_usualOptions 2).limitsOk two_pos)
  exact ⟨x, history, first, same ▸ first⟩

end LinearSystem

end NewtonKrylov
