import NewtonKrylov.Proofs.LinearSystem.Residual

/-!
# The history does not increase

A cycle takes orthogonal components away from the residual, whatever the operator does, and the next
cycle starts from what is left. So the norms in the history do not increase, from cycle to cycle as
within a cycle. Neither the operator nor the preconditioners need to be linear for this, and the
tolerance may be any number.
-/

namespace NewtonKrylov

namespace LinearSystem

open Vec NewtonKrylov.Cycle

variable {n : ℕ}

/-- A cycle goes on with a history that does not increase. -/
lemma Consistent.isChain_advance {F : Space n → Space n} {s : State ℝ} {capacity limit : ℕ}
    {ws : Workspace ℝ} {p : Progress ℝ} {out : Outcome ℝ} (T : Consistent n capacity s)
    (E : Carried F (s.residualPoint n) limit ws p out) (chain : s.history.IsChain (· ≥ ·)) :
    (s.advance ws out).history.IsChain (· ≥ ·) := by
  have new := E.projected.isChain_norms
  rw [List.isChain_cons] at new
  change (s.history ++ out.history).IsChain (· ≥ ·)
  refine List.isChain_append.mpr ⟨chain, new.2, ?_⟩
  intro before member after first
  rw [T.last] at member
  obtain rfl : s.norm = before := Option.mem_some.mp member
  rw [T.norm]
  exact new.1 after first

/-- The cycles of any operator go through, and the history does not increase. -/
theorem cycles_isChain {op : Operator ℝ} {F : Space n → Space n} (acts : ActsAs op F)
    {capacity : ℕ} (fits : capacity ≤ n) (ν tolerance : ℝ) (remaining : ℕ) {limit : ℕ}
    {s : State ℝ} (T : Consistent n capacity s) (chain : s.history.IsChain (· ≥ ·)) :
    ∃ last, cycles op ν tolerance remaining limit s = .ok last ∧ Consistent n capacity last ∧
      last.history.IsChain (· ≥ ·) := by
  induction remaining using Nat.strong_induction_on generalizing limit s with
  | _ remaining ih =>
    obtain ⟨ws, p, out, run, reset, E⟩ :=
      run_carried acts fits T.workspace (s.residualPoint n) ν tolerance limit
    rw [← T.residual, ← T.norm] at run
    have kept := T.advance reset E
    have longer := T.isChain_advance E chain
    rw [cycles_of_run run]
    by_cases goes_on : tolerance < out.norm ∧ out.steps < remaining ∧ 0 < out.steps
    · rw [if_pos goes_on]
      exact ih (remaining - out.steps) (by omega) kept longer
    · rw [if_neg goes_on]
      exact ⟨s.advance ws out, rfl, kept, longer⟩

section Solve

variable {A : LinearOperator ℝ} {o : LinearOptions ℝ} {f : Operator ℝ} {M L R : Space n → Space n}

lemma Maps.runCycles_isChain (maps : Maps n A o f M L R) (r : Space n) :
    ∃ last, runCycles n o f (ofSpace r) = .ok last ∧ last.update.length = n ∧
      last.history.IsChain (· ≥ ·) := by
  have T := consistent_start o r
  have chain : (start n o (ofSpace r)).history.IsChain (· ≥ ·) := .singleton _
  unfold runCycles
  split_ifs
  · obtain ⟨last, ran, kept, longer⟩ := cycles_isChain maps.actsAs_preconditioned
      (cycleLimit_le n o) o.threshold _ (stepsAllowed n o).toNat T chain
    exact ⟨last, ran, kept.update, longer⟩
  · exact ⟨_, rfl, T.update, chain⟩

variable {op : Operator ℝ} {F : Space n → Space n} {m : ℤ} {fresh used : Workspace ℝ}

/-- For every operator and from every residual a cycle takes the components along orthonormal
columns away from the residual. So with any operator and any preconditioners the history of the
method does not increase, across all of its cycles. -/
theorem Maps.history_decays (acts : ActsAs op F) (created : Workspace.create n m = .ok fresh)
    (unused : used.reset = fresh) (r₀ : Space n) (ν tolerance : ℝ) (maxSteps : ℤ)
    (maps : Maps n A o f M L R) (limits : LimitsOk n o) (b : Space n) {x₀ : Space n}
    (guess : GuessIs n o x₀) :
    (∃ out ws,
      (run op (Tensor.ofVec (ofSpace r₀)) ‖r₀‖ (.ok ν) (.ok tolerance) maxSteps).run used
        = (.ok out, ws) ∧ Decomposed r₀ ws out) ∧
    ∃ x : Space n, ∃ history,
      solve A (Tensor.ofVec (ofSpace b)) o = .ok ⟨Tensor.ofVec (ofSpace x), history⟩ ∧
      history.Pairwise (· ≥ ·) := by
  constructor
  · obtain ⟨-, -, rfl⟩ := (Workspace.create_eq_ok_iff _ _ _).mp created
    obtain ⟨ws, p, out, run, -, E⟩ := run_carried acts (by omega) unused r₀ ν tolerance maxSteps
    exact ⟨out, ws, run, E.decomposed⟩
  · obtain ⟨last, ran, length, chain⟩ := maps.runCycles_isChain (L (b - M x₀))
    exact ⟨_, _, maps.solve_eq limits guess ran length, chain.pairwise⟩

end Solve

/-- The function that takes each entry to one less than its square. It is not linear, and zero on
the unit vectors of dimension one. -/
noncomputable def squareMinusOne : Operator ℝ := fun t => .ok (t.map fun a => a * a - 1)

lemma actsAs_squareMinusOne :
    ActsAs squareMinusOne fun x : Space n => WithLp.toLp 2 fun i => x i * x i - 1 :=
  .entrywise fun a => a * a - 1

/-- In dimension one the column of a cycle is that of the image zero. The tolerance and the
threshold are out of all bounds, and the preconditioner is not linear either. -/
theorem history_decays_squareMinusOne :
    (∃ out ws,
      (run squareMinusOne (Tensor.ofVec [2]) 2 (.ok 2) (.ok (-1)) 3).run
        ⟨1, 1, [(.column, [1])], [3], .empty 1 1⟩ = (.ok out, ws) ∧
      Decomposed (!₂[2] : Space 1) ws out) ∧
    ∃ x : Space 1, ∃ history,
      solve (.function squareMinusOne) (Tensor.ofVec [2])
          { tolerance := -1, threshold := 2, restart := some 1, maxSteps := some 3,
            left := squareMinusOne } = .ok ⟨Tensor.ofVec (ofSpace x), history⟩ ∧
      history.Pairwise (· ≥ ·) := by
  have vector : ofSpace (!₂[2] : Space 1) = [2] := by simp [ofSpace]
  have norm : ‖(!₂[2] : Space 1)‖ = 2 := by simp [EuclideanSpace.norm_eq]
  have maps : Maps 1 (.function squareMinusOne)
      { tolerance := -1, threshold := 2, restart := some 1, maxSteps := some 3,
        left := squareMinusOne } _ _ _ _ :=
    ⟨rfl, actsAs_squareMinusOne, actsAs_squareMinusOne, ActsAs.ok⟩
  have decays := maps.history_decays actsAs_squareMinusOne (m := 5) rfl
    (show Workspace.reset ⟨1, 1, [(.column, [1])], [3], .empty 1 1⟩ = _ from rfl) (!₂[2]) 2 (-1) 3
    ⟨by simp, by simp [stepsAllowed]⟩ (!₂[2]) (Or.inr ⟨rfl, rfl⟩)
  rwa [vector, norm] at decays

end LinearSystem

end NewtonKrylov
