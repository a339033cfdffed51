import NewtonKrylov.Proofs.Krylov.Scaling
import NewtonKrylov.Proofs.LinearSystem.Decay
import NewtonKrylov.Proofs.LinearSystem.Steps

/-!
# Multiples of a linear system

A linear system for `c • b` with the guess `c • x₀` has `c` times the residual of the one for `b`
with the guess `x₀`. For a positive `c` the norms and the tolerance grow alike, so every cycle takes
the same steps, as many cycles are taken, and each of them starts from `c` times the residual. The
solution and the history are `c` times those of the first system.

No number that the method compares norms with is independent of the residual. The operator and the
preconditioners may be singular, and tolerance and threshold any numbers.
-/

namespace NewtonKrylov

/-- A solution and its history, times a number. -/
noncomputable def LinearSolution.smul (c : ℝ) (s : LinearSolution ℝ) : LinearSolution ℝ :=
  ⟨s.x.smul c, Vec.smul c s.history⟩

/-- The options with a multiple of the guess. -/
noncomputable def LinearOptions.smulGuess (c : ℝ) (o : LinearOptions ℝ) : LinearOptions ℝ :=
  { o with guess := o.guess.map (Tensor.smul c) }

namespace LinearSystem

open Vec NewtonKrylov.Cycle

variable {c : ℝ} {n : ℕ}

/-- A state from a multiple of the residual. -/
noncomputable def State.smul (c : ℝ) (s : State ℝ) : State ℝ :=
  ⟨s.workspace.smul c, Vec.smul c s.update, s.residual.smul c, c * s.norm, Vec.smul c s.history⟩

lemma advance_smul (c : ℝ) (s : State ℝ) (ws : Workspace ℝ) (out : Outcome ℝ) :
    (s.smul c).advance (ws.smul c) (out.smul c) = (s.advance ws out).smul c := by
  simp [State.advance, State.smul, Outcome.smul, Vec.smul_add]

/-! ### Cycles -/

section Cycles

variable {s : State ℝ}

/-- One cycle from a multiple of a state. -/
lemma run_state_smul (positive : 0 < c) {r : Vec ℝ} (vector : s.residual = Tensor.ofVec r)
    (op : Operator ℝ) (ν tolerance : ℝ) (limit : ℕ) :
    Mirrors (Outcome.smul c) (Workspace.smul c)
      (Cycle.run op s.residual s.norm (.ok ν) (.ok tolerance) limit)
      (Cycle.run op (s.smul c).residual (s.smul c).norm (.ok ν) (.ok (c * tolerance)) limit)
      s.workspace := by
  rw [State.smul, vector, Tensor.smul_ofVec]
  exact run_smul positive op r s.norm (.ok ν) (.ok tolerance) limit s.workspace

/-- The cycles from a multiple of a state, and the states after each of them. -/
theorem cycles_smul (positive : 0 < c) (vector : ∃ r : Vec ℝ, s.residual = Tensor.ofVec r)
    (op : Operator ℝ) (ν tolerance : ℝ) (remaining limit : ℕ) :
    cycles op ν (c * tolerance) remaining limit (s.smul c)
        = (cycles op ν tolerance remaining limit s).map (State.smul c) ∧
      trace op ν (c * tolerance) remaining limit (s.smul c)
        = (trace op ν tolerance remaining limit s).map (State.smul c) := by
  induction remaining using Nat.strong_induction_on generalizing limit s with
  | _ remaining ih =>
    obtain ⟨r, vector⟩ := vector
    have mirrored := run_state_smul positive vector op ν tolerance limit
    unfold Mirrors at mirrored
    -- A cycle may fail, for the operator is only linear on vectors. Then both runs fail with its
    -- error.
    match run : (Cycle.run op s.residual s.norm (.ok ν) (.ok tolerance) limit).run s.workspace with
    | (.error e, ws) =>
      rw [run] at mirrored
      rw [cycles_of_failed run, trace_of_failed run, cycles_of_failed mirrored,
        trace_of_failed mirrored]
      exact ⟨rfl, rfl⟩
    | (.ok out, ws) =>
      rw [run] at mirrored
      rw [cycles_of_run run, trace_of_run run, cycles_of_run mirrored, trace_of_run mirrored,
        advance_smul]
      rw [vector] at run
      have next : ∃ r' : Vec ℝ, (s.advance ws out).residual = Tensor.ofVec r' :=
        (run_isVector r s.norm limit).result run
      -- The factor is positive, so the norms compare as they did, and the steps are the same.
      have decides : (c * tolerance < (out.smul c).norm ∧ (out.smul c).steps < remaining ∧
          0 < (out.smul c).steps)
            ↔ (tolerance < out.norm ∧ out.steps < remaining ∧ 0 < out.steps) :=
        and_congr_left' (mul_lt_mul_iff_of_pos_left positive)
      by_cases goes_on : tolerance < out.norm ∧ out.steps < remaining ∧ 0 < out.steps
      · rw [if_pos goes_on, if_pos goes_on, if_pos (decides.mpr goes_on),
          if_pos (decides.mpr goes_on), List.map_cons]
        obtain ⟨last, later⟩ := ih (remaining - out.steps) (by omega) next _
        exact ⟨last, congrArg _ later⟩
      · rw [if_neg goes_on, if_neg goes_on, if_neg fun scaled => goes_on (decides.mp scaled),
          if_neg fun scaled => goes_on (decides.mp scaled)]
        exact ⟨rfl, rfl⟩

end Cycles

/-! ### The method -/

section Solve

variable {A : LinearOperator ℝ} {o : LinearOptions ℝ} {f : Operator ℝ}

lemma start_smul (positive : 0 < c) (r : Vec ℝ) :
    start n (o.smulGuess c) (Vec.smul c r) = (start n o r).smul c := by
  simp [start, State.smul, Workspace.smul, Workspace.empty, Vec.norm_smul_of_nonneg positive.le,
    LinearOptions.smulGuess, cycleLimit, stepsAllowed]

/-- The cycles of the method from a multiple of a residual. -/
lemma runCycles_smul (positive : 0 < c) (r : Vec ℝ) :
    runCycles n (o.smulGuess c) f (Vec.smul c r) = (runCycles n o f r).map (State.smul c) ∧
      visited n (o.smulGuess c) f (Vec.smul c r) = (visited n o f r).map (State.smul c) := by
  have norm := Vec.norm_smul_of_nonneg positive.le r
  have tolerance : o.tolerance * Vec.norm (Vec.smul c r) = c * (o.tolerance * Vec.norm r) := by
    rw [norm, mul_left_comm]
  have work : (o.tolerance * Vec.norm (Vec.smul c r) < Vec.norm (Vec.smul c r) ∧
      0 < stepsAllowed n o) ↔ (o.tolerance * Vec.norm r < Vec.norm r ∧ 0 < stepsAllowed n o) := by
    rw [tolerance, norm, mul_lt_mul_iff_of_pos_left positive]
  unfold runCycles visited
  rw [start_smul positive]
  by_cases some_work : o.tolerance * Vec.norm r < Vec.norm r ∧ 0 < stepsAllowed n o
  · have vector : ∃ v : Vec ℝ, (start n o r).residual = Tensor.ofVec v := ⟨r, rfl⟩
    obtain ⟨last, later⟩ := cycles_smul positive vector (preconditioned o f) o.threshold
      (o.tolerance * Vec.norm r) (stepsAllowed n o).toNat (cycleLimit n o)
    rw [← tolerance] at last later
    exact ⟨(if_pos (work.mpr some_work)).trans (last.trans (congrArg _ (if_pos some_work).symm)),
      (if_pos (work.mpr some_work)).trans (later.trans (congrArg _ (if_pos some_work).symm))⟩
  · rw [if_neg some_work, if_neg some_work]
    exact ⟨if_neg fun scaled => some_work (work.mp scaled),
      if_neg fun scaled => some_work (work.mp scaled)⟩

variable {M L R : Space n →ₗ[ℝ] Space n}

lemma GuessIs.smul {x : Space n} (guess : GuessIs n o x) (c : ℝ) :
    GuessIs n (o.smulGuess c) (c • x) := by
  rcases guess with given | ⟨none, rfl⟩
  · left
    rw [LinearOptions.smulGuess, given, Option.map_some, Tensor.smul_ofSpace]
  · right
    rw [LinearOptions.smulGuess, none, smul_zero]
    exact ⟨rfl, rfl⟩

lemma Linear.smulGuess (linear : Linear n A o f M L R) (c : ℝ) :
    Linear n A (o.smulGuess c) f M L R := linear.congr rfl rfl

lemma limitsOk_smulGuess_iff : LimitsOk n (o.smulGuess c) ↔ LimitsOk n o := limitsOk_congr rfl rfl

lemma smul_residual (b x : Space n) : L (c • b - M (c • x)) = c • L (b - M x) := by
  rw [map_smul, ← smul_sub, map_smul]

lemma totalSteps_map_smul (c : ℝ) (cs : List (State ℝ)) :
    totalSteps (cs.map (State.smul c)) = totalSteps cs := by
  rw [totalSteps, List.map_map]
  rfl

/-- Positive homogeneity: with `c` times the right hand side and `c` times the guess the method
comes to `c` times the solution and `c` times the history, in as many steps and as many cycles. If
the limits of the steps are refused, so they are for the multiples, with the same error. -/
theorem Linear.solve_homogeneous (linear : Linear n A o f M L R) (positive : 0 < c) (b : Space n)
    {x₀ : Space n} (guess : GuessIs n o x₀) :
    solve A (Tensor.ofVec (ofSpace (c • b))) (o.smulGuess c)
        = (solve A (Tensor.ofVec (ofSpace b)) o).map (LinearSolution.smul c) ∧
      (LimitsOk n o → ∃ x : Space n, ∃ history,
        solve A (Tensor.ofVec (ofSpace b)) o = .ok ⟨Tensor.ofVec (ofSpace x), history⟩ ∧
        solve A (Tensor.ofVec (ofSpace (c • b))) (o.smulGuess c)
          = .ok ⟨Tensor.ofVec (ofSpace (c • x)), history.map (c * ·)⟩) ∧
      visited n (o.smulGuess c) f (ofSpace (L (c • b - M (c • x₀))))
        = (visited n o f (ofSpace (L (b - M x₀)))).map (State.smul c) ∧
      totalSteps (visited n (o.smulGuess c) f (ofSpace (L (c • b - M (c • x₀)))))
        = totalSteps (visited n o f (ofSpace (L (b - M x₀)))) ∧
      (visited n (o.smulGuess c) f (ofSpace (L (c • b - M (c • x₀))))).length
        = (visited n o f (ofSpace (L (b - M x₀)))).length := by
  obtain ⟨cycles, states⟩ :=
    runCycles_smul (n := n) (o := o) (f := f) positive (ofSpace (L (b - M x₀)))
  rw [← ofSpace_smul, ← smul_residual] at cycles states
  have solutions (limits : LimitsOk n o) : ∃ x : Space n, ∃ history,
      solve A (Tensor.ofVec (ofSpace b)) o = .ok ⟨Tensor.ofVec (ofSpace x), history⟩ ∧
      solve A (Tensor.ofVec (ofSpace (c • b))) (o.smulGuess c)
        = .ok ⟨Tensor.ofVec (ofSpace (c • x)), history.map (c * ·)⟩ := by
    obtain ⟨last, ran, length, -⟩ := linear.maps.runCycles_isChain (L (b - M x₀))
    have scaled := (linear.smulGuess c).solve_eq (limitsOk_smulGuess_iff.mpr limits) (guess.smul c)
      (cycles.trans (congrArg _ ran)) ((length_smul c _).trans length)
    have sum : c • x₀ + R (toSpace n (last.smul c).update)
        = c • (x₀ + R (toSpace n last.update)) := by
      rw [State.smul, toSpace_smul, map_smul, smul_add]
    rw [sum] at scaled
    exact ⟨_, _, linear.solve_eq limits guess ran length, scaled⟩
  refine ⟨?_, solutions, states, ?_, ?_⟩
  · by_cases limits : LimitsOk n o
    · obtain ⟨x, history, solved, scaled⟩ := solutions limits
      rw [solved, scaled, Except.map, LinearSolution.smul, Tensor.smul_ofSpace]
      rfl
    · have refused : ¬ LimitsOk n (o.smulGuess c) :=
        fun scaled => limits (limitsOk_smulGuess_iff.mp scaled)
      rw [solve_eq_error (length_ofSpace b) limits guess.getD (length_ofSpace x₀) linear.resolved]
      exact solve_eq_error (length_ofSpace _) refused (guess.smul c).getD (length_ofSpace _)
        linear.resolved
  · rw [states, totalSteps_map_smul]
  · rw [states, List.length_map]

end Solve

/-- The matrix zero, with twice the right hand side. -/
theorem solve_homogeneous_zeroMatrix :
    ∃ x : Space 1, ∃ history,
      solve (.matrix zeroMatrix) (Tensor.ofVec (ofSpace !₂[3])) usualOptions
        = .ok ⟨Tensor.ofVec (ofSpace x), history⟩ ∧
      solve (.matrix zeroMatrix) (Tensor.ofVec (ofSpace ((2 : ℝ) • !₂[3])))
          (usualOptions.smulGuess 2)
        = .ok ⟨Tensor.ofVec (ofSpace ((2 : ℝ) • x)), history.map (2 * ·)⟩ := by
  have homogeneous := linear_zeroMatrix.solve_homogeneous two_pos (!₂[3]) (Or.inr ⟨rfl, rfl⟩)
  exact homogeneous.2.1 ((limitsFull_usualOptions 1).limitsOk one_pos)

end LinearSystem

end NewtonKrylov
