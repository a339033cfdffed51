import NewtonKrylov.Proofs.LinearSystem.Threshold

/-!
# Runs that are resumed

The method carries its residual along and never computes it again. A run that is resumed from a
solution does compute the residual, and starts with a new work space, which may be smaller. For an
invertible system it continues as if it had not been interrupted, provided the interruption falls
between two cycles. With the tolerance zero a cycle takes all of its steps as long as something is
left of the residual. So this is the case if the steps of the first run are a multiple of those of
a cycle.

`cycles_resume` cuts the cycles of a long run in two. That the second part comes to the same as the
resumed run is `cycles_unique`.
-/

namespace NewtonKrylov

namespace LinearSystem

open Vec NewtonKrylov.Cycle

variable {n : ℕ}

section Cycles

variable {op : Operator ℝ} {F : Space n → Space n} {capacity limit : ℕ} {tolerance : ℝ}
  {s : State ℝ}

/-- A cycle that leaves more than the tolerance has taken all of its steps. -/
lemma state_run_full (acts : ActsAs op F) (fits : capacity ≤ n) (ν : ℝ) (nonneg : 0 ≤ tolerance)
    (positive : 0 < limit) (within : limit ≤ capacity) (T : Consistent n capacity s)
    (large : tolerance < s.norm) :
    ∃ ws out,
      (Cycle.run op s.residual s.norm (.ok ν) (.ok tolerance) limit).run s.workspace
        = (.ok out, ws) ∧ Consistent n capacity (s.advance ws out) ∧
      (tolerance < out.norm → out.steps = limit) := by
  have nonzero : s.residualPoint n ≠ 0 := by
    rw [← norm_pos_iff, ← T.norm]
    exact nonneg.trans_lt large
  obtain ⟨ws, p, out, run, reset, E⟩ := run_ends acts fits T.workspace nonzero ν tolerance
    (show (min (limit : ℤ) capacity).toNat ≠ 0 by omega)
  rw [← T.residual, ← T.norm] at run
  refine ⟨ws, out, run, T.advance reset E.carried, fun above => ?_⟩
  rw [E.steps]
  rcases E.reason with full | below | zero
  · omega
  · exact absurd above below.not_gt
  · exact absurd above (zero ▸ nonneg.not_gt)

/-- The cycles of a run with more steps are those of a run with a number of whole cycles, and if
something is left of the residual, those with the other steps. -/
theorem cycles_resume (acts : ActsAs op F) (fits : capacity ≤ n) (ν : ℝ) (nonneg : 0 ≤ tolerance)
    (positive : 0 < limit) (within : limit ≤ capacity) {more : ℕ} (some_more : 0 < more) (k : ℕ)
    (T : Consistent n capacity s) (large : tolerance < s.norm) :
    ∃ last, cycles op ν tolerance ((k + 1) * limit) limit s = .ok last ∧
      Consistent n capacity last ∧
      cycles op ν tolerance ((k + 1) * limit + more) limit s
        = if tolerance < last.norm then cycles op ν tolerance more (min limit more) last
          else .ok last := by
  -- By induction on the whole cycles. While something is left, each takes exactly `limit` steps,
  -- and both runs go on from the same state.
  induction k generalizing s with
  | zero =>
    obtain ⟨ws, out, run, kept, full⟩ := state_run_full acts fits ν nonneg positive within T large
    rw [Nat.zero_add, Nat.one_mul, cycles_of_run run, cycles_of_run run]
    by_cases above : tolerance < out.norm
    · have steps := full above
      rw [if_neg (by omega), if_pos ⟨above, by omega, by omega⟩, steps, Nat.add_sub_cancel_left]
      exact ⟨_, rfl, kept, (if_pos above).symm⟩
    · rw [if_neg fun goes_on => above goes_on.1, if_neg fun goes_on => above goes_on.1]
      exact ⟨_, rfl, kept, (if_neg above).symm⟩
  | succ k ih =>
    obtain ⟨ws, out, run, kept, full⟩ := state_run_full acts fits ν nonneg positive within T large
    rw [cycles_of_run run, cycles_of_run run]
    by_cases above : tolerance < out.norm
    · have steps := full above
      -- After a whole cycle there are steps for another one in both runs.
      have whole : (k + 1 + 1) * limit = (k + 1) * limit + limit := Nat.succ_mul _ _
      have some_left : limit ≤ (k + 1) * limit := Nat.le_mul_of_pos_left _ (Nat.succ_pos k)
      rw [if_pos ⟨above, by omega, by omega⟩, if_pos ⟨above, by omega, by omega⟩, steps, whole,
        Nat.add_sub_cancel, Nat.add_right_comm, Nat.add_sub_cancel, min_eq_left some_left,
        min_eq_left (some_left.trans (Nat.le_add_right _ _))]
      exact ih kept above
    · rw [if_neg fun goes_on => above goes_on.1, if_neg fun goes_on => above goes_on.1]
      exact ⟨_, rfl, kept, (if_neg above).symm⟩

end Cycles

/-! ### The method -/

section Solve

variable {A : LinearOperator ℝ} {o : LinearOptions ℝ} {f : Operator ℝ}
  {M L R : Space n →ₗ[ℝ] Space n} {m N N₁ N₂ : ℤ}

lemma Linear.withSteps (linear : Linear n A o f M L R) (N : ℤ) :
    Linear n A { o with maxSteps := some N } f M L R := linear.congr rfl rfl

lemma limitsOk_of_steps (restart : o.restart = some m) (room : 1 ≤ m) (steps : o.maxSteps = some N)
    (nonneg : 0 ≤ N) : LimitsOk n o where
  restart := by
    intro m' given
    obtain rfl : m = m' := Option.some.inj (restart.symm.trans given)
    exact room
  steps := by rwa [stepsAllowed, steps]

lemma cycleLimit_withSteps (restart : o.restart = some m) (N : ℤ) :
    cycleLimit n { o with maxSteps := some N } = (min m (min N n)).toNat := by
  rw [cycleLimit, restart]
  rfl

/-- A multiple of the number of steps of a cycle is a number of whole cycles. -/
lemma exists_cycles (room : 1 ≤ m) (some_step : 0 < N) (whole : min m n ∣ N) :
    ∃ k : ℕ, N.toNat = (k + 1) * (min m n).toNat ∧ 0 < (min m n).toNat := by
  obtain ⟨steps, count⟩ := Int.eq_ofNat_of_zero_le (show 0 ≤ min m (n : ℤ) by omega)
  obtain ⟨q, rfl⟩ := whole
  rw [count] at some_step ⊢
  have some_cycle : 0 < q := pos_of_mul_pos_right some_step steps.cast_nonneg
  obtain ⟨k, rfl⟩ := Int.eq_succ_of_zero_lt some_cycle
  refine ⟨k, ?_, ?_⟩
  · rw [Int.toNat_natCast, mul_comm]
    exact Int.toNat_natCast ((k + 1) * steps)
  · rw [Int.toNat_natCast]
    exact_mod_cast pos_of_mul_pos_left some_step some_cycle.le

/-- With the tolerance zero the cycles begin unless the residual is zero. -/
lemma runCycles_of_ne_zero (exact_tolerance : o.tolerance = 0) {r : Space n} (nonzero : r ≠ 0)
    (some_step : 0 < N) :
    runCycles n { o with maxSteps := some N } f (ofSpace r)
      = cycles (preconditioned o f) o.threshold 0 N.toNat
          (cycleLimit n { o with maxSteps := some N })
          (start n { o with maxSteps := some N } (ofSpace r)) := by
  unfold runCycles
  rw [exact_tolerance, zero_mul]
  refine if_pos ⟨?_, some_step⟩
  rw [norm_ofSpace]
  exact norm_pos_iff.mpr nonzero

/-- There is nothing to do for the residual zero. -/
lemma runCycles_of_zero (N : ℤ) :
    runCycles n { o with maxSteps := some N } f (ofSpace (0 : Space n))
      = .ok (start n { o with maxSteps := some N } (ofSpace (0 : Space n))) :=
  runCycles_of_small (by rw [norm_zero, mul_zero]; exact lt_irrefl 0)

lemma point_start (o : LinearOptions ℝ) (r : Vec ℝ) : (start n o r).point n = 0 := toSpace_zeros n

/-- What follows the start adds up to the outcome of all cycles. -/
lemma point_start_advance (o : LinearOptions ℝ) (r : Vec ℝ) (ws : Workspace ℝ) {out : Outcome ℝ}
    (length : out.update.length = n) :
    ((start n o r).advance ws out).point n = toSpace n out.update := by
  rw [State.point, State.advance, start, toSpace_add (length_zeros n) length, toSpace_zeros,
    zero_add]

/-- The state `last` is what a run comes to that reaches `first`, is interrupted there, and comes to
`second` after that. -/
structure Joins (n : ℕ) (first second last : State ℝ) : Prop where
  point : last.point n = first.point n + second.point n
  history : last.history = first.history ++ second.history.tail

/-- A start behind which no cycle follows. -/
lemma joins_start (first : State ℝ) (o : LinearOptions ℝ) (r : Vec ℝ) :
    Joins n first (start n o r) first where
  point := by rw [State.point, State.point, start, toSpace_zeros, add_zero]
  history := (List.append_nil _).symm

/-- The same outcome behind a state and behind a start. -/
lemma joins_advance {first : State ℝ} (o : LinearOptions ℝ) (r : Vec ℝ) {out : Outcome ℝ}
    (hf : first.update.length = n) (length : out.update.length = n) (ws ws' : Workspace ℝ) :
    Joins n first ((start n o r).advance ws out) (first.advance ws' out) where
  point := by
    rw [point_start_advance o r ws length]
    exact toSpace_add hf length
  history := rfl

section Runs

variable (linear : Linear n A o f M L R) (invertible : Function.Bijective (L ∘ₗ M ∘ₗ R))
  (small : o.threshold < 1) (exact_tolerance : o.tolerance = 0) (restart : o.restart = some m)
  (room : 1 ≤ m)

include linear invertible small exact_tolerance restart room

/-- A run of whole cycles, and a longer one in terms of its end. -/
lemma Linear.runCycles_split (some_step : 0 < N₁) (whole : min m n ∣ N₁) (more : 1 ≤ N₂)
    (r : Space n) :
    ∃ first, runCycles n { o with maxSteps := some N₁ } f (ofSpace r) = .ok first ∧
      Consistent n (min m n).toNat first ∧
      first.residualPoint n = r - (L ∘ₗ M ∘ₗ R) (first.point n) ∧
      runCycles n { o with maxSteps := some (N₁ + N₂) } f (ofSpace r)
        = if 0 < first.norm then
            cycles (preconditioned o f) o.threshold 0 N₂.toNat (min (min m n).toNat N₂.toNat) first
          else .ok first := by
  obtain ⟨k, count, positive⟩ := exists_cycles room some_step whole
  have one_cycle : min m n ≤ N₁ := Int.le_of_dvd some_step whole
  have fits : (min m (n : ℤ)).toNat ≤ n := by omega
  have limit : cycleLimit n { o with maxSteps := some N₁ } = (min m (n : ℤ)).toNat := by
    rw [cycleLimit_withSteps restart]
    omega
  have same_limit : cycleLimit n { o with maxSteps := some (N₁ + N₂) } = (min m (n : ℤ)).toNat := by
    rw [cycleLimit_withSteps restart]
    omega
  have same_start : start n { o with maxSteps := some (N₁ + N₂) } (ofSpace r)
      = start n { o with maxSteps := some N₁ } (ofSpace r) := by
    rw [start, start, limit, same_limit]
  have T := consistent_start { o with maxSteps := some N₁ } r
  rw [limit] at T
  have residual : (start n { o with maxSteps := some N₁ } (ofSpace r)).residualPoint n = r :=
    toSpace_ofSpace r
  by_cases zero : r = 0
  · subst zero
    refine ⟨_, runCycles_of_zero N₁, T, ?_, ?_⟩
    · rw [point_start, map_zero, sub_zero, residual]
    · rw [runCycles_of_zero, same_start,
        if_neg (by rw [T.norm, residual, norm_zero]; exact lt_irrefl 0)]
  have large : 0 < ‖r‖ := norm_pos_iff.mpr zero
  -- The end of the first run is known in two ways: as a part of the longer run, and by its outcome,
  -- of which the residual is that of the update.
  obtain ⟨first, ran, kept, longer⟩ := cycles_resume linear.actsAs_preconditioned fits o.threshold
    le_rfl positive le_rfl (show 0 < N₂.toNat by omega) k T (by rwa [T.norm, residual])
  obtain ⟨out, left, length, others⟩ := cycles_unique linear.actsAs_preconditioned
    invertible.injective le_rfl ((k + 1) * (min m (n : ℤ)).toNat) large positive fits
  obtain ⟨ws, again, -⟩ := others small fits (min_self _) T residual
  obtain rfl : first = (start n { o with maxSteps := some N₁ } (ofSpace r)).advance ws out :=
    Except.ok.inj (ran.symm.trans again)
  refine ⟨_, ?_, kept, ?_, ?_⟩
  · rw [runCycles_of_ne_zero exact_tolerance zero some_step, limit, count]
    exact ran
  · rw [point_start_advance _ _ ws length, ← left]
    rfl
  · rw [runCycles_of_ne_zero exact_tolerance zero (by omega), same_limit, same_start,
      Int.toNat_add some_step.le (by omega), count]
    exact longer

/-- A run that is resumed from the residual of a state does what the cycles do from this state. -/
lemma Linear.runCycles_continues (more : 1 ≤ N) {first : State ℝ}
    (kept : Consistent n (min m n).toNat first) :
    ∃ second last,
      runCycles n { o with maxSteps := some N } f (ofSpace (first.residualPoint n)) = .ok second ∧
      (if 0 < first.norm then
          cycles (preconditioned o f) o.threshold 0 N.toNat (min (min m n).toNat N.toNat) first
        else .ok first) = .ok last ∧
      second.update.length = n ∧ last.update.length = n ∧ Joins n first second last := by
  have empty := length_zeros (α := ℝ) n
  by_cases zero : first.residualPoint n = 0
  · rw [zero, if_neg (by rw [kept.norm, zero, norm_zero]; exact lt_irrefl 0)]
    exact ⟨_, first, runCycles_of_zero N, rfl, empty, kept.update, joins_start first _ _⟩
  have large : 0 < ‖first.residualPoint n‖ := norm_pos_iff.mpr zero
  have dimension := dimension_pos_of_ne_zero zero
  have fits : (min m (n : ℤ)).toNat ≤ n := by omega
  have limit : cycleLimit n { o with maxSteps := some N } = min (min m (n : ℤ)).toNat N.toNat := by
    rw [cycleLimit_withSteps restart]
    omega
  have T := consistent_start { o with maxSteps := some N } (first.residualPoint n)
  rw [limit] at T
  -- The resumed run has a new work space, with room for no more than its own steps.
  obtain ⟨out, -, length, others⟩ := cycles_unique linear.actsAs_preconditioned
    invertible.injective le_rfl N.toNat large
    (show 0 < min (min m (n : ℤ)).toNat N.toNat by omega) (by omega)
  obtain ⟨ws, ran, ends⟩ := others small (by omega) (min_self _) T (toSpace_ofSpace _)
  obtain ⟨ws', continued, ends'⟩ := others small fits
    (show min (min (min m (n : ℤ)).toNat N.toNat) (min m (n : ℤ)).toNat = _ by omega) kept rfl
  refine ⟨_, _, ?_, ?_, ends.update, ends'.update, joins_advance _ _ kept.update length ws ws'⟩
  · rw [runCycles_of_ne_zero exact_tolerance zero (by omega), limit]
    exact ran
  · rw [if_pos (by rwa [kept.norm])]
    exact continued

end Runs

/-- The method with a number of whole cycles, with more steps from where these end, and with all
steps at once. For an invertible system and the tolerance zero the long run ends with the solution
of the second one, and its history is that of the first one, followed by that of the second without
the norm at its start. -/
theorem Linear.solve_resumes (linear : Linear n A o f M L R)
    (invertible : Function.Bijective (L ∘ₗ M ∘ₗ R)) (small : o.threshold < 1)
    (exact_tolerance : o.tolerance = 0) (restart : o.restart = some m) (room : 1 ≤ m)
    (some_step : 0 < N₁) (whole : min m n ∣ N₁) (more : 1 ≤ N₂) (b : Space n) {x₀ : Space n}
    (guess : GuessIs n o x₀) :
    ∃ x₁ x₂ : Space n, ∃ h₁ h₂,
      solve A (Tensor.ofVec (ofSpace b)) { o with maxSteps := some N₁ }
        = .ok ⟨Tensor.ofVec (ofSpace x₁), h₁⟩ ∧
      solve A (Tensor.ofVec (ofSpace b))
          { o with maxSteps := some N₂, guess := some (Tensor.ofVec (ofSpace x₁)) }
        = .ok ⟨Tensor.ofVec (ofSpace x₂), h₂⟩ ∧
      solve A (Tensor.ofVec (ofSpace b)) { o with maxSteps := some (N₁ + N₂) }
        = .ok ⟨Tensor.ofVec (ofSpace x₂), h₁ ++ h₂.tail⟩ := by
  obtain ⟨first, ran₁, kept, residual, longer⟩ := linear.runCycles_split invertible small
    exact_tolerance restart room some_step whole more (L (b - M x₀))
  obtain ⟨second, last, ran₂, continued, length₂, length, joins⟩ := linear.runCycles_continues
    invertible small exact_tolerance restart room more kept
  rw [residual, ← residual_of_update] at ran₂
  rw [continued] at longer
  have resumed : Linear n A { o with
      maxSteps := some N₂, guess := some (Tensor.ofVec (ofSpace (x₀ + R (first.point n)))) }
      f M L R := linear.congr rfl rfl
  have solved₁ := (linear.withSteps N₁).solve_eq
    (limitsOk_of_steps restart room rfl (by omega)) guess ran₁ kept.update
  have solved₂ := resumed.solve_eq
    (limitsOk_of_steps restart room rfl (by omega)) (.inl rfl) ran₂ length₂
  have solved := (linear.withSteps (N₁ + N₂)).solve_eq
    (limitsOk_of_steps restart room rfl (by omega)) guess longer length
  -- The right preconditioner is linear, so the updates of the two runs may be added before or after
  -- it.
  have sum : x₀ + R (last.point n) = x₀ + R (first.point n) + R (second.point n) := by
    rw [joins.point, map_add, add_assoc]
  rw [joins.history] at solved
  exact ⟨_, _, _, _, solved₁, solved₂, sum ▸ solved⟩

end Solve

/-- A run with two cycles of one step each, which is resumed for a third. -/
theorem solve_resumes_secondDoubled :
    ∃ x₁ x₂ : Space 2, ∃ h₁ h₂,
      solve (.matrix secondDoubled) (Tensor.ofVec (ofSpace !₂[1, 1]))
          { tolerance := 0, threshold := 0, restart := some 1, maxSteps := some 2 }
        = .ok ⟨Tensor.ofVec (ofSpace x₁), h₁⟩ ∧
      solve (.matrix secondDoubled) (Tensor.ofVec (ofSpace !₂[1, 1]))
          { tolerance := 0, threshold := 0, restart := some 1, maxSteps := some 1,
            guess := some (Tensor.ofVec (ofSpace x₁)) }
        = .ok ⟨Tensor.ofVec (ofSpace x₂), h₂⟩ ∧
      solve (.matrix secondDoubled) (Tensor.ofVec (ofSpace !₂[1, 1]))
          { tolerance := 0, threshold := 0, restart := some 1, maxSteps := some (2 + 1) }
        = .ok ⟨Tensor.ofVec (ofSpace x₂), h₁ ++ h₂.tail⟩ := by
  have linear : Linear 2 (.matrix secondDoubled)
      { tolerance := 0, threshold := 0, restart := some 1 } secondDoubled.product
      (Matrix.toEuclideanLin (secondDoubled.toMatrix 2)) LinearMap.id LinearMap.id :=
    ⟨rfl, isSquare_secondDoubled.actsAs_product, ActsAs.ok, ActsAs.ok⟩
  exact linear.solve_resumes secondDoubled_bijective zero_lt_one rfl rfl le_rfl two_pos
    (show min (1 : ℤ) (2 : ℕ) ∣ 2 by decide) le_rfl (!₂[1, 1]) (Or.inr ⟨rfl, rfl⟩)

end LinearSystem

end NewtonKrylov
