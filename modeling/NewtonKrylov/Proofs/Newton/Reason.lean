import NewtonKrylov.Proofs.Newton.Bookkeeping

/-!
# What a reason tells

The reason of a solution and whether it counts as one are read off flags after the last pass. A flag
may be older than that: a hook can make the iteration go on after a test has been met, and an
iteration that is asked to end leaves the tests of its last pass undone. What each reason tells of
the run is nevertheless the same for all ways to it.
-/

namespace NewtonKrylov

/-- The reason follows from three flags, and the first of them that is set decides. -/
lemma Iteration.reason_cases {α : Type} (it : Iteration α) :
    it.exited = true ∧ it.reason = .hookExitRequest ∨
    it.exited = false ∧
      (it.normPending = false ∧ it.reason = .normConverged ∨
      it.normPending = true ∧
        (it.stepPending = false ∧ it.reason = .tooSmallStepNorm ∨
        it.stepPending = true ∧ it.reason = .iterationMaximumReached)) := by
  unfold Iteration.reason
  cases it.exited <;> cases it.normPending <;> cases it.stepPending <;> simp

namespace Solver

variable {α : Type} [CheckedScalar α] {F : NonlinearSystem α} {s t : Solver α} {norm : α}
  {it : Iteration α}

namespace Closed

variable (closed : Closed F s norm it t)
include closed

/-- The norm at the last state, which may not have been recorded, is at most the last recorded
one. -/
lemma hasNorm_le [LawfulComparison α] {tolerance : α}
    (le : it.norms.getLastD norm ≤ tolerance) : ∃ c, HasNorm F it.state c ∧ c ≤ tolerance := by
  rcases closed.accepted.state with last | ⟨c, hasNorm, le_last⟩
  · exact ⟨_, closed.accepted.descends.hasNorm_getLast last, le⟩
  · exact ⟨c, hasNorm, LawfulComparison.le_trans le_last le⟩

lemma withinTolerance [LawfulComparison α] (reached : it.normPending = false) :
    WithinTolerance F s.settings it.state := by
  obtain ⟨tolerance, reach, test⟩ := closed.booked.normPending.mp reached
  have le : it.norms.getLastD norm ≤ tolerance := by
    split_ifs at test with start
    · rwa [closed.booked.norms_eq_nil start]
    · exact LawfulComparison.le_of_lt test
  obtain ⟨c, hasNorm, le⟩ := closed.hasNorm_le le
  exact ⟨tolerance, c, reach, hasNorm, le⟩

/-- An iteration that nothing else has ended has used up its steps. -/
lemma exists_limit_le (not_exited : it.exited = false) (norm_pending : it.normPending = true)
    (step_pending : it.stepPending = true) :
    ∃ limit, s.settings.maxIterations = .ok (.count limit) ∧ limit ≤ it.iterations := by
  -- A rejected step is no longer pending, so the loop has ended at its limit.
  have not_stalled : it.stalled ≠ true := fun stalled => by
    simp [closed.booked.stepPending.mpr (.inl stalled)] at step_pending
  rcases closed.exhausted with exited | stalled | ⟨limit, max, ends⟩
  · simp [not_exited] at exited
  · exact absurd stalled not_stalled
  · have room : limit.allows it.iterations = false := by
      simpa [Iteration.goesOn, norm_pending, step_pending] using ends
    cases limit with
    | count limit => exact ⟨limit, max, by simpa using room⟩
    | endless => cases room

end Closed

/-- The reason of every solution is sound. -/
theorem solve_reason [LawfulComparison α] {x : Tensor α} {sol : Solution α}
    (bound : s.system = some F) (run : (solve x).run s = (.ok sol, t)) :
    (sol.reason = .hookExitRequest ↔ s.AskedToExit sol.log) ∧
    (sol.reason = .normConverged →
      WithinTolerance F s.settings sol.state ∧ sol.converged = true) ∧
    (sol.reason = .tooSmallStepNorm → sol.converged = false →
      LastRejected F s.settings sol.state sol.log) ∧
    (sol.reason = .tooSmallStepNorm → sol.converged = true → LastSmall s.settings sol.log) ∧
    (sol.reason = .iterationMaximumReached →
      (∃ limit, s.settings.maxIterations = .ok (.count limit) ∧ limit ≤ sol.iterations) ∧
        sol.converged = false) ∧
    (sol.converged = true →
      WithinTolerance F s.settings sol.state ∨ LastSmall s.settings sol.log) := by
  obtain ⟨norm, it, v, answer, closed, rfl, rfl⟩ := solve_closed bound run
  have books := closed.booked
  have small (pending : it.stepPending = false) (going : it.stalled = false) :
      LastSmall s.settings v.log := by
    rcases books.stepPending.mp pending with stalled | small
    · simp [going] at stalled
    · exact small
  have converged (flag : it.converged = true) :
      WithinTolerance F s.settings it.state ∨ LastSmall s.settings v.log := by
    unfold Iteration.converged at flag
    cases reached : it.normPending with
    | false => exact .inl (closed.withinTolerance reached)
    | true =>
      rw [reached, Bool.not_true, Bool.false_or, Bool.and_eq_true, Bool.not_eq_true',
        Bool.not_eq_true'] at flag
      exact .inr (small flag.1 flag.2)
  dsimp only
  rw [askedToExit_afterHook_postsolve, lastSmall_afterHook, lastRejected_afterHook, ← books.exited]
  -- Each reason makes the statements about the others hold for nothing.
  rcases it.reason_cases with ⟨exited, reason⟩ |
    ⟨not_exited, ⟨reached, reason⟩ | ⟨missed, ⟨step_small, reason⟩ | ⟨step_pending, reason⟩⟩⟩
  · simpa [reason, exited] using converged
  · have within := closed.withinTolerance reached
    simp [reason, not_exited, within, Iteration.converged, reached]
  · have going : it.stalled = false ↔ it.converged = true := by
      simp [Iteration.converged, missed, step_small]
    have rejected : it.converged = false → LastRejected F s.settings it.state v.log := fun flag =>
      books.stalled (by
        by_contra stalled
        rw [Bool.not_eq_true, going, flag] at stalled
        cases stalled)
    have taken : it.converged = true → LastSmall s.settings v.log := fun flag =>
      small step_small (going.mpr flag)
    simpa [reason, not_exited] using ⟨rejected, taken, converged⟩
  · have used := closed.exists_limit_le not_exited missed step_pending
    simpa [reason, not_exited, Iteration.converged, missed, step_pending] using used

/-- After the first step a hook asks for another one, and after that for the end. -/
def insisting : Settings Float :=
  { singleStep with
    tolerance := .ok 1
    hooks := fun
      | .poststep => some (.ok fun n _ => .request (if n = 0 then .notDone else .exit))
      | _ => none
    extraPasses := 1 }

/-- The first step reaches the tolerance, and the second one is not recorded. The solution counts as
one, although its reason is the request of the hook. -/
theorem solve_reason_insisting : ∃ sol,
    ((solve ⟨[1], [3]⟩).run (towardsTwo insisting)).1 = .ok sol ∧ sol.iterations = 1 ∧
      (towardsTwo insisting).AskedToExit sol.log ∧
      (WithinTolerance (squareMinus 4) insisting sol.state ∨
        LastSmall insisting sol.log) := by
  have flags : (match ((solve ⟨[1], [3]⟩).run (towardsTwo insisting)).1 with
      | .ok sol => (sol.iterations, sol.reason, sol.converged)
      | .error _ => (0, .normConverged, false)) = (1, .hookExitRequest, true) := by
    decide +kernel
  rcases run : (solve ⟨[1], [3]⟩).run (towardsTwo insisting) with ⟨e | sol, t⟩
  · simp [run] at flags
  · rw [run] at flags
    obtain ⟨steps, reason, converged⟩ := by simpa only [Prod.mk.injEq] using flags
    obtain ⟨exit, -, -, -, -, sound⟩ := solve_reason (s := towardsTwo insisting) rfl run
    exact ⟨sol, rfl, steps, exit.mp reason, sound converged⟩

end Solver

end NewtonKrylov
