import NewtonKrylov.Proofs.Newton.Bookkeeping

/-!
# When an iteration counts as converged

The norm of the residual is compared with the tolerance before the first step and after each step.
Before the first step it may be equal to the tolerance, and after a step it must be smaller. If no
hook interferes and no tolerance for steps is given, this alone decides whether a solution counts as
one.
-/

namespace NewtonKrylov

namespace Solver

variable {α : Type} [CheckedScalar α] {F : NonlinearSystem α} {s t : Solver α} {norm : α}
  {it : Iteration α}

omit [CheckedScalar α] in
/-- Without hooks nobody asks for anything. -/
lemma not_asked_of_unhooked (unhooked : s.settings.Unhooked) {r : HookRequest} {point : HookPoint}
    {log : List (Event α)} : ¬ s.Asked r point log := by
  simp [Asked, answersAt, unhooked point]

namespace Closed

variable (closed : Closed F s norm it t) (unhooked : s.settings.Unhooked)
include closed unhooked

lemma exited_eq_false : it.exited = false := by
  by_contra exited
  rw [Bool.not_eq_false, closed.booked.exited] at exited
  obtain ⟨point, -, asked⟩ := exited
  exact not_asked_of_unhooked unhooked asked

/-- Without hooks the last norm is that of the state. -/
lemma hasNorm : HasNorm F it.state (it.norms.getLastD norm) := by
  rcases closed.visited with ⟨-, -, last⟩ | ⟨asked, -⟩
  · exact closed.accepted.descends.hasNorm_getLast last
  · exact absurd asked (not_asked_of_unhooked unhooked)

end Closed

/-- Only a rejected step ends an iteration that has no tolerance for steps. -/
lemma Booked.stepPending_iff_stalled (books : Booked F s norm it t)
    (unset : s.settings.stepTolerance = none) : it.stepPending = false ↔ it.stalled = true := by
  rw [books.stepPending]
  refine or_iff_left ?_
  rintro ⟨_, -, _, _, _, given, -⟩
  simp [unset] at given

/-- A solution counts as one if its norm is smaller than the tolerance, or equal to it where no step
was taken. -/
theorem solve_converged_iff [LawfulComparison α] {x : Tensor α} {sol : Solution α} {tolerance : α}
    (bound : s.system = some F) (unhooked : s.settings.Unhooked)
    (unset : s.settings.stepTolerance = none) (reach : s.settings.tolerance = .ok tolerance)
    (run : (solve x).run s = (.ok sol, t)) :
    ∃ c, HasNorm F sol.state c ∧
      (sol.converged = true ↔ c < tolerance ∨ sol.iterations = 0 ∧ c ≤ tolerance) ∧
      (sol.reason = .normConverged ↔ sol.converged = true) := by
  obtain ⟨norm, it, v, answer, closed, rfl, rfl⟩ := solve_closed bound run
  have books := closed.booked
  -- Without a tolerance for steps only a rejection sets the flag for them, and a rejection is no
  -- convergence.
  have reached : it.converged = true ↔ it.normPending = false := by
    cases stalled : it.stalled with
    | true => simp [Iteration.converged, stalled]
    | false =>
      have pending : it.stepPending = true := by
        simpa [stalled] using books.stepPending_iff_stalled unset
      simp [Iteration.converged, pending]
  refine ⟨it.norms.getLastD norm, closed.hasNorm unhooked, ?_, ?_⟩
  · rw [reached, books.normPending]
    simp only [NormReached, reach, Except.ok.injEq, exists_eq_left']
    split_ifs with start
    · simpa [books.norms_eq_nil start, start] using LawfulComparison.le_of_lt
    · simp [start]
  · rw [reached]
    simp only [Iteration.reason, closed.exited_eq_false unhooked]
    cases it.normPending <;> cases it.stepPending <;> simp

/-- A step that reaches the tolerance. -/
theorem solve_converged_iff_towardsTwo : ∃ sol,
    ((solve ⟨[1], [3]⟩).run (towardsTwo { singleStep with tolerance := .ok 1 })).1 = .ok sol ∧
      sol.reason = .normConverged ∧ ∃ c, HasNorm (squareMinus 4) sol.state c ∧ c < 1 := by
  have flags : (match ((solve ⟨[1], [3]⟩).run
        (towardsTwo { singleStep with tolerance := .ok 1 })).1 with
      | .ok sol => (sol.converged, sol.iterations)
      | .error _ => (false, 0)) = (true, 1) := by
    decide +kernel
  rcases run : (solve ⟨[1], [3]⟩).run (towardsTwo { singleStep with tolerance := .ok 1 }) with
    ⟨e | sol, t⟩
  · simp [run] at flags
  · rw [run] at flags
    obtain ⟨converged, steps⟩ := by simpa only [Prod.mk.injEq] using flags
    obtain ⟨c, hasNorm, iff, reason⟩ := solve_converged_iff
      (s := towardsTwo { singleStep with tolerance := .ok 1 }) rfl (fun _ => rfl) rfl rfl run
    have lt : c < 1 := by simpa [steps] using iff.mp converged
    exact ⟨sol, rfl, reason.mpr converged, c, hasNorm, lt⟩

/-- A step towards zero, for which the residual is the state itself. -/
def towardsZero : Solver Float where
  settings := { singleStep with tolerance := .ok 0 }
  system := some ⟨.ok, .none⟩
  preconditioner := .identity

/-- The step reaches a root. Its norm is the tolerance, but the solution does not count as one. -/
theorem not_converged_towardsZero : ∃ sol,
    ((solve ⟨[1], [1]⟩).run towardsZero).1 = .ok sol ∧
      WithinTolerance ⟨.ok, .none⟩ towardsZero.settings sol.state ∧
      sol.converged = false ∧ sol.reason = .iterationMaximumReached := by
  have computed : (match ((solve ⟨[1], [1]⟩).run towardsZero).1 with
      | .ok sol => (decide (sol.state.norm ≤ 0), sol.converged, sol.reason)
      | .error _ => (false, false, .normConverged)) = (true, false, .iterationMaximumReached) := by
    decide +kernel
  rcases run : (solve ⟨[1], [1]⟩).run towardsZero with ⟨e | sol, t⟩
  · simp [run] at computed
  · rw [run] at computed
    obtain ⟨reached, converged, reason⟩ := by simpa only [Prod.mk.injEq] using computed
    exact ⟨sol, rfl, ⟨0, _, rfl, ⟨_, rfl, rfl⟩, of_decide_eq_true reached⟩, converged, reason⟩

end Solver

end NewtonKrylov
