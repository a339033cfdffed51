import NewtonKrylov.Proofs.Newton.Bookkeeping

/-!
# What the statistics describe

A solution comes with the number of its steps and with the norms on the way. A step counts and its
norm is kept once the hook behind it has been called. So if that hook asks for the end, the state is
one step ahead of its statistics. They describe the state in all other cases.
-/

namespace NewtonKrylov

namespace Solver

variable {α : Type} [CheckedScalar α] {F : NonlinearSystem α} {s t : Solver α} {norm : α}
  {it : Iteration α}

/-- The statistics of a solution describe its state: there is one norm for each step, the state is
the one after so many accepted steps, and the last norm is that of its residual. -/
structure Describes (F : NonlinearSystem α) (sol : Solution α) : Prop where
  length_norms : sol.norms.length = sol.iterations
  length_visited : (visitedStates sol.log).length = sol.iterations + 1
  state : (visitedStates sol.log).getLast? = some sol.state
  hasNorm : HasNorm F sol.state (sol.norms.getLastD sol.initialNorm)

lemma Closed.length_recorded (closed : Closed F s norm it t) :
    (recordedStates t.log).length = it.iterations + 1 := by
  rw [closed.accepted.descends.hasNorm.length_eq, List.length_cons, closed.booked.length_norms]

/-- The statistics describe the state unless a hook behind a step has asked for the end. In that
case one more step was accepted than they tell of. -/
theorem solve_statistics [LawfulComparison α] {x : Tensor α} {sol : Solution α}
    (bound : s.system = some F) (run : (solve x).run s = (.ok sol, t)) :
    sol.norms.length = sol.iterations ∧
    (visitedStates sol.log).getLast? = some sol.state ∧
    List.Forall₂ (HasNorm F) ((visitedStates sol.log).take (sol.iterations + 1))
      (sol.initialNorm :: sol.norms) ∧
    (Describes F sol ↔ ¬ s.Asked .exit .poststep sol.log) ∧
    (s.Asked .exit .poststep sol.log →
      (visitedStates sol.log).length = sol.iterations + 2 ∧
      ∃ c, HasNorm F sol.state c ∧ c ≤ sol.norms.getLastD sol.initialNorm) := by
  obtain ⟨norm, it, v, answer, closed, rfl, rfl⟩ := solve_closed bound run
  have descends := closed.accepted.descends
  have length_norms := closed.booked.length_norms
  have length_recorded := closed.length_recorded
  dsimp only
  rw [visitedStates_afterHook, asked_afterHook_of_ne (by simp)]
  -- Either the visited states are the recorded ones, or a hook has ended the run behind one more,
  -- and its norm is nowhere in the list.
  rcases closed.visited with ⟨not_asked, visited, last⟩ | ⟨asked, visited, norm_le⟩
  · have length_visited : (visitedStates v.log).length = it.iterations + 1 := by
      rw [visited, length_recorded]
    have state : (visitedStates v.log).getLast? = some it.state := by rw [visited, last]
    have hasNorm : HasNorm F it.state (it.norms.getLastD norm) := descends.hasNorm_getLast last
    refine ⟨length_norms, state, ?_, ⟨fun _ => not_asked, fun _ => ?_⟩,
      fun asked => absurd asked not_asked⟩
    · rw [List.take_of_length_le length_visited.le, visited]
      exact descends.hasNorm
    · refine ⟨length_norms, ?_, ?_, hasNorm⟩ <;> rwa [visitedStates_afterHook]
  · have length_visited : (visitedStates v.log).length = it.iterations + 2 := by
      rw [visited, List.length_append, length_recorded, List.length_singleton]
    refine ⟨length_norms, ?_, ?_, ⟨fun describes => ?_, fun not_asked => absurd asked not_asked⟩,
      fun _ => ⟨length_visited, norm_le⟩⟩
    · rw [visited, List.getLast?_concat]
    · rw [visited, List.take_left' length_recorded]
      exact descends.hasNorm
    · have length_described : (visitedStates v.log).length = it.iterations + 1 := by
        simpa only [visitedStates_afterHook] using describes.length_visited
      omega

theorem solve_statistics_singleStep : ∃ sol,
    ((solve ⟨[1], [3]⟩).run (towardsTwo singleStep)).1 = .ok sol ∧ sol.iterations = 1 ∧
      Describes (squareMinus 4) sol := by
  have steps : (match ((solve ⟨[1], [3]⟩).run (towardsTwo singleStep)).1 with
      | .ok sol => sol.iterations
      | .error _ => 0) = 1 := by
    decide +kernel
  rcases run : (solve ⟨[1], [3]⟩).run (towardsTwo singleStep) with ⟨e | sol, t⟩
  · simp [run] at steps
  · rw [run] at steps
    obtain ⟨-, -, -, describes, -⟩ := solve_statistics (s := towardsTwo singleStep) rfl run
    have not_asked : ¬ (towardsTwo singleStep).Asked .exit .poststep sol.log := by
      simp [Asked, answersAt, towardsTwo, singleStep]
    exact ⟨sol, rfl, steps, describes.mpr not_asked⟩

/-- After the step a hook asks for the end. -/
def interrupted : Settings Float :=
  { singleStep with
    hooks := fun
      | .poststep => some (.ok fun _ _ => .request .exit)
      | _ => none }

/-- One step more has led to the state than the statistics tell of, and its norm is not their last
one. -/
theorem statistics_lag_interrupted : ∃ sol,
    ((solve ⟨[1], [3]⟩).run (towardsTwo interrupted)).1 = .ok sol ∧
      (visitedStates sol.log).length = sol.iterations + 2 ∧
      ¬ HasNorm (squareMinus 4) sol.state (sol.norms.getLastD sol.initialNorm) := by
  have computed : (match ((solve ⟨[1], [3]⟩).run (towardsTwo interrupted)).1 with
      | .ok sol => decide ((visitedStates sol.log).length = sol.iterations + 2 ∧
          (sol.state.map fun a => a * a - 4).norm ≠ sol.norms.getLastD sol.initialNorm)
      | .error _ => false) = true := by
    decide +kernel
  rcases run : (solve ⟨[1], [3]⟩).run (towardsTwo interrupted) with ⟨e | sol, t⟩
  · simp [run] at computed
  · rw [run] at computed
    obtain ⟨length_visited, other⟩ := of_decide_eq_true computed
    refine ⟨sol, rfl, length_visited, ?_⟩
    rintro ⟨_, ⟨⟩, hasNorm⟩
    exact other hasNorm

end Solver

end NewtonKrylov
