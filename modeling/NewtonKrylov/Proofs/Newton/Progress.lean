import NewtonKrylov.Proofs.Newton.Bookkeeping

/-!
# Progress at the end

An iteration that ends with a small step counts as converged. A line search takes a step only if the
norm decreases, but the full step may leave it as it is: with a residual that does not change, the
step is zero, and so is its size. So the last step of such an iteration need not have made progress,
unless a line search has found it.
-/

namespace NewtonKrylov

namespace Solver

variable {α : Type} [CheckedScalar α] {F : NonlinearSystem α} {s t u : Solver α} {x : Tensor α}
  {norm : α} {it it' : Iteration α}

/-- The last of the recorded steps, with the states and the norms around it. -/
structure LastStep (F : NonlinearSystem α) (states : List (Tensor α)) (norms : List α)
    (out : StepOutcome α) (y z : Tensor α) (c d : α) : Prop where
  states : [y, z] <:+ states
  norms : [c, d] <:+ norms
  before : HasNorm F y c
  after : HasNorm F z d
  state : out.state = some z
  le : d ≤ c
  lt_of_search : 0 < out.trials → d < c

/-- The last recorded step, if there is one, does not go up, nor stay where it is if it was found by
a line search. -/
def StepsDown (F : NonlinearSystem α) (norm : α) (it : Iteration α) (t : Solver α) : Prop :=
  ∀ out, (stepLog t.log).recorded.getLast? = some out →
    ∃ y z c d, LastStep F (recordedStates t.log) (norm :: it.norms) out y z c d

lemma Attempted.lt_of_search {settings : Settings α} {out : StepOutcome α} {y : Tensor α}
    (attempted : Attempted F settings x norm out) (taken : out.state = some y)
    (searched : 0 < out.trials) : out.norm < norm := by
  obtain ⟨_, _, _, -, -, -, settled⟩ := attempted
  cases settled with
  | full => exact absurd searched (Nat.lt_irrefl 0)
  | searched _ _ lt => exact lt
  | rejected => cases taken

/-- What leaves the recorded states, the recorded steps and the norms alone. -/
lemma StepsDown.congr (down : StepsDown F norm it t)
    (states : recordedStates u.log = recordedStates t.log)
    (steps : (stepLog u.log).recorded = (stepLog t.log).recorded) (norms : it'.norms = it.norms) :
    StepsDown F norm it' u := by
  unfold StepsDown
  rw [states, steps, norms]
  exact down

/-- Where an iteration begins, no step was recorded. -/
lemma Started.stepsDown {s : Solver α} (started : Started F s x norm it u) :
    StepsDown F norm it u := by
  cases started with
  | mk _ allocated _ _ _ _ keeps =>
    have nothing : stepLog u.log = {} := by
      rw [keeps.log]
      simp [allocated.log, StepLog.note]
    intro out last
    simp [nothing] at last

variable [LawfulComparison α]

/-- A step that is recorded becomes the last one. -/
lemma Recorded.lastStep (recorded : Recorded F norm it t) {pre : HookAnswer} {out : StepOutcome α}
    {y : Tensor α} (attempts : Attempts F t it pre out u) (taken : out.state = some y) :
    ∃ c, LastStep F (recordedStates t.log ++ [y]) (norm :: (it.norms ++ [out.norm])) out it.state y
      c out.norm := by
  obtain ⟨r, value, attempted⟩ := attempts.attempted
  obtain ⟨hasNorm, le⟩ := attempts.descends taken recorded.hasNorm
  have same : r.norm = it.norms.getLastD norm := HasNorm.unique ⟨r, value, rfl⟩ recorded.hasNorm
  obtain ⟨states, split⟩ := List.getLast?_eq_some_iff.mp recorded.state
  have last : (norm :: it.norms).getLast? = some (it.norms.getLastD norm) := by
    rw [List.getLast?_cons, List.getLastD_eq_getLast?]
  obtain ⟨norms, split_norms⟩ := List.getLast?_eq_some_iff.mp last
  refine ⟨it.norms.getLastD norm, ⟨?_, ?_, recorded.hasNorm, hasNorm, taken, le, ?_⟩⟩
  · rw [split, List.append_assoc]
    exact List.suffix_append ..
  · rw [← List.cons_append, split_norms, List.append_assoc]
    exact List.suffix_append ..
  · intro searched
    rw [← same]
    exact attempted.lt_of_search taken searched

/-- What one pass makes of the last step. -/
lemma StepsDown.pass {again : Bool} (recorded : Recorded F norm it t) (down : StepsDown F norm it t)
    (passed : Passed F t it (it', again) u) : StepsDown F norm it' u := by
  cases passed with
  | exitBefore => exact down.congr (by simp) (by simp) rfl
  | rejected attempts => exact down.congr attempts.log (by rw [attempts.stepLog_eq]) rfl
  | exitAfter attempts =>
    exact down.congr (by simp [attempts.log]) (by simp [attempts.stepLog_eq]) rfl
  | @recorded _ _ out _ _ y _ _ _ attempts taken _ _ _ keeps advance =>
    -- The step that is recorded is the one that has just been taken, so nothing is needed of the
    -- earlier ones.
    intro last at_last
    have steps : (stepLog u.log).recorded = (stepLog t.log).recorded ++ [out] := by
      rw [keeps.log]
      simp [attempts.stepLog_eq, StepLog.note]
    have states : recordedStates u.log = recordedStates t.log ++ [y] := by
      rw [keeps.log]
      simp [attempts.log, recorded?]
    rw [steps, List.getLast?_concat, Option.some.injEq] at at_last
    obtain ⟨c, step⟩ := recorded.lastStep attempts taken
    rw [states, (advanced_of_eq_ok advance).norms, ← at_last]
    exact ⟨_, _, _, _, step⟩

/-- The books of a run together with its last step. -/
def progress (F : NonlinearSystem α) (s : Solver α) (x : Tensor α) : Invariant F s x where
  during norm it t := Open F s norm it t ∧ StepsDown F norm it t
  after norm it t := Closed F s norm it t ∧ StepsDown F norm it t
  failed _ := True
  failed_early _ := trivial
  failed_at_start _ _ _ _ := trivial
  start started max begins :=
    ⟨(bookkeeping F s x).start started max begins, started.stepsDown⟩
  stop_at_start started max ends :=
    ⟨(bookkeeping F s x).stop_at_start started max ends, started.stepsDown⟩
  next same holds passed :=
    ⟨(holds.1.pass same passed).1 rfl, holds.2.pass holds.1.recorded passed⟩
  last same holds passed :=
    ⟨(holds.1.pass same passed).2 rfl, holds.2.pass holds.1.recorded passed⟩
  failed_pass _ _ _ := trivial
  failed_limit _ := trivial
  failed_hook _ := trivial

/-- If a run ends with a small step and counts as converged, then the last recorded step has led to
the state of the solution and is small. It does not increase the norm, and if it was found by a line
search, it decreases it. -/
theorem solve_progress {sol : Solution α} (bound : s.system = some F)
    (run : (solve x).run s = (.ok sol, t)) (converged : sol.converged = true)
    (reason : sol.reason = .tooSmallStepNorm) : ∃ out y c d,
    (stepLog sol.log).recorded.getLast? = some out ∧ IsSmall s.settings out ∧
      LastStep F (recordedStates sol.log) (sol.initialNorm :: sol.norms) out y sol.state c d := by
  obtain ⟨norm, it, v, answer, ⟨closed, down⟩, -, rfl, rfl⟩ :=
    ((progress F s x).solve bound).result run
  have books := closed.booked
  -- The reason tells the flags: nobody has asked for the end, and the norm is still too large.
  obtain ⟨exited, normPending, stepPending⟩ : it.exited = false ∧ it.normPending = true ∧
      it.stepPending = false := by
    have reason : it.reason = .tooSmallStepNorm := reason
    unfold Iteration.reason at reason
    split_ifs at reason with exited norm step
    exact ⟨by simpa using exited, by simpa using norm, by simpa using step⟩
  have not_stalled : it.stalled = false := by
    have converged : it.converged = true := converged
    simpa [Iteration.converged, normPending, stepPending] using converged
  obtain ⟨out, last, small⟩ : LastSmall s.settings v.log := by
    simpa [not_stalled] using books.stepPending.mp stepPending
  obtain ⟨y, z, c, d, step⟩ := down out last
  have state : (recordedStates v.log).getLast? = some it.state := by
    rcases closed.visited with ⟨-, -, state⟩ | ⟨asked, -, -⟩
    · exact state
    · exact absurd asked (books.not_asked exited)
  obtain rfl : z = it.state := by
    obtain ⟨init, split⟩ := step.states
    rw [← split, List.getLast?_append_of_ne_nil _ (by simp)] at state
    simpa using state
  refine ⟨out, y, c, d, ?_, small, ?_⟩
  · rw [stepLog_afterHook, last]
  · rw [recordedStates_afterHook]
    exact step

/-- An iteration for a given residual, with a tolerance for steps and at most one of them. -/
def withStepTolerance (system : NonlinearSystem Float) : Solver Float where
  settings := { singleStep with stepTolerance := some (.ok 0.5) }
  system := some system
  preconditioner := .identity

/-- The step towards the root of four is smaller than half the state that it leads to. -/
theorem solve_progress_towardsTwo : ∃ sol,
    ((solve ⟨[1], [3]⟩).run (withStepTolerance (squareMinus 4))).1 = .ok sol ∧
      sol.converged = true ∧ sol.reason = .tooSmallStepNorm ∧
      ∃ out y c d, LastStep (squareMinus 4) (recordedStates sol.log)
        (sol.initialNorm :: sol.norms) out y sol.state c d := by
  have computed : (match ((solve ⟨[1], [3]⟩).run (withStepTolerance (squareMinus 4))).1 with
      | .ok sol => decide (sol.converged = true ∧ sol.reason = .tooSmallStepNorm)
      | .error _ => false) = true := by
    decide +kernel
  rcases run : (solve ⟨[1], [3]⟩).run (withStepTolerance (squareMinus 4)) with ⟨e | sol, t⟩
  · simp [run] at computed
  · rw [run] at computed
    obtain ⟨converged, reason⟩ := of_decide_eq_true computed
    obtain ⟨out, y, c, d, -, -, step⟩ := solve_progress (s := withStepTolerance (squareMinus 4)) rfl
      run converged reason
    exact ⟨sol, rfl, converged, reason, out, y, c, d, step⟩

/-- The residual that is one everywhere. -/
def constantOne : NonlinearSystem Float := ⟨fun x => .ok (x.map fun _ => 1), .none⟩

/-- Here the step is zero. It leaves the state and the norm as they are, and counts as small. -/
theorem no_progress_constantOne : ∃ sol,
    ((solve ⟨[1], [1]⟩).run (withStepTolerance constantOne)).1 = .ok sol ∧
      sol.converged = true ∧ sol.reason = .tooSmallStepNorm ∧ sol.iterations = 1 ∧
      sol.norms = [sol.initialNorm] := by
  have computed : (match ((solve ⟨[1], [1]⟩).run (withStepTolerance constantOne)).1 with
      | .ok sol => decide (sol.converged = true ∧ sol.reason = .tooSmallStepNorm ∧
          sol.iterations = 1 ∧ sol.norms = [sol.initialNorm])
      | .error _ => false) = true := by
    decide +kernel
  cases run : ((solve ⟨[1], [1]⟩).run (withStepTolerance constantOne)).1 with
  | error e => simp [run] at computed
  | ok sol =>
    rw [run] at computed
    exact ⟨sol, rfl, of_decide_eq_true computed⟩

end Solver

end NewtonKrylov
