import NewtonKrylov.Proofs.Newton.Step

/-!
# Solvers that take the same cycles

A linear solve reads a few of the settings, the problem, the action of the preconditioner and what a
cycle finds in the work space. Solvers may differ in all the rest. `TakesSameCycles` says of a
relation between solvers that related ones take the same cycles and are related behind them, and it
follows that their linear solves come to the same.
-/

namespace NewtonKrylov

namespace Solver

variable {α : Type} {s t : Solver α}

lemma allocatedWorkspace_bind_run {β : Type} {ws : Workspace α} (given : s.workspace = some ws)
    (k : Workspace α → SolverM α β) : (allocatedWorkspace >>= k).run s = (k ws).run s := by
  have allocated : allocatedWorkspace.run s = (.ok ws, s) := by
    refine (run_bind_of_ok (b := s) (t := s) rfl).trans ?_
    rw [given]
    rfl
  exact run_bind_of_ok allocated

variable [Scalar α]

/-- Solvers related by `R` take the same cycles, sum them up alike, and remain related. -/
structure TakesSameCycles (R : Solver α → Solver α → Prop) : Prop where
  restarts {s t : Solver α} : R s t → t.settings.restarts = s.settings.restarts
  tolerance {s t : Solver α} : R s t → t.settings.krylovTolerance = s.settings.krylovTolerance
  directory {s t : Solver α} : R s t → t.settings.krylovDirectory = s.settings.krylovDirectory
  action {s t : Solver α} : R s t → t.preconditioner.action = s.preconditioner.action
  unallocated {s t : Solver α} : R s t → s.workspace = none → t.workspace = none
  cycle {s t : Solver α} {ws : Workspace α} (x r rₖ : Tensor α) (norm : α) :
    R s t → s.workspace = some ws → ∃ ws', t.workspace = some ws' ∧
      t.cycleIn ws' x r rₖ norm = s.cycleIn ws x r rₖ norm ∧
      ∀ used, (s.cycleIn ws x r rₖ norm).2 = used →
        R (s.withWorkspace used) (t.withWorkspace used)
  report {s t : Solver α} (f : ReportFiles α → ReportFiles α) :
    R s t → R { s with files := f s.files } { t with files := f t.files }

namespace TakesSameCycles

variable {R : Solver α → Solver α → Prop} (same : TakesSameCycles R) (x r : Tensor α)
include same

lemma krylovCycle (related : R s t) (rₖ : Tensor α) (norm : α) :
    Matches R (krylovCycle x r rₖ norm) (krylovCycle x r rₖ norm) s t := by
  cases given : s.workspace with
  | none =>
    unfold Solver.krylovCycle allocatedWorkspace
    rw [bind_assoc]
    refine .get_bind ?_
    rw [given, same.unallocated related given]
    exact .throw related _
  | some ws =>
    obtain ⟨ws', given', cycle, behind⟩ := same.cycle x r rₖ norm related given
    rw [krylovCycle_eq]
    unfold Matches
    rw [allocatedWorkspace_bind_run given, allocatedWorkspace_bind_run given']
    refine Matches.get_bind (R := R) ?_
    rw [cycle]
    rcases taken : s.cycleIn ws x r rₖ norm with ⟨result, used⟩
    have after := behind used (by rw [taken])
    refine Matches.set_bind (.lift_bind after fun out _ => ?_)
    change Matches R _ _ (s.withWorkspace used) (t.withWorkspace used)
    extract_lets u
    split_ifs
    · exact .pure after _
    · rw [same.action related]
      exact .lift_bind after fun step _ => .pure after _

lemma krylovCycles (n : ℕ) (dx rₖ : Tensor α) (norm : α) (related : R s t) :
    Matches R (krylovCycles x r n dx rₖ norm) (krylovCycles x r n dx rₖ norm) s t := by
  induction n generalizing dx rₖ norm s t with
  | zero => exact .pure related _
  | succ n ih =>
    refine (same.krylovCycle x r related rₖ norm).bind fun (step, out) s t _ related => ?_
    refine .lift_bind related fun dx _ => .get_bind ?_
    rw [same.tolerance related]
    refine .lift_bind related fun tolerance _ => ?_
    split_ifs
    · exact .pure related _
    · exact (ih dx out.residual out.norm related).bind fun _ _ _ _ related => .pure related _

/-- Related solvers cannot be told apart by a linear solve. -/
theorem linearSolve (norm : α) (index : ℤ) (related : R s t) :
    Matches R (linearSolve x r norm index) (linearSolve x r norm index) s t := by
  refine .get_bind ?_
  dsimp only
  rw [same.restarts related, same.directory related]
  refine .lift_bind related fun restarts _ => ?_
  refine (same.krylovCycles x r _ _ r norm related).bind fun (dx, norms) s' t' _ related => ?_
  cases s.settings.krylovDirectory with
  | none => exact .pure related _
  | some directory =>
    exact .lift_bind related fun path _ =>
      Matches.modify_bind (.pure (same.report _ related) _)

end TakesSameCycles

end Solver

end NewtonKrylov
