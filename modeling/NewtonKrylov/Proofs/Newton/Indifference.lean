import Mathlib.Data.Int.Notation
import NewtonKrylov.Newton.Solve
import NewtonKrylov.Proofs.Effects

/-!
# The preconditioner from before a run

A run builds its preconditioner before it looks for a step, so the action that it finds in force
makes no difference to it. The calls in front of this are `Indifferent`: they neither read the
action nor change it. Behind the call that builds the action two solvers that differed in it are
one.
-/

namespace NewtonKrylov

namespace Solver

variable {α β γ : Type}

/-- The solver with another action of its preconditioner. -/
def withAction (s : Solver α) (action : Operator α) : Solver α :=
  { s with preconditioner := { s.preconditioner with action := action } }

/-- Two computations have one result from solvers that differ in the action of the
preconditioner. -/
def SameResult (m m' : SolverM α β) (s : Solver α) (action : Operator α) : Prop :=
  (m'.run (s.withAction action)).1 = (m.run s).1

/-- A computation that does not use the preconditioner in force, and leaves it alone. -/
def Indifferent (m : SolverM α β) : Prop := ∀ s action, Agree m m (withAction · action) s

section Rules

variable {m m' : SolverM α γ} {k k' : γ → SolverM α β} {r : Except Error γ} {s : Solver α}
  {action : Operator α}

lemma SameResult.bind (first : Agree m m' (withAction · action) s)
    (rest : ∀ c t, SameResult (k c) (k' c) t action) :
    SameResult (m >>= k) (m' >>= k') s action := by
  unfold Agree at first
  unfold SameResult
  rw [ExceptT.run_bind, ExceptT.run_bind, stateM_bind, stateM_bind, first]
  match m.run s with
  | (.ok c, t) => exact rest c t
  | (.error e, t) => rfl

lemma SameResult.lift_bind (rest : ∀ c, SameResult (k c) (k' c) s action) :
    SameResult (liftM r >>= k) (liftM r >>= k') s action := by
  cases r with
  | ok c => exact rest c
  | error e => rfl

end Rules

namespace Indifferent

lemma lift (r : Except Error β) : Indifferent (liftM r : SolverM α β) := fun _ _ => .lift r

lemma record (e : Event α) : Indifferent (record e) := fun _ _ => .modify rfl

lemma callHook (point : HookPoint) (x : Tensor α) : Indifferent (callHook point x) := by
  intro s action
  unfold Solver.callHook
  refine .get_bind ?_
  dsimp only [withAction]
  cases s.settings.hooks point with
  | none => rfl
  | some hook => exact .lift_bind fun hook _ => rfl

lemma boundSystem : Indifferent (boundSystem : SolverM α (NonlinearSystem α)) := by
  intro s action
  unfold Solver.boundSystem
  rcases s with ⟨settings, _ | F, preconditioner⟩ <;> rfl

lemma allocate (n : ℤ) : Indifferent (allocate n : SolverM α Bool) := by
  intro s action
  unfold Solver.allocate
  refine .get_bind (.lift_bind fun limit _ => ?_)
  dsimp only [withAction]
  split_ifs
  · rfl
  · exact .lift_bind fun size _ => .lift_bind fun ws _ => rfl

lemma evaluate [CheckedScalar α] (x : Tensor α) : Indifferent (evaluate x) := fun s action =>
  (boundSystem s action).bind fun F t _ =>
    (record (.evaluated x) t action).bind fun _ u _ => lift (F.residual x) u action

end Indifferent

/-! ### A whole run -/

/-- The preconditioner that a run finds in force makes no difference to its result. -/
theorem solve_withAction [CheckedScalar α] (x : Tensor α) (s : Solver α) (action : Operator α) :
    SameResult (solve x) (solve x) s action := by
  unfold solve
  refine .bind (.modify rfl) fun _ s => ?_
  change SameResult (if s.system.isNone = true then _ else _)
    (if s.system.isNone = true then _ else _) s action
  split_ifs
  · rfl
  refine .bind (Indifferent.lift _ s action) fun v s => ?_
  refine .bind (Indifferent.allocate _ s action) fun _ s => ?_
  extract_lets x₀
  refine .bind (Indifferent.callHook _ _ s action) fun pre s => ?_
  refine .bind (Indifferent.boundSystem s action) fun F s => ?_
  refine .bind (Indifferent.record _ s action) fun _ s => ?_
  refine .bind (Indifferent.lift _ s action) fun y s => ?_
  refine .bind (Indifferent.evaluate y s action) fun r s => ?_
  extract_lets norm finish
  refine .bind (Indifferent.record _ s action) fun _ s => ?_
  -- Here the preconditioner is built, and both solvers become one.
  change SameResult (liftM (s.preconditioner.startAt y) >>= _)
    (liftM (s.preconditioner.startAt y) >>= _) s action
  exact .lift_bind fun p => rfl

end Solver

end NewtonKrylov
