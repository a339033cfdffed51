import NewtonKrylov.Proofs.Newton.Inversion
import NewtonKrylov.TimeMarch

/-!
# Implicit Euler steps for decoupled linear problems

For `dq/dt = lam q + g`, entry by entry, the residual of an implicit Euler step of size `dt` is
affine, and its Jacobian has the entries `1 - dt lam` on its diagonal and nothing beside it. This is
the diagonal that the stepper offers to a Jacobi preconditioner, so the preconditioner inverts the
Jacobian and one Newton step leads to `(last + dt g) / (1 - dt lam)`.

The residual and its diagonal are those of the last update, whatever the stepper was told before.
-/

namespace NewtonKrylov

open Vec

/-! ### Updates -/

section Updates

variable {α : Type}

lemma Discretization.advance_advance (d : Discretization α) (t t' : α) :
    (d.advance t).advance t' = d.advance t' := by
  cases timed : d.timed <;> simp [advance, timed]

namespace TimeProblem

variable {p : TimeProblem α} {d : Discretization α}

/-- Accept states one after the other, each with its time and the size of the next step. -/
def updates (us : List (Tensor α × α × α)) : TimeProblemM α Unit :=
  forM us fun (q, t, dt) => update q t dt

/-- The problem with the discretization `d` after an update. -/
def updated (p : TimeProblem α) (d : Discretization α) (q : Tensor α) (t dt : α) : TimeProblem α :=
  { p with stepper := ⟨some (d.advance t), some q, dt⟩ }

lemma update_run (bound : p.stepper.spatial = some d) (q : Tensor α) (t dt : α) :
    (update q t dt).run p = (.ok (), p.updated d q t dt) := by
  have step : (Stepper.update q t dt).run p.stepper
      = (.ok (), ⟨some (d.advance t), some q, dt⟩) := by
    unfold Stepper.update Stepper.boundSpatial
    rw [run_modify_bind, run_get_bind, bound]
    rfl
  unfold update
  rw [run_get_bind, step]
  rfl

/-- An update wipes out the earlier ones. -/
theorem updates_update_run (bound : p.stepper.spatial = some d) (us : List (Tensor α × α × α))
    (q : Tensor α) (t dt : α) :
    (updates us >>= fun _ => update q t dt).run p = (.ok (), p.updated d q t dt) := by
  induction us generalizing p d with
  | nil => exact update_run bound q t dt
  | cons u us ih =>
    obtain ⟨q₁, t₁, dt₁⟩ := u
    have next : (p.updated d q₁ t₁ dt₁).stepper.spatial = some (d.advance t₁) := rfl
    have same : (p.updated d q₁ t₁ dt₁).updated (d.advance t₁) q t dt = p.updated d q t dt := by
      simp [updated, Discretization.advance_advance]
    rw [updates, List.forM_cons, bind_assoc, run_bind_of_ok (update_run bound q₁ t₁ dt₁), ← same]
    exact ih next

/-- A solve comes to what the solver for the present step comes to. -/
lemma solve_run_fst [CheckedScalar α] (q : Tensor α) :
    ((solve q).run p).1 = ((Solver.solve q).run p.currentSolver).1 := by
  unfold solve
  rw [run_get_bind]
  generalize (Solver.solve q).run p.currentSolver = result
  obtain ⟨_ | _, _⟩ := result <;> rfl

end TimeProblem

end Updates

/-! ### Decoupled linear problems -/

variable {n : ℕ} {lam g last : Space n} {t dt tol : ℝ}

/-- A discretization that gives the right hand side `lam q + g` at its time, and `lam` as the
diagonal of its Jacobian. -/
structure Discretization.IsDecoupled (lam g : Space n) (d : Discretization ℝ) : Prop where
  rhs : ActsAs (d.rhs d.time) fun q => scaling lam q + g
  blockDiagonal : ∃ D, d.blockDiagonal = some D ∧ ActsAs (D d.time) fun _ => lam

/-- The diagonal of the Jacobian of a step. -/
noncomputable def stepDiagonal (lam : Space n) (dt : ℝ) : Space n :=
  WithLp.toLp 2 fun i => 1 - dt * lam i

namespace Stepper

variable {s : Stepper ℝ} {d : Discretization ℝ} (spatial : s.spatial = some d)
  (decoupled : d.IsDecoupled lam g)
include spatial decoupled

/-- The residual of a step is affine, with the matrix that has `stepDiagonal` on its diagonal. -/
lemma actsAs_residual (accepted : s.last = some (Tensor.ofVec (ofSpace last))) :
    ActsAs s.residual fun q => scaling (stepDiagonal lam s.dt) q - (last + s.dt • g) := by
  intro q
  have arranged : q - (last + s.dt • (scaling lam q + g))
      = scaling (stepDiagonal lam s.dt) q - (last + s.dt • g) := by
    ext i
    change q i - (last i + s.dt * (lam i * q i + g i))
      = (1 - s.dt * lam i) * q i - (last i + s.dt * g i)
    ring
  have rhs : s.rhs (Tensor.ofVec (ofSpace q))
      = .ok (Tensor.ofVec (ofSpace (scaling lam q + g))) := by
    rw [Stepper.rhs, boundSpatial, spatial]
    exact decoupled.rhs q
  rw [residual, star, rhs, ok_bind, accepted, Tensor.smul_ofSpace]
  dsimp only
  rw [Tensor.combine_add_ofSpace, ok_bind, Tensor.combine_sub_ofSpace, arranged]

/-- The stepper knows the diagonal of that matrix. -/
lemma actsAs_diagonal : ActsAs s.diagonal fun _ => stepDiagonal lam s.dt := by
  intro q
  obtain ⟨D, given, acts⟩ := decoupled.blockDiagonal
  have blocks : s.blockDiagonal (Tensor.ofVec (ofSpace q)) = .ok (Tensor.ofVec (ofSpace lam)) := by
    rw [Stepper.blockDiagonal, boundSpatial, spatial, ok_bind, given]
    exact acts q
  rw [diagonal, blocks, ok_bind, Tensor.smul_ofSpace]
  exact ActsAs.entrywise (1 - ·) (s.dt • lam)

end Stepper

namespace TimeProblem

/-- A problem that is decoupled and linear at the time `t`, with the diagonal of the Jacobian as its
preconditioner and a solver that may take steps. -/
structure Decoupled (lam g : Space n) (t tol : ℝ) (p : TimeProblem ℝ) : Prop where
  spatial : ∃ d, p.stepper.spatial = some d ∧ (d.advance t).IsDecoupled lam g
  guard : p.guard = .none
  jacobi : p.jacobi = true
  working : Solver.Working tol p.solver.settings

variable {p : TimeProblem ℝ}

/-- The state that a step from `last` leads to. -/
noncomputable def nextState (lam g last : Space n) (dt : ℝ) : Space n :=
  WithLp.toLp 2 fun i => (last i + dt * g i) / (1 - dt * lam i)

/-- The preconditioner inverts the Jacobian of a step. -/
lemma inverted_currentSolver {d : Discretization ℝ} (decoupled : (d.advance t).IsDecoupled lam g)
    (guard : p.guard = .none) (jacobi : p.jacobi = true) (nonzero : ∀ i, 1 - dt * lam i ≠ 0)
    (last : Space n) :
    (p.updated d (Tensor.ofVec (ofSpace last)) t dt).currentSolver.Inverted n
      (scaling (stepDiagonal lam dt))
      (scaling (Preconditioner.reciprocals (stepDiagonal lam dt))) (last + dt • g) where
  system := by
    refine ⟨_, ?_, Stepper.actsAs_residual (s := ⟨some (d.advance t), _, dt⟩) rfl decoupled rfl⟩
    simp [currentSolver, updated, guard, Stepper.system]
  inverts := Preconditioner.scaling_comp_reciprocals nonzero
  starts := by
    intro x
    have acts := Stepper.actsAs_diagonal
      (s := ⟨some (d.advance t), some (Tensor.ofVec (ofSpace last)), dt⟩) rfl decoupled
    obtain ⟨op, acts_op, built⟩ :=
      Preconditioner.jacobi_startAt_eq_ok acts p.solver.preconditioner.action x
    refine ⟨_, ?_, acts_op, Preconditioner.jacobi_refreshAt_eq_ok acts op⟩
    simpa [currentSolver, updated, jacobi] using built

lemma scaling_reciprocals_eq_nextState (nonzero : ∀ i, 1 - dt * lam i ≠ 0) (last : Space n) :
    scaling (Preconditioner.reciprocals (stepDiagonal lam dt)) (last + dt • g)
      = nextState lam g last dt := by
  ext i
  change (if 1 - dt * lam i = 0 then 1 else 1 / (1 - dt * lam i)) * (last i + dt * g i)
    = (last i + dt * g i) / (1 - dt * lam i)
  rw [if_neg (nonzero i), one_div_mul_eq_div]

/-- An implicit Euler step for a decoupled linear problem converges from everywhere after at most
one iteration, which takes one Krylov step and leads to the state after the step. -/
theorem solve_decoupled (decoupled : p.Decoupled lam g t tol) (nonzero : ∀ i, 1 - dt * lam i ≠ 0)
    (earlier : List (Tensor ℝ × ℝ × ℝ)) (last x : Space n) :
    ∃ sol, ((do
        updates earlier
        update (Tensor.ofVec (ofSpace last)) t dt
        solve (Tensor.ofVec (ofSpace x)) : TimeProblemM ℝ (Solution ℝ)).run p).1 = .ok sol ∧
      sol.reason = .normConverged ∧ sol.converged = true ∧ sol.iterations ≤ 1 ∧
      (sol.iterations = 0 ↔ ‖scaling (stepDiagonal lam dt) x - (last + dt • g)‖ ≤ tol) ∧
      (∃ outs, stepLog sol.log = ⟨outs, none⟩ ∧
        outs.map (·.linearSteps) = List.replicate sol.iterations 1) ∧
      sol.state = Tensor.ofVec (ofSpace
        (if sol.iterations = 0 then x else nextState lam g last dt)) := by
  obtain ⟨d, spatial, discretization⟩ := decoupled.spatial
  have inverted := inverted_currentSolver discretization decoupled.guard decoupled.jacobi nonzero
    last
  obtain ⟨sol, t, run, solved⟩ := (inverted.solve_leads decoupled.working x).exists_ok
  refine ⟨sol, ?_, ?_⟩
  · rw [← bind_assoc, run_bind_of_ok (updates_update_run spatial earlier _ _ _), solve_run_fst, run]
  · rwa [scaling_reciprocals_eq_nextState nonzero] at solved

/-- A component that decays and is driven by time, and one that grows. -/
noncomputable def driven : TimeProblem ℝ where
  stepper :=
    { spatial := some
        { name := "Driven"
          rhs := fun t q => do
            let linear ← Tensor.combine (· * ·) (Tensor.ofVec (ofSpace !₂[-1, 1])) q
            Tensor.combine (· + ·) linear (Tensor.ofVec (ofSpace !₂[t, 0]))
          blockDiagonal := some fun _ _ => .ok (Tensor.ofVec (ofSpace !₂[-1, 1]))
          time := 0 }
      dt := 0 }
  guard := .none
  jacobi := true
  solver := { settings := Solver.turned.settings, system := none, preconditioner := .identity }

lemma decoupled_driven (t : ℝ) : driven.Decoupled !₂[-1, 1] !₂[t, 0] t 1 where
  spatial := by
    refine ⟨_, rfl, fun q => ?_, _, rfl, fun _ => rfl⟩
    change (Tensor.combine (· * ·) _ _ >>= fun linear => Tensor.combine (· + ·) linear _) = _
    rw [combine_mul_ofSpace, ok_bind]
    exact Tensor.combine_add_ofSpace _ _
  guard := rfl
  jacobi := rfl
  working :=
    { quiet := ⟨.count 1, ⟨fun _ => rfl, rfl, rfl, rfl, nofun⟩, zero_lt_one⟩
      positive := one_pos
      krylovSteps := .inl rfl
      restarts := ⟨1, rfl, le_rfl⟩
      threshold := ⟨1 / 2, rfl⟩
      krylovTolerance := ⟨0, rfl, le_rfl⟩
      difference := ⟨1 / 2, rfl, one_half_pos⟩
      krylovDirectory := nofun }

/-- A step of size one half at time one from `(1, 2)` leads to `(1, 4)`. -/
theorem solve_decoupled_driven : ∃ sol, ((do
      updates [(Tensor.ofScalar 7, 5, 3)]
      update (Tensor.ofVec (ofSpace !₂[1, 2])) 1 (1 / 2)
      solve (Tensor.ofVec (ofSpace (0 : Space 2))) : TimeProblemM ℝ (Solution ℝ)).run driven).1
        = .ok sol ∧
    sol.iterations = 1 ∧ sol.reason = .normConverged ∧
    sol.state = Tensor.ofVec (ofSpace !₂[1, 4]) := by
  have nonzero : ∀ i, (1 : ℝ) - 1 / 2 * (!₂[-1, 1] : Space 2) i ≠ 0 := by
    rw [Fin.forall_fin_two]
    norm_num
  obtain ⟨sol, run, reason, -, le_one, unmoved, -, state⟩ := solve_decoupled (decoupled_driven 1)
    nonzero [(Tensor.ofScalar 7, 5, 3)] !₂[1, 2] 0
  have moved : sol.iterations ≠ 0 := by
    rw [ne_eq, unmoved, map_zero, zero_sub, norm_neg, not_le, EuclideanSpace.norm_eq]
    refine Real.lt_sqrt_of_sq_lt ?_
    norm_num [Fin.sum_univ_two]
  have next : nextState !₂[-1, 1] !₂[1, 0] !₂[1, 2] (1 / 2) = !₂[(1 : ℝ), 4] := by
    ext i
    fin_cases i <;> norm_num [nextState]
  rw [if_neg moved, next] at state
  exact ⟨sol, run, by omega, reason, state⟩

end TimeProblem

end NewtonKrylov
