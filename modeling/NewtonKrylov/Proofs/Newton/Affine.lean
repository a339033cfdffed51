import NewtonKrylov.Proofs.Newton.OneStep
import NewtonKrylov.Proofs.Preconditioner

/-!
# Affine systems

In exact arithmetic the finite differences of an affine residual are its Jacobian, whatever their
scale is. So one Newton step solves an affine system up to the tolerance of the linear solve, if a
cycle has room for as many steps as there are dimensions.
-/

namespace NewtonKrylov

open Vec

namespace Solver

variable {n : ℕ} {J P : Space n →ₗ[ℝ] Space n} {c x : Space n} {s : Solver ℝ} {tol τ : ℝ}

/-- The differences of an affine residual do not depend on their scale. -/
lemma actsAs_jacobian {F : Operator ℝ} {guard : Guard ℝ} {ε : ℝ}
    (system : s.system = some ⟨F, guard⟩) (acts : ActsAs F fun x => J x - c)
    (preconditioner : ActsAs s.preconditioner.action P)
    (difference : s.settings.difference = .number (.ok ε)) (nonzero : ε ≠ 0) (x : Space n) :
    ActsAs (s.jacobian (Tensor.ofVec (ofSpace x)) (Tensor.ofVec (ofSpace (J x - c)))) (J ∘ₗ P) := by
  intro z
  have quotient : ε⁻¹ • (J (x + ε • P z) - c - (J x - c)) = (J ∘ₗ P) z := by
    rw [map_add, map_smul, sub_sub_sub_cancel_right, add_sub_cancel_left, smul_smul,
      inv_mul_cancel₀ nonzero, one_smul]
    rfl
  unfold jacobian
  simp only [preconditioner z, ok_bind, system, difference, DifferenceScale.times_number,
    Tensor.smul_ofSpace, Tensor.combine_add_ofSpace, acts (x + ε • P z),
    Tensor.combine_sub_ofSpace, DifferenceScale.quotient_number, Tensor.map_div_ofSpace, quotient]

/-! ### The problem -/

/-- Settings for which nothing can go wrong: no hooks, a number as the scale of the differences,
room for as many Krylov steps as there are dimensions, and a linear tolerance `τ` that is not above
the tolerance `tol`. -/
structure Plain (n : ℕ) (tol τ : ℝ) (settings : Settings ℝ) : Prop where
  unhooked : settings.Unhooked
  unset : settings.stepTolerance = none
  maxIterations : ∃ limit, settings.maxIterations = .ok limit ∧ 0 < limit.room
  krylovSteps : settings.krylovSteps = none ∨
    ∃ k, settings.krylovSteps = some (.ok (.count k)) ∧ n ≤ k
  difference : ∃ ε, settings.difference = .number (.ok ε) ∧ 0 < ε
  tolerance : settings.tolerance = .ok tol
  positive : 0 < tol
  solves : SolvesUpTo τ settings
  nonneg : 0 ≤ τ
  le : τ ≤ tol
  directory : Usable settings.newtonDirectory

/-- An invertible affine system `J x = c` of `n` equations with the guard that changes nothing. What
earlier iterations have left is arbitrary. -/
structure Affine (n : ℕ) (J : Space n →ₗ[ℝ] Space n) (c : Space n) (tol τ : ℝ) (s : Solver ℝ) :
    Prop where
  system : ∃ F, s.system = some ⟨F, .none⟩ ∧ ActsAs F fun x => J x - c
  invertible : Function.Bijective J
  preconditioner : s.preconditioner.IsDiagonal n
  settings : Plain n tol τ s.settings

/-- No entry of a log tells of a line search. -/
def NeverSearched (log : List (Event ℝ)) : Prop :=
  ∀ x out, .attempted x out ∈ log → out.trials = 0

lemma Plain.quiet {settings : Settings ℝ} (plain : Plain n tol τ settings) :
    ∃ limit, settings.Quiet tol limit ∧ 0 < limit.room := by
  obtain ⟨limit, maximum, positive⟩ := plain.maxIterations
  exact ⟨limit, ⟨plain.unhooked, plain.unset, maximum, plain.tolerance, plain.directory⟩, positive⟩

/-- The work space has room for as many steps as there are dimensions. -/
lemma allocate_leads (affine : s.Affine n J c tol τ) :
    Leads (allocate n) s (fun _ t => ∃ ws, t.workspace = some ws ∧ ws.reset = .empty n n)
      fun _ => False := by
  refine (allocate_leads_of_le affine.settings.krylovSteps).mono ?_ fun _ => id
  rintro _ t ⟨ws, m, present, reset, enough, le⟩
  obtain rfl : m = n := by omega
  exact ⟨ws, present, reset⟩

/-! ### One step -/

/-- An affine system whose preconditioner and work space are there. -/
structure Prepared (n : ℕ) (J : Space n →ₗ[ℝ] Space n) (c : Space n) (tol τ : ℝ)
    (P : Space n →ₗ[ℝ] Space n) (s : Solver ℝ) : Prop where
  affine : s.Affine n J c tol τ
  acts : ActsAs s.preconditioner.action P
  bijective : Function.Bijective P
  workspace : ∃ ws, s.workspace = some ws ∧ ws.reset = .empty n n

/-- A point at which the linear tolerance is met. -/
def Reaches (J : Space n →ₗ[ℝ] Space n) (c : Space n) (τ : ℝ) (y : Space n) : Prop :=
  ‖J y - c‖ < τ ∨ J y = c

lemma Reaches.norm_lt {y : Space n} (reaches : Reaches J c τ y) (positive : 0 < tol)
    (le : τ ≤ tol) : ‖J y - c‖ < tol := by
  rcases reaches with below | solution
  · exact below.trans_le le
  · rwa [solution, sub_self, norm_zero]

section Step

variable (prepared : s.Prepared n J c tol τ P)
include prepared

lemma Prepared.invertible (x : Space n) :
    Invertible n s (Tensor.ofVec (ofSpace x)) (Tensor.ofVec (ofSpace (J x - c))) J P := by
  obtain ⟨F, system, acts⟩ := prepared.affine.system
  obtain ⟨ε, difference, positive⟩ := prepared.affine.settings.difference
  exact ⟨actsAs_jacobian system acts prepared.acts difference positive.ne' x, prepared.acts,
    prepared.affine.invertible.comp prepared.bijective, prepared.workspace⟩

variable (missed : tol < ‖J x - c‖)
include missed

/-- The full step is taken, and meets the tolerance. -/
lemma newtonStep_leads_affine (index : ℤ) :
    Leads (newtonStep (Tensor.ofVec (ofSpace x)) (Tensor.ofVec (ofSpace (J x - c))) ‖J x - c‖
      index) s
      (fun out _ => ∃ y, out.state = some (Tensor.ofVec (ofSpace y)) ∧ Reaches J c τ y ∧
        out.norm = ‖J y - c‖ ∧ out.trials = 0)
      fun _ => False := by
  obtain ⟨F, system, acts⟩ := prepared.affine.system
  have settings := prepared.affine.settings
  have nonzero : J x - c ≠ 0 := norm_pos_iff.mp (settings.positive.trans missed)
  have solves := linearSolve_leads settings.solves (prepared.invertible x) (by simp [Tensor.ofVec])
    settings.nonneg nonzero index
  -- For an affine residual the linear residual of the step is the residual behind it.
  have reaches {d : Space n} (left : ‖J x - c - J d‖ < τ ∨ J d = J x - c) :
      Reaches J c τ (x - d) := by
    have residual : J (x - d) - c = J x - c - J d := by
      rw [map_sub]
      abel
    rw [Reaches, ← sub_eq_zero (a := J (x - d)), residual, sub_eq_zero]
    exact left.imp_right Eq.symm
  refine (newtonStep_leads_ofSpace system acts x
    (R := fun d _ => ‖J x - c - J d‖ < τ ∨ J d = J x - c) solves ?_).mono ?_ fun _ => id
  · intro d norms left
    exact ((reaches left).norm_lt settings.positive settings.le).le.trans missed.le
  · rintro _ _ ⟨d, norms, size, left, rfl⟩
    exact ⟨x - d, rfl, reaches left, rfl, rfl⟩

end Step

/-! ### A whole run -/

/-- Where an iteration from `x` ends, which may be `x` itself. -/
structure Ended (J : Space n →ₗ[ℝ] Space n) (c : Space n) (tol τ : ℝ) (x y : Space n)
    (it : Iteration ℝ) : Prop where
  state : it.state = Tensor.ofVec (ofSpace y)
  norm_le : ‖J y - c‖ ≤ tol
  normPending : it.normPending = false
  exited : it.exited = false
  iterations : it.iterations = if ‖J x - c‖ ≤ tol then 0 else 1
  reaches : it.iterations ≠ 0 → Reaches J c τ y

/-- A solution that tells where the iteration from `x` has ended, without a line search. -/
def Tells (J : Space n →ₗ[ℝ] Space n) (c : Space n) (tol τ : ℝ) (x : Space n) (sol : Solution ℝ) :
    Prop :=
  NeverSearched sol.log ∧ ∃ y it, Ended J c tol τ x y it ∧ sol.state = it.state ∧
    sol.iterations = it.iterations ∧ sol.converged = it.converged ∧ sol.reason = it.reason

lemma solve_leads_affine (affine : s.Affine n J c tol τ) (x : Space n) :
    Leads (solve (Tensor.ofVec (ofSpace x))) s (fun sol _ => Tells J c tol τ x sol)
      fun _ => False := by
  obtain ⟨F, system, acts⟩ := affine.system
  obtain ⟨limit, quiet, room⟩ := affine.settings.quiet
  obtain ⟨p, P, built, diagonal, acts_p, bijective⟩ := affine.preconditioner.startAt_eq_ok x
  have cleared : ({ s with log := [] } : Solver ℝ).Affine n J c tol τ :=
    ⟨⟨F, system, acts⟩, affine.invertible, affine.preconditioner, affine.settings⟩
  have below {y : Space n} (reaches : Reaches J c τ y) : ‖J y - c‖ < tol :=
    reaches.norm_lt affine.settings.positive affine.settings.le
  refine (quiet.solve_leads_ofSpace system acts x room
    (W := fun workspace => ∃ ws, workspace = some ws ∧ ws.reset = .empty n n)
    (Q := fun out y => Reaches J c τ y ∧ out.norm = ‖J y - c‖ ∧ out.trials = 0)
    (allocate_leads cleared) built ?_ ?_).mono ?_ fun _ => id
  · intro missed t settings system' preconditioner workspace
    have prepared : t.Prepared n J c tol τ P :=
      ⟨⟨⟨F, system'.trans system, acts⟩, affine.invertible, preconditioner ▸ diagonal,
        settings ▸ affine.settings⟩, preconditioner ▸ acts_p, bijective, workspace⟩
    exact newtonStep_leads_affine prepared missed 1
  · rintro out y ⟨reaches, norm, -⟩
    exact ⟨diagonal.refreshAt_eq_ok y, norm ▸ below reaches⟩
  · rintro sol _ (⟨small, rfl⟩ | ⟨missed, out, y, ⟨reaches, norm, full⟩, rfl⟩)
    · refine ⟨fun _ _ member => ?_, x, _, ?_, rfl, rfl, rfl, rfl⟩
      · exact absurd member Solution.attempted_notMem_log_atStart
      · exact ⟨rfl, small, by simp [Iteration.starting, small], rfl, (if_pos small).symm,
          absurd rfl⟩
    · refine ⟨fun _ _ member => ?_, y, _, ?_, rfl, rfl, rfl, rfl⟩
      · obtain ⟨-, rfl⟩ := Solution.attempted_mem_log_afterStep.mp member
        exact full
      · exact ⟨rfl, (below reaches).le, by simp [Iteration.stepped, norm, below reaches], rfl,
          (if_neg (not_le.mpr missed)).symm, fun _ => reaches⟩

/-- An invertible affine system is solved up to the tolerance without a line search. At most one
step is taken, and that only if the tolerance is not met at the start. If the tolerance of the
linear solve is zero, the step leads to the solution. -/
theorem solve_affine (affine : s.Affine n J c tol τ) (x₀ : Space n) :
    ∃ sol x, ((solve (Tensor.ofVec (ofSpace x₀))).run s).1 = .ok sol ∧
      sol.state = Tensor.ofVec (ofSpace x) ∧ ‖J x - c‖ ≤ tol ∧
      sol.reason = .normConverged ∧ sol.converged = true ∧
      sol.iterations ≤ 1 ∧ (sol.iterations = 0 ↔ ‖J x₀ - c‖ ≤ tol) ∧
      (∀ y out, .attempted y out ∈ sol.log → out.trials = 0) ∧
      (τ = 0 → sol.iterations ≠ 0 → J x = c) := by
  obtain ⟨sol, t, run, never, y, it, ended, state, iterations, converged, reason⟩ :=
    (solve_leads_affine affine x₀).exists_ok
  refine ⟨sol, y, by rw [run], by rw [state, ended.state], ended.norm_le, ?_, ?_, ?_, ?_, never, ?_⟩
  · simp [reason, Iteration.reason, ended.normPending, ended.exited]
  · simp [converged, Iteration.converged, ended.normPending]
  · rw [iterations, ended.iterations]
    split_ifs <;> omega
  · simp [iterations, ended.iterations]
  · intro zero moved
    rcases ended.reaches (iterations ▸ moved) with below | solution
    · rw [zero] at below
      exact absurd below (not_lt.mpr (by positivity))
    · exact solution

/-- The point that a quarter turn takes to `(2, 0)`, looked for with a Jacobi preconditioner whose
diagonal has an entry zero. -/
noncomputable def turned : Solver ℝ where
  settings :=
    { maxIterations := .ok (.count 1)
      tolerance := .ok 1
      stepTolerance := none
      difference := .number (.ok (1 / 2))
      restarts := .ok 1
      krylovSteps := none
      krylovTolerance := .ofNumber 0
      threshold := .ok (1 / 2)
      searchSteps := .ok (.count 10)
      searchTolerance := .ofNumber 0
      hooks := fun _ => none }
  system := some ⟨fun x => do
    Tensor.combine (· - ·) (← Cycle.quarterTurn.product x) (Tensor.ofVec (ofSpace !₂[2, 0])), .none⟩
  preconditioner := .jacobi fun _ => .ok (Tensor.ofVec (ofSpace !₂[0, 2]))

lemma affine_turned :
    turned.Affine 2 (Matrix.toEuclideanLin (Cycle.quarterTurn.toMatrix 2)) !₂[2, 0] 1 0 where
  system := by
    refine ⟨_, rfl, ActsAs.comp (F := fun x => x - !₂[2, 0]) (fun x => ?_)
      Cycle.isSquare_quarterTurn.actsAs_product⟩
    exact Tensor.combine_sub_ofSpace x _
  invertible := Cycle.quarterTurn_bijective
  preconditioner := .inr ⟨_, _, fun _ => !₂[0, 2], fun _ => rfl, rfl⟩
  settings :=
    { unhooked := fun _ => rfl
      unset := rfl
      maxIterations := ⟨.count 1, rfl, zero_lt_one⟩
      krylovSteps := .inl rfl
      difference := ⟨1 / 2, rfl, by norm_num⟩
      tolerance := rfl
      positive := one_pos
      solves := ⟨⟨1, rfl, le_rfl⟩, ⟨1 / 2, rfl, by norm_num⟩, rfl, nofun⟩
      nonneg := le_rfl
      le := zero_le_one
      directory := nofun }

/-- From zero, where the residual norm is two, one step leads to the solution. -/
theorem solve_affine_turned : ∃ sol x,
    ((solve (Tensor.ofVec (ofSpace (0 : Space 2)))).run turned).1 = .ok sol ∧
      sol.state = Tensor.ofVec (ofSpace x) ∧ sol.iterations = 1 ∧ sol.reason = .normConverged ∧
      Matrix.toEuclideanLin (Cycle.quarterTurn.toMatrix 2) x = !₂[2, 0] := by
  obtain ⟨sol, x, run, state, -, reason, -, le_one, unmoved, -, exact_solution⟩ :=
    solve_affine affine_turned 0
  have moved : sol.iterations ≠ 0 := by
    rw [ne_eq, unmoved, map_zero, zero_sub, norm_neg]
    simp [EuclideanSpace.norm_eq]
  exact ⟨sol, x, run, state, by omega, reason, exact_solution rfl moved⟩

end Solver

end NewtonKrylov
