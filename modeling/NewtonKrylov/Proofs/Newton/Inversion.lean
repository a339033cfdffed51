import NewtonKrylov.Proofs.Krylov.Eigenvector
import NewtonKrylov.Proofs.Newton.Affine
import NewtonKrylov.Proofs.Newton.Log

/-!
# Preconditioners that invert the Jacobian

If the preconditioner of an affine system inverts its matrix, then the preconditioned Jacobian is
the identity, and it leaves the residual as it is. So the first Krylov step of a linear solve takes
away all of the linear residual, and the Newton step leads to the solution. In contrast to other
affine systems this needs no room for further Krylov steps, and no linear tolerance below that of
the iteration.
-/

namespace NewtonKrylov

open Vec

namespace Solver

variable {n : ℕ} {J P : Space n →ₗ[ℝ] Space n} {c x : Space n} {s : Solver ℝ} {tol : ℝ}

/-- Settings under which nothing happens beside the steps, and at least one step of each kind may be
taken. -/
structure Working (tol : ℝ) (settings : Settings ℝ) : Prop where
  quiet : ∃ limit, settings.Quiet tol limit ∧ 0 < limit.room
  positive : 0 < tol
  krylovSteps : settings.krylovSteps = none ∨
    ∃ k, settings.krylovSteps = some (.ok (.count k)) ∧ 1 ≤ k
  restarts : ∃ m, settings.restarts = .ok m ∧ 1 ≤ m
  threshold : ∃ ν, settings.threshold = .ok ν
  krylovTolerance : ∃ τ, settings.krylovTolerance = .ofNumber τ ∧ 0 ≤ τ
  difference : ∃ ε, settings.difference = .number (.ok ε) ∧ 0 < ε
  krylovDirectory : Usable settings.krylovDirectory

/-- The affine system `J x = c` with the guard that changes nothing, and a preconditioner that
becomes the inverse `P` of the matrix when an iteration starts. What earlier iterations have left is
arbitrary. -/
structure Inverted (n : ℕ) (J P : Space n →ₗ[ℝ] Space n) (c : Space n) (s : Solver ℝ) : Prop where
  system : ∃ F, s.system = some ⟨F, .none⟩ ∧ ActsAs F fun x => J x - c
  inverts : J ∘ₗ P = .id
  starts : ∀ x : Space n, ∃ p, s.preconditioner.startAt (Tensor.ofVec (ofSpace x)) = .ok p ∧
    ActsAs p.action P ∧ ∀ y : Space n, ∃ q, p.refreshAt (Tensor.ofVec (ofSpace y)) = .ok q

/-- A work space for dimension `n` with room for at least one step, if there are dimensions. -/
def HasRoom (n : ℕ) (workspace : Option (Workspace ℝ)) : Prop :=
  ∃ ws m, workspace = some ws ∧ ws.reset = .empty n m ∧ min 1 n ≤ m ∧ m ≤ n

/-! ### One step -/

/-- The inverse leads from everywhere to the solution. -/
lemma sub_inverse_residual (inverts : J ∘ₗ P = .id) (x c : Space n) :
    x - P (J x - c) = P c := by
  have inverts' : P ∘ₗ J = .id := (LinearMap.comp_eq_id_comm ℝ (Space n)).mp inverts
  have left : P (J x) = x := LinearMap.congr_fun inverts' x
  rw [map_sub, left, sub_sub_cancel]

section Step

variable (working : Working tol s.settings) (inverts : J ∘ₗ P = .id) {F : Operator ℝ}
  (system : s.system = some ⟨F, .none⟩) (acts : ActsAs F fun x => J x - c)
  (preconditioner : ActsAs s.preconditioner.action P) (room : HasRoom n s.workspace)
  (nonzero : J x - c ≠ 0)
include working inverts system acts preconditioner room nonzero

/-- The first Krylov step takes away the linear residual. -/
lemma krylovCycle_leads_inverted :
    Leads (krylovCycle (Tensor.ofVec (ofSpace x)) (Tensor.ofVec (ofSpace (J x - c)))
      (Tensor.ofVec (ofSpace (J x - c))) ‖J x - c‖) s
      (fun result _ => result.1 = Tensor.ofVec (ofSpace (P (J x - c))) ∧ result.2.norm = 0 ∧
        result.2.history = [0])
      fun _ => False := by
  obtain ⟨ws, m, given, empty, some_step, fits⟩ := room
  obtain ⟨ε, difference, ε_pos⟩ := working.difference
  obtain ⟨ν, threshold⟩ := working.threshold
  obtain ⟨τ, tolerance, -⟩ := working.krylovTolerance
  have capacity : ws.capacity = m := congrArg Workspace.capacity empty
  have dimension : 0 < n := dimension_pos_of_ne_zero nonzero
  have steps_allowed : (min (ws.capacity : ℤ) m).toNat ≠ 0 := by omega
  have jacobian := actsAs_jacobian system acts preconditioner difference ε_pos.ne' x
  -- With the inverse as preconditioner the operator of the cycle is the identity.
  rw [inverts] at jacobian
  obtain ⟨ws', out, run, -, steps, history, norm, update⟩ :=
    Cycle.run_eigenvector jacobian fits empty nonzero ν τ steps_allowed one_ne_zero
      (one_smul ℝ _).symm
  rw [inv_one, one_smul] at update
  have cycle : s.cycleIn ws (Tensor.ofVec (ofSpace x)) (Tensor.ofVec (ofSpace (J x - c)))
      (Tensor.ofVec (ofSpace (J x - c))) ‖J x - c‖ = (.ok out, ws') := by
    rw [cycleIn, threshold, tolerance, Tolerance.ofNumber, run]
  have applied := preconditioner (J x - c)
  rw [← update] at applied
  refine (krylovCycle_applies given cycle (by omega) applied).mono ?_ fun _ => id
  rintro _ _ ⟨rfl, -⟩
  exact ⟨rfl, norm, history⟩

/-- The step leads to the solution, and is made up of one Krylov step. -/
lemma newtonStep_leads_inverted (index : ℤ) :
    Leads (newtonStep (Tensor.ofVec (ofSpace x)) (Tensor.ofVec (ofSpace (J x - c))) ‖J x - c‖
      index) s
      (fun out _ => out.state = some (Tensor.ofVec (ofSpace (P c))) ∧ out.norm = 0 ∧
        out.linearSteps = 1)
      fun _ => False := by
  obtain ⟨τ, tolerance, nonneg⟩ := working.krylovTolerance
  have cycle : Leads (krylovCycle (Tensor.ofVec (ofSpace x)) (Tensor.ofVec (ofSpace (J x - c)))
      (Tensor.ofVec (ofSpace (J x - c))) ‖J x - c‖) s
      (fun result _ => ∃ d : Space n, result.1 = Tensor.ofVec (ofSpace d) ∧ result.2.norm ≤ τ ∧
        d = P (J x - c) ∧ result.2.history = [0]) fun _ => False := by
    refine (krylovCycle_leads_inverted working inverts system acts preconditioner room
      nonzero).mono ?_ fun _ => id
    rintro ⟨_, out⟩ _ ⟨rfl, norm, history⟩
    exact ⟨_, rfl, norm.trans_le nonneg, rfl, history⟩
  have linear := linearSolve_leads_of_cycle
    (R := fun d out => d = P (J x - c) ∧ out.history = [0]) cycle tolerance working.restarts
    working.krylovDirectory (by simp [Tensor.ofVec]) index
  have solution := sub_inverse_residual inverts x c
  have solves : J (P c) - c = 0 := sub_eq_zero.mpr (LinearMap.congr_fun inverts c)
  refine (newtonStep_leads_ofSpace system acts x
    (R := fun d norms => d = P (J x - c) ∧ norms = [0]) (linear.mono ?_ fun _ => id) ?_).mono ?_
    fun _ => id
  · rintro _ _ ⟨d, out, rfl, same, history⟩
    exact ⟨d, rfl, same, history⟩
  · rintro _ _ ⟨rfl, -⟩
    rw [solution, solves, norm_zero]
    exact norm_nonneg _
  · rintro _ _ ⟨_, _, size, ⟨rfl, rfl⟩, rfl⟩
    rw [solution]
    exact ⟨rfl, by rw [solves, norm_zero], rfl⟩

end Step

/-! ### A whole run -/

/-- An affine system whose preconditioner inverts its matrix is solved at once: a run converges
after at most one step, and that one takes one Krylov step and leads to the solution. -/
theorem Inverted.solve_leads (inverted : s.Inverted n J P c) (working : Working tol s.settings)
    (x : Space n) :
    Leads (solve (Tensor.ofVec (ofSpace x))) s
      (fun sol _ => sol.reason = .normConverged ∧ sol.converged = true ∧ sol.iterations ≤ 1 ∧
        (sol.iterations = 0 ↔ ‖J x - c‖ ≤ tol) ∧
        (∃ outs, stepLog sol.log = ⟨outs, none⟩ ∧
          outs.map (·.linearSteps) = List.replicate sol.iterations 1) ∧
        sol.state = Tensor.ofVec (ofSpace (if sol.iterations = 0 then x else P c)))
      fun _ => False := by
  obtain ⟨F, system, acts⟩ := inverted.system
  obtain ⟨limit, quiet, some_step⟩ := working.quiet
  obtain ⟨p, built, acts_p, refreshes⟩ := inverted.starts x
  refine (quiet.solve_leads_ofSpace system acts x some_step (W := HasRoom n)
    (Q := fun out z => z = P c ∧ out.norm = 0 ∧ out.linearSteps = 1)
    (allocate_leads_of_le working.krylovSteps) built ?_ ?_).mono ?_ fun _ => id
  · intro missed t settings system' preconditioner room
    have nonzero : J x - c ≠ 0 := norm_pos_iff.mp (working.positive.trans missed)
    refine (newtonStep_leads_inverted (settings ▸ working) inverted.inverts
      (system'.trans system) acts (preconditioner ▸ acts_p) room nonzero 1).mono ?_ fun _ => id
    rintro out _ ⟨state, norm, steps⟩
    exact ⟨P c, state, rfl, norm, steps⟩
  · rintro out _ ⟨rfl, norm, -⟩
    exact ⟨refreshes _, norm ▸ working.positive⟩
  · rintro sol _ (⟨small, rfl⟩ | ⟨missed, out, _, ⟨rfl, norm, steps⟩, rfl⟩)
    · obtain ⟨converged, reason⟩ := Solution.converged_atStart small
      exact ⟨reason, converged, zero_le_one, ⟨fun _ => small, fun _ => rfl⟩, ⟨[], rfl, rfl⟩, rfl⟩
    · obtain ⟨converged, reason⟩ := Solution.converged_afterStep (norm ▸ working.positive)
      refine ⟨reason, converged, le_rfl, ⟨nofun, fun small => absurd missed (not_lt.mpr small)⟩,
        ⟨[out], rfl, ?_⟩, rfl⟩
      rw [List.map_singleton, steps]
      rfl

end Solver

end NewtonKrylov
