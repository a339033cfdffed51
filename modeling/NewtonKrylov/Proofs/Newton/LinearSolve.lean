import NewtonKrylov.Proofs.Krylov.Breakdown
import NewtonKrylov.Proofs.Newton.Step

/-!
# The linear solve of a Newton step

In exact arithmetic, and with room for as many steps as there are dimensions, the first cycle of a
linear solve reaches the tolerance if the Jacobian and the preconditioner are invertible linear
maps. So the solve ends there, and the step that it hands on leaves a linear residual whose norm is
smaller than the tolerance or zero.
-/

namespace NewtonKrylov

open Vec NewtonKrylov.Cycle

namespace Solver

variable {n : ℕ} {s : Solver ℝ} {M P : Space n →ₗ[ℝ] Space n} {τ : ℝ} {x r : Tensor ℝ}
  {r₀ : Space n}

/-- The directory of a report can be used, if there is one. -/
def Usable (directory : Option (Setting String)) : Prop :=
  ∀ d, directory = some d → ∃ path, d = .ok path

/-- Settings with which linear solves go through, up to the tolerance `τ`. -/
structure SolvesUpTo (τ : ℝ) (settings : Settings ℝ) : Prop where
  restarts : ∃ m, settings.restarts = .ok m ∧ 1 ≤ m
  threshold : ∃ ν, settings.threshold = .ok ν ∧ ν < 1
  tolerance : settings.krylovTolerance = .ofNumber τ
  directory : Usable settings.krylovDirectory

/-- The Jacobian at `x` and the preconditioner are invertible linear maps, and the work space has
room for as many steps as there are dimensions. -/
structure Invertible (n : ℕ) (s : Solver ℝ) (x r : Tensor ℝ) (M P : Space n →ₗ[ℝ] Space n) :
    Prop where
  jacobian : ActsAs (s.jacobian x r) (M ∘ₗ P)
  preconditioner : ActsAs s.preconditioner.action P
  bijective : Function.Bijective (M ∘ₗ P)
  workspace : ∃ ws, s.workspace = some ws ∧ ws.reset = .empty n n

/-- What a step leaves of the linear residual `r₀` has a norm below the tolerance, or is zero. -/
def Solves (M : Space n →ₗ[ℝ] Space n) (τ : ℝ) (r₀ : Space n) (dx : Tensor ℝ) : Prop :=
  ∃ d : Space n, dx = Tensor.ofVec (ofSpace d) ∧ (‖r₀ - M d‖ < τ ∨ M d = r₀)

/-! ### The work space -/

section Allocation

variable {α : Type} {t : Solver α} {k : ℤ}

lemma count_atMost : CountLimit.atMost n (.count k) = .count (min k n) := by
  unfold CountLimit.atMost
  simp only [CountLimit.below, decide_eq_true_eq]
  split_ifs with below
  · rw [min_eq_right below.le]
  · rw [min_eq_left (not_lt.mp below)]

lemma equals_atMost {c : ℕ} (same : (CountLimit.atMost n (.count k)).equals c = true) :
    (c : ℤ) = min k n := by
  rw [count_atMost] at same
  exact (of_decide_eq_true same).symm

/-- There is a work space for as many steps as the setting says, and no more than there are
dimensions, whether it was kept or not. -/
lemma allocate_leads_of_count
    (steps : t.settings.krylovSteps.getD (.ok (.count n)) = .ok (.count k)) (nonneg : 0 ≤ k) :
    Leads (allocate n) t
      (fun _ u => ∃ ws, u.workspace = some ws ∧ ws.reset = .empty n (min k n).toNat)
      fun _ => False := by
  unfold allocate
  rw [leads_bind, leads_get]
  refine .ok_bind steps ?_
  dsimp only
  split_ifs with kept
  · obtain ⟨ws, given, same⟩ := (Option.any_eq_true _ _).mp kept
    obtain ⟨dimension, capacity⟩ := Bool.and_eq_true_iff.mp same
    have dimension : (ws.dimension : ℤ) = n := of_decide_eq_true dimension
    refine ⟨ws, given, ?_⟩
    rw [Workspace.reset, ← equals_atMost capacity, Int.toNat_natCast, Int.natCast_inj.mp dimension]
  · rw [count_atMost]
    have created : Workspace.create n (min k n) = .ok (.empty (α := α) n (min k n).toNat) := by
      rw [Workspace.create_eq_ok_iff, min_assoc, min_self]
      exact ⟨by omega, by omega, rfl⟩
    exact .ok_bind rfl (.ok_bind created ⟨_, rfl, rfl⟩)

/-- If the setting allows `l` steps, then the work space has room for `l`, or as many as there are
dimensions. -/
lemma allocate_leads_of_le {l : ℕ} (steps : t.settings.krylovSteps = none ∨
    ∃ k, t.settings.krylovSteps = some (.ok (.count k)) ∧ l ≤ k) :
    Leads (allocate n) t
      (fun _ u => ∃ ws m, u.workspace = some ws ∧ ws.reset = .empty n m ∧ min l n ≤ m ∧ m ≤ n)
      fun _ => False := by
  obtain ⟨k, given, room⟩ : ∃ k : ℤ,
      t.settings.krylovSteps.getD (.ok (.count n)) = .ok (.count k) ∧ min l n ≤ k := by
    rcases steps with none | ⟨k, given, room⟩
    · exact ⟨n, by rw [none, Option.getD_none], by omega⟩
    · exact ⟨k, by rw [given, Option.getD_some], by omega⟩
  refine (allocate_leads_of_count given (by omega)).mono ?_ fun _ => id
  rintro _ u ⟨ws, present, reset⟩
  exact ⟨ws, _, present, reset, by omega, by omega⟩

end Allocation

/-! ### The first of the cycles is the last -/

section FirstCycle

variable {norm : ℝ} {R : Space n → Outcome ℝ → Prop}
  (cycle : Leads (krylovCycle x r r norm) s
    (fun result _ => ∃ d : Space n, result.1 = Tensor.ofVec (ofSpace d) ∧ result.2.norm ≤ τ ∧
      R d result.2) fun _ => False)
  (tolerance : s.settings.krylovTolerance = .ofNumber τ)
include cycle tolerance

/-- If the first cycle reaches the tolerance, its update is the step and its history that of the
linear solve. -/
lemma krylovCycles_leads_of_cycle {m : ℕ} (positive : 1 ≤ m) :
    Leads (krylovCycles x r m (Tensor.ofVec (ofSpace (0 : Space n))) r norm) s
      (fun result _ => ∃ d : Space n, ∃ out, result = (Tensor.ofVec (ofSpace d), out.history) ∧
        R d out) fun _ => False := by
  obtain ⟨k, rfl⟩ := Nat.exists_eq_succ_of_ne_zero (Nat.one_le_iff_ne_zero.mp positive)
  unfold krylovCycles
  refine Leads.bind (cycle.and (krylovCycle_stays x r _ _ s)) ?_
  rintro ⟨step, out⟩ t ⟨⟨d, rfl, le, holds⟩, kept⟩
  refine .ok_bind (Tensor.update_add_ofSpace 0 d) ?_
  rw [leads_bind, leads_get, kept.settings, tolerance]
  refine .ok_bind (Tolerance.bound_ofNumber _ _) ?_
  rw [if_pos (Or.inl le)]
  exact ⟨d, out, by rw [zero_add], holds⟩

lemma linearSolve_leads_of_cycle (restarts : ∃ m, s.settings.restarts = .ok m ∧ 1 ≤ m)
    (directory : Usable s.settings.krylovDirectory) (shape : x.shape = [n]) (index : ℤ) :
    Leads (linearSolve x r norm index) s
      (fun result _ => ∃ d : Space n, ∃ out, result = (Tensor.ofVec (ofSpace d), out.history) ∧
        R d out) fun _ => False := by
  obtain ⟨m, restarts, positive⟩ := restarts
  unfold linearSolve
  rw [leads_bind, leads_get]
  refine .ok_bind restarts ?_
  rw [shape, Tensor.zeros_vector, ← ofSpace_zero]
  refine Leads.bind (krylovCycles_leads_of_cycle cycle tolerance positive) ?_
  rintro ⟨dx, norms⟩ t solves
  cases given : s.settings.krylovDirectory with
  | none => exact solves
  | some d =>
    obtain ⟨path, usable⟩ := directory d given
    exact .ok_bind usable solves

end FirstCycle

/-! ### Invertible systems -/

lemma krylovCycle_leads (settings : SolvesUpTo τ s.settings) (invertible : Invertible n s x r M P)
    (nonzero : r₀ ≠ 0) :
    Leads (krylovCycle x r (Tensor.ofVec (ofSpace r₀)) ‖r₀‖) s
      (fun result _ => ∃ d : Space n, result.1 = Tensor.ofVec (ofSpace d) ∧
        result.2.norm = ‖r₀ - M d‖ ∧ (result.2.norm < τ ∨ result.2.norm = 0))
      fun _ => False := by
  obtain ⟨ws, given, empty⟩ := invertible.workspace
  obtain ⟨ν, threshold, small⟩ := settings.threshold
  have capacity : ws.capacity = n := congrArg Workspace.capacity empty
  have dimension : 0 < n := dimension_pos_of_ne_zero nonzero
  have room : (min (ws.capacity : ℤ) n).toNat ≠ 0 := by omega
  obtain ⟨ws', p, out, run, -, E, S⟩ := run_adapted invertible.jacobian
    invertible.bijective.injective small τ le_rfl empty nonzero room
  rw [capacity, min_self, Int.toNat_natCast] at E
  have steps : out.steps ≠ 0 := by
    rw [E.steps]
    exact E.positive.ne'
  have length : out.update.length = n := by rw [E.update, length_ofSpace]
  have cycle : s.cycleIn ws x r (Tensor.ofVec (ofSpace r₀)) ‖r₀‖ = (.ok out, ws') := by
    rw [cycleIn, threshold, settings.tolerance, Tolerance.ofNumber, run]
  refine (krylovCycle_applies given cycle steps (invertible.preconditioner.apply length)).mono ?_
    fun _ => id
  rintro _ _ ⟨rfl, -⟩
  refine ⟨P (toSpace n out.update), rfl, ?_, E.norm_lt_or_eq_zero⟩
  -- The cycle knows the norm of what it carries along. As the operator is invertible, this is the
  -- residual of the step.
  have left := E.sub_map_update_of_adapted S invertible.bijective.injective
  rw [E.norm, ← left]
  rfl

theorem linearSolve_leads (settings : SolvesUpTo τ s.settings)
    (invertible : Invertible n s x (Tensor.ofVec (ofSpace r₀)) M P) (shape : x.shape = [n])
    (nonneg : 0 ≤ τ) (nonzero : r₀ ≠ 0) (index : ℤ) :
    Leads (linearSolve x (Tensor.ofVec (ofSpace r₀)) ‖r₀‖ index) s
      (fun result _ => Solves M τ r₀ result.1) fun _ => False := by
  have cycle : Leads (krylovCycle x (Tensor.ofVec (ofSpace r₀)) (Tensor.ofVec (ofSpace r₀)) ‖r₀‖) s
      (fun result _ => ∃ d : Space n, result.1 = Tensor.ofVec (ofSpace d) ∧ result.2.norm ≤ τ ∧
        (‖r₀ - M d‖ < τ ∨ M d = r₀)) fun _ => False := by
    refine (krylovCycle_leads settings invertible nonzero).mono ?_ fun _ => id
    rintro ⟨step, out⟩ _ ⟨d, same, norm, reached⟩
    refine ⟨d, same, ?_, ?_⟩
    · rcases reached with below | zero
      · exact below.le
      · rwa [zero]
    · rw [norm, norm_eq_zero, sub_eq_zero] at reached
      exact reached.imp_right Eq.symm
  refine (linearSolve_leads_of_cycle (R := fun d _ => ‖r₀ - M d‖ < τ ∨ M d = r₀) cycle
    settings.tolerance settings.restarts settings.directory shape index).mono ?_ fun _ => id
  rintro _ _ ⟨d, out, rfl, left⟩
  exact ⟨d, rfl, left⟩

end Solver

end NewtonKrylov
